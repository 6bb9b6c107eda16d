import Daruma.Library.Transition
import Mathlib.Init

/-! Computations that return a value or an error, with the rules by which a result is traced
back to the steps that led to it; then computations over a state, where what was written before
a failure stays written, unlike in a transaction. -/
namespace Outcome

variable {ε α β : Type}

variable {f : α → Except ε β}

theorem bind_eq_ok {x : Except ε α} {b : β} : (x >>= f) = .ok b ↔ ∃ a, x = .ok a ∧ f a = .ok b := by
  constructor
  · intro h
    cases x with
    | error e => cases h
    | ok a => exact ⟨a, rfl, h⟩
  · rintro ⟨a, rfl, h⟩
    exact h

/-- How a sequence fails: its first part does, or its second part on the value of
the first. -/
theorem bind_eq_error {x : Except ε α} {e : ε} :
    (x >>= f) = .error e ↔ x = .error e ∨ ∃ a, x = .ok a ∧ f a = .error e := by
  cases x with
  | error e' =>
    change Except.error e' = .error e ↔ _
    simp
  | ok a =>
    change f a = .error e ↔ _
    simp

theorem map_eq_ok {x : Except ε α} {f : α → β} {b : β} : (f <$> x) = .ok b ↔ ∃ a, x = .ok a ∧ f a = b := by
  cases x with
  | error e => exact ⟨nofun, nofun⟩
  | ok a =>
    constructor
    · intro h
      exact ⟨a, rfl, Except.ok.inj h⟩
    · rintro ⟨a', h, rfl⟩
      cases h
      rfl

theorem pure_eq_ok {a b : α} : (pure a : Except ε α) = .ok b ↔ a = b :=
  Except.ok.injEq a b ▸ Iff.rfl

/-- Fail unless a condition holds. -/
def ensure (condition : Bool) (error : ε) : Except ε Unit :=
  if condition then .ok () else .error error

@[simp] theorem ensure_eq_ok {condition : Bool} {error : ε} {u : Unit} :
    ensure condition error = .ok u ↔ condition = true := by
  cases condition
  · exact ⟨nofun, nofun⟩
  · exact ⟨fun _ => rfl, fun _ => rfl⟩

def okOr (value : Option α) (error : ε) : Except ε α :=
  match value with
  | some a => .ok a
  | none => .error error

@[simp] theorem okOr_eq_ok {value : Option α} {error : ε} {a : α} :
    okOr value error = .ok a ↔ value = some a := by
  cases value with
  | none => exact ⟨nofun, nofun⟩
  | some b =>
    rw [Option.some.injEq]
    exact ⟨Except.ok.inj, congrArg Except.ok⟩

/-- Every value that a computation returns satisfies a predicate. -/
def Yields (x : Except ε α) (post : α → Prop) : Prop := ∀ a, x = .ok a → post a

namespace Yields

variable {x : Except ε α} {post mid : α → Prop}

theorem ok {a : α} (h : post a) : Yields (.ok a : Except ε α) post :=
  fun _ hOk => Except.ok.inj hOk ▸ h

theorem pure {a : α} (h : post a) : Yields (Pure.pure a : Except ε α) post := ok h

theorem error (e : ε) : Yields (.error e : Except ε α) post :=
  fun _ hOk => by cases hOk

theorem mono (h : Yields x mid) (hPost : ∀ a, mid a → post a) : Yields x post :=
  fun a hOk => hPost a (h a hOk)

theorem trivial : Yields x fun _ => True := fun _ _ => True.intro

variable {f : α → Except ε β}

theorem bind {post : β → Prop} (h : Yields x mid)
    (hNext : ∀ a, mid a → Yields (f a) post) : Yields (x >>= f) post := by
  intro b hOk
  obtain ⟨a, hFirst, hSecond⟩ := bind_eq_ok.mp hOk
  exact hNext a (h a hFirst) b hSecond

/-- A step whose value does not matter. -/
theorem andThen {post : β → Prop} (hNext : ∀ a, x = .ok a → Yields (f a) post) : Yields (x >>= f) post := by
  intro b hOk
  obtain ⟨a, hFirst, hSecond⟩ := bind_eq_ok.mp hOk
  exact hNext a hFirst b hSecond

theorem map {f : α → β} {post : β → Prop} (h : Yields x fun a => post (f a)) : Yields (f <$> x) post := by
  intro b hOk
  obtain ⟨a, hFirst, rfl⟩ := map_eq_ok.mp hOk
  exact h a hFirst

theorem ite {condition : Prop} [Decidable condition] {y : Except ε α}
    (hThen : condition → Yields x post) (hElse : ¬condition → Yields y post) :
    Yields (if condition then x else y) post := by
  split
  · exact hThen ‹_›
  · exact hElse ‹_›

end Yields

end Outcome

/-- A computation with access to a state that survives its failure. -/
def Stateful (σ ε α : Type) : Type := σ → Except ε α × σ

namespace Stateful

variable {σ ε α β : Type}

instance : Monad (Stateful σ ε) where
  pure a := fun s => (.ok a, s)
  bind x f := fun s =>
    match x s with
    | (.error e, s') => (.error e, s')
    | (.ok a, s') => f a s'

/-- The state as it is now. -/
def get : Stateful σ ε σ := fun s => (.ok s, s)

/-- Write the state. -/
def set (s : σ) : Stateful σ ε Unit := fun _ => (.ok (), s)

/-- A computation that does not write the state. -/
def lift (x : Except ε α) : Stateful σ ε α := fun s => (x, s)

@[simp] theorem lift_eq {x outcome : Except ε α} {s s' : σ} :
    (lift x : Stateful σ ε α) s = (outcome, s') ↔ x = outcome ∧ s = s' := by
  change (x, s) = (outcome, s') ↔ _
  simp

@[simp] theorem get_eq {outcome : Except ε σ} {s s' : σ} :
    (get : Stateful σ ε σ) s = (outcome, s') ↔ .ok s = outcome ∧ s = s' := by
  change ((Except.ok s : Except ε σ), s) = (outcome, s') ↔ _
  simp

@[simp] theorem set_eq {s s' written : σ} {outcome : Except ε Unit} :
    (set written : Stateful σ ε Unit) s = (outcome, s') ↔ .ok () = outcome ∧ written = s' := by
  change ((Except.ok () : Except ε Unit), written) = (outcome, s') ↔ _
  simp

@[simp] theorem pure_eq {a : α} {outcome : Except ε α} {s s' : σ} :
    (pure a : Stateful σ ε α) s = (outcome, s') ↔ .ok a = outcome ∧ s = s' := by
  change ((Except.ok a : Except ε α), s) = (outcome, s') ↔ _
  simp

variable {f : α → Stateful σ ε β} {out : List β}

/-- A sequence returns what its second part returns on the first part's value
and state. -/
theorem bind_eq_ok {x : Stateful σ ε α} {b : β} {s s' : σ} :
    (x >>= f) s = (.ok b, s') ↔ ∃ a middle, x s = (.ok a, middle) ∧ f a middle = (.ok b, s') := by
  change (match x s with
    | (.error e, s') => (.error e, s')
    | (.ok a, s') => f a s') = (.ok b, s') ↔ _
  cases hFirst : x s with
  | mk outcome middle =>
    cases outcome with
    | error e => simp
    | ok a =>
      constructor
      · intro h
        exact ⟨a, middle, rfl, h⟩
      · rintro ⟨a', middle', h, h'⟩
        cases h
        exact h'

theorem bind_eq {x : Stateful σ ε α} {s : σ} : (x >>= f) s = match x s with
      | (.error e, s') => (.error e, s')
      | (.ok a, s') => f a s' := rfl

theorem bind_cases {x : Stateful σ ε α} {outcome : Except ε β} {s s' : σ} (h : (x >>= f) s = (outcome, s')) :
    (∃ e, outcome = .error e ∧ x s = (.error e, s')) ∨
      ∃ a middle, x s = (.ok a, middle) ∧ f a middle = (outcome, s') := by
  rw [bind_eq] at h
  cases hFirst : x s with
  | mk first middle =>
    rw [hFirst] at h
    cases first with
    | error e =>
      cases h
      exact .inl ⟨e, rfl, rfl⟩
    | ok a => exact .inr ⟨a, middle, rfl, h⟩

theorem get_bind {f : σ → Stateful σ ε β} {s : σ} {r : Except ε β × σ} : (get >>= f) s = r ↔ f s s = r := .rfl

theorem set_bind {f : Unit → Stateful σ ε β} {s written : σ} {r : Except ε β × σ} :
    (set written >>= f) s = r ↔ f () written = r := .rfl

theorem lift_bind_ok {x : Except ε α} {b : β} {s s' : σ} :
    (lift x >>= f) s = (.ok b, s') ↔ ∃ a, x = .ok a ∧ f a s = (.ok b, s') := by
  cases x <;> simp [bind_eq, lift]

theorem lift_bind_cases {x : Except ε α} {outcome : Except ε β} {s s' : σ} (h : (lift x >>= f) s = (outcome, s')) :
    (∃ e, outcome = .error e ∧ x = .error e ∧ s = s') ∨ ∃ a, x = .ok a ∧ f a s = (outcome, s') := by
  cases x with
  | error e =>
    cases h
    exact .inl ⟨e, rfl, rfl, rfl⟩
  | ok a => exact .inr ⟨a, rfl, h⟩

/-- Run a step on every element, in order, and join what the steps return. -/
def collect (f : α → Stateful σ ε (List β)) : List α → Stateful σ ε (List β)
  | [] => pure []
  | a :: rest => do
    let first ← f a
    let later ← collect f rest
    pure (first ++ later)

theorem collect_nil {f : α → Stateful σ ε (List β)} {s s' : σ} :
    collect f [] s = (.ok out, s') ↔ out = [] ∧ s = s' := by
  rw [collect, pure_eq, Except.ok.injEq, eq_comm (a := ([] : List β))]

theorem collect_cons {f : α → Stateful σ ε (List β)} {a : α} {rest : List α} {s s' : σ} :
    collect f (a :: rest) s = (.ok out, s') ↔
      ∃ first middle later, f a s = (.ok first, middle) ∧
        collect f rest middle = (.ok later, s') ∧ out = first ++ later := by
  simp only [collect, bind_eq_ok, pure_eq, Except.ok.injEq]
  constructor
  · rintro ⟨first, middle, hFirst, later, last, hLater, rfl, rfl⟩
    exact ⟨first, middle, later, hFirst, hLater, rfl⟩
  · rintro ⟨first, middle, later, hFirst, hLater, rfl⟩
    exact ⟨first, middle, hFirst, later, s', hLater, rfl, rfl⟩

/-- Every value that a computation returns satisfies a predicate, whatever the
state it starts from. -/
def Yields (x : Stateful σ ε α) (post : α → Prop) : Prop := ∀ s a s', x s = (.ok a, s') → post a

namespace Yields

variable {x : Stateful σ ε α} {post mid : α → Prop}

theorem pure {a : α} (h : post a) : Yields (Pure.pure a : Stateful σ ε α) post := by
  intro s b s' hOk
  obtain ⟨hValue, _⟩ := pure_eq.mp hOk
  cases hValue
  exact h

theorem mono (h : Yields x mid) (hPost : ∀ a, mid a → post a) : Yields x post :=
  fun s a s' hOk => hPost a (h s a s' hOk)

theorem lift {x : Except ε α} (h : Outcome.Yields x post) : Yields (Stateful.lift x : Stateful σ ε α) post :=
  fun _ a _ hOk => h a (lift_eq.mp hOk).1

variable {f : α → Stateful σ ε β}

theorem bind {post : β → Prop} (h : Yields x mid)
    (hNext : ∀ a, mid a → Yields (f a) post) : Yields (x >>= f) post := by
  intro s b s' hOk
  obtain ⟨a, middle, hFirst, hSecond⟩ := bind_eq_ok.mp hOk
  exact hNext a (h s a middle hFirst) middle b s' hSecond

/-- A step whose value does not matter. -/
theorem andThen {post : β → Prop} (hNext : ∀ a, Yields (f a) post) : Yields (x >>= f) post :=
  bind (fun _ _ _ _ => True.intro) fun a (_ : True) => hNext a

variable {condition : Prop} {Part : Type}

theorem ite [Decidable condition] {y : Stateful σ ε α}
    (hThen : condition → Yields x post) (hElse : ¬condition → Yields y post) :
    Yields (if condition then x else y) post := by
  split
  · exact hThen ‹_›
  · exact hElse ‹_›

theorem collect {f : α → Stateful σ ε (List β)} {post : β → Prop} {list : List α}
    (h : ∀ a ∈ list, Yields (f a) fun out => ∀ b ∈ out, post b) :
    Yields (Stateful.collect f list) fun out => ∀ b ∈ out, post b := by
  induction list with
  | nil => exact Yields.pure fun b hb => absurd hb List.not_mem_nil
  | cons a rest ih =>
    refine Yields.bind (h a List.mem_cons_self) fun first hFirst => ?_
    refine Yields.bind (ih fun b hb => h b (List.mem_cons_of_mem a hb)) fun later hLater => ?_
    refine Yields.pure fun b hb => ?_
    rcases List.mem_append.mp hb with hb | hb
    · exact hFirst b hb
    · exact hLater b hb

end Yields

/-- What a computation returns from a state, and the state that it leaves, satisfy
a predicate. -/
def Ensures (x : Stateful σ ε α) (s : σ) (post : α → σ → Prop) : Prop := ∀ a s', x s = (.ok a, s') → post a s'

namespace Ensures

variable {x : Stateful σ ε α} {s : σ} {post mid : α → σ → Prop}

theorem pure {a : α} (h : post a s) : Ensures (Pure.pure a : Stateful σ ε α) s post := by
  intro b s' hOk
  obtain ⟨hValue, rfl⟩ := pure_eq.mp hOk
  cases hValue
  exact h

theorem get {post : σ → σ → Prop} (h : post s s) : Ensures (Stateful.get : Stateful σ ε σ) s post := by
  intro b s' hOk
  obtain ⟨hValue, rfl⟩ := get_eq.mp hOk
  cases hValue
  exact h

theorem set {post : Unit → σ → Prop} {written : σ} (h : post () written) :
    Ensures (Stateful.set written : Stateful σ ε Unit) s post := by
  intro _ s' hOk
  obtain ⟨_, rfl⟩ := set_eq.mp hOk
  exact h

theorem lift {x : Except ε α} (h : Outcome.Yields x fun a => post a s) :
    Ensures (Stateful.lift x : Stateful σ ε α) s post := by
  intro a s' hOk
  obtain ⟨hValue, rfl⟩ := lift_eq.mp hOk
  exact h a hValue

variable {f : α → Stateful σ ε β} {y : Except ε α}

theorem bind {post : β → σ → Prop} (h : Ensures x s mid)
    (hNext : ∀ a s', mid a s' → Ensures (f a) s' post) : Ensures (x >>= f) s post := by
  intro b s' hOk
  obtain ⟨a, middle, hFirst, hSecond⟩ := bind_eq_ok.mp hOk
  exact hNext a middle (h a middle hFirst) b s' hSecond

theorem compute {post : β → σ → Prop} {mid : α → Prop}
    (h : Outcome.Yields y mid) (hNext : ∀ a, mid a → Ensures (f a) s post) : Ensures (Stateful.lift y >>= f) s post :=
  bind (lift fun a hOk => ⟨h a hOk, rfl⟩) fun a s' (hSame : mid a ∧ s = s') => hSame.2 ▸ hNext a hSame.1

theorem check {post : β → σ → Prop} (hNext : ∀ a, Ensures (f a) s post) : Ensures (Stateful.lift y >>= f) s post :=
  compute .trivial fun a _ => hNext a

/-- A step that does nothing. -/
theorem skip {a : α} {post : β → σ → Prop} (hNext : Ensures (f a) s post) : Ensures (Pure.pure a >>= f) s post :=
  hNext

theorem read {f : σ → Stateful σ ε β} {post : β → σ → Prop} (hNext : Ensures (f s) s post) :
    Ensures (Stateful.get >>= f) s post :=
  bind (get ⟨rfl, rfl⟩) fun a s' (hSame : a = s ∧ s' = s) => by
    obtain ⟨rfl, rfl⟩ := hSame
    exact hNext

theorem mono (h : Ensures x s mid) (hPost : ∀ a s', mid a s' → post a s') : Ensures x s post :=
  fun a s' hOk => hPost a s' (h a s' hOk)

theorem ite [Decidable condition] {y : Stateful σ ε α}
    (hThen : condition → Ensures x s post) (hElse : ¬condition → Ensures y s post) :
    Ensures (if condition then x else y) s post := by
  split
  · exact hThen ‹_›
  · exact hElse ‹_›

end Ensures

/-- A computation that leaves the state as it was, also when it fails. -/
def ReadsOnly (x : Stateful σ ε α) : Prop := ∀ s, (x s).2 = s

namespace ReadsOnly

theorem pure {a : α} : ReadsOnly (Pure.pure a : Stateful σ ε α) := fun _ => rfl

theorem get : ReadsOnly (Stateful.get : Stateful σ ε σ) := fun _ => rfl

theorem lift {x : Except ε α} : ReadsOnly (Stateful.lift x : Stateful σ ε α) := fun _ => rfl

theorem bind {x : Stateful σ ε α} {f : α → Stateful σ ε β} (h : ReadsOnly x)
    (hNext : ∀ a, ReadsOnly (f a)) : ReadsOnly (x >>= f) := by
  intro s
  have hFirst := h s
  rw [bind_eq]
  cases hRun : x s with
  | mk outcome middle =>
    rw [hRun] at hFirst
    cases outcome with
    | error e => exact hFirst
    | ok a => exact (hNext a middle).trans hFirst

theorem ite [Decidable condition] {x y : Stateful σ ε α}
    (hThen : condition → ReadsOnly x) (hElse : ¬condition → ReadsOnly y) :
    ReadsOnly (if condition then x else y) := by
  split
  · exact hThen ‹_›
  · exact hElse ‹_›

theorem collect {f : α → Stateful σ ε (List β)} {list : List α} (h : ∀ a ∈ list, ReadsOnly (f a)) :
    ReadsOnly (Stateful.collect f list) := by
  induction list with
  | nil => exact pure
  | cons a rest ih =>
    refine bind (h a List.mem_cons_self) fun first => ?_
    refine bind (ih fun b hb => h b (List.mem_cons_of_mem a hb)) fun later => ?_
    exact pure

/-- What such a computation returns, it returns in the state it started from. -/
theorem state_eq {x : Stateful σ ε α} (h : ReadsOnly x) {outcome : Except ε α} {s s' : σ}
    (hRun : x s = (outcome, s')) : s' = s := by
  rw [← h s, hRun]

end ReadsOnly

/-- A computation that moves the state along steps of a relation, also when it
fails. -/
def Moves (step : σ → σ → Prop) (x : Stateful σ ε α) : Prop := ∀ s, Transition.Trace step s (x s).2

namespace Moves

variable {step : σ → σ → Prop} {x : Stateful σ ε α}

theorem of_readsOnly (h : ReadsOnly x) : Moves step x := by
  intro s
  rw [h s]

variable {f : α → Stateful σ ε β}

theorem bind (h : Moves step x) (hNext : ∀ a, Moves step (f a)) : Moves step (x >>= f) := by
  intro s
  have hFirst := h s
  rw [bind_eq]
  cases hRun : x s with
  | mk outcome middle =>
    rw [hRun] at hFirst
    cases outcome with
    | error e => exact hFirst
    | ok a => exact hFirst.trans (hNext a middle)

theorem afterReading (h : ReadsOnly x) (hNext : ∀ a, Moves step (f a)) : Moves step (x >>= f) :=
  bind (of_readsOnly h) hNext

theorem ite [Decidable condition] {y : Stateful σ ε α}
    (hThen : condition → Moves step x) (hElse : ¬condition → Moves step y) :
    Moves step (if condition then x else y) := by
  split
  · exact hThen ‹_›
  · exact hElse ‹_›

theorem collect {f : α → Stateful σ ε (List β)} {list : List α} (h : ∀ a ∈ list, Moves step (f a)) :
    Moves step (Stateful.collect f list) := by
  induction list with
  | nil => exact of_readsOnly .pure
  | cons a rest ih =>
    refine bind (h a List.mem_cons_self) fun first => ?_
    refine bind (ih fun b hb => h b (List.mem_cons_of_mem a hb)) fun later => ?_
    exact of_readsOnly .pure

/-- Read the state, decide a new one and write it. -/
theorem write {f : σ → Except ε σ} {a : σ → α} (h : ∀ s s', f s = .ok s' → step s s') : Moves step (do
      let s ← Stateful.get
      let s' ← Stateful.lift (f s)
      Stateful.set s'
      pure (a s) : Stateful σ ε α) := by
  intro s
  change Transition.Trace step s ((Stateful.lift (f s) >>= fun s' => do Stateful.set s'; pure (a s)) s).2
  rw [bind_eq]
  cases hWritten : f s with
  | error e => exact .refl
  | ok s' => exact .single (h s s' hWritten)

end Moves

/-- The state that a computation leaves when a write follows where it succeeds. -/
def leaving (x : Stateful σ ε α) (next : α → σ → σ) (s : σ) : σ :=
  match x s with
  | (.error _, s') => s'
  | (.ok a, s') => next a s'

theorem bind_leaves {x : Stateful σ ε α} {s : σ} : ((x >>= f) s).2 = leaving x (fun a s' => (f a s').2) s := by
  rw [bind_eq, leaving]
  cases x s with
  | mk outcome middle => cases outcome <;> rfl

theorem leaving_bind {x : Stateful σ ε α} {next : β → σ → σ} {s : σ} :
    leaving (x >>= f) next s = leaving x (fun a s' => leaving (f a) next s') s := by
  unfold leaving
  rw [bind_eq]
  cases x s with
  | mk outcome middle => cases outcome <;> rfl

/-- Run steps that each write all of what they write or nothing. The first one
that fails stops the others; what the earlier ones wrote stays. -/
def inTurn : List (σ → Except ε σ) → Stateful σ ε Unit
  | [] => pure ()
  | step :: rest => fun s =>
    match step s with
    | .error e => (.error e, s)
    | .ok s' => inTurn rest s'

variable {steps later : List (σ → Except ε σ)} {s s' : σ} {outcome : Except ε Unit} {Part : Type}

theorem inTurn_cons {step : σ → Except ε σ} (h : inTurn (step :: steps) s = (outcome, s')) :
    (∃ e, step s = .error e ∧ outcome = .error e ∧ s' = s) ∨
      ∃ middle, step s = .ok middle ∧ inTurn steps middle = (outcome, s') := by
  unfold inTurn at h
  cases hStep : step s with
  | error e =>
    rw [hStep] at h
    cases h
    exact .inl ⟨e, rfl, rfl, rfl⟩
  | ok middle =>
    rw [hStep] at h
    exact .inr ⟨middle, rfl, h⟩

theorem inTurn_error {e : ε} (h : inTurn steps s = (.error e, s')) : ∃ step ∈ steps, ∃ middle, step middle = .error e := by
  induction steps generalizing s with
  | nil => cases (pure_eq.mp h).1
  | cons step rest ih =>
    rcases inTurn_cons h with ⟨e', hStep, hError, _⟩ | ⟨middle, _, hRest⟩
    · cases hError
      exact ⟨step, List.mem_cons_self, s, hStep⟩
    · obtain ⟨later, hLater, hFails⟩ := ih hRest
      exact ⟨later, List.mem_cons_of_mem _ hLater, hFails⟩

theorem inTurn_append : inTurn (steps ++ later) s = match inTurn steps s with
      | (.error e, middle) => (.error e, middle)
      | (.ok (), middle) => inTurn later middle := by
  induction steps generalizing s with
  | nil => rfl
  | cons step rest ih =>
    rw [List.cons_append, inTurn, inTurn]
    dsimp only
    cases step s with
    | error e => rfl
    | ok middle => exact ih

/-- A transitive relation between states that every step keeps, all of them keep
together, however far they get. -/
theorem inTurn_rel {rel : σ → σ → Prop} (hRefl : ∀ s, rel s s)
    (hTrans : ∀ first second third, rel first second → rel second third → rel first third)
    (hStep : ∀ step ∈ steps, ∀ s s', step s = .ok s' → rel s s') (h : inTurn steps s = (outcome, s')) : rel s s' := by
  induction steps generalizing s with
  | nil =>
    obtain ⟨_, rfl⟩ := pure_eq.mp h
    exact hRefl s
  | cons step rest ih =>
    rcases inTurn_cons h with ⟨e, _, _, rfl⟩ | ⟨middle, hFirst, hRest⟩
    · exact hRefl s'
    · have hMiddle := hStep step List.mem_cons_self s middle hFirst
      have hLast := ih (fun step hMem => hStep step (List.mem_cons_of_mem _ hMem)) hRest
      exact hTrans s middle s' hMiddle hLast

theorem inTurn_total {inv : σ → Prop}
    (hStep : ∀ step ∈ steps, ∀ s, inv s → ∃ s', step s = .ok s' ∧ inv s') (h : inv s) :
    ∃ s', inTurn steps s = (.ok (), s') ∧ inv s' := by
  induction steps generalizing s with
  | nil => exact ⟨s, rfl, h⟩
  | cons step rest ih =>
    obtain ⟨middle, hFirst, hMiddle⟩ := hStep step List.mem_cons_self s h
    obtain ⟨s', hRest, hLast⟩ := ih (fun step hMem => hStep step (List.mem_cons_of_mem _ hMem)) hMiddle
    refine ⟨s', ?_, hLast⟩
    unfold inTurn
    rw [hFirst]
    exact hRest

/-- When no step was refused, each was taken between states that the relation
connects to the first and to the last. -/
theorem inTurn_taken {rel : σ → σ → Prop} (hRefl : ∀ s, rel s s)
    (hTrans : ∀ first second third, rel first second → rel second third → rel first third)
    (hStep : ∀ step ∈ steps, ∀ s s', step s = .ok s' → rel s s')
    (h : inTurn steps s = (.ok (), s')) {step : σ → Except ε σ} (hMem : step ∈ steps) :
    ∃ before after, rel s before ∧ step before = .ok after ∧ rel after s' := by
  obtain ⟨first, rest, rfl⟩ := List.append_of_mem hMem
  rw [inTurn_append] at h
  cases hRun : inTurn first s with
  | mk done middle =>
  rw [hRun] at h
  cases done with
  | error e => cases h
  | ok done =>
    have hBefore : rel s middle :=
      inTurn_rel hRefl hTrans (fun step hIn => hStep step (List.mem_append_left _ hIn)) hRun
    rcases inTurn_cons h with ⟨e, _, hRefused, _⟩ | ⟨after, hTaken, hRest⟩
    · cases hRefused
    · have hAfter : rel after s' := inTurn_rel hRefl hTrans
        (fun step hIn => hStep step (List.mem_append_right _ (List.mem_cons_of_mem _ hIn))) hRest
      exact ⟨middle, after, hBefore, hTaken, hAfter⟩

theorem inTurn_part {part : σ → Part} (hStep : ∀ step ∈ steps, ∀ s s', step s = .ok s' → part s' = part s)
    (h : inTurn steps s = (outcome, s')) : part s' = part s := by
  induction steps generalizing s with
  | nil =>
    obtain ⟨_, rfl⟩ := pure_eq.mp h
    rfl
  | cons step rest ih =>
    obtain ⟨hFirst, hRest⟩ := List.forall_mem_cons.mp hStep
    rcases inTurn_cons h with ⟨e, _, _, rfl⟩ | ⟨middle, hTaken, hLater⟩
    · rfl
    · exact (ih hRest hLater).trans (hFirst s middle hTaken)

theorem inTurn_field (part : σ → Part) (rewrite : Part → Part) {step : σ → Except ε σ}
    (hBefore : ∀ other ∈ steps, ∀ s s', other s = .ok s' → part s' = part s)
    (hStep : ∀ s s', step s = .ok s' → part s' = rewrite (part s))
    (hAfter : ∀ other ∈ later, ∀ s s', other s = .ok s' → part s' = part s)
    (h : inTurn (steps ++ step :: later) s = (outcome, s')) :
    (outcome ≠ .ok () ∧ part s' = part s) ∨ part s' = rewrite (part s) := by
  rw [inTurn_append] at h
  cases hRun : inTurn steps s with
  | mk first middle =>
  have hFirst : part middle = part s := inTurn_part hBefore hRun
  rw [hRun] at h
  cases first with
  | error e =>
    cases h
    exact .inl ⟨nofun, hFirst⟩
  | ok done =>
    rcases inTurn_cons h with ⟨e, _, rfl, rfl⟩ | ⟨taken, hTaken, hRest⟩
    · exact .inl ⟨nofun, hFirst⟩
    · have hLast : part s' = part taken := inTurn_part hAfter hRest
      exact .inr (hLast.trans ((hStep middle taken hTaken).trans (congrArg rewrite hFirst)))

theorem inTurn_fold {Item : Type} (part : σ → Part) (rewrite : Part → Item → Part)
    {stepsOf : Item → List (σ → Except ε σ)} {items : List Item}
    (hItem : ∀ item ∈ items, ∀ s s' outcome, inTurn (stepsOf item) s = (outcome, s') →
      (outcome ≠ .ok () ∧ part s' = part s) ∨ part s' = rewrite (part s) item)
    (h : inTurn (items.flatMap stepsOf) s = (outcome, s')) :
    ∃ taken left, items = taken ++ left ∧ (outcome = .ok () → left = []) ∧
      part s' = taken.foldl rewrite (part s) := by
  induction items generalizing s with
  | nil =>
    obtain ⟨_, rfl⟩ := pure_eq.mp h
    exact ⟨[], [], rfl, fun _ => rfl, rfl⟩
  | cons item rest ih =>
    obtain ⟨hFirst, hRest⟩ := List.forall_mem_cons.mp hItem
    rw [List.flatMap_cons, inTurn_append] at h
    cases hRun : inTurn (stepsOf item) s with
    | mk first middle =>
    rw [hRun] at h
    cases first with
    | error e =>
      cases h
      rcases hFirst s _ _ hRun with ⟨_, hKept⟩ | hTaken
      · exact ⟨[], _, rfl, nofun, hKept⟩
      · exact ⟨[item], _, rfl, nofun, hTaken⟩
    | ok done =>
      obtain ⟨taken, left, rfl, hAll, hFold⟩ := ih hRest h
      refine ⟨item :: taken, left, rfl, hAll, ?_⟩
      rcases hFirst s _ _ hRun with ⟨hRefused, _⟩ | hTaken
      · exact absurd rfl hRefused
      · rw [hFold, List.foldl_cons, hTaken]

theorem inTurn_shows {Summary : Type} {shows : Summary → σ → Prop} {rewrite : Summary → Summary}
    (hTwice : ∀ summary, rewrite (rewrite summary) = rewrite summary)
    (hSteps : ∀ step ∈ steps, ∀ s s', step s = .ok s' → ∀ summary, shows summary s →
      shows summary s' ∨ shows (rewrite summary) s')
    (hOne : ∃ step ∈ steps, ∀ s s', step s = .ok s' → ∀ summary, shows summary s → shows (rewrite summary) s')
    (h : inTurn steps s = (outcome, s')) {summary : Summary} (hShows : shows summary s) :
    (outcome ≠ .ok () ∧ shows summary s') ∨ shows (rewrite summary) s' := by
  let rel : σ → σ → Prop := fun s s' => ∀ summary, shows summary s → shows summary s' ∨ shows (rewrite summary) s'
  have hRefl : ∀ s, rel s s := fun _ _ h => .inl h
  have hTrans : ∀ first second third, rel first second → rel second third → rel first third := by
    intro first second third hFirst hSecond summary hShows
    rcases hFirst summary hShows with hSame | hRewritten
    · exact hSecond summary hSame
    · have hAgain := hSecond (rewrite summary) hRewritten
      rw [hTwice] at hAgain
      exact .inr (hAgain.elim id id)
  cases outcome with
  | error e => exact (inTurn_rel hRefl hTrans hSteps h summary hShows).imp_left fun hSame => ⟨nofun, hSame⟩
  | ok done =>
    obtain ⟨step, hMem, hDoes⟩ := hOne
    obtain ⟨before, after, hBefore, hTaken, hAfter⟩ := inTurn_taken hRefl hTrans hSteps h hMem
    have hDone : shows (rewrite summary) after := by
      rcases hBefore summary hShows with hSame | hRewritten
      · exact hDoes before after hTaken summary hSame
      · rw [← hTwice]
        exact hDoes before after hTaken _ hRewritten
    have hLast := hAfter (rewrite summary) hDone
    rw [hTwice] at hLast
    exact .inr (hLast.elim id id)

end Stateful
