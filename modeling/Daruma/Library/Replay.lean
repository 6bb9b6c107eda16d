import Mathlib.Data.List.Sort

/-! Replaying a log of numbered events into a state. A replay can be cut anywhere,
skips events that change nothing, and takes related states to related states; the
cuts of a sorted log are found by sequence number. -/
namespace Replay

universe u v w

variable {State : Type u} {Event : Type v} {ε : Type w}

/-- Apply the events in their order, until one is refused. -/
def replay (apply : State → Event → Except ε State) : State → List Event → Except ε State
  | state, [] => .ok state
  | state, event :: rest =>
    match apply state event with
    | .error e => .error e
    | .ok next => replay apply next rest

section

variable {apply : State → Event → Except ε State} {start finish : State} {events later : List Event}

theorem replay_cons_ok {event : Event} : replay apply start (event :: events) = .ok finish ↔
      ∃ next, apply start event = .ok next ∧ replay apply next events = .ok finish := by
  rw [replay]
  cases apply start event with
  | error e => exact ⟨nofun, nofun⟩
  | ok next => exact ⟨fun h => ⟨next, rfl, h⟩, fun ⟨_, hNext, h⟩ => by cases hNext; exact h⟩

/-- A replay can be cut anywhere. -/
theorem replay_append_ok : replay apply start (events ++ later) = .ok finish ↔
      ∃ middle, replay apply start events = .ok middle ∧ replay apply middle later = .ok finish := by
  induction events generalizing start with
  | nil => exact ⟨fun h => ⟨start, rfl, h⟩, fun ⟨_, hStart, h⟩ => by cases hStart; exact h⟩
  | cons event rest ih =>
    rw [List.cons_append, replay_cons_ok]
    constructor
    · rintro ⟨next, hNext, hRest⟩
      obtain ⟨middle, hMiddle, hLater⟩ := ih.mp hRest
      exact ⟨middle, replay_cons_ok.mpr ⟨next, hNext, hMiddle⟩, hLater⟩
    · rintro ⟨middle, hMiddle, hLater⟩
      obtain ⟨next, hNext, hRest⟩ := replay_cons_ok.mp hMiddle
      exact ⟨next, hNext, ih.mpr ⟨middle, hRest, hLater⟩⟩

/-- Events that change nothing can be left out. -/
theorem replay_filter {keep : Event → Bool}
    (hNeutral : ∀ state event, keep event = false → apply state event = .ok state) :
    replay apply start (events.filter keep) = replay apply start events := by
  induction events generalizing start with
  | nil => rfl
  | cons event rest ih =>
    cases hKeep : keep event with
    | true =>
      rw [List.filter_cons_of_pos hKeep]
      unfold replay
      split
      · rfl
      · exact ih
    | false =>
      rw [List.filter_cons_of_neg (by rw [hKeep]; exact Bool.false_ne_true), ih, replay, hNeutral start event hKeep]

theorem replay_rel {rel : State → State → Prop} {start' : State}
    (hApply : ∀ state other event next, rel state other → apply state event = .ok next →
      ∃ next', apply other event = .ok next' ∧ rel next next')
    (hStart : rel start start') (h : replay apply start events = .ok finish) :
    ∃ finish', replay apply start' events = .ok finish' ∧ rel finish finish' := by
  induction events generalizing start start' with
  | nil =>
    cases h
    exact ⟨start', rfl, hStart⟩
  | cons event rest ih =>
    obtain ⟨next, hNext, hRest⟩ := replay_cons_ok.mp h
    obtain ⟨next', hNext', hRel⟩ := hApply start start' event next hStart hNext
    obtain ⟨finish', hFinish', hLast⟩ := ih hRel hRest
    exact ⟨finish', replay_cons_ok.mpr ⟨next', hNext', hFinish'⟩, hLast⟩

theorem replay_inv {inv : State → Prop}
    (hApply : ∀ state event next, inv state → apply state event = .ok next → inv next)
    (hStart : inv start) (h : replay apply start events = .ok finish) : inv finish := by
  induction events generalizing start with
  | nil =>
    cases h
    exact hStart
  | cons event rest ih =>
    obtain ⟨next, hNext, hRest⟩ := replay_cons_ok.mp h
    exact ih (hApply start event next hStart hNext) hRest

end

variable {seq : Event → Nat} {log : List Event} {low high : Nat}

/-- Every event has a higher number than those before it. -/
def Numbered (seq : Event → Nat) (log : List Event) : Prop := log.Pairwise fun first second => seq first < seq second

/-- The events up to a number. -/
def upTo (seq : Event → Nat) (high : Nat) (log : List Event) : List Event :=
  log.filter fun event => seq event ≤ high

/-- The events after a number. -/
def after (seq : Event → Nat) (low : Nat) (log : List Event) : List Event :=
  log.filter fun event => low < seq event

theorem Numbered.sublist {shorter : List Event} (h : Numbered seq log) (hSub : shorter.Sublist log) :
    Numbered seq shorter :=
  List.Pairwise.sublist hSub h

theorem Numbered.upTo_append_after (h : Numbered seq log) : upTo seq low log ++ after seq low log = log := by
  induction log with
  | nil => rfl
  | cons event rest ih =>
    obtain ⟨hFirst, hRest⟩ := List.pairwise_cons.mp h
    by_cases hLow : seq event ≤ low
    · rw [upTo, after, List.filter_cons_of_pos (by simpa using hLow), List.filter_cons_of_neg (by simpa using hLow),
        List.cons_append]
      exact congrArg _ (ih hRest)
    · have hNone : upTo seq low rest = [] := by
        refine List.filter_eq_nil_iff.mpr fun other hOther hLe => ?_
        exact hLow (Nat.le_of_lt ((hFirst other hOther).trans_le (of_decide_eq_true hLe)))
      have hAll : after seq low rest = rest := by
        refine List.filter_eq_self.mpr fun other hOther => decide_eq_true ?_
        exact (not_le.mp hLow).trans (hFirst other hOther)
      rw [upTo, after, List.filter_cons_of_neg (by simpa using hLow),
        List.filter_cons_of_pos (by simpa using Nat.not_le.mp hLow)]
      change upTo seq low rest ++ event :: after seq low rest = event :: rest
      rw [hNone, hAll, List.nil_append]

/-- The events up to a higher number are those up to the lower one, and those
between the two. -/
theorem Numbered.upTo_eq (h : Numbered seq log) (hLe : low ≤ high) :
    upTo seq high log = upTo seq low log ++ upTo seq high (after seq low log) := by
  have hCut : upTo seq low log ++ after seq low log = log := h.upTo_append_after
  have hSplit := congrArg (upTo seq high) hCut
  rw [upTo, List.filter_append] at hSplit
  rw [← hSplit]
  refine congrArg (· ++ _) ?_
  change (upTo seq low log).filter _ = _
  refine List.filter_eq_self.mpr fun event hMem => decide_eq_true ?_
  exact (of_decide_eq_true (List.mem_filter.mp hMem).2).trans hLe

theorem upTo_eq_nil (h : ∀ event ∈ log, high < seq event) : upTo seq high log = [] :=
  List.filter_eq_nil_iff.mpr fun event hMem hLe => absurd (h event hMem) (not_lt.mpr (of_decide_eq_true hLe))

variable {event : Event}

theorem upTo_cons (h : seq event ≤ high) : upTo seq high (event :: log) = event :: upTo seq high log :=
  List.filter_cons_of_pos (by simpa using h)

theorem mem_upTo : event ∈ upTo seq high log ↔ event ∈ log ∧ seq event ≤ high := by
  rw [upTo, List.mem_filter, decide_eq_true_eq]

theorem mem_after : event ∈ after seq low log ↔ event ∈ log ∧ low < seq event := by
  rw [after, List.mem_filter, decide_eq_true_eq]

end Replay
