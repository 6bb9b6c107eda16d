import Daruma.Mcp.ScopeView

/-! The bindings of repositories to projects, among requests: provisions, one at a time
under `PROVISION_LOCK`, explicit bindings, removals and deletions of projects. -/
namespace Daruma

open List KeyedTable

open Function (update update_self update_of_ne)

/-- Where a request stands between two of its steps. -/
inductive ScopePhase where
  | idle
  | waiting (scopePath : ScopePath)
  /-- It has the lock, and found no binding again. -/
  | checked (scopePath : ScopePath)
  | created (scopePath : ScopePath) (project : ProjectId)
  /-- An explicit binding to a project that was found. -/
  | binding (scopePath : ScopePath) (project : ProjectId)

namespace ScopePhase

def provisions : ScopePhase → Option ScopePath
  | checked scopePath | created scopePath _ => some scopePath
  | _ => none

/-- The project that a request is about to bind. -/
def carries : ScopePhase → Option ProjectId
  | created _ project | binding _ project => some project
  | _ => none

end ScopePhase

/-- What requests did and told, with what was there at that moment. -/
inductive ScopeRecord where
  | answered (scopePath : ScopePath) (project : ProjectId) (projects : List ProjectId) (scopes : RepoScopes)
  | created (scopePath : ScopePath)
  | provisioned (scopePath : ScopePath) (before : RepoScopes)
  | bound (scopePath : ScopePath) (project : ProjectId)
  | removed (scopePath : ScopePath)

structure ScopeWorld where
  projects : List ProjectId
  scopes : RepoScopes
  /-- The request that has the lock. -/
  holder : Option Nat
  phases : Nat → ScopePhase
  /-- The last record comes first. -/
  history : List ScopeRecord

inductive ScopeOp where
  | provision (request : Nat) (raw : ScopePath)
  | lock (request : Nat)
  | create (request : Nat) (project : ProjectId)
  | write (request : Nat)
  | put (request : Nat) (raw : ScopePath) (project : ProjectId)
  | bind (request : Nat)
  | remove (raw : ScopePath)
  | createProject (project : ProjectId)
  | deleteProject (project : ProjectId)
  /-- An error of the storage ends a request. -/
  | fail (request : Nat)

namespace ScopeWorld

def start : ScopeWorld := ⟨[], .empty, none, fun _ => .idle, []⟩

def enter (world : ScopeWorld) (request : Nat) (phase : ScopePhase) : ScopeWorld :=
  { world with phases := update world.phases request phase }

def tell (world : ScopeWorld) (record : ScopeRecord) : ScopeWorld := { world with history := record :: world.history }

def answer (world : ScopeWorld) (scopePath : ScopePath) (project : ProjectId) : ScopeWorld :=
  world.tell (.answered scopePath project world.projects world.scopes)

/-- A step of a request, up to the next time that it waits. -/
def step (autoProvision : Bool) (world : ScopeWorld) : ScopeOp → ScopeWorld
  | .provision request raw => match world.phases request, RepoScopes.normalizedScopePath raw with
    | .idle, .ok scopePath => match world.scopes.find? scopePath with
      | some row => world.answer scopePath row.project
      | none => if autoProvision then world.enter request (.waiting scopePath) else world
    | _, _ => world
  | .lock request => match world.phases request, world.holder with
    | .waiting scopePath, none => match world.scopes.find? scopePath with
      | some row => (world.enter request .idle).answer scopePath row.project
      | none => { world.enter request (.checked scopePath) with holder := some request }
    | _, _ => world
  | .create request project => match world.phases request with
    | .checked scopePath =>
      -- a new project has an id of its own
      if project ∈ world.projects then world
      else { (world.enter request (.created scopePath project)).tell (.created scopePath) with
        projects := project :: world.projects }
    | _ => world
  | .write request => match world.phases request with
    | .created scopePath project =>
      { (world.enter request .idle).tell (.provisioned scopePath world.scopes) with
        holder := none
        scopes := world.scopes.insertOrReplace ⟨scopePath, project⟩ }.answer scopePath project
    | _ => world
  | .put request raw project => match world.phases request, RepoScopes.normalizedScopePath raw with
    | .idle, .ok scopePath => if project ∈ world.projects then world.enter request (.binding scopePath project) else world
    | _, _ => world
  | .bind request => match world.phases request with
    | .binding scopePath project =>
      { (world.enter request .idle).tell (.bound scopePath project) with
        scopes := world.scopes.insertOrReplace ⟨scopePath, project⟩ }
    | _ => world
  | .remove raw => match RepoScopes.normalizedScopePath raw with
    | .ok scopePath => { world.tell (.removed scopePath) with scopes := world.scopes.erase scopePath }
    | .error _ => world
  | .createProject project => { world with projects := project :: world.projects }
  | .deleteProject project => { world with projects := world.projects.filter (· ≠ project) }
  | .fail request => { world.enter request .idle with
      holder := if world.holder = some request then none else world.holder }

def run (autoProvision : Bool) : ScopeWorld → List ScopeOp → ScopeWorld := List.foldl (step autoProvision)

end ScopeWorld

/-- A project was created for a path, and no binding of the path was removed since. -/
def Spent (scopePath : ScopePath) (history : List ScopeRecord) : Prop :=
  ∃ since before, history = since ++ .created scopePath :: before ∧ .removed scopePath ∉ since

structure ProvisionsRight (history : List ScopeRecord) : Prop where
  replacesNone : ∀ scopePath before, .provisioned scopePath before ∈ history → before.find? scopePath = none
  once : ∀ newer scopePath older, history = newer ++ .created scopePath :: older → ¬Spent scopePath older
  answers : ∀ scopePath project projects scopes, .answered scopePath project projects scopes ∈ history →
    project ∈ projects ∧ (scopes.find? scopePath).map ScopeBinding.project = some project

/-- An explicit binding is not written between the second look of a provision of the path
and its write; no project is deleted that is bound or about to be; and no provision
fails between the creation of its project and the write. -/
def ScopeOp.Apart (world : ScopeWorld) : ScopeOp → Prop
  | .bind request => ∀ scopePath project, world.phases request = .binding scopePath project →
      ∀ other, (world.phases other).provisions ≠ some scopePath
  | .deleteProject project => (∀ row ∈ world.scopes, row.project ≠ project) ∧
      ∀ request, (world.phases request).carries ≠ some project
  | .fail request => ∀ scopePath project, world.phases request ≠ .created scopePath project
  | _ => True

/-- Every step of a run is apart from what other requests are about. -/
def AllApart (autoProvision : Bool) : ScopeWorld → List ScopeOp → Prop
  | _, [] => True
  | world, op :: rest => op.Apart world ∧ AllApart autoProvision (world.step autoProvision op) rest

variable {record : ScopeRecord} {history : List ScopeRecord} {scopePath : ScopePath}

theorem spent_cons : Spent scopePath (record :: history) ↔
    record = .created scopePath ∨ record ≠ .removed scopePath ∧ Spent scopePath history := by
  constructor
  · rintro ⟨_ | ⟨first, since⟩, before, hSplit, hKept⟩
    · exact .inl (List.cons.inj hSplit).1
    · obtain ⟨rfl, hRest⟩ := List.cons.inj hSplit
      exact .inr ⟨fun hIs => hKept (hIs ▸ mem_cons_self), since, before, hRest, fun h => hKept (mem_cons_of_mem _ h)⟩
  · rintro (rfl | ⟨hOther, since, before, rfl, hKept⟩)
    · exact ⟨[], history, rfl, not_mem_nil⟩
    · refine ⟨record :: since, before, rfl, fun h => ?_⟩
      exact (mem_cons.mp h).elim (fun hIs => hOther hIs.symm) hKept

/-- A record that is right, and the creation of no project that there was already one of. -/
theorem ProvisionsRight.cons (h : ProvisionsRight history)
    (hWrites : ∀ path before, record = .provisioned path before → before.find? path = none)
    (hCreates : ∀ path, record = .created path → ¬Spent path history)
    (hAnswers : ∀ path project projects scopes, record = .answered path project projects scopes →
      project ∈ projects ∧ (scopes.find? path).map ScopeBinding.project = some project) :
    ProvisionsRight (record :: history) := by
  refine ⟨fun path before hMem => ?_, fun newer path older hSplit => ?_, fun path project projects scopes hMem => ?_⟩
  · rcases mem_cons.mp hMem with hIs | hMem
    · exact hWrites _ _ hIs.symm
    · exact h.replacesNone _ _ hMem
  · cases newer with
    | nil =>
      obtain ⟨hIs, rfl⟩ := List.cons.inj hSplit
      exact hCreates path hIs
    | cons first newer => exact h.once newer path older (List.cons.inj hSplit).2
  · rcases mem_cons.mp hMem with hIs | hMem
    · exact hAnswers _ _ _ _ hIs.symm
    · exact h.answers _ _ _ _ hMem

namespace ScopeWorld

structure Sound (world : ScopeWorld) : Prop where
  bound : ∀ row ∈ world.scopes, row.project ∈ world.projects
  alone : ∀ request scopePath, (world.phases request).provisions = some scopePath →
    world.holder = some request ∧ world.scopes.find? scopePath = none
  found : ∀ request project, (world.phases request).carries = some project → project ∈ world.projects
  spent : ∀ scopePath, Spent scopePath world.history → (∃ row, world.scopes.find? scopePath = some row) ∨
    ∃ request project, world.phases request = .created scopePath project
  right : ProvisionsRight world.history

variable {world : ScopeWorld} {request : Nat} {project : ProjectId} {phase : ScopePhase} {autoProvision : Bool}

theorem sound_start : Sound start := by
  refine ⟨fun _ h => absurd h not_mem_nil, nofun, nofun, fun path hSpent => ?_, nofun, fun newer path older h => ?_, nofun⟩
  · obtain ⟨since, before, h, -⟩ := hSpent
    exact absurd h (by simp [start])
  · exact absurd h (by simp [start])

theorem Sound.move {after : ScopeWorld} (h : Sound world) (hPhases : after.phases = update world.phases request phase)
    (hKept : world.projects ⊆ after.projects) (hBound : ∀ row ∈ after.scopes, row.project ∈ after.projects)
    (hAlone : ∀ path, phase.provisions = some path → after.holder = some request ∧ after.scopes.find? path = none)
    (hOthers : ∀ other path, other ≠ request → (world.phases other).provisions = some path →
      after.holder = some other ∧ after.scopes.find? path = none)
    (hFound : ∀ project, phase.carries = some project → project ∈ after.projects)
    (hSpent : ∀ path, Spent path after.history → (∃ row, after.scopes.find? path = some row) ∨
      (∃ project, phase = .created path project) ∨ ∃ other project, other ≠ request ∧ world.phases other = .created path project)
    (hRight : ProvisionsRight after.history) : Sound after := by
  have hSelf : after.phases request = phase := by rw [hPhases, update_self]
  have hOther : ∀ other, other ≠ request → after.phases other = world.phases other := fun other hNot => by
    rw [hPhases, update_of_ne hNot]
  refine ⟨hBound, fun other path hIs => ?_, fun other project hIs => ?_, fun path h => (hSpent path h).imp_right ?_, hRight⟩
  · by_cases hSame : other = request
    · subst hSame
      exact hAlone path (hSelf ▸ hIs)
    · exact hOthers other path hSame (hOther other hSame ▸ hIs)
  · by_cases hSame : other = request
    · subst hSame
      exact hFound project (hSelf ▸ hIs)
    · exact hKept (h.found other project (hOther other hSame ▸ hIs))
  · rintro (⟨project, hIs⟩ | ⟨other, project, hNot, hIs⟩)
    · exact ⟨request, project, hSelf.trans hIs⟩
    · exact ⟨other, project, (hOther other hNot).trans hIs⟩

theorem Sound.spent_other (h : Sound world) (hQuiet : ∀ path project, world.phases request ≠ .created path project)
    {path : ScopePath} (hSpent : Spent path world.history) : (∃ row, world.scopes.find? path = some row) ∨
      ∃ other project, other ≠ request ∧ world.phases other = .created path project :=
  (h.spent path hSpent).imp_right fun ⟨other, project, hIs⟩ =>
    ⟨other, project, fun hSame => hQuiet path project (hSame ▸ hIs), hIs⟩

theorem Sound.enter (h : Sound world) (phase : ScopePhase) (holder : Option Nat)
    (hQuiet : ∀ path project, world.phases request ≠ .created path project) (hPhase : phase.provisions = none)
    (hFound : ∀ project, phase.carries = some project → project ∈ world.projects)
    (hHolder : ∀ other, other ≠ request → world.holder = some other → holder = some other) :
    Sound { world.enter request phase with holder := holder } := by
  refine h.move rfl (List.Subset.refl _) h.bound (fun path hIs => by cases hPhase.symm.trans hIs) (fun other path hNot hIs => ?_)
    hFound (fun path hSpent => (h.spent_other hQuiet hSpent).imp_right .inr) h.right
  exact ⟨hHolder other hNot (h.alone other path hIs).1, (h.alone other path hIs).2⟩

theorem Sound.take (h : Sound world) (hFree : world.holder = none)
    (hQuiet : ∀ path project, world.phases request ≠ .created path project) (hNone : world.scopes.find? scopePath = none) :
    Sound { world.enter request (.checked scopePath) with holder := some request } := by
  refine h.move rfl (List.Subset.refl _) h.bound ?_ (fun other path _ hIs => ?_) nofun
    (fun path hSpent => (h.spent_other hQuiet hSpent).imp_right .inr) h.right
  · rintro _ ⟨⟩
    exact ⟨rfl, hNone⟩
  · cases hFree.symm.trans (h.alone other path hIs).1

theorem Sound.create (h : Sound world) (hPhase : world.phases request = .checked scopePath) :
    Sound { (world.enter request (.created scopePath project)).tell (.created scopePath) with
      projects := project :: world.projects } := by
  obtain ⟨hHas, hNone⟩ := h.alone request scopePath (by rw [hPhase]; rfl)
  have hQuiet : ∀ path project, world.phases request ≠ .created path project := fun _ _ hIs => by cases hPhase.symm.trans hIs
  have hAlone : ∀ other path, other ≠ request → (world.phases other).provisions ≠ some path := fun other path hNot hIs =>
    hNot (Option.some.inj ((h.alone other path hIs).1.symm.trans hHas))
  refine h.move rfl (subset_cons_self ..) (fun row hRow => mem_cons_of_mem _ (h.bound row hRow)) ?_
    (fun other path hNot hIs => absurd hIs (hAlone other path hNot)) ?_ (fun path hSpent => ?_) (h.right.cons nofun ?_ nofun)
  · rintro _ ⟨⟩
    exact ⟨hHas, hNone⟩
  · rintro _ ⟨⟩
    exact mem_cons_self
  · rcases spent_cons.mp hSpent with hIs | ⟨-, hSpent⟩
    · cases hIs
      exact .inr (.inl ⟨project, rfl⟩)
    · exact (h.spent_other hQuiet hSpent).imp_right .inr
  · rintro _ ⟨⟩ hSpent
    rcases h.spent_other hQuiet hSpent with ⟨row, hRow⟩ | ⟨other, created, hNot, hIs⟩
    · cases hNone.symm.trans hRow
    · exact hAlone other scopePath hNot (by rw [hIs]; rfl)

theorem Sound.answer (h : Sound world) (row : ScopeBinding) (hRow : world.scopes.find? scopePath = some row) :
    Sound (world.answer scopePath row.project) := by
  refine ⟨h.bound, h.alone, h.found, fun path hSpent => ?_, h.right.cons nofun nofun ?_⟩
  · exact h.spent path ((spent_cons.mp hSpent).resolve_left nofun).2
  · rintro _ _ _ _ ⟨⟩
    exact ⟨h.bound row (mem_of_find? hRow), by rw [hRow]; rfl⟩

theorem Sound.store {holder : Option Nat} (h : Sound world) (hCarries : (world.phases request).carries = some project)
    (hOthers : ∀ other, other ≠ request → (world.phases other).provisions ≠ some scopePath)
    (hCreated : ∀ path created, world.phases request = .created path created → path = scopePath)
    (hHolder : ∀ other path, other ≠ request → (world.phases other).provisions = some path → holder = some other)
    (hRecord : ∀ path, record ≠ .created path) (hRight : ProvisionsRight (record :: world.history)) :
    Sound { (world.enter request .idle).tell record with
      holder := holder, scopes := world.scopes.insertOrReplace ⟨scopePath, project⟩ } := by
  have hFind := find?_insertOrReplace world.scopes ⟨scopePath, project⟩
  refine h.move rfl (List.Subset.refl _) (fun row hRow => ?_) nofun (fun other path hNot hIs => ?_) nofun (fun path hSpent => ?_)
    hRight
  · rcases mem_insertOrReplace.mp hRow with rfl | ⟨hOld, -⟩
    · exact h.found request project hCarries
    · exact h.bound row hOld
  · refine ⟨hHolder other path hNot hIs, ?_⟩
    rw [hFind, if_neg fun hSame => hOthers other hNot (hIs.trans (congrArg some hSame.symm))]
    exact (h.alone other path hIs).2
  · rw [hFind]
    by_cases hSame : scopePath = path
    · exact .inl ⟨_, if_pos hSame⟩
    · rw [if_neg hSame]
      refine (h.spent path ((spent_cons.mp hSpent).resolve_left (hRecord path)).2).imp_right fun ⟨other, created, hIs⟩ => ?_
      exact .inr ⟨other, created, fun hOther => hSame (hCreated path created (hOther ▸ hIs)).symm, hIs⟩

theorem Sound.remove (h : Sound world) :
    Sound { world.tell (.removed scopePath) with scopes := world.scopes.erase scopePath } := by
  have hFind : ∀ path, world.scopes.find? path = none → (world.scopes.erase scopePath).find? path = none := by
    intro path hNone
    by_cases hSame : path = scopePath
    · rw [hSame]
      exact find?_erase_self ..
    · rw [find?_erase_of_ne _ hSame]
      exact hNone
  refine ⟨fun row hRow => h.bound row (mem_erase.mp hRow).1, fun other path hIs => ?_, h.found, fun path hSpent => ?_,
    h.right.cons nofun nofun nofun⟩
  · obtain ⟨hHas, hNone⟩ := h.alone other path hIs
    exact ⟨hHas, hFind path hNone⟩
  · obtain ⟨hOther, hSpent⟩ := (spent_cons.mp hSpent).resolve_left nofun
    rw [find?_erase_of_ne _ fun hSame : path = scopePath => hOther (congrArg _ hSame.symm)]
    exact h.spent path hSpent

theorem Sound.step {op : ScopeOp} (h : Sound world) (hApart : op.Apart world) : Sound (world.step autoProvision op) := by
  cases op with
  | provision request raw =>
    simp only [ScopeWorld.step]
    split
    · rename_i path hIdle _
      cases hRow : world.scopes.find? path with
      | some row => exact h.answer row hRow
      | none =>
        dsimp only
        split
        · exact h.enter (.waiting path) world.holder (fun _ _ hIs => by cases hIdle.symm.trans hIs) rfl (fun _ hIs => by cases hIs) fun _ _ hIs => hIs
        · exact h
    · exact h
  | lock request =>
    simp only [ScopeWorld.step]
    split
    · rename_i path hWaiting hFree
      have hQuiet : ∀ path project, world.phases request ≠ .created path project := fun _ _ hIs => by
        cases hWaiting.symm.trans hIs
      cases hRow : world.scopes.find? path with
      | some row => exact (h.enter .idle world.holder hQuiet rfl (fun _ hIs => by cases hIs) fun _ _ hIs => hIs).answer row hRow
      | none => exact h.take hFree hQuiet hRow
    · exact h
  | create request project =>
    simp only [ScopeWorld.step]
    split
    · rename_i path hChecked
      split
      · exact h
      · exact h.create hChecked
    · exact h
  | write request =>
    simp only [ScopeWorld.step]
    split
    · rename_i path project hCreated
      obtain ⟨hHas, hNone⟩ := h.alone request path (by rw [hCreated]; rfl)
      have hOnly : ∀ other path', other ≠ request → (world.phases other).provisions ≠ some path' := fun other path' hNot hIs =>
        hNot (Option.some.inj ((h.alone other path' hIs).1.symm.trans hHas))
      have hRight : ProvisionsRight (.provisioned path world.scopes :: world.history) := by
        refine h.right.cons ?_ (fun _ hIs => by cases hIs) (fun _ _ _ _ hIs => by cases hIs)
        rintro _ _ ⟨⟩
        exact hNone
      have hStored := @Sound.store (.provisioned path world.scopes) _ _ _ _ none h (by rw [hCreated]; rfl) (fun other hNot => hOnly other path hNot)
        (fun _ _ hIs => by cases hCreated.symm.trans hIs; rfl) (fun other path' hNot hIs => absurd hIs (hOnly other path' hNot))
        (fun _ hIs => by cases hIs) hRight
      exact hStored.answer ⟨path, project⟩ ((find?_insertOrReplace ..).trans (if_pos rfl))
    · exact h
  | put request raw project =>
    simp only [ScopeWorld.step]
    split
    · rename_i path hIdle _
      split
      · rename_i hFound
        refine h.enter (.binding path project) world.holder (fun _ _ hIs => by cases hIdle.symm.trans hIs) rfl ?_ fun _ _ hIs => hIs
        rintro _ ⟨⟩
        exact hFound
      · exact h
    · exact h
  | bind request =>
    simp only [ScopeWorld.step]
    split
    · rename_i path project hBinding
      exact h.store (by rw [hBinding]; rfl) (fun other _ => hApart path project hBinding other)
        (fun _ _ hIs => by cases hBinding.symm.trans hIs) (fun other path _ hIs => (h.alone other path hIs).1) (fun _ hIs => by cases hIs)
        (h.right.cons (fun _ _ hIs => by cases hIs) (fun _ hIs => by cases hIs) (fun _ _ _ _ hIs => by cases hIs))
    · exact h
  | remove raw =>
    simp only [ScopeWorld.step]
    split
    · exact h.remove
    · exact h
  | createProject project =>
    exact ⟨fun row hRow => mem_cons_of_mem _ (h.bound row hRow), h.alone,
      fun other carried hIs => mem_cons_of_mem _ (h.found other carried hIs), h.spent, h.right⟩
  | deleteProject project =>
    have hKept : ∀ other, other ∈ world.projects → other ≠ project → other ∈ world.projects.filter (· ≠ project) :=
      fun other hMem hOther => mem_filter.mpr ⟨hMem, decide_eq_true hOther⟩
    exact ⟨fun row hRow => hKept _ (h.bound row hRow) (hApart.1 row hRow), h.alone,
      fun other carried hIs => hKept _ (h.found other carried hIs) fun hSame => hApart.2 other (hSame ▸ hIs), h.spent, h.right⟩
  | fail request =>
    refine h.enter .idle _ hApart rfl (fun _ hIs => by cases hIs) fun other hOther hHas => ?_
    rw [if_neg fun hIs => hOther (Option.some.inj (hHas.symm.trans hIs))]
    exact hHas

theorem sound_run {ops : List ScopeOp} (h : Sound world) (hApart : AllApart autoProvision world ops) :
    Sound (run autoProvision world ops) := by
  induction ops generalizing world with
  | nil => exact h
  | cons op rest ih => exact ih (h.step hApart.1) hApart.2

/-- In a run in which no explicit binding, deletion or failure comes between the steps of a
provision, and no bound project is deleted, provisions are right. -/
theorem provisions_right {ops : List ScopeOp} (h : AllApart autoProvision start ops) :
    ProvisionsRight (run autoProvision start ops).history :=
  (sound_run sound_start h).right

theorem provisions_right_twice :
    ProvisionsRight (run true start [.provision 0 ['/', 'a'], .provision 1 ['/', 'a', '/'], .lock 1, .create 1 ⟨5⟩,
      .write 1, .lock 0]).history :=
  provisions_right ⟨trivial, trivial, trivial, trivial, trivial, trivial, trivial⟩

/-- An explicit binding is written between the second look of a provision and its write. -/
private def overtaken : ScopeWorld := run true start [.createProject ⟨1⟩, .provision 0 ['/', 'a'], .lock 0,
  .put 1 ['/', 'a'] ⟨1⟩, .bind 1, .create 0 ⟨5⟩, .write 0]

/-- The project that a path is bound to is deleted. -/
private def outlived : ScopeWorld := run true start [.createProject ⟨1⟩, .put 0 ['/', 'a'] ⟨1⟩, .bind 0,
  .deleteProject ⟨1⟩, .provision 0 ['/', 'a']]

theorem provision_replaces_binding : ¬ProvisionsRight overtaken.history ∧ ¬ProvisionsRight outlived.history := by
  refine ⟨fun h => ?_, fun h => ?_⟩
  · cases h.replacesNone ['/', 'a'] _ (.tail _ (.head _))
  · exact absurd (h.answers ['/', 'a'] ⟨1⟩ _ _ (.head _)).1 (by decide +kernel)

end ScopeWorld
end Daruma
