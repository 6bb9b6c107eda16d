import Daruma.Routes.WorkspaceResolve

/-! What a root resolves to stays, in every run in which no request is overtaken and no
row of a project with a bound root is replaced. -/
namespace Daruma

open List KeyedTable
namespace WorkspaceRegistry

open LongestPrefix (Wins)
open ProjectRepo (upsertProject defaultTenantId)
open ProjectCommands (slugifyTitle)

section

variable {Owner : Type} {bindings : List (RootBinding Owner)} {path root : RootPath} {owner : Owner}

def Leads (bindings : List (RootBinding Owner)) (path : RootPath) (owner : Owner) : Prop :=
  (longest bindings path).map RootBinding.owner = some owner

theorem Leads.wins (h : Leads bindings path owner) :
    ∃ binding, Wins '/' RootBinding.base bindings path binding ∧ binding.owner = owner := by
  obtain ⟨binding, hLongest, hOwner⟩ := Option.map_eq_some_iff.1 h
  exact ⟨binding, LongestPrefix.wins_of_longest hLongest, hOwner⟩

theorem leads_of_wins {binding : RootBinding Owner} (h : Wins '/' RootBinding.base bindings path binding) :
    Leads bindings path binding.owner :=
  congrArg (Option.map RootBinding.owner) h.longest_eq

theorem Leads.mem (h : Leads bindings path owner) :
    ∃ binding ∈ bindings, binding.owner = owner ∧ inside path binding.base = true := by
  obtain ⟨binding, hWins, hOwner⟩ := h.wins
  exact ⟨binding, hWins.mem, hOwner, hWins.inside⟩

theorem Leads.upsertRoot {bound : Owner} (h : Leads bindings path owner)
    (hTakes : bound = owner ∨ inside path (trimRoot root) = false ∨
      ∀ binding, longest bindings path = some binding → (trimRoot root).length < binding.base.length) :
    Leads (upsertRoot bindings root bound) path owner := by
  obtain ⟨winner, hWins, hOwner⟩ := h.wins
  subst hOwner
  have hShort : bound = winner.owner ∨ inside path (trimRoot root) = false ∨
      (trimRoot root).length < winner.base.length := by
    rcases hTakes with hSame | hOutside | hShorter
    · exact .inl hSame
    · exact .inr (.inl hOutside)
    · exact .inr (.inr (hShorter winner hWins.longest_eq))
  unfold WorkspaceRegistry.upsertRoot
  split
  · have hBase : ∀ binding : RootBinding Owner,
        (if binding.rootPath = root then (⟨root, bound⟩ : RootBinding Owner) else binding).base = binding.base := by
      intro binding
      split
      · rename_i hRoot
        unfold RootBinding.base
        rw [hRoot]
      · rfl
    have hMapped := leads_of_wins (hWins.map hBase)
    have hKept : (if winner.rootPath = root then (⟨root, bound⟩ : RootBinding Owner) else winner).owner = winner.owner := by
      split
      · rename_i hRoot
        rcases hShort with hSame | hOutside | hShorter
        · exact hSame
        · have hInside : inside path winner.base = true := hWins.inside
          unfold RootBinding.base at hInside
          rw [hRoot, hOutside] at hInside
          cases hInside
        · unfold RootBinding.base at hShorter
          rw [hRoot] at hShorter
          exact absurd hShorter (Nat.lt_irrefl _)
      · rfl
    rw [hKept] at hMapped
    exact hMapped
  · by_cases hLonger : inside path (trimRoot root) = true ∧ winner.base.length < (trimRoot root).length
    · have hNew : Wins '/' RootBinding.base (bindings ++ [⟨root, bound⟩]) path ⟨root, bound⟩ :=
        Wins.of_append hLonger.1 fun other hMem hInside => Nat.lt_of_le_of_lt (hWins.le hMem hInside) hLonger.2
      have hOwner : bound = winner.owner := by
        rcases hShort with hSame | hOutside | hShorter
        · exact hSame
        · rw [hOutside] at hLonger
          exact absurd hLonger.1 Bool.false_ne_true
        · exact absurd hLonger.2 (Nat.lt_asymm hShorter)
      exact hOwner ▸ leads_of_wins hNew
    · apply leads_of_wins (hWins.append _)
      intro hInside
      exact Nat.le_of_not_lt fun hLt => hLonger ⟨hInside, hLt⟩

theorem Leads.filter (h : Leads bindings path owner) {keep : RootBinding Owner → Bool}
    (hKeep : ∀ binding, binding.owner = owner → keep binding = true) : Leads (bindings.filter keep) path owner := by
  obtain ⟨winner, hWins, hOwner⟩ := h.wins
  exact hOwner ▸ leads_of_wins (hWins.filter (hKeep winner hOwner))

end

variable {project : ProjectId}

theorem leads_upsertRoot {bindings : List (RootBinding ProjectId)} {root : RootPath}
    (hTrimmed : trimRoot root = root) (hUnbound : ∀ binding ∈ bindings, inside root binding.base = false) :
    Leads (upsertRoot bindings root project) root project := by
  have hNone : bindings.any (·.rootPath = root) = false := by
    rw [any_eq_false]
    intro binding hMem hRoot
    have hOutside := hUnbound binding hMem
    unfold RootBinding.base at hOutside
    rw [decide_eq_true_iff.1 hRoot, hTrimmed] at hOutside
    unfold inside at hOutside
    rw [LongestPrefix.inside_self] at hOutside
    cases hOutside
  unfold upsertRoot
  rw [hNone, if_neg (by decide)]
  have hWins : Wins '/' RootBinding.base (bindings ++ [⟨root, project⟩]) root ⟨root, project⟩ := by
    apply Wins.of_append
    · unfold RootBinding.base
      rw [hTrimmed]
      exact LongestPrefix.inside_self root
    · intro other hMem hInside
      have hOutside : LongestPrefix.inside '/' root other.base = false := hUnbound other hMem
      rw [hOutside] at hInside
      cases hInside
  exact leads_of_wins hWins

theorem Leads.upsertRoot_unbound {bindings : List (RootBinding ProjectId)} {root path : RootPath}
    {owner : ProjectId} (h : Leads bindings path owner)
    (hTrimmed : trimRoot root = root) (hUnbound : ∀ binding ∈ bindings, inside root binding.base = false) :
    Leads (WorkspaceRegistry.upsertRoot bindings root project) path owner := by
  apply h.upsertRoot
  cases hInside : inside path (trimRoot root) with
  | false => exact .inr (.inl rfl)
  | true =>
    apply Or.inr
    apply Or.inr
    intro binding hLongest
    have hWins := LongestPrefix.wins_of_longest hLongest
    apply Nat.lt_of_not_le
    intro hShort
    have hAbove : inside (trimRoot root) binding.base = true :=
      LongestPrefix.inside_of_inside hInside hWins.inside hShort
    rw [hTrimmed, hUnbound binding hWins.mem] at hAbove
    cases hAbove

variable {Q : Type}

/-- A request owes nothing, or has found the project of all that it owes. The workspace
that it binds to exists. -/
def Phase.Fits (tenants : List String) : Phase → Prop
  | .received _ => True
  | .found _ owed project => ∀ pledge ∈ owed, pledge.project = project
  | .missed _ owed | .checking _ owed _ | .naming _ owed => owed = []
  | .rooting _ owed workspace _ | .creating _ owed workspace | .binding _ owed workspace _ =>
    owed = [] ∧ workspace ∈ tenants

theorem Phase.Fits.mono {tenants later : List String} {phase : Phase} (h : phase.Fits tenants)
    (hSub : ∀ id ∈ tenants, id ∈ later) : phase.Fits later := by
  cases phase with
  | rooting | creating | binding => exact ⟨h.1, hSub _ h.2⟩
  | _ => exact h

structure Sound (registry : Registry Q) : Prop extends Stable registry where
  leads : ∀ pledge ∈ registry.pledged, Leads registry.projectRoots pledge.root pledge.project
  tenant : ∀ pledge ∈ registry.pledged, registry.tenantOf pledge.project = pledge.workspace
  phases : ∀ q phase, registry.requests q = some phase → phase.Fits registry.tenants
  reached : ∀ entry ∈ registry.made, (∃ q, (registry.requests q).bind Phase.bindsTo = some entry) ∨
    Leads registry.projectRoots entry.1 entry.2
  selfHosted : defaultTenantId ∈ registry.tenants
  workspaces : ∀ binding ∈ registry.workspaceRoots, binding.owner ∈ registry.tenants
  rows : ∀ id workspace, registry.tenantOf id = some workspace → workspace ∈ registry.tenants
  gifts : ∀ gift ∈ registry.given, gift.workspace ∈ registry.tenants

theorem sound_start : Sound (Registry.start : Registry Q) where
  answers := nofun
  made := nofun
  given := nofun
  settled := nofun
  leads := nofun
  tenant := nofun
  phases := nofun
  reached := nofun
  selfHosted := mem_singleton.2 rfl
  workspaces := nofun
  rows := nofun
  gifts := nofun

namespace Sound

variable {registry : Registry Q}

variable (h : Sound registry)

include h in
theorem owed {root : RootPath} {pledge : Pledge} (hMem : pledge ∈ registry.owedTo root) :
    Leads registry.projectRoots root pledge.project := by
  obtain ⟨hPledged, hAbove⟩ := mem_filter.1 hMem
  obtain ⟨hInside, hLonger⟩ := Bool.and_eq_true_iff.1 hAbove
  have hSame : longest registry.projectRoots root = longest registry.projectRoots pledge.root := by
    apply LongestPrefix.longest_below hInside
    intro binding hBinding hOther
    have hEither := all_eq_true.1 hLonger binding hBinding
    have hRoot : inside root binding.base = true := hOther
    rw [hRoot] at hEither
    simpa using hEither
  unfold Leads
  rw [hSame]
  exact h.leads pledge hPledged

section

variable [DecidableEq Q]

/-- A request that enters another phase, or ends, still stands for what it is about to bind. -/
theorem requests (h : Sound registry) (q : Q) (next : Option Phase) (answers : List Answer)
    (hFits : ∀ phase, next = some phase → phase.Fits registry.tenants)
    (hMade : ∀ entry ∈ registry.made, (registry.requests q).bind Phase.bindsTo = some entry →
      next.bind Phase.bindsTo = some entry ∨ Leads registry.projectRoots entry.1 entry.2)
    (hAnswers : ∀ answer ∈ answers, ∀ pledge ∈ answer.owed,
      answer.project = some pledge.project ∧ answer.workspace = pledge.workspace) :
    Sound { registry with
      requests := Function.update registry.requests q next, answers := registry.answers ++ answers } := by
  refine { h with
    answers := fun answer hMem => ?_
    phases := fun other phase hPhase => ?_
    reached := fun entry hMem => ?_ }
  · rcases mem_append.1 hMem with hOld | hNew
    · exact h.answers answer hOld
    · exact hAnswers answer hNew
  · have hEntered : Function.update registry.requests q next other = some phase := hPhase
    by_cases hSame : other = q
    · rw [hSame, Function.update_self] at hEntered
      exact hFits phase hEntered
    · rw [Function.update_of_ne hSame] at hEntered
      exact h.phases other phase hEntered
  · rcases h.reached entry hMem with ⟨other, hOther⟩ | hLeads
    · by_cases hSame : other = q
      · subst hSame
        rcases hMade entry hMem hOther with hNext | hLeads
        · refine .inl ⟨other, ?_⟩
          show (Function.update registry.requests other next other).bind Phase.bindsTo = some entry
          rw [Function.update_self]
          exact hNext
        · exact .inr hLeads
      · refine .inl ⟨other, ?_⟩
        show (Function.update registry.requests q next other).bind Phase.bindsTo = some entry
        rw [Function.update_of_ne hSame]
        exact hOther
    · exact .inr hLeads

theorem enter (h : Sound registry) {q : Q} {phase : Phase} (hFits : phase.Fits registry.tenants)
    (hOld : (registry.requests q).bind Phase.bindsTo = none) : Sound (registry.enter q phase) := by
  have hEntered := h.requests q (some phase) [] (fun _ hSame => Option.some.inj hSame ▸ hFits)
    (fun entry _ hBinds => by rw [hOld] at hBinds; cases hBinds) nofun
  rw [append_nil] at hEntered
  exact hEntered

theorem finish (h : Sound registry) (q : Q) (owed : List Pledge) (project : Option ProjectId) (workspace : Option String)
    (hMade : ∀ entry ∈ registry.made, (registry.requests q).bind Phase.bindsTo = some entry →
      Leads registry.projectRoots entry.1 entry.2)
    (hOwed : ∀ pledge ∈ owed, pledge ∈ registry.pledged → project = some pledge.project ∧ workspace = pledge.workspace) :
    Sound (registry.finish q owed project workspace) := by
  apply h.requests _ _ _ (fun _ hNone => by cases hNone) (fun entry hMem hBinds => .inr (hMade entry hMem hBinds))
  intro answer hMem pledge hPledge
  cases mem_singleton.1 hMem
  obtain ⟨hIn, hStill⟩ := mem_filter.1 hPledge
  exact hOwed pledge hIn (decide_eq_true_iff.1 hStill)

end

include h in
theorem pledge (new : Pledge) (hLeads : Leads registry.projectRoots new.root new.project)
    (hTenant : registry.tenantOf new.project = new.workspace) :
    Sound { registry with pledged := registry.pledged ++ [new] } := by
  refine { h with leads := fun other hMem => ?_, tenant := fun other hMem => ?_ }
  · rcases mem_append.1 hMem with hOld | hNew
    · exact h.leads other hOld
    · cases mem_singleton.1 hNew
      exact hLeads
  · rcases mem_append.1 hMem with hOld | hNew
    · exact h.tenant other hOld
    · cases mem_singleton.1 hNew
      exact hTenant

include h in
theorem forget (keepPledge : Pledge → Bool) (keepMade : RootPath × ProjectId → Bool) :
    Sound { registry with pledged := registry.pledged.filter keepPledge, made := registry.made.filter keepMade } := by
  refine { h with
    made := fun entry hMem other hOther => ?_
    leads := fun pledge hMem => h.leads pledge (mem_of_mem_filter hMem)
    tenant := fun pledge hMem => h.tenant pledge (mem_of_mem_filter hMem)
    reached := fun entry hMem => h.reached entry (mem_of_mem_filter hMem) }
  exact h.made entry (mem_of_mem_filter hMem) other (mem_of_mem_filter hOther)

include h in
theorem forgetMade (keep : RootPath × ProjectId → Bool) : Sound { registry with made := registry.made.filter keep } :=
  { h with
    made := fun entry hMem other hOther =>
      h.made entry (mem_of_mem_filter hMem) other (mem_of_mem_filter hOther)
    reached := fun entry hMem => h.reached entry (mem_of_mem_filter hMem) }

include h in
theorem make (entry : RootPath × ProjectId) (hNew : ∀ other ∈ registry.made, other.1 ≠ entry.1)
    (hReached : ∃ q, (registry.requests q).bind Phase.bindsTo = some entry) :
    Sound { registry with made := registry.made ++ [entry] } := by
  refine { h with made := fun left hLeft right hRight hSame => ?_, reached := fun other hMem => ?_ }
  · rcases mem_append.1 hLeft with hLeft | hLeft
    · rcases mem_append.1 hRight with hRight | hRight
      · exact h.made left hLeft right hRight hSame
      · cases mem_singleton.1 hRight
        exact absurd hSame (hNew left hLeft)
    · cases mem_singleton.1 hLeft
      rcases mem_append.1 hRight with hRight | hRight
      · exact absurd hSame.symm (hNew right hRight)
      · cases mem_singleton.1 hRight
        rfl
  · rcases mem_append.1 hMem with hOld | hNew
    · exact h.reached other hOld
    · cases mem_singleton.1 hNew
      exact .inl hReached

include h in
theorem insertTenant (id : String) : Sound (registry.insertTenant id) := by
  have hSub : ∀ other ∈ registry.tenants, other ∈ (registry.insertTenant id).tenants := by
    intro other hMem
    unfold Registry.insertTenant
    dsimp only
    split
    · exact hMem
    · exact mem_append_left _ hMem
  exact { h with
    phases := fun q phase hPhase => (h.phases q phase hPhase).mono hSub
    selfHosted := hSub _ h.selfHosted
    workspaces := fun binding hMem => hSub _ (h.workspaces binding hMem)
    rows := fun other workspace hTenant => hSub _ (h.rows other workspace hTenant)
    gifts := fun gift hMem => hSub _ (h.gifts gift hMem) }

theorem mem_insertTenant (registry : Registry Q) (id : String) : id ∈ (registry.insertTenant id).tenants := by
  unfold Registry.insertTenant
  dsimp only
  split
  · assumption
  · exact mem_append_right _ (mem_singleton.2 rfl)

variable {workspace title : String} {project : ProjectId} {description : Option String} {now : Timestamp} {q : Q}
  {request : Request}

include h in
theorem workspaceRoot {root : RootPath} (hMem : workspace ∈ registry.tenants) :
    Sound { registry with workspaceRoots := upsertRoot registry.workspaceRoots root workspace } := by
  refine { h with workspaces := fun binding hBinding => ?_ }
  have hIn : binding ∈ upsertRoot registry.workspaceRoots root workspace := hBinding
  unfold upsertRoot at hIn
  split at hIn
  · obtain ⟨old, hOld, hEq⟩ := mem_map.1 hIn
    split at hEq
    · rw [← hEq]
      exact hMem
    · exact hEq ▸ h.workspaces old hOld
  · rcases mem_append.1 hIn with hOld | hNew
    · exact h.workspaces binding hOld
    · cases mem_singleton.1 hNew
      exact hMem

include h in
theorem bindRoot {root : RootPath} (hPledged : ∀ pledge ∈ registry.pledged,
      Leads (upsertRoot registry.projectRoots root project) pledge.root pledge.project)
    (hMade : ∀ entry ∈ registry.made, Leads registry.projectRoots entry.1 entry.2 →
      Leads (upsertRoot registry.projectRoots root project) entry.1 entry.2) :
    Sound { registry with projectRoots := upsertRoot registry.projectRoots root project } := by
  refine { h with leads := hPledged, reached := fun entry hMem => ?_ }
  rcases h.reached entry hMem with hPending | hLeads
  · exact .inl hPending
  · exact .inr (hMade entry hMem hLeads)

theorem leads_of_not_takes {root path : RootPath} {owner : ProjectId}
    (hLeads : Leads registry.projectRoots path owner) (hTakes : registry.takes root project path owner = false) :
    Leads (upsertRoot registry.projectRoots root project) path owner := by
  apply hLeads.upsertRoot
  unfold Registry.takes at hTakes
  rcases Bool.and_eq_false_iff.1 hTakes with hFirst | hLonger
  · rcases Bool.and_eq_false_iff.1 hFirst with hOther | hOutside
    · exact .inl (by simpa using hOther : owner = project).symm
    · exact .inr (.inl hOutside)
  · apply Or.inr
    apply Or.inr
    intro binding hLongest
    rw [hLongest] at hLonger
    simpa using hLonger

include h in
theorem bindExplicitly (project : ProjectId) (root : RootPath) : Sound (registry.bindExplicitly project root) := by
  have hKept := h.forget (fun pledge => !registry.takes root project pledge.root pledge.project)
    fun entry => !registry.takes root project entry.1 entry.2
  apply hKept.bindRoot
  · intro pledge hMem
    obtain ⟨hPledged, hNot⟩ := mem_filter.1 hMem
    have hTakes : registry.takes root project pledge.root pledge.project = false := by simpa using hNot
    exact leads_of_not_takes (h.leads pledge hPledged) hTakes
  · intro entry hMem hLeads
    obtain ⟨_, hNot⟩ := mem_filter.1 hMem
    have hTakes : registry.takes root project entry.1 entry.2 = false := by simpa using hNot
    exact leads_of_not_takes hLeads hTakes

theorem find?_upsertProject (projects : ProjectRepo.Projects) (project : Project) (id : ProjectId) :
    (upsertProject projects project).find? id =
      if project.id = id then some { project with tenantId := some (project.tenantId.getD defaultTenantId) }
      else (projects.find? id).filter fun row => row.slug ≠ project.slug := by
  unfold upsertProject
  rw [KeyedTable.find?_insertOrReplace, KeyedTable.find?_filter]

theorem upsert_of_spares {project : Project} (hSpares : Spares registry project) :
    (registry.upsert project).projectRoots = registry.projectRoots ∧
      ∀ binding ∈ registry.projectRoots, (registry.upsert project).tenantOf binding.owner = registry.tenantOf binding.owner := by
  constructor
  · apply filter_eq_self.2
    intro binding hMem
    obtain ⟨hOther, hSlug⟩ := hSpares binding hMem
    show (!(registry.projects.find? binding.owner).any fun row => row.id = project.id || row.slug = project.slug) = true
    cases hRow : registry.projects.find? binding.owner with
    | none => rfl
    | some row =>
      rw [hRow] at hSlug
      have hId : row.id ≠ project.id := fun hSame => hOther ((key_of_find? hRow).symm.trans hSame)
      have hDiffers : row.slug ≠ project.slug := by simpa using hSlug
      simp [hId, hDiffers]
  · intro binding hMem
    obtain ⟨hOther, hSlug⟩ := hSpares binding hMem
    have hFind : (registry.upsert project).projects.find? binding.owner = registry.projects.find? binding.owner := by
      show (upsertProject registry.projects project).find? binding.owner = _
      rw [find?_upsertProject, if_neg hOther.symm]
      cases hRow : registry.projects.find? binding.owner with
      | none => rfl
      | some row =>
        rw [hRow] at hSlug
        exact Option.filter_some_pos hSlug
    unfold Registry.tenantOf
    rw [hFind]

theorem find?_upsert {project row : Project} {id : ProjectId} (h : (registry.upsert project).projects.find? id = some row) :
    (id = project.id ∧ row = { project with tenantId := some (project.tenantId.getD defaultTenantId) }) ∨
      (id ≠ project.id ∧ registry.projects.find? id = some row) := by
  have hFind : (upsertProject registry.projects project).find? id = some row := h
  rw [find?_upsertProject] at hFind
  split at hFind
  · rename_i hSame
    cases hFind
    exact .inl ⟨hSame.symm, rfl⟩
  · rename_i hOther
    exact .inr ⟨fun hSame => hOther hSame.symm, (Option.filter_eq_some_iff.1 hFind).1⟩

include h in
/-- The row of a project is written, its workspace and its triage flag being those that are on record. -/
theorem upsert {project : Project} (hSpares : Spares registry project)
    {settled : ProjectId → Option (Option String × Bool)}
    (hSettled : settled project.id = some (some (project.tenantId.getD defaultTenantId), project.triageEnabled))
    (hOthers : ∀ id, id ≠ project.id → settled id = registry.settled id)
    (hTenant : project.tenantId.getD defaultTenantId ∈ registry.tenants) :
    Sound { registry.upsert project with settled := settled } := by
  obtain ⟨hRoots, hTenants⟩ := upsert_of_spares hSpares
  refine { h with
    settled := fun id row hFind => ?_
    leads := fun pledge hMem => ?_
    tenant := fun pledge hMem => ?_
    reached := fun entry hMem => ?_
    rows := fun id workspace hWorkspace => ?_ }
  · rcases find?_upsert hFind with ⟨hSame, hRow⟩ | ⟨hOther, hRow⟩
    · subst hRow
      exact hSame ▸ hSettled
    · exact (hOthers id hOther).trans (h.settled id row hRow)
  · show Leads (registry.upsert project).projectRoots pledge.root pledge.project
    rw [hRoots]
    exact h.leads pledge hMem
  · obtain ⟨binding, hBinding, hOwner, _⟩ := (h.leads pledge hMem).mem
    rw [← h.tenant pledge hMem, ← hOwner]
    exact hTenants binding hBinding
  · rcases h.reached entry hMem with hPending | hLeads
    · exact .inl hPending
    · apply Or.inr
      show Leads (registry.upsert project).projectRoots entry.1 entry.2
      rw [hRoots]
      exact hLeads
  · obtain ⟨row, hFind, hRow⟩ := Option.bind_eq_some_iff.1 hWorkspace
    rcases find?_upsert hFind with ⟨_, hEq⟩ | ⟨_, hOld⟩
    · subst hEq
      exact Option.some.inj hRow ▸ hTenant
    · exact h.rows id workspace (Option.bind_eq_some_iff.2 ⟨row, hOld, hRow⟩)

include h in
theorem create (hSpares : Spares registry (registry.newProject title description now)) :
    Sound (registry.create title description now) := by
  have hWritten : Sound { registry.upsert (registry.newProject title description now) with
      settled := Function.update registry.settled ⟨registry.nextProject⟩ (some (some defaultTenantId, false)) } := by
    apply h.upsert hSpares
    · exact Function.update_self ..
    · exact fun id hOther => Function.update_of_ne hOther ..
    · exact h.selfHosted
  exact { hWritten with }

theorem find?_setTenant (registry : Registry Q) (project : ProjectId) (workspace : String) (id : ProjectId) :
    (registry.setTenant project workspace).projects.find? id =
      if project = id then (registry.projects.find? id).map fun row => { row with tenantId := some workspace }
      else registry.projects.find? id :=
  find?_modify registry.projects project id _ fun _ => rfl

theorem find?_setTriage (registry : Registry Q) (project : ProjectId) (enabled : Bool) (id : ProjectId) :
    (registry.setTriage project enabled).projects.find? id =
      if project = id then (registry.projects.find? id).map fun row => { row with triageEnabled := enabled }
      else registry.projects.find? id :=
  find?_modify registry.projects project id _ fun _ => rfl

include h in
theorem setTenant (hMem : workspace ∈ registry.tenants) (hFound : registry.projects.contains project = true)
    (hPledged : ∀ pledge ∈ registry.pledged, pledge.project = project → pledge.workspace = some workspace) :
    Sound (registry.setTenant project workspace) := by
  have hTenantOf : ∀ id, (registry.setTenant project workspace).tenantOf id =
      if project = id then some workspace else registry.tenantOf id := by
    intro id
    unfold Registry.tenantOf
    rw [find?_setTenant]
    split
    · rename_i hSame
      subst hSame
      obtain ⟨row, hRow⟩ := Option.isSome_iff_exists.1 hFound
      rw [hRow]
      rfl
    · rfl
  refine { h with
    settled := fun id row hFind => ?_
    tenant := fun pledge hMem' => ?_
    rows := fun id other hOther => ?_ }
  · rw [find?_setTenant] at hFind
    show Function.update registry.settled project _ id = _
    by_cases hSame : project = id
    · subst hSame
      rw [if_pos rfl] at hFind
      obtain ⟨old, hOld, hEq⟩ := Option.map_eq_some_iff.1 hFind
      rw [Function.update_self, hOld, ← hEq]
      rfl
    · rw [if_neg hSame] at hFind
      rw [Function.update_of_ne (Ne.symm hSame)]
      exact h.settled id row hFind
  · rw [hTenantOf]
    split
    · rename_i hSame
      exact (hPledged pledge hMem' hSame.symm).symm
    · exact h.tenant pledge hMem'
  · rw [hTenantOf] at hOther
    split at hOther
    · exact Option.some.inj hOther ▸ hMem
    · exact h.rows id other hOther

include h in
theorem setTriage (project : ProjectId) (enabled : Bool) : Sound (registry.setTriage project enabled) := by
  have hTenantOf : ∀ id, (registry.setTriage project enabled).tenantOf id = registry.tenantOf id := by
    intro id
    unfold Registry.tenantOf
    rw [find?_setTriage]
    split
    · rename_i hSame
      subst hSame
      cases registry.projects.find? project <;> rfl
    · rfl
  refine { h with
    settled := fun id row hFind => ?_
    tenant := fun pledge hMem => (hTenantOf _).trans (h.tenant pledge hMem)
    rows := fun id other hOther => h.rows id other ((hTenantOf id).symm.trans hOther) }
  rw [find?_setTriage] at hFind
  show Function.update registry.settled project _ id = _
  by_cases hSame : project = id
  · subst hSame
    rw [if_pos rfl] at hFind
    obtain ⟨old, hOld, hEq⟩ := Option.map_eq_some_iff.1 hFind
    rw [Function.update_self, hOld, ← hEq]
    rfl
  · rw [if_neg hSame] at hFind
    rw [Function.update_of_ne (Ne.symm hSame)]
    exact h.settled id row hFind

include h in
theorem delete (project : ProjectId) : Sound { registry with
      projects := registry.projects.erase project
      projectRoots := registry.projectRoots.filter fun binding => binding.owner ≠ project
      pledged := registry.pledged.filter fun pledge => pledge.project ≠ project
      made := registry.made.filter fun entry => entry.2 ≠ project } := by
  have hKept := h.forget (fun pledge => pledge.project ≠ project) fun entry => entry.2 ≠ project
  have hFind : ∀ {id}, id ≠ project → (registry.projects.erase project).find? id = registry.projects.find? id :=
    fun hOther => find?_erase_of_ne registry.projects hOther
  have hBindings : ∀ {path owner}, owner ≠ project → Leads registry.projectRoots path owner →
      Leads (registry.projectRoots.filter fun binding => binding.owner ≠ project) path owner := by
    intro path owner hOther hLeads
    exact hLeads.filter fun binding hOwner => decide_eq_true (hOwner ▸ hOther)
  have hErased : ∀ {id row}, (registry.projects.erase project).find? id = some row →
      registry.projects.find? id = some row := by
    intro id row hRow
    by_cases hSame : id = project
    · subst hSame
      rw [find?_erase_self] at hRow
      cases hRow
    · exact (hFind hSame).symm.trans hRow
  refine { hKept with
    settled := fun id row hRow => h.settled id row (hErased hRow)
    leads := fun pledge hMem => ?_
    tenant := fun pledge hMem => ?_
    reached := fun entry hMem => ?_
    rows := fun id workspace hWorkspace => ?_ }
  · obtain ⟨hPledged, hOther⟩ := mem_filter.1 hMem
    exact hBindings (decide_eq_true_iff.1 hOther) (h.leads pledge hPledged)
  · obtain ⟨hPledged, hOther⟩ := mem_filter.1 hMem
    show ((registry.projects.erase project).find? pledge.project).bind Project.tenantId = _
    rw [hFind (decide_eq_true_iff.1 hOther)]
    exact h.tenant pledge hPledged
  · obtain ⟨hMade, hOther⟩ := mem_filter.1 hMem
    rcases h.reached entry hMade with hPending | hLeads
    · exact .inl hPending
    · exact .inr (hBindings (decide_eq_true_iff.1 hOther) hLeads)
  · obtain ⟨row, hRow, hTenant⟩ := Option.bind_eq_some_iff.1 hWorkspace
    exact h.rows id workspace (Option.bind_eq_some_iff.2 ⟨row, hErased hRow, hTenant⟩)

include h in
theorem rootsOf_eq_nil (hNew : workspace ∉ registry.tenants) : registry.rootsOf workspace = [] := by
  have hWorkspaces : (registry.workspaceRoots.filter fun binding => binding.owner = workspace) = [] := by
    apply filter_eq_nil_iff.2
    intro binding hMem hOwner
    exact hNew (decide_eq_true_iff.1 hOwner ▸ h.workspaces binding hMem)
  have hProjects : (registry.projectRoots.filter fun binding => registry.tenantOf binding.owner = some workspace) = [] := by
    apply filter_eq_nil_iff.2
    intro binding hMem hTenant
    exact hNew (h.rows binding.owner workspace (decide_eq_true_iff.1 hTenant))
  have hGiven : (registry.given.filter fun gift => gift.workspace = workspace) = [] := by
    apply filter_eq_nil_iff.2
    intro gift hMem hGift
    exact hNew (decide_eq_true_iff.1 hGift ▸ h.gifts gift hMem)
  unfold Registry.rootsOf
  rw [hWorkspaces, hProjects, hGiven]
  rfl

include h in
theorem give (root : RootPath) (hNew : workspace ∉ registry.tenants) : Sound { registry.insertTenant workspace with
      given := registry.given ++ [Gift.mk root workspace (registry.rootsOf workspace)] } := by
  have hInserted := h.insertTenant workspace
  refine { hInserted with given := fun gift hMem other hOther => ?_, gifts := fun gift hMem => ?_ }
  · rcases mem_append.1 hMem with hOld | hGift
    · exact h.given gift hOld other hOther
    · cases mem_singleton.1 hGift
      have hHad : other ∈ registry.rootsOf workspace := hOther
      rw [h.rootsOf_eq_nil hNew] at hHad
      cases hHad
  · rcases mem_append.1 hMem with hOld | hGift
    · exact hInserted.gifts gift hOld
    · cases mem_singleton.1 hGift
      exact mem_insertTenant registry workspace

variable [DecidableEq Q]

include h in
theorem naming (hOld : (registry.requests q).bind Phase.bindsTo = none)
    (hNew : ∀ workspace ∈ validateWorkspaceId (slugifyTitle ((fileName request.root).getD "workspace")),
      workspace ∉ registry.tenants) : Sound (registry.nameWorkspace q request []) := by
  unfold Registry.nameWorkspace
  generalize validateWorkspaceId (slugifyTitle ((fileName request.root).getD "workspace")) = named at hNew
  cases named with
  | none =>
    apply h.finish _ _ _ _ _ (by exact nofun)
    intro entry _ hBinds
    rw [hOld] at hBinds
    cases hBinds
  | some workspace =>
    exact (h.give request.root (hNew workspace rfl)).enter ⟨rfl, mem_insertTenant registry workspace⟩ hOld

include h in
theorem creating (hMem : workspace ∈ registry.tenants)
    (hOld : (registry.requests q).bind Phase.bindsTo = none) (hUnbound : Unbound registry request.root)
    (hAlone : ∀ other, (registry.requests other).all (fun phase => phase.bindsTo.all (·.1 ≠ request.root)) = true)
    (hSpares : Spares registry (registry.newProject title description now)) :
    Sound (({ registry.create title description now with
      made := registry.made ++ [(request.root, ⟨registry.nextProject⟩)] } : Registry Q).enter q
        (.binding request [] workspace ⟨registry.nextProject⟩)) := by
  have hEntered : Sound ((registry.create title description now).enter q
      (.binding request [] workspace ⟨registry.nextProject⟩)) := (h.create hSpares).enter ⟨rfl, hMem⟩ hOld
  refine hEntered.make (request.root, ⟨registry.nextProject⟩) (fun entry hMade hSame => ?_) ⟨q, ?_⟩
  · rcases h.reached entry hMade with ⟨other, hOther⟩ | hLeads
    · obtain ⟨phase, hPhase, hBinds⟩ := Option.bind_eq_some_iff.1 hOther
      have hNot := hAlone other
      rw [hPhase, Option.all_some, hBinds, Option.all_some] at hNot
      exact decide_eq_true_iff.1 hNot hSame
    · obtain ⟨binding, hBinding, _, hInside⟩ := hLeads.mem
      rw [show entry.1 = request.root from hSame, hUnbound binding hBinding] at hInside
      cases hInside
  · show (Function.update registry.requests q _ q).bind Phase.bindsTo = _
    rw [Function.update_self]
    rfl

include h in
theorem makeProject (hMem : workspace ∈ registry.tenants) (hOld : (registry.requests q).bind Phase.bindsTo = none)
    (hCareful : Undisturbed registry now (.creating request [] workspace)) :
    Sound (registry.makeProject q now request [] workspace) := by
  obtain ⟨hUnbound, hAlone, hSpares⟩ := hCareful
  unfold Registry.makeProject
  by_cases hUpdating : registry.updating.isSome = true
  · rw [if_pos hUpdating]
    exact h
  · by_cases hTitle : request.title = ""
    · rw [if_neg hUpdating, if_pos hTitle]
      apply h.finish _ _ _ _ _ (by exact nofun)
      intro entry _ hBinds
      rw [hOld] at hBinds
      cases hBinds
    · rw [if_neg hUpdating, if_neg hTitle]
      exact h.creating hMem hOld hUnbound hAlone hSpares

include h in
theorem binding (hMem : workspace ∈ registry.tenants) (hFound : registry.projects.contains project = true)
    (hRequest : registry.requests q = some (.binding request [] workspace project))
    (hUnbound : Unbound registry request.root) (hNone : ∀ binding ∈ registry.projectRoots, binding.owner ≠ project) :
    Sound { (registry.setTenant project workspace).finish q [] (some project) (some workspace) with
      projectRoots := upsertRoot registry.projectRoots request.root project
      pledged := registry.pledged ++ [Pledge.mk request.root project (some workspace)] } := by
  have hSet : Sound (registry.setTenant project workspace) := by
    apply h.setTenant hMem hFound
    intro pledge hPledge hSame
    obtain ⟨binding, hBinding, hOwner, _⟩ := (h.leads pledge hPledge).mem
    exact absurd (hOwner.trans hSame) (hNone binding hBinding)
  have hLeads : Leads (upsertRoot registry.projectRoots request.root project) request.root project :=
    leads_upsertRoot request.trimmed hUnbound
  have hBound : Sound { registry.setTenant project workspace with
      projectRoots := upsertRoot registry.projectRoots request.root project } := by
    apply hSet.bindRoot
    · exact fun pledge hPledge => (h.leads pledge hPledge).upsertRoot_unbound request.trimmed hUnbound
    · exact fun entry _ hEntry => hEntry.upsertRoot_unbound request.trimmed hUnbound
  have hTenant : (registry.setTenant project workspace).tenantOf project = some workspace := by
    unfold Registry.tenantOf
    rw [find?_setTenant, if_pos rfl]
    obtain ⟨row, hRow⟩ := Option.isSome_iff_exists.1 hFound
    rw [hRow]
    rfl
  have hPledged := hBound.pledge ⟨request.root, project, some workspace⟩ hLeads hTenant
  refine hPledged.finish q [] (some project) (some workspace) (fun entry _ hBinds => ?_) (by exact nofun)
  have hEntry : (registry.requests q).bind Phase.bindsTo = some entry := hBinds
  rw [hRequest] at hEntry
  cases hEntry
  exact hLeads

theorem step (h : Sound registry) {q : Q} {now : Timestamp} {phase : Phase} (hRequest : registry.requests q = some phase)
    (hCareful : Undisturbed registry now phase) : Sound (registry.step q now phase) := by
  have hFits : phase.Fits registry.tenants := h.phases q phase hRequest
  have hTarget : (registry.requests q).bind Phase.bindsTo = phase.bindsTo := by rw [hRequest]; rfl
  have hEnds : phase.bindsTo = none → ∀ entry ∈ registry.made, (registry.requests q).bind Phase.bindsTo = some entry →
      Leads registry.projectRoots entry.1 entry.2 := by
    intro hNone entry _ hBinds
    rw [hTarget, hNone] at hBinds
    cases hBinds
  cases phase with
  | received request =>
    simp only [Registry.step, Registry.lookUp]
    split
    · rename_i binding hLongest
      apply h.enter _ hTarget
      intro pledge hMem
      have hLeads := h.owed hMem
      unfold Leads at hLeads
      rw [hLongest] at hLeads
      exact (Option.some.inj hLeads).symm
    · rename_i hLongest
      apply h.enter _ hTarget
      apply eq_nil_iff_forall_not_mem.2
      intro pledge hMem
      have hLeads := h.owed hMem
      unfold Leads at hLeads
      rw [hLongest] at hLeads
      cases hLeads
  | found request owed project =>
    have hAnswered : Sound (registry.finish q owed (some project) (registry.tenantOf project)) := by
      apply h.finish _ _ _ _ (hEnds rfl)
      intro pledge hMem hStill
      have hProject : pledge.project = project := hFits pledge hMem
      exact ⟨congrArg some hProject.symm, hProject ▸ h.tenant pledge hStill⟩
    simp only [Registry.step, Registry.answerFound]
    split
    · rename_i hPledges
      have hLeads : (longest registry.projectRoots request.root).map RootBinding.owner = some project :=
        decide_eq_true_iff.1 (Bool.and_eq_true_iff.1 hPledges).2
      exact hAnswered.pledge ⟨request.root, project, registry.tenantOf project⟩ hLeads rfl
    · exact hAnswered
  | missed request owed =>
    have hNone : ∀ pledge ∈ owed, ∀ {P : Prop}, P := fun pledge hMem => by rw [hFits] at hMem; cases hMem
    simp only [Registry.step, Registry.chooseWorkspace]
    split
    · exact h.finish _ _ _ _ (hEnds rfl) fun pledge hMem _ => hNone pledge hMem
    · exact h.enter hFits hTarget
    · split
      · exact h.enter hFits hTarget
      · split
        · exact h.enter hFits hTarget
        · exact h.finish _ _ _ _ (hEnds rfl) fun pledge hMem _ => hNone pledge hMem
  | checking request owed workspace =>
    have hNone : ∀ pledge ∈ owed, ∀ {P : Prop}, P := fun pledge hMem => by rw [hFits] at hMem; cases hMem
    simp only [Registry.step, Registry.checkWorkspace]
    split
    · rename_i hExists
      split
      · exact h.enter ⟨hFits, hExists⟩ hTarget
      · exact h.finish _ _ _ _ (hEnds rfl) fun pledge hMem _ => hNone pledge hMem
    · exact h.finish _ _ _ _ (hEnds rfl) fun pledge hMem _ => hNone pledge hMem
  | naming request owed =>
    have hOwed : owed = [] := hFits
    subst hOwed
    show Sound (registry.nameWorkspace q request [])
    exact h.naming hTarget hCareful
  | rooting request owed workspace created =>
    simp only [Registry.step, Registry.bindWorkspaceRoot]
    split
    · exact (h.workspaceRoot hFits.2).enter hFits hTarget
    · exact h.enter hFits hTarget
  | creating request owed workspace =>
    obtain ⟨hOwed, hMem⟩ := hFits
    subst hOwed
    show Sound (registry.makeProject q now request [] workspace)
    exact h.makeProject hMem hTarget hCareful
  | binding request owed workspace project =>
    obtain ⟨hOwed, hMem⟩ := hFits
    obtain ⟨hUnbound, hNone⟩ := hCareful
    subst hOwed
    simp only [Registry.step, Registry.bindProject]
    split
    · rename_i hFound
      exact h.binding hMem hFound hRequest hUnbound hNone
    · refine (h.forgetMade (· ≠ (request.root, project))).finish q [] none none (fun entry hMade hBinds => ?_)
        (fun _ hMem => absurd hMem not_mem_nil)
      have hEntry : (registry.requests q).bind Phase.bindsTo = some entry := hBinds
      rw [hTarget] at hEntry
      cases hEntry
      exact absurd rfl (decide_eq_true_iff.1 (mem_filter.1 hMade).2)

include h in
theorem after {move : Move Q} (hCareful : Careful registry move) : Sound (registry.after move) := by
  cases move with
  | resolve q body =>
    simp only [Registry.after]
    split
    · rename_i hFree
      split
      · exact h
      · apply h.enter (by trivial)
        rw [hFree]
        rfl
    · exact h
  | step q now =>
    simp only [Registry.after]
    simp only [Careful] at hCareful
    split
    · rename_i phase hRequest
      rw [hRequest] at hCareful
      exact h.step hRequest hCareful
    · exact h
  | createWorkspace id name rootPath =>
    simp only [Registry.after]
    split
    · split
      · rename_i id _
        split
        · exact (h.insertTenant id).workspaceRoot (mem_insertTenant registry id)
        · exact h.insertTenant id
      · exact h
    · exact h
  | moveProject project workspace rootPath =>
    simp only [Registry.after]
    split
    · rename_i workspace _
      split
      · rename_i hBoth
        have hMoved : Sound { registry.setTenant project workspace with
            pledged := registry.pledged.filter fun pledge =>
              pledge.project ≠ project || pledge.workspace = some workspace } := by
          have hKept : Sound { registry with pledged := registry.pledged.filter fun pledge =>
              pledge.project ≠ project || pledge.workspace = some workspace } :=
            { h with
              leads := fun pledge hMem => h.leads pledge (mem_of_mem_filter hMem)
              tenant := fun pledge hMem => h.tenant pledge (mem_of_mem_filter hMem) }
          apply hKept.setTenant hBoth.1 hBoth.2
          intro pledge hMem hSame
          have hEither := (mem_filter.1 hMem).2
          simpa [hSame] using hEither
        split
        · exact hMoved.bindExplicitly project _
        · exact hMoved
      · exact h
    · exact h
  | setTriage project enabled => exact h.setTriage project enabled
  | createProject title description now =>
    simp only [Registry.after]
    split
    · exact h
    · exact h.create hCareful
  | updateProject project title description now =>
    simp only [Registry.after]
    split
    · exact h
    · exact { h with }
  | writeUpdate =>
    simp only [Registry.after]
    simp only [Careful] at hCareful
    split
    · rename_i project hUpdating
      rw [hUpdating] at hCareful
      obtain ⟨hSpares, hSame⟩ := hCareful
      obtain ⟨row, hRow, hBoth⟩ := Option.map_eq_some_iff.1 hSame
      obtain ⟨hTenant, hTriage⟩ := Prod.mk.inj hBoth
      have hWritten : Sound { registry.upsert project with settled := registry.settled } := by
        apply h.upsert hSpares
        · rw [h.settled project.id row hRow, hTenant, hTriage]
        · exact fun _ _ => rfl
        · exact h.rows project.id _ (Option.bind_eq_some_iff.2 ⟨row, hRow, hTenant⟩)
      exact { hWritten with }
    · exact h
  | deleteProject project =>
    simp only [Registry.after]
    split
    · exact h
    · exact h.delete project

include h in
theorem run {moves : List (Move Q)} (hCareful : AllCareful registry moves) : Sound (registry.run moves) := by
  induction moves generalizing registry with
  | nil => exact h
  | cons move later ih => exact ih (h.after hCareful.1) hCareful.2

end Sound

/-- In every run whose moves are all careful, by any number of requests, what a root was
answered with stays, a root gets one project, an unknown root gets no workspace of an
unrelated one, and no event undoes the workspace or the triage flag of a project. -/
theorem resolution_is_stable [DecidableEq Q] {moves : List (Move Q)} (hCareful : AllCareful .start moves) :
    Stable (Registry.start.run moves) :=
  (sound_start.run hCareful).toStable

/-- A request runs alone, to its end. -/
def resolveAlone (q : Fin 2) (rootPath : String) : List (Move (Fin 2)) :=
  .resolve q ⟨rootPath, true, none⟩ :: List.replicate 6 (.step q 0)

/-- A root and a directory below it, with a project of another kind being renamed. -/
def twoRequests : List (Move (Fin 2)) :=
  resolveAlone 0 "/home/dev/acme" ++ resolveAlone 1 "/home/dev/acme/crates/core" ++
    [.createProject "Notes" none 0, .setTriage ⟨1⟩ true, .updateProject ⟨1⟩ (some "Journal") none 1, .writeUpdate]

theorem resolution_is_stable_of_two : AllCareful .start twoRequests ∧ Stable (Registry.start.run twoRequests) :=
  ⟨by decide +kernel, resolution_is_stable (by decide +kernel)⟩

/-- The project of a root is renamed, and the root is resolved again. -/
def renamed : List (Move (Fin 2)) :=
  resolveAlone 0 "/home/dev/acme" ++ [.updateProject ⟨0⟩ (some "Acme") none 1, .writeUpdate] ++
    resolveAlone 1 "/home/dev/acme"

/-- Two requests for a new root, step by step. -/
def twoAtOnce : List (Move (Fin 2)) :=
  [.resolve 0 ⟨"/home/dev/acme", true, none⟩, .resolve 1 ⟨"/home/dev/acme", true, none⟩] ++
    (List.replicate 6 [.step 0 0, .step 1 0]).flatten

def sameFolderName : List (Move (Fin 2)) :=
  resolveAlone 0 "/home/dev/acme/app" ++ resolveAlone 1 "/home/dev/other/app"

/-- The triage flag is set between the two statements of an update. -/
def staleUpdate : List (Move (Fin 2)) :=
  [.createProject "Notes" none 0, .updateProject ⟨0⟩ (some "Journal") none 1, .setTriage ⟨0⟩ true, .writeUpdate]

theorem Stable.settled_row {registry : Registry Q} (h : Stable registry) (id : ProjectId) :
    (registry.projects.find? id).all (fun row => registry.settled id = some (row.tenantId, row.triageEnabled)) = true := by
  cases hRow : registry.projects.find? id with
  | none => rfl
  | some row => exact decide_eq_true (h.settled id row hRow)

theorem resolution_is_unstable : ¬Stable (Registry.start.run renamed) ∧ ¬Stable (Registry.start.run twoAtOnce) ∧
      ¬Stable (Registry.start.run sameFolderName) ∧ ¬Stable (Registry.start.run staleUpdate) := by
  refine ⟨fun hStable => ?_, fun hStable => ?_, fun hStable => ?_, fun hStable => ?_⟩
  · exact absurd hStable.answers (by decide +kernel)
  · exact absurd hStable.made (by decide +kernel)
  · exact absurd hStable.given (by decide +kernel)
  · exact absurd (hStable.settled_row ⟨0⟩) (by decide +kernel)

end WorkspaceRegistry
end Daruma
