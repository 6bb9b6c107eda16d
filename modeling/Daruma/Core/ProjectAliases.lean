import Daruma.Core.Runs
import Daruma.Storage.FoldViews
import Mathlib

/-! The names of projects: the slugs that creations choose, and the aliases that renames
leave behind. -/
namespace Daruma

open List KeyedTable
open ProjectRepo (applyProjectEvent listAll Projects)

open ProjectCommands (slugifyTitle freeSlug)

namespace ProjectCommands

/-- The `n`-th slug that a creation tries. -/
def numbered (base : String) (n : Nat) : String := if n = 0 then base else s!"{base}-{n}"

theorem numbered_injective (base : String) : Function.Injective (numbered base) := by
  have hText : ∀ n : Nat, s!"{base}-{n}" = base ++ ("-" ++ n.repr) := by
    intro n
    show base ++ "-" ++ n.repr = _
    rw [String.append_assoc]
  have hLonger : ∀ n : Nat, base ≠ s!"{base}-{n}" := by
    intro n hSame
    have hLength := congrArg String.length hSame
    rw [hText, String.length_append, String.length_append] at hLength
    have hDash : "-".length = 1 := rfl
    omega
  intro first second h
  unfold numbered at h
  split at h
  · rename_i hFirst
    split at h
    · rename_i hSecond
      exact hFirst.trans hSecond.symm
    · exact absurd h (hLonger second)
  · split at h
    · exact absurd h.symm (hLonger first)
    · rw [hText, hText] at h
      exact Nat.repr_injective (String.append_right_inj "-" |>.1 (String.append_right_inj base |>.1 h))

theorem freeSlug_taken {taken : List String} {base : String} {tries suffix : Nat} (hSuffix : 0 < tries + suffix)
    (h : freeSlug taken base tries suffix ∈ taken) :
    ∀ n, suffix ≤ n → n ≤ suffix + tries → numbered base n ∈ taken := by
  induction tries generalizing suffix with
  | zero =>
    intro n hLe hGe
    obtain rfl : n = suffix := by omega
    rw [numbered, if_neg (by omega)]
    exact h
  | succ tries ih =>
    change (if numbered base suffix ∈ taken then freeSlug taken base tries (suffix + 1)
      else numbered base suffix) ∈ taken at h
    split at h
    · rename_i hTried
      intro n hLe hGe
      rcases Nat.eq_or_lt_of_le hLe with rfl | hLater
      · exact hTried
      · exact ih (by omega) h n hLater (by omega)
    · rename_i hFree
      exact absurd h hFree

theorem freeSlug_free (taken : List String) (base : String) : freeSlug taken base (taken.length + 1) 0 ∉ taken := by
  intro h
  have hTaken := freeSlug_taken (by omega) h
  have hNodup : ((List.range (taken.length + 1)).map (numbered base)).Nodup :=
    nodup_range.map (numbered_injective base)
  have hSubset : (List.range (taken.length + 1)).map (numbered base) ⊆ taken := by
    intro slug hMem
    obtain ⟨n, hRange, rfl⟩ := mem_map.mp hMem
    have hLt := mem_range.mp hRange
    exact hTaken n (Nat.zero_le n) (by omega)
  have hLength := (hNodup.subperm hSubset).length_le
  rw [length_map, length_range] at hLength
  omega

theorem createProject_free {db : Database} {env : Env} {title : String} {description : Option String}
    {events : List ProjectEvent} (h : createProject db env title description = .ok events) {project : Project}
    (hProject : .projectCreated project ∈ events) : ∀ other ∈ db.projects, other.slug ≠ project.slug := by
  unfold createProject at h
  obtain ⟨_, _, h⟩ := Outcome.bind_eq_ok.mp h
  cases h
  cases mem_singleton.1 hProject
  intro other hOther hSame
  have hTaken : other.slug ∈ (listAll db).map Project.slug := by
    refine mem_map_of_mem ?_
    rw [listAll, mem_orderBy, mem_rows]
    exact hOther
  rw [hSame] at hTaken
  exact freeSlug_free _ _ hTaken

end ProjectCommands

/-- A row of `project_identifier_aliases`. -/
structure ProjectAlias where
  name : String
  projectId : ProjectId
  createdAt : Timestamp
  deriving DecidableEq

abbrev ProjectAliases := KeyedTable String ProjectAlias ProjectAlias.name

namespace ProjectRepo

/-- `INSERT OR IGNORE`. -/
def insertAlias (createdAt : Timestamp) (projectId : ProjectId) (aliases : ProjectAliases) (name : String) :
    ProjectAliases :=
  if h : aliases.find? name = none then aliases.append ⟨name, projectId, createdAt⟩ h else aliases

/-- The identifiers that a rename records: the slug, the old title and the new one. -/
def renamed (project : Project) (title : String) : List String :=
  [project.slug, slugifyTitle project.title, slugifyTitle title]

/-- A project that is gone has no identifier to record. -/
def aliasProjectEvent (projects : Projects) (aliases : ProjectAliases) (occurredAt : Timestamp) :
    ProjectEvent → ProjectAliases
  | .projectUpdated projectId (some title) _ =>
    match projects.find? projectId with
    | none => aliases
    | some project => (renamed project title).foldl (insertAlias occurredAt projectId) aliases
  | _ => aliases

/-- A slug answers before an alias. -/
def findBySlug (projects : Projects) (aliases : ProjectAliases) (slug : String) : Option Project :=
  (projects.rows.find? fun project => project.slug = slug).or
    ((aliases.find? slug).bind fun row => projects.find? row.projectId)

end ProjectRepo

/-- The projects and their aliases, the events of commands that are not projected yet,
and the identifiers that projects have had so far. -/
structure ProjectNames where
  projects : Projects
  aliases : ProjectAliases
  inFlight : List ProjectEvent
  identified : List (ProjectId × String)

/-- A command reads the rows and decides its events, an event of a command is appended
and projected, or the creation of a project arrives from a replica. -/
inductive ProjectStep where
  | decide (tasks : Tasks) (env : Env) (command : ProjectCommand)
  | project (n : Nat) (envelope : EventEnvelope)
  | ingest (envelope : EventEnvelope) (project : Project)

namespace ProjectNames

open ProjectRepo (Projects renamed insertAlias aliasProjectEvent findBySlug)

def start : ProjectNames := ⟨.empty, .empty, [], []⟩

def identifiers (projects : Projects) : ProjectEvent → List (ProjectId × String)
  | .projectCreated project => [(project.id, project.slug)]
  | .projectUpdated projectId (some title) _ =>
    match projects.find? projectId with
    | none => []
    | some project => (renamed project title).map fun name => (projectId, name)
  | _ => []

def project (names : ProjectNames) (envelope : EventEnvelope) (event : ProjectEvent) : ProjectNames :=
  { names with
    projects := applyProjectEvent names.projects envelope event
    aliases := aliasProjectEvent names.projects names.aliases envelope.occurredAt event
    identified := names.identified ++ identifiers names.projects event }

def read (names : ProjectNames) (tasks : Tasks) : Database :=
  { Database.empty with projects := names.projects, tasks := tasks }

def next (config : Config) (names : ProjectNames) : ProjectStep → ProjectNames
  | .decide tasks env command =>
    match ProjectCommands.buildEvents config (names.read tasks) env command with
    | .ok events => { names with inFlight := names.inFlight ++ events }
    | .error _ => names
  | .project n envelope =>
    match names.inFlight[n]? with
    | some event => { names.project envelope event with inFlight := names.inFlight.eraseIdx n }
    | none => names
  | .ingest envelope project => names.project envelope (.projectCreated project)

def run (config : Config) (steps : List ProjectStep) : ProjectNames := steps.foldl (next config) start

def projected (names : ProjectNames) : ProjectStep → Option ProjectEvent
  | .decide .. => none
  | .project n _ => names.inFlight[n]?
  | .ingest _ project => some (.projectCreated project)

/-- A living project has the name as its slug or under its alias. -/
def Answers (projects : Projects) (aliases : ProjectAliases) (name : String) : Prop :=
  (∃ project ∈ projects, project.slug = name) ∨
    ∃ row ∈ aliases, row.name = name ∧ ∃ project ∈ projects, project.id = row.projectId

/-- A creation takes no slug of another project, and changes none: it repeats a living
project, or what a deleted one of its id was called is still answered. A rename meets no
alias of a project that is gone. A deletion leaves another project for each name that a
living project has had. -/
def Unambiguous (names : ProjectNames) : ProjectEvent → Prop
  | .projectCreated project =>
    (∀ other ∈ names.projects, other.slug = project.slug → other.id = project.id) ∧
      ((∃ old ∈ names.projects, old.id = project.id ∧ old.slug = project.slug) ∨
        (∀ old ∈ names.projects, old.id ≠ project.id) ∧ ∀ name, (project.id, name) ∈ names.identified →
          name = project.slug ∨ (∃ row ∈ names.aliases, row.name = name ∧ row.projectId = project.id) ∨
            Answers names.projects names.aliases name)
  | .projectUpdated projectId (some title) _ => ∀ project ∈ names.projects, project.id = projectId →
      ∀ name ∈ renamed project title, ∀ row ∈ names.aliases, row.name = name → Answers names.projects names.aliases name
  | .projectDeleted projectId => ∀ other ∈ names.projects, other.id ≠ projectId → ∀ name,
      (other.id, name) ∈ names.identified → Answers (names.projects.erase projectId) names.aliases name
  | _ => True

/-- No two projects have one slug, and a slug or identifier of a living project finds a
living project that has or had it. -/
structure Sound (names : ProjectNames) : Prop where
  distinct : ∀ first ∈ names.projects, ∀ second ∈ names.projects, first.slug = second.slug → first = second
  slug : ∀ project ∈ names.projects, findBySlug names.projects names.aliases project.slug = some project
  identifier : ∀ project ∈ names.projects, ∀ name, (project.id, name) ∈ names.identified →
    ∃ found ∈ names.projects, findBySlug names.projects names.aliases name = some found ∧
      (found.id, name) ∈ names.identified

/-- The slugs are unique, and what the rows say of a project is on record. -/
structure Known (names : ProjectNames) : Prop where
  rows : ProjectRepo.Sound names.projects
  slug : ∀ project ∈ names.projects, (project.id, project.slug) ∈ names.identified
  aliased : ∀ row ∈ names.aliases, (row.projectId, row.name) ∈ names.identified

def Answered (names : ProjectNames) : Prop := ∀ project ∈ names.projects, ∀ name,
  (project.id, name) ∈ names.identified → Answers names.projects names.aliases name

end ProjectNames

namespace ProjectRepo

variable {projects : Projects} {aliases : ProjectAliases} {project other : Project}

theorem upsertProject_self (projects : Projects) (project : Project) :
    ∃ row ∈ upsertProject projects project, row.id = project.id ∧ row.slug = project.slug :=
  ⟨_, mem_upsertProject.2 (.inl rfl), rfl, rfl⟩

theorem upsertProject_row (h : other ∈ upsertProject projects project) :
    (other.id = project.id ∧ other.slug = project.slug) ∨
      (other ∈ projects ∧ other.slug ≠ project.slug ∧ other.id ≠ project.id) := by
  rcases mem_upsertProject.1 h with rfl | hOther
  · exact .inl ⟨rfl, rfl⟩
  · exact .inr hOther

theorem upsertProject_stays (hFree : ∀ other ∈ projects, other.slug = project.slug → other.id = project.id)
    (hOther : other ∈ projects) : ∃ row ∈ upsertProject projects project, row.id = other.id ∧
      (other.id = project.id ∨ row = other) := by
  by_cases hIs : other.id = project.id
  · obtain ⟨row, hRow, hId, _⟩ := upsertProject_self projects project
    exact ⟨row, hRow, hId.trans hIs.symm, .inl hIs⟩
  · exact ⟨other, mem_upsertProject.2 (.inr ⟨hOther, fun hSlug => hIs (hFree other hOther hSlug), hIs⟩), rfl, .inr rfl⟩

variable {createdAt : Timestamp} {projectId : ProjectId} {row : ProjectAlias}

theorem insertAlias_row {name : String} (h : row ∈ insertAlias createdAt projectId aliases name) :
    row ∈ aliases ∨ (row.projectId = projectId ∧ row.name = name) := by
  unfold insertAlias at h
  split at h
  · rcases KeyedTable.mem_append.1 h with hOld | rfl
    · exact .inl hOld
    · exact .inr ⟨rfl, rfl⟩
  · exact .inl h

theorem insertAlias_keeps {name : String}
    (h : row ∈ aliases) : row ∈ insertAlias createdAt projectId aliases name := by
  unfold insertAlias
  split
  · exact KeyedTable.mem_append.2 (.inl h)
  · exact h

theorem insertAlias_named (createdAt : Timestamp) (projectId : ProjectId) (aliases : ProjectAliases) (name : String) :
    ∃ row ∈ insertAlias createdAt projectId aliases name, row.name = name := by
  unfold insertAlias
  split
  · exact ⟨_, mem_append.2 (.inr rfl), rfl⟩
  · rename_i hTaken
    obtain ⟨row, hRow⟩ := Option.ne_none_iff_exists'.1 hTaken
    exact ⟨row, mem_of_find? hRow, key_of_find? hRow⟩

theorem insertAliases_row {names : List String} (h : row ∈ names.foldl (insertAlias createdAt projectId) aliases) :
    row ∈ aliases ∨ (row.projectId = projectId ∧ row.name ∈ names) := by
  induction names generalizing aliases with
  | nil => exact .inl h
  | cons name rest ih =>
    rcases ih h with hEarlier | ⟨hOwner, hName⟩
    · rcases insertAlias_row hEarlier with hOld | ⟨hOwner, rfl⟩
      · exact .inl hOld
      · exact .inr ⟨hOwner, mem_cons_self⟩
    · exact .inr ⟨hOwner, mem_cons_of_mem _ hName⟩

theorem insertAliases_keeps {names : List String}
    (h : row ∈ aliases) : row ∈ names.foldl (insertAlias createdAt projectId) aliases := by
  induction names generalizing aliases with
  | nil => exact h
  | cons name rest ih => exact ih (insertAlias_keeps h)

theorem insertAliases_named {names : List String} {name : String}
    (h : name ∈ names) : ∃ row ∈ names.foldl (insertAlias createdAt projectId) aliases, row.name = name := by
  induction names generalizing aliases with
  | nil => exact absurd h not_mem_nil
  | cons first rest ih =>
    rcases mem_cons.1 h with rfl | hRest
    · obtain ⟨row, hRow, hName⟩ := insertAlias_named createdAt projectId aliases name
      have hKept : row ∈ rest.foldl (insertAlias createdAt projectId) (insertAlias createdAt projectId aliases name) :=
        insertAliases_keeps hRow
      exact ⟨row, hKept, hName⟩
    · exact ih hRest

end ProjectRepo

namespace ProjectNames

open ProjectRepo (Projects renamed insertAlias aliasProjectEvent findBySlug upsertProject upsertProject_self upsertProject_row
  upsertProject_stays insertAliases_row insertAliases_keeps insertAliases_named)

variable {config : Config} {names : ProjectNames} {projects : Projects} {aliases : ProjectAliases} {name : String}

theorem Known.unique (h : names.Known) : ∀ first ∈ names.projects, ∀ second ∈ names.projects,
    first.slug = second.slug → first = second :=
  fun first hFirst second hSecond hSlug => eq_of_key_eq hFirst hSecond (h.rows.slugs first hFirst second hSecond hSlug)

theorem Known.find_slug (h : names.Known) {project : Project} (hProject : project ∈ names.projects) :
    names.projects.rows.find? (fun other => other.slug = project.slug) = some project := by
  cases hFind : names.projects.rows.find? (fun other => other.slug = project.slug) with
  | none => exact absurd (decide_eq_true (Eq.refl project.slug)) (find?_eq_none.1 hFind project hProject)
  | some found =>
    have hSlug : found.slug = project.slug := by simpa using find?_some hFind
    exact congrArg some (h.unique found (mem_of_find?_eq_some hFind) project hProject hSlug)

theorem Known.findBySlug_slug (h : names.Known) {project : Project} (hProject : project ∈ names.projects) :
    findBySlug names.projects names.aliases project.slug = some project := by
  rw [findBySlug, h.find_slug hProject, Option.some_or]

theorem Known.finds (h : names.Known) (hAnswers : Answers names.projects names.aliases name) :
    ∃ found ∈ names.projects, findBySlug names.projects names.aliases name = some found ∧
      (found.id, name) ∈ names.identified := by
  by_cases hSlug : ∃ project ∈ names.projects, project.slug = name
  · obtain ⟨project, hProject, rfl⟩ := hSlug
    exact ⟨project, hProject, h.findBySlug_slug hProject, h.slug project hProject⟩
  · obtain ⟨row, hRow, rfl, project, hProject, hOwner⟩ := hAnswers.resolve_left hSlug
    have hNone : names.projects.rows.find? (fun other => other.slug = row.name) = none := by
      rw [find?_eq_none]
      intro other hOther hIs
      exact hSlug ⟨other, hOther, by simpa using hIs⟩
    refine ⟨project, hProject, ?_, ?_⟩
    · rw [findBySlug, hNone, Option.none_or, find?_of_mem hRow, Option.bind_some, ← hOwner,
        find?_of_mem hProject]
    · rw [hOwner]
      exact h.aliased row hRow

theorem sound_of_answered (h : names.Known) (hAnswered : names.Answered) : names.Sound :=
  ⟨h.unique, fun _ hProject => h.findBySlug_slug hProject,
    fun project hProject name hName => h.finds (hAnswered project hProject name hName)⟩

theorem Answers.upsert {project : Project} (h : Answers projects aliases name)
    (hFree : ∀ other ∈ projects, other.slug = project.slug → other.id = project.id)
    (hSame : ∀ old ∈ projects, old.id = project.id → old.slug = project.slug) :
    Answers (upsertProject projects project) aliases name := by
  rcases h with ⟨other, hOther, hSlug⟩ | ⟨row, hRow, hName, owner, hOwner, hId⟩
  · obtain ⟨written, hWritten, hWrittenId, hIs⟩ := upsertProject_stays hFree hOther
    rcases hIs with hIs | rfl
    · obtain ⟨self, hSelf, _, hSelfSlug⟩ := upsertProject_self projects project
      exact .inl ⟨self, hSelf, hSelfSlug.trans ((hSame other hOther hIs).symm.trans hSlug)⟩
    · exact .inl ⟨written, hWritten, hSlug⟩
  · obtain ⟨written, hWritten, hWrittenId, _⟩ := upsertProject_stays hFree hOwner
    exact .inr ⟨row, hRow, hName, written, hWritten, hWrittenId.trans hId⟩

theorem Answers.widened {wider : ProjectAliases} (h : Answers projects aliases name) (hWider : ∀ row ∈ aliases, row ∈ wider) :
    Answers projects wider name :=
  h.imp_right fun ⟨row, hRow, hFound⟩ => ⟨row, hWider row hRow, hFound⟩

section

variable {envelope : EventEnvelope} {event : ProjectEvent}

structure Writes (names : ProjectNames) (event : ProjectEvent) (written : Project) (after : ProjectNames) : Prop where
  projects : after.projects = upsertProject names.projects written
  identified : after.identified = names.identified ++ identifiers names.projects event
  slug : (written.id, written.slug) ∈ after.identified
  kept : ∀ row ∈ names.aliases, row ∈ after.aliases
  aliased : ∀ row ∈ after.aliases, row ∈ names.aliases ∨ (row.projectId, row.name) ∈ identifiers names.projects event
  own : ∀ entry ∈ identifiers names.projects event, entry.1 = written.id
  named : ∀ entry ∈ identifiers names.projects event, entry.2 = written.slug ∨ ∃ row ∈ after.aliases, row.name = entry.2

/-- What an event does: nothing, it writes a row, or it deletes one. -/
inductive Effect (names : ProjectNames) (event : ProjectEvent) (after : ProjectNames) : Prop where
  | none (same : after = names)
  | created (project : Project) (isCreated : event = .projectCreated project) (writes : Writes names event project after)
  | updated (old written : Project) (isOld : old ∈ names.projects) (id : written.id = old.id) (slug : written.slug = old.slug)
      (title : Option String) (description : Option (Option String))
      (isUpdated : event = .projectUpdated old.id title description) (writes : Writes names event written after)
  | deleted (projectId : ProjectId) (isDeleted : event = .projectDeleted projectId)
      (same : after = { names with projects := names.projects.erase projectId })

theorem identifiers_updated {old : Project} {title : Option String} {description : Option (Option String)}
    (hOld : old ∈ projects) {entry : ProjectId × String}
    (h : entry ∈ identifiers projects (.projectUpdated old.id title description)) :
    ∃ text, title = some text ∧ entry.1 = old.id ∧ entry.2 ∈ renamed old text := by
  unfold identifiers at h
  cases title with
  | none => exact absurd h not_mem_nil
  | some text =>
    dsimp only at h
    rw [find?_of_mem hOld] at h
    obtain ⟨name, hName, rfl⟩ := mem_map.1 h
    exact ⟨text, rfl, rfl, hName⟩

theorem Known.effect (h : names.Known) (envelope : EventEnvelope) (event : ProjectEvent) :
    Effect names event (names.project envelope event) := by
  cases event with
  | projectCreated project =>
    have hOnly : ∀ entry ∈ identifiers names.projects (.projectCreated project), entry = (project.id, project.slug) :=
      fun entry hEntry => mem_singleton.1 hEntry
    exact .created project rfl ⟨rfl, rfl, mem_append_right _ mem_cons_self, fun _ hRow => hRow,
      fun _ hRow => .inl hRow, fun entry hEntry => by rw [hOnly entry hEntry],
      fun entry hEntry => .inl (by rw [hOnly entry hEntry])⟩
  | projectUpdated projectId title description =>
    cases hFind : names.projects.find? projectId with
    | none =>
      apply Effect.none
      unfold project applyProjectEvent aliasProjectEvent identifiers
      cases title <;> simp only [hFind, append_nil]
    | some old =>
      have hOld := mem_of_find? hFind
      obtain rfl : old.id = projectId := key_of_find? hFind
      have hKnown : ∀ later, (old.id, old.slug) ∈ names.identified ++ later :=
        fun later => mem_append_left _ (h.slug old hOld)
      refine .updated old { old with
        title := title.getD old.title
        description := description.getD old.description
        updatedAt := envelope.occurredAt } hOld rfl rfl title description rfl ⟨?_, rfl, hKnown _, ?_, ?_, ?_, ?_⟩
      · unfold project applyProjectEvent
        dsimp only
        rw [hFind]
      · intro row hRow
        cases title with
        | none => exact hRow
        | some title =>
          unfold project aliasProjectEvent
          dsimp only
          rw [hFind]
          exact insertAliases_keeps hRow
      · intro row hRow
        cases title with
        | none => exact .inl hRow
        | some title =>
          unfold project aliasProjectEvent at hRow
          dsimp only at hRow
          rw [hFind] at hRow
          refine (insertAliases_row hRow).imp_right fun hNamed => ?_
          have hIs : identifiers names.projects (.projectUpdated old.id (some title) description) =
              (renamed old title).map fun name => (old.id, name) := by
            unfold identifiers
            dsimp only
            rw [hFind]
          exact hIs ▸ hNamed.1 ▸ mem_map_of_mem hNamed.2
      · intro entry hEntry
        obtain ⟨_, _, hOwner, _⟩ := identifiers_updated hOld hEntry
        exact hOwner
      · intro entry hEntry
        obtain ⟨text, rfl, _, hName⟩ := identifiers_updated hOld hEntry
        right
        unfold project aliasProjectEvent
        dsimp only
        rw [hFind]
        exact insertAliases_named hName
  | projectDeleted projectId =>
    exact .deleted projectId rfl (by simp [project, identifiers, applyProjectEvent, aliasProjectEvent])
  | projectSettingsChanged =>
    exact .none (by simp [project, identifiers, applyProjectEvent, aliasProjectEvent])

variable {written : Project} {after : ProjectNames}

theorem Writes.known (h : names.Known) (hWrites : Writes names event written after) : after.Known := by
  have hGrows : ∀ entry ∈ names.identified, entry ∈ after.identified := by
    intro entry hEntry
    rw [hWrites.identified]
    exact mem_append_left _ hEntry
  constructor
  · rw [hWrites.projects]
    exact h.rows.upsertProject written
  · intro row hRow
    rw [hWrites.projects] at hRow
    rcases upsertProject_row hRow with ⟨hId, hSlug⟩ | ⟨hOld, _, _⟩
    · rw [hId, hSlug]
      exact hWrites.slug
    · exact hGrows _ (h.slug row hOld)
  · intro row hRow
    rcases hWrites.aliased row hRow with hOld | hNew
    · exact hGrows _ (h.aliased row hOld)
    · rw [hWrites.identified]
      exact mem_append_right _ hNew

theorem Known.project (h : names.Known) (envelope : EventEnvelope) (event : ProjectEvent) :
    (names.project envelope event).Known := by
  cases h.effect envelope event with
  | none hSame => exact hSame.symm ▸ h
  | created project _ hWrites => exact hWrites.known h
  | updated old written _ _ _ _ _ _ hWrites => exact hWrites.known h
  | deleted projectId _ hSame =>
    rw [hSame]
    have hOld : ∀ {row : Project}, row ∈ names.projects.erase projectId → row ∈ names.projects :=
      fun hRow => (mem_erase.1 hRow).1
    exact ⟨⟨fun first hFirst second hSecond => h.rows.slugs first (hOld hFirst) second (hOld hSecond),
      fun row hRow => h.rows.tenants row (hOld hRow)⟩, fun row hRow => h.slug row (hOld hRow), h.aliased⟩

theorem Known.stays (h : names.Known) (hUnambiguous : names.Unambiguous event) {project : Project}
    (hProject : project ∈ names.projects) (hNotDeleted : event ≠ .projectDeleted project.id) :
    ∃ row ∈ (names.project envelope event).projects, row.id = project.id := by
  cases h.effect envelope event with
  | none hSame => exact hSame.symm ▸ ⟨project, hProject, rfl⟩
  | created created hIs hWrites =>
    subst hIs
    obtain ⟨row, hRow, hId, _⟩ := upsertProject_stays hUnambiguous.1 hProject
    exact ⟨row, hWrites.projects ▸ hRow, hId⟩
  | updated old written hOld hId hSlug _ _ _ hWrites =>
    have hFree : ∀ other ∈ names.projects, other.slug = written.slug → other.id = written.id := by
      intro other hOther hSame
      exact (h.rows.slugs other hOther old hOld (hSame.trans hSlug)).trans hId.symm
    obtain ⟨row, hRow, hIs, _⟩ := upsertProject_stays hFree hProject
    exact ⟨row, hWrites.projects ▸ hRow, hIs⟩
  | deleted projectId hIs hSame =>
    subst hIs
    rw [hSame]
    exact ⟨project, mem_erase.2 ⟨hProject, fun hId => hNotDeleted (by rw [hId])⟩, rfl⟩

theorem Writes.answered (hWrites : Writes names event written after)
    (hAnswered : names.Answered) (hFree : ∀ other ∈ names.projects, other.slug = written.slug → other.id = written.id)
    (hSame : ∀ old ∈ names.projects, old.id = written.id → old.slug = written.slug)
    (hOwn : ∀ name, (written.id, name) ∈ after.identified → name = written.slug ∨
      (∃ row ∈ after.aliases, row.name = name ∧ row.projectId = written.id) ∨ Answers names.projects names.aliases name) :
    after.Answered := by
  obtain ⟨self, hSelf, hSelfId, hSelfSlug⟩ := upsertProject_self names.projects written
  rw [← hWrites.projects] at hSelf
  have hKept : ∀ {name}, Answers names.projects names.aliases name → Answers after.projects after.aliases name := by
    intro name hAnswers
    rw [hWrites.projects]
    exact (hAnswers.upsert hFree hSame).widened hWrites.kept
  intro row hRow name hName
  rw [hWrites.projects] at hRow
  rcases upsertProject_row hRow with ⟨hId, _⟩ | ⟨hOld, _, hOther⟩
  · rw [hId] at hName
    rcases hOwn name hName with rfl | ⟨aliased, hAliased, hIs, hOwner⟩ | hAnswers
    · exact .inl ⟨self, hSelf, hSelfSlug⟩
    · exact .inr ⟨aliased, hAliased, hIs, self, hSelf, hSelfId.trans hOwner.symm⟩
    · exact hKept hAnswers
  · rw [hWrites.identified] at hName
    rcases mem_append.1 hName with hEarlier | hNew
    · exact hKept (hAnswered row hOld name hEarlier)
    · exact absurd (hWrites.own _ hNew) hOther

theorem Known.answered (h : names.Known) (hAnswered : names.Answered) (hUnambiguous : names.Unambiguous event)
    (envelope : EventEnvelope) : (names.project envelope event).Answered := by
  cases h.effect envelope event with
  | none hSame => exact hSame.symm ▸ hAnswered
  | created created hIs hWrites =>
    subst hIs
    obtain ⟨hFree, hLiving⟩ := hUnambiguous
    refine hWrites.answered hAnswered hFree ?_ ?_
    · intro old hOld hId
      rcases hLiving with ⟨found, hFound, hFoundId, hSlug⟩ | ⟨hNew, _⟩
      · have hIs : old = found := eq_of_key_eq hOld hFound (hId.trans hFoundId.symm)
        exact hIs ▸ hSlug
      · exact absurd hId (hNew old hOld)
    · intro name hName
      rw [hWrites.identified] at hName
      rcases mem_append.1 hName with hEarlier | hLast
      · rcases hLiving with ⟨found, hFound, hFoundId, _⟩ | ⟨_, hEach⟩
        · rw [← hFoundId] at hEarlier
          exact .inr (.inr (hAnswered found hFound name hEarlier))
        · rcases hEach name hEarlier with hSlug | ⟨row, hRow, hOwner⟩ | hAnswers
          · exact .inl hSlug
          · exact .inr (.inl ⟨row, hWrites.kept row hRow, hOwner⟩)
          · exact .inr (.inr hAnswers)
      · exact .inl (congrArg Prod.snd (mem_singleton.1 hLast))
  | updated old written hOld hId hSlug title description hIs hWrites =>
    subst hIs
    refine hWrites.answered hAnswered ?_ ?_ ?_
    · intro other hOther hSame
      exact (h.rows.slugs other hOther old hOld (hSame.trans hSlug)).trans hId.symm
    · intro other hOther hSame
      have hIs : other = old := eq_of_key_eq hOther hOld (hSame.trans hId)
      exact (congrArg Project.slug hIs).trans hSlug.symm
    · intro name hName
      rw [hWrites.identified] at hName
      rcases mem_append.1 hName with hEarlier | hNew
      · rw [hId] at hEarlier
        exact .inr (.inr (hAnswered old hOld name hEarlier))
      · rcases hWrites.named _ hNew with hIs | ⟨row, hRow, hIs⟩
        · exact .inl hIs
        · rcases hWrites.aliased row hRow with hBefore | hInserted
          · right
            right
            obtain ⟨text, rfl, _, hMem⟩ := identifiers_updated hOld hNew
            exact hUnambiguous old hOld rfl name hMem row hBefore hIs
          · exact .inr (.inl ⟨row, hRow, hIs, hWrites.own _ hInserted⟩)
  | deleted projectId hIs hSame =>
    subst hIs
    rw [hSame]
    intro row hRow name hName
    obtain ⟨hOld, hOther⟩ := mem_erase.1 hRow
    exact hUnambiguous row hOld hOther name hName

end

theorem next_of_projected {step : ProjectStep} {event : ProjectEvent} (h : names.projected step = some event) :
    ∃ envelope inFlight, next config names step = { names.project envelope event with inFlight := inFlight } := by
  cases step with
  | decide => cases h
  | project n envelope =>
    refine ⟨envelope, names.inFlight.eraseIdx n, ?_⟩
    change names.inFlight[n]? = some event at h
    simp only [next, h]
  | ingest envelope project =>
    cases h
    exact ⟨envelope, _, rfl⟩

theorem next_of_not_projected {step : ProjectStep} (h : names.projected step = none) :
    ∃ inFlight, next config names step = { names with inFlight := inFlight } := by
  cases step with
  | decide tasks env command =>
    unfold next
    dsimp only
    split
    · exact ⟨_, rfl⟩
    · exact ⟨_, rfl⟩
  | project n envelope =>
    change names.inFlight[n]? = none at h
    simp only [next, h]
    exact ⟨_, rfl⟩
  | ingest => cases h

def Clear (names : ProjectNames) (step : ProjectStep) : Prop :=
  ∀ event, names.projected step = some event → names.Unambiguous event

def AllClear (config : Config) (steps : List ProjectStep) : Prop :=
  ∀ earlier step later, steps = earlier ++ step :: later → (run config earlier).Clear step

theorem run_append (config : Config) (steps : List ProjectStep) (step : ProjectStep) :
    run config (steps ++ [step]) = next config (run config steps) step := by
  rw [run, foldl_append]
  rfl

theorem known_start : start.Known :=
  ⟨.empty, fun project hProject => absurd hProject (not_mem_empty project),
    fun row hRow => absurd hRow (not_mem_empty row)⟩

theorem Known.next (h : names.Known) (step : ProjectStep) : (next config names step).Known := by
  cases hProjected : names.projected step with
  | none =>
    obtain ⟨inFlight, hNext⟩ := @next_of_not_projected config _ _ hProjected
    rw [hNext]
    exact ⟨h.rows, h.slug, h.aliased⟩
  | some event =>
    obtain ⟨envelope, inFlight, hNext⟩ := @next_of_projected config _ _ _ hProjected
    have hProject := h.project envelope event
    rw [hNext]
    exact ⟨hProject.rows, hProject.slug, hProject.aliased⟩

theorem known_run (config : Config) (steps : List ProjectStep) : (run config steps).Known := by
  induction steps using List.reverseRecOn with
  | nil => exact known_start
  | append_singleton steps step ih =>
    rw [run_append]
    exact ih.next step

variable {steps : List ProjectStep} {step : ProjectStep}

theorem answered_run (h : AllClear config steps) : (run config steps).Answered := by
  induction steps using List.reverseRecOn with
  | nil => exact fun project hProject => absurd hProject (not_mem_empty project)
  | append_singleton steps step ih =>
    have hEarlier := ih fun earlier step' later hIs =>
      h earlier step' (later ++ [step]) (by rw [hIs, append_assoc, cons_append])
    have hClear := h steps step [] rfl
    rw [run_append]
    cases hProjected : (run config steps).projected step with
    | none =>
      obtain ⟨inFlight, hNext⟩ := @next_of_not_projected config _ _ hProjected
      rw [hNext]
      exact hEarlier
    | some event =>
      obtain ⟨envelope, inFlight, hNext⟩ := @next_of_projected config _ _ _ hProjected
      rw [hNext]
      exact (known_run config steps).answered hEarlier (hClear event hProjected) envelope

def Stays (config : Config) (names : ProjectNames) (step : ProjectStep) : Prop :=
  ∀ project ∈ names.projects, names.projected step ≠ some (.projectDeleted project.id) →
    ∃ row ∈ (next config names step).projects, row.id = project.id

theorem stays_of_clear (h : (run config steps).Clear step) : Stays config (run config steps) step := by
  intro project hProject hNotDeleted
  cases hProjected : (run config steps).projected step with
  | none =>
    obtain ⟨inFlight, hNext⟩ := @next_of_not_projected config _ _ hProjected
    rw [hNext]
    exact ⟨project, hProject, rfl⟩
  | some event =>
    obtain ⟨envelope, inFlight, hNext⟩ := @next_of_projected config _ _ _ hProjected
    rw [hNext]
    refine (known_run config steps).stays (h event hProjected) hProject fun hIs => hNotDeleted ?_
    rw [hProjected, hIs]

/-- The suffix loop of a creation ends, with a slug that no project has in the rows that the
creation read. Where every step of a
run is clear, no project disappears but by its own deletion, and in every state that is
reached the slugs are distinct and every slug and former identifier of a living project
finds a living project that has or had it. -/
theorem project_names (config : Config) (steps : List ProjectStep) (h : AllClear config steps) :
    (∀ taken base, freeSlug taken base (taken.length + 1) 0 ∉ taken) ∧
      (∀ db env title description events, ProjectCommands.createProject db env title description = .ok events →
        ∀ project, .projectCreated project ∈ events → ∀ other ∈ db.projects, other.slug ≠ project.slug) ∧
      (∀ earlier later, steps = earlier ++ later → (run config earlier).Sound) ∧
      ∀ earlier step later, steps = earlier ++ step :: later → Stays config (run config earlier) step := by
  refine ⟨ProjectCommands.freeSlug_free, ?_, ?_, ?_⟩
  · exact fun _ _ _ _ _ hCreated _ hMem => ProjectCommands.createProject_free hCreated hMem
  · rintro earlier later rfl
    refine sound_of_answered (known_run config earlier) (answered_run fun first step rest hIs => ?_)
    exact h first step (rest ++ later) (by rw [hIs, append_assoc, cons_append])
  · exact fun earlier step later hIs => stays_of_clear (h earlier step later hIs)

theorem AllClear.snoc (h : AllClear config steps)
    (hStep : (run config steps).Clear step) : AllClear config (steps ++ [step]) := by
  intro earlier step' later hIs
  rcases eq_nil_or_concat later with rfl | ⟨later, last, rfl⟩
  · obtain ⟨rfl, hSame⟩ := append_inj' hIs rfl
    cases hSame
    exact hStep
  · rw [concat_eq_append, ← cons_append, ← append_assoc] at hIs
    exact h earlier step' later (append_inj' hIs rfl).1

theorem AllClear.nil : AllClear config [] := fun _ _ _ hIs => by simp at hIs

private def nthProject (n : Nat) : ProjectStep :=
  .project 0 (EventEnvelope.new ⟨n⟩ n .anyUser (.project (.projectDeleted ⟨n⟩)))

private def decided (n : Nat) (command : ProjectCommand) : List ProjectStep :=
  [.decide .empty (Server.nthEnv n) command, nthProject n]

private def firstProject : ProjectId := (Server.nthEnv 0).fresh 0

private def lastProject : ProjectId := (Server.nthEnv 3).fresh 0

private def renamedRun : List ProjectStep :=
  decided 0 (.createProject "Alpha" none) ++ decided 1 (.updateProject firstProject (some "Beta") none)

private def isUpdate : Option ProjectEvent → Bool
  | some (.projectUpdated ..) => true
  | _ => false

private theorem clear_decide {tasks : Tasks} {env : Env} {command : ProjectCommand} :
    names.Clear (.decide tasks env command) := fun event hIs => by cases hIs

private theorem clear_first (hNone : names.projects.rows = []) (hIdentified : names.identified = []) :
    names.Clear step := by
  have hEmpty : ∀ project ∈ names.projects, False := by
    intro project hProject
    rw [← mem_rows, hNone] at hProject
    exact not_mem_nil hProject
  intro event _
  cases event with
  | projectCreated project =>
    refine ⟨fun other hOther => (hEmpty other hOther).elim, .inr ⟨fun old hOld => (hEmpty old hOld).elim, fun name hName => ?_⟩⟩
    rw [hIdentified] at hName
    exact absurd hName not_mem_nil
  | projectUpdated projectId title =>
    cases title with
    | none => exact trivial
    | some title => exact fun project hProject => (hEmpty project hProject).elim
  | projectDeleted => exact fun other hOther => (hEmpty other hOther).elim
  | projectSettingsChanged => exact trivial

/-- Before the first alias every rename is unambiguous. -/
private theorem clear_rename (hNone : names.aliases.rows = [])
    (hRename : isUpdate (names.projected step) = true) : names.Clear step := by
  intro event hIs
  rw [hIs] at hRename
  cases event with
  | projectUpdated projectId title =>
    cases title with
    | none => exact trivial
    | some title =>
      intro project _ _ name _ row hRow
      rw [← mem_rows, hNone] at hRow
      exact absurd hRow not_mem_nil
  | _ => cases hRename

theorem project_names_renamed : AllClear Server.engineConfig renamedRun ∧ (run Server.engineConfig renamedRun).Sound ∧
    (findBySlug (run Server.engineConfig renamedRun).projects (run Server.engineConfig renamedRun).aliases "beta").map
      Project.slug = some "alpha" := by
  have hFirst : AllClear Server.engineConfig (decided 0 (.createProject "Alpha" none)) :=
    AllClear.snoc (AllClear.snoc .nil clear_decide) (clear_first (by decide +kernel) (by decide +kernel))
  have hClear : AllClear Server.engineConfig renamedRun :=
    AllClear.snoc (hFirst.snoc clear_decide) (clear_rename (by decide +kernel) (by decide +kernel))
  exact ⟨hClear, (project_names Server.engineConfig renamedRun hClear).2.2.1 renamedRun [] (append_nil _).symm,
    by decide +kernel⟩

private def reusedName : List ProjectStep :=
  renamedRun ++ decided 2 (.deleteProject firstProject) ++ decided 3 (.createProject "Gamma" none) ++
    decided 4 (.updateProject lastProject (some "Beta") none)

/-- Two creations with one title, which both read the rows before either is projected. -/
private def sameTitle : List ProjectStep :=
  [.decide .empty (Server.nthEnv 0) (.createProject "Alpha" none),
    .decide .empty (Server.nthEnv 1) (.createProject "Alpha" none), nthProject 2]

/-- The former name of a deleted project does not find the living one that has it now, and
the second of two creations with one title takes the project of the first away. -/
theorem reused_name_lost : ¬(run Server.engineConfig reusedName).Sound ∧
    ¬Stays Server.engineConfig (run Server.engineConfig sameTitle) (nthProject 3) := by
  constructor
  · intro h
    have hSome : ∃ project ∈ (run Server.engineConfig reusedName).projects.rows,
        (project.id, "beta") ∈ (run Server.engineConfig reusedName).identified := by decide +kernel
    obtain ⟨project, hProject, hName⟩ := hSome
    obtain ⟨found, _, hFound, _⟩ := h.identifier project hProject "beta" hName
    have hNone : findBySlug (run Server.engineConfig reusedName).projects (run Server.engineConfig reusedName).aliases
        "beta" = none := by decide +kernel
    cases hNone.symm.trans hFound
  · intro h
    have hSome : (run Server.engineConfig sameTitle).projects.rows.any (fun project => project.id = firstProject) = true := by
      decide +kernel
    have hGone : (next Server.engineConfig (run Server.engineConfig sameTitle) (nthProject 3)).projects.rows.any
        (fun project => project.id = firstProject) = false := by decide +kernel
    obtain ⟨project, hProject, hId⟩ := any_eq_true.1 hSome
    have hId : project.id = firstProject := of_decide_eq_true hId
    have hCreates : (run Server.engineConfig sameTitle).inFlight.map (fun event => (identifiers .empty event).length) = [1] := by
      decide +kernel
    obtain ⟨row, hRow, hRowId⟩ := h project hProject (by
      intro hIs
      change (run Server.engineConfig sameTitle).inFlight[0]? = some _ at hIs
      have hMem := mem_of_getElem? hIs
      have hLength := mem_map_of_mem (f := fun event => (identifiers .empty event).length) hMem
      rw [hCreates] at hLength
      cases mem_singleton.1 hLength)
    exact absurd (any_eq_true.2 ⟨row, hRow, decide_eq_true (hRowId.trans hId)⟩) (by rw [hGone]; exact Bool.false_ne_true)

end ProjectNames
end Daruma
