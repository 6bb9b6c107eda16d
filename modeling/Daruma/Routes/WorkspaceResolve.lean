import Daruma.Core.RecordCommands
import Mathlib.Data.Fintype.Basic

/-! From a filesystem root to its logical workspace and project. A request looks the root
up, and makes and binds what is missing, in transactions of their own; the routes write
columns of a project directly, and the events of a project replace its row. -/
namespace Daruma
namespace WorkspaceRegistry

open ProjectRepo (Projects upsertProject defaultTenantId)
open ProjectCommands (slugifyTitle freeSlug)

abbrev RootPath := List Char

/-- A row of `project_roots` or of `workspace_roots`. -/
structure RootBinding (Owner : Type) where
  rootPath : RootPath
  owner : Owner

def trimRoot (root : RootPath) : RootPath := trimEndChars '/' root

def RootBinding.base {Owner : Type} (binding : RootBinding Owner) : RootPath := trimRoot binding.rootPath

def inside (path base : RootPath) : Bool := LongestPrefix.inside '/' path base

/-- The longest bound root above a path. Lengths of prefixes of one path compare alike
in characters and in bytes. -/
def longest {Owner : Type} (bindings : List (RootBinding Owner)) (path : RootPath) : Option (RootBinding Owner) :=
  LongestPrefix.longest '/' RootBinding.base bindings path

def upsertRoot {Owner : Type} (bindings : List (RootBinding Owner)) (root : RootPath) (owner : Owner) :
    List (RootBinding Owner) :=
  if bindings.any (·.rootPath = root) then
    bindings.map fun binding => if binding.rootPath = root then ⟨root, owner⟩ else binding
  else bindings ++ [⟨root, owner⟩]

def validateWorkspaceId (id : String) : Option String :=
  let id := trim id
  if id = "" ∨ 80 < byteLength id ∨ ¬id.toList.all (fun c => c.isAlphanum || c = '-' || c = '_') then none else some id

def validateWorkspaceName (name : String) : Option String :=
  let trimmed := trim name
  if trimmed = "" ∨ 120 < byteLength trimmed then none else some trimmed

def cleanRootPath (path : Option String) : Option RootPath :=
  path.bind fun path => if trimChars path.toList = [] then none else some (trimChars path.toList)

def fileName (root : RootPath) : Option String :=
  match ((root.splitOn '/').filter fun component => component ≠ [] ∧ component ≠ ['.']).getLast? with
  | some component => if component = ['.', '.'] then none else some (String.ofList component)
  | none => none

structure ResolveBody where
  rootPath : String
  create : Bool
  workspaceId : Option String

structure Request where
  root : RootPath
  trimmed : trimRoot root = root
  create : Bool
  workspaceId : Option String

theorem trimRoot_trimRoot (root : RootPath) : trimRoot (trimRoot root) = trimRoot root := by
  unfold trimRoot trimEndChars
  rw [List.reverse_reverse, List.dropWhile_idempotent]

def ResolveBody.request (body : ResolveBody) : Request :=
  ⟨trimRoot (trimChars body.rootPath.toList), trimRoot_trimRoot _, body.create, body.workspaceId⟩

def Request.title (request : Request) : String := trim ((fileName request.root).getD "project")

def Request.description (request : Request) : Option String :=
  some s!"Auto-created for workspace root {String.ofList request.root}"

structure Pledge where
  root : RootPath
  project : ProjectId
  workspace : Option String
  deriving DecidableEq

/-- Where a request is: its lookups, and the writes that are left. `owed` is what was
answered before for the root, or for one above it, when the request looked it up. -/
inductive Phase where
  | received (request : Request)
  | found (request : Request) (owed : List Pledge) (project : ProjectId)
  | missed (request : Request) (owed : List Pledge)
  | checking (request : Request) (owed : List Pledge) (workspace : String)
  | naming (request : Request) (owed : List Pledge)
  | rooting (request : Request) (owed : List Pledge) (workspace : String) (created : Bool)
  | creating (request : Request) (owed : List Pledge) (workspace : String)
  | binding (request : Request) (owed : List Pledge) (workspace : String) (project : ProjectId)

structure Answer where
  owed : List Pledge
  project : Option ProjectId
  workspace : Option String

structure Gift where
  root : RootPath
  workspace : String
  had : List RootPath

/-- The tables, the update of a project that is under way, and the requests. `pledged`,
`answers`, `made` (the project that was made for a root), `given` and `settled` (the
workspace and the triage flag that were set last) record what happened; no step reads them. -/
structure Registry (Q : Type) where
  tenants : List String
  projects : Projects
  projectRoots : List (RootBinding ProjectId)
  workspaceRoots : List (RootBinding String)
  nextProject : Nat
  updating : Option Project
  requests : Q → Option Phase
  pledged : List Pledge
  answers : List Answer
  made : List (RootPath × ProjectId)
  given : List Gift
  settled : ProjectId → Option (Option String × Bool)

variable {Q : Type}

def Registry.start : Registry Q :=
  ⟨[defaultTenantId], .empty, [], [], 0, none, fun _ => none, [], [], [], [], fun _ => none⟩

inductive Move (Q : Type) where
  | resolve (q : Q) (body : ResolveBody)
  | step (q : Q) (now : Timestamp)
  | createWorkspace (id : Option String) (name : String) (rootPath : Option String)
  | moveProject (project : ProjectId) (workspace : String) (rootPath : Option String)
  | setTriage (project : ProjectId) (enabled : Bool)
  | createProject (title : String) (description : Option String) (now : Timestamp)
  | updateProject (project : ProjectId) (title : Option String) (description : Option (Option String)) (now : Timestamp)
  | writeUpdate
  | deleteProject (project : ProjectId)

namespace Registry

def tenantOf (registry : Registry Q) (project : ProjectId) : Option String :=
  (registry.projects.find? project).bind Project.tenantId

/-- The row of a project replaces those of its identifier and of its slug, and the
bindings of what is replaced go with it. -/
def upsert (registry : Registry Q) (project : Project) : Registry Q :=
  let replaced (id : ProjectId) : Bool :=
    (registry.projects.find? id).any fun row => row.id = project.id || row.slug = project.slug
  { registry with
    projects := upsertProject registry.projects project
    projectRoots := registry.projectRoots.filter fun binding => !replaced binding.owner }

/-- The project that the next creation makes. -/
def newProject (registry : Registry Q) (title : String) (description : Option String) (now : Timestamp) : Project :=
  let existing := registry.projects.rows.map Project.slug
  ⟨⟨registry.nextProject⟩, some defaultTenantId, freeSlug existing (slugifyTitle title) (existing.length + 1) 0,
    title, description, false, now, now⟩

def create (registry : Registry Q) (title : String) (description : Option String) (now : Timestamp) : Registry Q :=
  let project := registry.newProject title description now
  { registry.upsert project with
    nextProject := registry.nextProject + 1
    settled := Function.update registry.settled project.id (some (project.tenantId, project.triageEnabled)) }

def setTenant (registry : Registry Q) (project : ProjectId) (workspace : String) : Registry Q :=
  { registry with
    projects := registry.projects.modify project fun row => { row with tenantId := some workspace }
    settled := Function.update registry.settled project
      ((registry.projects.find? project).map fun row => (some workspace, row.triageEnabled)) }

def setTriage (registry : Registry Q) (project : ProjectId) (enabled : Bool) : Registry Q :=
  { registry with
    projects := registry.projects.modify project fun row => { row with triageEnabled := enabled }
    settled := Function.update registry.settled project
      ((registry.projects.find? project).map fun row => (row.tenantId, enabled)) }

def insertTenant (registry : Registry Q) (id : String) : Registry Q :=
  { registry with tenants := if id ∈ registry.tenants then registry.tenants else registry.tenants ++ [id] }

def enter (registry : Registry Q) [DecidableEq Q] (q : Q) (phase : Phase) : Registry Q :=
  { registry with requests := Function.update registry.requests q (some phase) }

/-- A request ends. -/
def finish (registry : Registry Q) [DecidableEq Q] (q : Q) (owed : List Pledge) (project : Option ProjectId)
    (workspace : Option String) : Registry Q :=
  { registry with
    requests := Function.update registry.requests q none
    answers := registry.answers ++ [⟨owed.filter (· ∈ registry.pledged), project, workspace⟩] }

/-- What was answered before for the root, or for one above it with no longer bound root between. -/
def owedTo (registry : Registry Q) (root : RootPath) : List Pledge :=
  registry.pledged.filter fun pledge => inside root pledge.root &&
    registry.projectRoots.all fun binding =>
      !inside root binding.base || binding.base.length ≤ pledge.root.length

def rootsOf (registry : Registry Q) (workspace : String) : List RootPath :=
  ((registry.workspaceRoots.filter fun binding => binding.owner = workspace).map RootBinding.base) ++
    ((registry.projectRoots.filter fun binding => registry.tenantOf binding.owner = some workspace).map RootBinding.base) ++
    (registry.given.filter fun gift => gift.workspace = workspace).map Gift.root

variable [DecidableEq Q]

/-- The longest bound root above the root that is asked for. -/
def lookUp (registry : Registry Q) (q : Q) (request : Request) : Registry Q :=
  match longest registry.projectRoots request.root with
  | some binding => registry.enter q (.found request (registry.owedTo request.root) binding.owner)
  | none => registry.enter q (.missed request (registry.owedTo request.root))

def answerFound (registry : Registry Q) (q : Q) (request : Request) (owed : List Pledge) (project : ProjectId) : Registry Q :=
  let workspace := registry.tenantOf project
  let answered := registry.finish q owed (some project) workspace
  if request.create && (longest registry.projectRoots request.root).map RootBinding.owner = some project then
    { answered with pledged := registry.pledged ++ [Pledge.mk request.root project workspace] }
  else answered

/-- The workspace that is asked for, or that of the longest root above. -/
def chooseWorkspace (registry : Registry Q) (q : Q) (request : Request) (owed : List Pledge) : Registry Q :=
  match request.workspaceId.map validateWorkspaceId with
  | some none => registry.finish q owed none none
  | some (some workspace) => registry.enter q (.checking request owed workspace)
  | none => match longest registry.workspaceRoots request.root with
      | some binding => registry.enter q (.checking request owed binding.owner)
      | none => if request.create then registry.enter q (.naming request owed) else registry.finish q owed none none

def checkWorkspace (registry : Registry Q) (q : Q) (request : Request) (owed : List Pledge) (workspace : String) :
    Registry Q :=
  if workspace ∈ registry.tenants then
    if request.create then registry.enter q (.rooting request owed workspace false)
    else registry.finish q owed none (some workspace)
  else registry.finish q owed none none

/-- An unknown root gets the workspace that is named after its folder. -/
def nameWorkspace (registry : Registry Q) (q : Q) (request : Request) (owed : List Pledge) : Registry Q :=
  match validateWorkspaceId (slugifyTitle ((fileName request.root).getD "workspace")) with
  | some workspace =>
    { registry.insertTenant workspace with
      given := registry.given ++ [Gift.mk request.root workspace (registry.rootsOf workspace)] }.enter q
      (.rooting request owed workspace true)
  | none => registry.finish q owed none none

def bindWorkspaceRoot (registry : Registry Q) (q : Q) (request : Request) (owed : List Pledge) (workspace : String)
    (created : Bool) : Registry Q :=
  { registry with
    workspaceRoots := if created || request.workspaceId.isSome then
        upsertRoot registry.workspaceRoots request.root workspace
      else registry.workspaceRoots }.enter q (.creating request owed workspace)

def makeProject (registry : Registry Q) (q : Q) (now : Timestamp) (request : Request) (owed : List Pledge)
    (workspace : String) : Registry Q :=
  if registry.updating.isSome then registry
  else if request.title = "" then registry.finish q owed none none
  else
    let project : ProjectId := ⟨registry.nextProject⟩
    { registry.create request.title request.description now with
      made := registry.made ++ [(request.root, project)] }.enter q (.binding request owed workspace project)

/-- The root is bound to the project, if that is still there. -/
def bindProject (registry : Registry Q) (q : Q) (request : Request) (owed : List Pledge) (workspace : String)
    (project : ProjectId) : Registry Q :=
  if registry.projects.contains project then
    { (registry.setTenant project workspace).finish q owed (some project) (some workspace) with
      projectRoots := upsertRoot registry.projectRoots request.root project
      pledged := registry.pledged ++ [Pledge.mk request.root project (some workspace)] }
  else { registry.finish q owed none none with made := registry.made.filter (· ≠ (request.root, project)) }

/-- The next transaction of a request. -/
def step (registry : Registry Q) (q : Q) (now : Timestamp) : Phase → Registry Q
  | .received request => registry.lookUp q request
  | .found request owed project => registry.answerFound q request owed project
  | .missed request owed => registry.chooseWorkspace q request owed
  | .checking request owed workspace => registry.checkWorkspace q request owed workspace
  | .naming request owed => registry.nameWorkspace q request owed
  | .rooting request owed workspace created => registry.bindWorkspaceRoot q request owed workspace created
  | .creating request owed workspace => registry.makeProject q now request owed workspace
  | .binding request owed workspace project => registry.bindProject q request owed workspace project

def takes (registry : Registry Q) (root : RootPath) (project : ProjectId) (path : RootPath) (of : ProjectId) : Bool :=
  of ≠ project && inside path (trimRoot root) &&
    (longest registry.projectRoots path).all fun binding => binding.base.length ≤ (trimRoot root).length

/-- A root is bound to a project by its own route. -/
def bindExplicitly (registry : Registry Q) (project : ProjectId) (root : RootPath) : Registry Q :=
  { registry with
    projectRoots := upsertRoot registry.projectRoots root project
    pledged := registry.pledged.filter fun pledge => !registry.takes root project pledge.root pledge.project
    made := registry.made.filter fun entry => !registry.takes root project entry.1 entry.2 }

/-- The tables after a move. What cannot be done changes nothing. A command waits for the
update that another one has under way. -/
def after (registry : Registry Q) : Move Q → Registry Q
  | .resolve q body => match registry.requests q with
      | none => if body.request.root = [] then registry else registry.enter q (.received body.request)
      | some _ => registry
  | .step q now => match registry.requests q with
      | some phase => registry.step q now phase
      | none => registry
  | .createWorkspace id name rootPath => match validateWorkspaceName name with
      | some name => match (id.map validateWorkspaceId).getD (some (slugifyTitle name)) with
          | some id =>
            { registry.insertTenant id with
              workspaceRoots := match cleanRootPath rootPath with
                | some root => upsertRoot registry.workspaceRoots root id
                | none => registry.workspaceRoots }
          | none => registry
      | none => registry
  | .moveProject project workspace rootPath => match validateWorkspaceId workspace with
      | some workspace =>
        if workspace ∈ registry.tenants ∧ registry.projects.contains project then
          let moved := { registry.setTenant project workspace with
            pledged := registry.pledged.filter fun pledge => pledge.project ≠ project || pledge.workspace = some workspace }
          match cleanRootPath rootPath with
          | some root => moved.bindExplicitly project root
          | none => moved
        else registry
      | none => registry
  | .setTriage project enabled => registry.setTriage project enabled
  | .createProject title description now =>
    if registry.updating.isSome || trim title = "" then registry else registry.create (trim title) description now
  | .updateProject project title description now =>
    if registry.updating.isSome || !(title.isSome || description.isSome) then registry
    else { registry with updating := (registry.projects.find? project).map fun row =>
      { row with title := title.getD row.title, description := description.getD row.description, updatedAt := now } }
  | .writeUpdate => match registry.updating with
      | some project => { registry.upsert project with updating := none }
      | none => registry
  | .deleteProject project =>
    if registry.updating.isSome then registry
    else { registry with
      projects := registry.projects.erase project
      projectRoots := registry.projectRoots.filter fun binding => binding.owner ≠ project
      pledged := registry.pledged.filter fun pledge => pledge.project ≠ project
      made := registry.made.filter fun entry => entry.2 ≠ project }

def run (registry : Registry Q) (moves : List (Move Q)) : Registry Q := moves.foldl after registry

end Registry

def Phase.bindsTo : Phase → Option (RootPath × ProjectId)
  | .binding request _ _ project => some (request.root, project)
  | _ => none

/-- What was answered for a root is answered again, a root gets one project, an unknown
root gets no workspace of an unrelated one, and a project keeps its workspace and its
triage flag as they were set. -/
structure Stable (registry : Registry Q) : Prop where
  answers : ∀ answer ∈ registry.answers, ∀ pledge ∈ answer.owed,
    answer.project = some pledge.project ∧ answer.workspace = pledge.workspace
  made : ∀ entry ∈ registry.made, ∀ other ∈ registry.made, entry.1 = other.1 → entry.2 = other.2
  given : ∀ gift ∈ registry.given, ∀ root ∈ gift.had, inside gift.root root = true ∨ inside root gift.root = true
  settled : ∀ id row, registry.projects.find? id = some row →
    registry.settled id = some (row.tenantId, row.triageEnabled)

def Unbound (registry : Registry Q) (root : RootPath) : Prop :=
  ∀ binding ∈ registry.projectRoots, inside root binding.base = false

/-- Writing the row of a project replaces none that a root is bound to. -/
def Spares (registry : Registry Q) (project : Project) : Prop :=
  ∀ binding ∈ registry.projectRoots, binding.owner ≠ project.id ∧
    (registry.projects.find? binding.owner).all (·.slug ≠ project.slug) = true

/-- The row of a project still has the workspace and the triage flag that are written. -/
def Unchanged (registry : Registry Q) (project : Project) : Prop :=
  (registry.projects.find? project.id).map (fun row => (row.tenantId, row.triageEnabled)) =
    some (some (project.tenantId.getD defaultTenantId), project.triageEnabled)

/-- A workspace is named after a folder only if none has that name. A project is made and
bound for a root only while no root above it is bound, no other request is about to bind
it, and the project has no root yet. -/
def Undisturbed (registry : Registry Q) (now : Timestamp) : Phase → Prop
  | .naming request _ =>
    ∀ workspace ∈ validateWorkspaceId (slugifyTitle ((fileName request.root).getD "workspace")),
      workspace ∉ registry.tenants
  | .creating request _ _ => Unbound registry request.root ∧
      (∀ other, (registry.requests other).all (fun phase => phase.bindsTo.all (·.1 ≠ request.root)) = true) ∧
      Spares registry (registry.newProject request.title request.description now)
  | .binding request _ _ project =>
    Unbound registry request.root ∧ ∀ binding ∈ registry.projectRoots, binding.owner ≠ project
  | _ => True

/-- Requests are not disturbed. An event replaces no row of a project with a bound root,
nor one whose workspace or triage flag changed since the event was applied to it. -/
def Careful (registry : Registry Q) : Move Q → Prop
  | .step q now => match registry.requests q with
      | some phase => Undisturbed registry now phase
      | none => True
  | .createProject title description now => Spares registry (registry.newProject (trim title) description now)
  | .writeUpdate => match registry.updating with
      | some project => Spares registry project ∧ Unchanged registry project
      | none => True
  | _ => True

def AllCareful [DecidableEq Q] : Registry Q → List (Move Q) → Prop
  | _, [] => True
  | registry, move :: later => Careful registry move ∧ AllCareful (registry.after move) later

section

variable [Fintype Q]

instance (registry : Registry Q) (root : RootPath) : Decidable (Unbound registry root) :=
  List.decidableBAll _ _

instance (registry : Registry Q) (project : Project) : Decidable (Spares registry project) :=
  List.decidableBAll _ _

instance (registry : Registry Q) (project : Project) : Decidable (Unchanged registry project) :=
  inferInstanceAs (Decidable (_ = _))

instance (registry : Registry Q) (now : Timestamp) (phase : Phase) : Decidable (Undisturbed registry now phase) :=
  match phase with
  | .naming .. => inferInstanceAs (Decidable (∀ workspace ∈ (_ : Option String), workspace ∉ registry.tenants))
  | .creating .. => inferInstanceAs (Decidable (Unbound registry _ ∧ (∀ other : Q, _ = true) ∧ Spares registry _))
  | .binding .. => inferInstanceAs (Decidable (Unbound registry _ ∧ _))
  | .received _ | .found .. | .missed .. | .checking .. | .rooting .. => inferInstanceAs (Decidable True)

instance (registry : Registry Q) (move : Move Q) : Decidable (Careful registry move) :=
  match move with
  | .step q now => match h : registry.requests q with
      | some phase => decidable_of_iff (Undisturbed registry now phase) (by simp only [Careful, h])
      | none => isTrue (by simp only [Careful, h])
  | .createProject .. => inferInstanceAs (Decidable (Spares registry _))
  | .writeUpdate => match h : registry.updating with
      | some project => decidable_of_iff (Spares registry project ∧ Unchanged registry project) (by simp only [Careful, h])
      | none => isTrue (by simp only [Careful, h])
  | .resolve .. | .createWorkspace .. | .moveProject .. | .setTriage .. | .updateProject .. | .deleteProject _ =>
    inferInstanceAs (Decidable True)

instance decideAllCareful [DecidableEq Q] : (registry : Registry Q) → (moves : List (Move Q)) →
    Decidable (AllCareful registry moves)
  | _, [] => isTrue trivial
  | registry, move :: later => @instDecidableAnd (Careful registry move) (AllCareful (registry.after move) later)
      inferInstance (decideAllCareful (registry.after move) later)

end

end WorkspaceRegistry
end Daruma
