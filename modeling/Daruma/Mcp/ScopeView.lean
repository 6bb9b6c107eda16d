import Daruma.Library.KeyedTable
import Daruma.Shared.Ids
import Daruma.Shared.ScopePath
import Mathlib.Data.Char
import Mathlib.Data.List.Lex

/-! From a client's path to the project that is bound to it: the bindings of the server,
and the view of them in which a client looks its path up. -/
namespace Daruma

/-- A row of `repo_scopes`. -/
structure ScopeBinding where
  scopePath : ScopePath
  project : ProjectId
  deriving DecidableEq

namespace ScopeBinding

def base (binding : ScopeBinding) : ScopePath := normalizeScopePath binding.scopePath

def place (binding : ScopeBinding) : Location := location binding.scopePath

end ScopeBinding

/-- The bindings as a client fetched them, and the directory it was started in. -/
structure ScopeView where
  key : Option ScopePath
  scopes : List ScopeBinding

namespace ScopeView

def pathIsInside (path root : ScopePath) : Bool := LongestPrefix.inside '/' path root

/-- `max_by_key`: of several rows with one base the last. Lengths of prefixes of one path
compare alike in characters and in bytes. -/
def longest (scopes : List ScopeBinding) (path : ScopePath) : Option ScopeBinding :=
  LongestPrefix.longest '/' ScopeBinding.base scopes.reverse path

def joinPath (key path : ScopePath) : ScopePath :=
  if key.getLast?.any (· ≠ '/') then key ++ '/' :: path else key ++ path

/-- A relative path is below the directory of the view. -/
def resolvePath (view : ScopeView) (path : ScopePath) : Except String ScopePath :=
  let path := trimChars path
  if isAbsoluteScopePath path then .ok (normalizeScopePath path)
  else match view.key with
    | none => .error ("relative `scope_path` `" ++ String.ofList path ++ "` needs a local workspace; pass an absolute path")
    | some key => .ok (normalizeScopePath (joinPath key path))

def projectForPath (view : ScopeView) (path : ScopePath) : Except String (Option ProjectId) := do
  let path ← view.resolvePath path
  return (longest view.scopes path).map ScopeBinding.project

def scopeForCurrentWorkspace (view : ScopeView) : Except String ScopePath :=
  match view.key with
  | none => .error "no local workspace for this MCP session; pass `scope_path`"
  | some key =>
    let key := normalizeScopePath key
    let childScopes := view.scopes.filter fun scope => pathIsInside scope.base key
    if 1 < childScopes.length then
      .error ("current workspace `" ++ String.ofList key ++ "` contains multiple daruma scopes; pass `scope_path`")
    else .ok (((longest view.scopes key).map ScopeBinding.base).getD key)

def scopeForBinding (view : ScopeView) : Option ScopePath → Except String ScopePath
  | some path => view.resolvePath path
  | none => view.scopeForCurrentWorkspace

end ScopeView

abbrev RepoScopes := KeyedTable ScopePath ScopeBinding ScopeBinding.scopePath

namespace RepoScopes

/-- `ORDER BY scope_path`. -/
def list (scopes : RepoScopes) : List ScopeBinding :=
  scopes.rows.mergeSort fun binding later => binding.scopePath ≤ later.scopePath

inductive Refusal where
  | validation (message : String)
  | notFound (project : ProjectId)
  deriving DecidableEq

def normalizedScopePath (raw : ScopePath) : Except Refusal ScopePath :=
  let scopePath := normalizeScopePath raw
  if (trimChars raw).isEmpty || scopePath = ['/'] then .error (.validation "`scope_path` must be a non-empty path")
  else .ok scopePath

/-- A binding for a path is written or, without a project, removed. -/
def putRepoScope (scopes : RepoScopes) (known : ProjectId → Bool) (scopePath : ScopePath) (project : Option ProjectId) :
    Except Refusal RepoScopes := do
  let scopePath ← normalizedScopePath scopePath
  match project with
  | some project =>
    if known project then return scopes.insertOrReplace ⟨scopePath, project⟩
    else throw (.notFound project)
  | none => return scopes.erase scopePath

variable {scopes : RepoScopes} {raw : ScopePath}

theorem mem_list {binding : ScopeBinding} : binding ∈ scopes.list ↔ binding ∈ scopes := by
  rw [list, List.mem_mergeSort, KeyedTable.mem_rows]

theorem list_sorted (scopes : RepoScopes) :
    scopes.list.Pairwise fun binding later => binding.scopePath ≤ later.scopePath := by
  refine List.Pairwise.imp (fun h => of_decide_eq_true h) (List.pairwise_mergeSort ?_ ?_ scopes.rows)
  · intro first second third hFirst hSecond
    exact decide_eq_true (le_trans (of_decide_eq_true hFirst) (of_decide_eq_true hSecond))
  · intro first second
    rw [Bool.or_eq_true, decide_eq_true_eq, decide_eq_true_eq]
    exact le_total _ _

theorem normalizedScopePath_eq {scopePath : ScopePath} (h : normalizedScopePath raw = .ok scopePath) :
    scopePath = normalizeScopePath raw := by
  unfold normalizedScopePath at h
  dsimp only at h
  split at h
  · cases h
  · exact (Except.ok.inj h).symm

/-- What a binding that is accepted writes. -/
theorem putRepoScope_some {scopes' : RepoScopes} {known : ProjectId → Bool} {project : ProjectId}
    (h : scopes.putRepoScope known raw (some project) = .ok scopes') :
    scopes' = scopes.insertOrReplace ⟨normalizeScopePath raw, project⟩ := by
  unfold putRepoScope at h
  cases hPath : normalizedScopePath raw with
  | error refusal =>
    rw [hPath] at h
    cases h
  | ok scopePath =>
    rw [hPath, normalizedScopePath_eq hPath] at h
    dsimp only [bind, Except.bind] at h
    split at h
    · exact (Except.ok.inj h).symm
    · cases h

end RepoScopes
end Daruma
