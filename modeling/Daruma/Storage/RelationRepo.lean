import Daruma.Storage.Database

/-! Typed relations between tasks. The rows are written while a command is being
decided; no event of the log is applied to them. -/
namespace Daruma

abbrev Relations := KeyedTable RelationId Relation Relation.id

namespace RelationRepo

def kindToStr : RelationKind → String
  | .blocks => "blocks"
  | .relatesTo => "relates_to"
  | .duplicates => "duplicates"
  | .wasBlocking => "was_blocking"

/-- The unique index over the endpoints and the kind refuses a row. -/
def edgeTaken (relations : Relations) (relation : Relation) : Bool :=
  relations.rows.any fun other => other.source = relation.source && other.target = relation.target &&
    other.kind = relation.kind && other.id ≠ relation.id

def insert (relations : Relations) (relation : Relation) : Result Relations :=
  let refused := .error (.conflict
    s!"relation_exists: ({relation.source}, {relation.target}, {kindToStr relation.kind})")
  if edgeTaken relations relation then refused
  else if h : relations.find? relation.id = none then .ok (relations.append relation h)
  else refused

/-- Relabel a row. The unique index can refuse the new kind. -/
def updateKind (relations : Relations) (id : RelationId) (kind : RelationKind) : Result Relations :=
  match relations.find? id with
  | none => .ok relations
  | some relation =>
    if edgeTaken relations { relation with kind := kind } then
      .error (.storage
        "UNIQUE constraint failed: task_relations.from_task, task_relations.to_task, task_relations.kind")
    else .ok (relations.modify id fun row => { row with kind := kind })

def delete (relations : Relations) (id : RelationId) : Relations :=
  relations.erase id

def listByTask (relations : Relations) (taskId : TaskId) : List Relation :=
  orderBy Relation.createdAt
    (relations.rows.filter fun relation => relation.source = taskId || relation.target = taskId)

/-- The `blocks` edges into a task. -/
def listBlockers (relations : Relations) (taskId : TaskId) : List Relation :=
  orderBy Relation.createdAt
    (relations.rows.filter fun relation => relation.target = taskId && relation.kind = .blocks)

/-- The `blocks` edges out of a task. -/
def listBlocksTargets (relations : Relations) (taskId : TaskId) : List Relation :=
  orderBy Relation.createdAt
    (relations.rows.filter fun relation => relation.source = taskId && relation.kind = .blocks)

variable {relations : Relations} {taskId : TaskId} {relation : Relation}

theorem mem_listBlockers : relation ∈ listBlockers relations taskId ↔
      relation ∈ relations ∧ relation.target = taskId ∧ relation.kind = .blocks := by
  simp [listBlockers]

theorem mem_listBlocksTargets : relation ∈ listBlocksTargets relations taskId ↔
      relation ∈ relations ∧ relation.source = taskId ∧ relation.kind = .blocks := by
  simp [listBlocksTargets]

theorem updateKind_ok {relations' : Relations} {id : RelationId} {kind : RelationKind}
    (h : updateKind relations id kind = .ok relations') :
    relations' = relations.modify id fun row => { row with kind := kind } := by
  unfold updateKind at h
  split at h
  · rename_i hNone
    cases h
    exact (KeyedTable.modify_of_find?_eq_none _ hNone).symm
  · split at h
    · cases h
    · cases h
      rfl

end RelationRepo
end Daruma
