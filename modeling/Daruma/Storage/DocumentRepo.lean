import Daruma.Storage.Database

/-! The projection of documents. -/
namespace Daruma
namespace DocumentRepo

abbrev Documents := KeyedTable DocumentId Document Document.id

def get (db : Database) (id : DocumentId) : Option Document := db.documents.find? id

/-- Drafts and active documents must keep a live anchor. -/
def isLive (status : DocumentStatus) : Bool :=
  status = .draft || status = .active

/-- Documents in the order of creation, by id among equals. -/
def inOrder (documents : List Document) : List Document :=
  documents.insertionSort fun a b =>
    a.createdAt < b.createdAt ∨ (a.createdAt = b.createdAt ∧ a.id.uuid ≤ b.id.uuid)

def listLiveByTask (db : Database) (taskId : TaskId) : List Document :=
  inOrder (db.documents.rows.filter fun doc => doc.taskId = some taskId && isLive doc.status)

def listByProject (db : Database) (projectId : ProjectId) (kind : DocumentKind) : List Document :=
  inOrder (db.documents.rows.filter fun doc =>
    doc.projectId = projectId && doc.kind = kind && doc.archivedAt.isNone)

theorem mem_listLiveByTask {db : Database} {taskId : TaskId} {doc : Document} : doc ∈ listLiveByTask db taskId ↔
      doc ∈ db.documents ∧ doc.taskId = some taskId ∧ isLive doc.status = true := by
  simp only [listLiveByTask, inOrder, (List.perm_insertionSort _ _).mem_iff, List.mem_filter,
    KeyedTable.mem_rows, Bool.and_eq_true, decide_eq_true_eq]

def appendSeparator : String := "\n\n"

def appendContent (content appended : String) : String :=
  if content.isEmpty then appended else content ++ appendSeparator ++ appended

/-- `archived_at` follows the lifecycle status. -/
def setStatus (toStatus : DocumentStatus) (instant : Timestamp) (doc : Document) : Document :=
  { doc with
    status := toStatus
    archivedAt := if toStatus = .archived then doc.archivedAt.or (some instant) else none
    updatedAt := instant }

def updateDocument (documents : Documents) (id : DocumentId) (f : Document → Document) : Documents :=
  match documents.find? id with
  | none => documents
  | some doc => documents.insertOrReplace (f doc)

def applyDocumentEvent (documents : Documents) : DocumentEvent → Documents
  | .documentCreated document => documents.insertOrReplace document
  | .documentContentReplaced documentId content instant => updateDocument documents documentId fun doc =>
    { doc with content := content, updatedAt := instant }
  | .documentContentAppended documentId appended instant => updateDocument documents documentId fun doc =>
    { doc with content := appendContent doc.content appended, updatedAt := instant }
  | .documentRenamed documentId title instant => updateDocument documents documentId fun doc =>
    { doc with title := title, updatedAt := instant }
  | .documentArchived documentId instant => updateDocument documents documentId fun doc =>
    { doc with archivedAt := some instant, status := .archived, updatedAt := instant }
  | .documentStatusChanged documentId _ toStatus instant =>
    updateDocument documents documentId (setStatus toStatus instant)
  | .documentTaskLinkChanged documentId taskId instant => updateDocument documents documentId fun doc =>
    { doc with taskId := taskId, updatedAt := instant }

def applyEvent (documents : Documents) (envelope : EventEnvelope) : Documents :=
  match envelope.payload with
  | .document event => applyDocumentEvent documents event
  | _ => documents

def writtenDocument : DocumentEvent → DocumentId
  | .documentCreated document => document.id
  | .documentContentReplaced documentId .. | .documentContentAppended documentId ..
  | .documentRenamed documentId .. | .documentArchived documentId .. | .documentStatusChanged documentId ..
  | .documentTaskLinkChanged documentId .. => documentId

/-- Number a version of the written document. Only a write that changes the row
makes one; a creation always does. -/
def recordVersion (versions : List DocumentId) (before after : Documents) (envelope : EventEnvelope) :
    List DocumentId :=
  match envelope.payload with
  | .document (.documentCreated document) => versions ++ [document.id]
  | .document event =>
    let id := writtenDocument event
    if before.find? id = after.find? id then versions else versions ++ [id]
  | _ => versions

end DocumentRepo
end Daruma
