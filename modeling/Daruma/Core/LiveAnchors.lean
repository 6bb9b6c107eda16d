import Daruma.Core.DocumentBatches
import Daruma.Core.GateCoverage

/-! Live documents and the tasks that they are anchored to. The transitions of a
task close its documents, and the commands about documents check the anchor; a
terminal status that a command writes directly leaves documents behind. -/
namespace Daruma

open Outcome KeyedTable List
open EventEnvelope (payload)
open DocumentRepo (isLive NoneOpened listLiveByTask Documents applyDocumentEvent mem_updateDocument
  mem_listLiveByTask setStatus)
open Projections (applyEvents applyEvents_documents SameLifecycles)

namespace DocumentRepo

variable {documents : Documents} {envelopes : List EventEnvelope}

theorem noneOpened_applyEvent {envelope : EventEnvelope} (h : envelope.payload.opensDocument = false) :
    NoneOpened documents (applyEvent documents envelope) := by
  unfold applyEvent
  split
  · rename_i event hPayload
    rw [hPayload] at h
    exact noneOpened_applyDocumentEvent h
  · exact .refl documents

theorem noneOpened_foldl (h : ∀ envelope ∈ envelopes, envelope.payload.opensDocument = false) :
    NoneOpened documents (envelopes.foldl applyEvent documents) := by
  induction envelopes generalizing documents with
  | nil => exact .refl documents
  | cons envelope rest ih =>
    obtain ⟨hFirst, hRest⟩ := forall_mem_cons.mp h
    exact (noneOpened_applyEvent hFirst).trans (ih hRest)

variable {doc : Document} {task : Task}

theorem closed_foldl (h : ∀ envelope ∈ envelopes, envelope.payload.opensDocument = false)
    {id : DocumentId} {fromStatus toStatus : DocumentStatus} {instant : Timestamp}
    (hCloses : .document (.documentStatusChanged id fromStatus toStatus instant) ∈
      envelopes.map payload)
    (hStatus : isLive toStatus = false)
    (hMem : doc ∈ envelopes.foldl applyEvent documents) (hId : doc.id = id) : isLive doc.status = false := by
  obtain ⟨closing, hClosing, hPayload⟩ := mem_map.mp hCloses
  obtain ⟨first, rest, rfl⟩ := append_of_mem hClosing
  have hRest : NoneOpened (applyEvent (first.foldl applyEvent documents) closing)
      (rest.foldl applyEvent (applyEvent (first.foldl applyEvent documents) closing)) :=
    noneOpened_foldl fun envelope hMem =>
      h envelope (mem_append_right _ (mem_cons_of_mem _ hMem))
  rw [foldl_append, foldl_cons] at hMem
  refine Bool.eq_false_iff.mpr fun hLive => ?_
  obtain ⟨old, hOld, hSame, _, hOldLive⟩ := hRest doc hMem hLive
  rw [applyEvent, hPayload] at hOld
  exact absurd ((closed_of_statusChanged hStatus hOld (hSame.trans hId)).symm.trans hOldLive) Bool.false_ne_true

theorem foldl_applyEvent {recorded : List DocumentEvent}
    (h : (envelopes.map payload).filterMap Event.asDocument = recorded) :
    envelopes.foldl applyEvent documents = recorded.foldl applyDocumentEvent documents := by
  subst h
  induction envelopes generalizing documents with
  | nil => rfl
  | cons envelope rest ih =>
    rw [foldl_cons, ih, map_cons, filterMap_cons]
    unfold applyEvent
    cases envelope.payload with
    | document event => rfl
    | _ => rfl

end DocumentRepo

/-- A document that is draft or active, not archived, and anchored to a task that
is not there or is terminal. -/
def Orphaned (db : Database) (doc : Document) : Prop :=
  isLive doc.status = true ∧ doc.archivedAt = none ∧
    ∃ id, doc.taskId = some id ∧ ∀ task, db.tasks.find? id = some task → task.status.isTerminal = true

def OpenTask (db : Database) (id : TaskId) : Prop :=
  ∃ row, db.lifecycleOf id = some row ∧ row.1.isTerminal = false

def Anchored (db : Database) (documents : Documents) : Prop :=
  ∀ doc ∈ documents, isLive doc.status = true → ∃ id, doc.taskId = some id ∧ OpenTask db id

section

variable {db db' : Database} {documents written : Documents} {id : TaskId}

theorem OpenTask.of_task (hFound : db.tasks.find? id = some task)
    (hOpen : task.status.isTerminal = false) : OpenTask db id := by
  refine ⟨task.lifecycle, ?_, hOpen⟩
  rw [Database.lifecycleOf, TaskRepo.lifecycleOf, hFound]
  rfl

theorem OpenTask.task (h : OpenTask db id) :
    ∃ task, db.tasks.find? id = some task ∧ task.status.isTerminal = false := by
  obtain ⟨row, hRow, hOpen⟩ := h
  obtain ⟨task, hFound, rfl⟩ := Option.map_eq_some_iff.mp hRow
  exact ⟨task, hFound, hOpen⟩

theorem Anchored.not_orphaned (h : Anchored db db.documents) (hMem : doc ∈ db.documents) :
    ¬Orphaned db doc := by
  rintro ⟨hLive, _, id, hAnchor, hClosed⟩
  obtain ⟨id', hSame, hOpen⟩ := h doc hMem hLive
  obtain rfl := Option.some.inj (hSame.symm.trans hAnchor)
  obtain ⟨task, hFound, hNotTerminal⟩ := hOpen.task
  exact absurd (hNotTerminal.symm.trans (hClosed task hFound)) Bool.false_ne_true

theorem Anchored.mono (h : Anchored db documents) (hOpened : NoneOpened documents written)
    (hSame : SameLifecycles db db') : Anchored db' written := by
  intro doc hMem hLive
  obtain ⟨old, hOld, _, hAnchor, hOldLive⟩ := hOpened doc hMem hLive
  obtain ⟨id, hTask, row, hRow, hOpen⟩ := h old hOld hOldLive
  exact ⟨id, hAnchor ▸ hTask, row, (hSame id).trans hRow, hOpen⟩

end

namespace DocumentCommands

variable {db : Database} {env : Env}

variable {status : DocumentStatus} {taskId : Option TaskId} {now : Timestamp}

theorem requireLiveDocumentAnchor_ok
    (h : requireLiveDocumentAnchor db status taskId = .ok ()) (hLive : isLive status = true) :
    ∃ id, taskId = some id ∧ OpenTask db id := by
  unfold requireLiveDocumentAnchor at h
  rw [if_pos hLive] at h
  obtain ⟨id, hId, h⟩ := bind_eq_ok.mp h
  obtain ⟨task, hTask, h⟩ := bind_eq_ok.mp h
  have hOpen : task.status.isTerminal = false := by
    rw [← Bool.not_eq_true']
    exact ensure_eq_ok.mp h
  exact ⟨id, okOr_eq_ok.mp hId, .of_task (okOr_eq_ok.mp hTask) hOpen⟩

/-- What a command about documents records keeps live documents anchored. -/
def KeepsAnchors (db : Database) (events : List DocumentEvent) : Prop :=
  events = [] ∨ ∃ event, events = [event] ∧ Anchored db (applyDocumentEvent db.documents event)

theorem keepsAnchors_of_opens {event : DocumentEvent} (h : Anchored db db.documents) (hOpens : event.opens = false) :
    KeepsAnchors db [event] :=
  .inr ⟨event, rfl, h.mono (DocumentRepo.noneOpened_applyDocumentEvent hOpens) fun _ => rfl⟩

theorem createDocument_keepsAnchors {new : NewDocument} (h : Anchored db db.documents) :
    Yields (createDocument db env new) (KeepsAnchors db) := by
  refine .andThen fun title _ => .andThen fun taskId hTask => .andThen fun _ _ => .andThen fun _ hAnchor => .pure ?_
  refine .inr ⟨_, rfl, fun doc hMem hLive => ?_⟩
  rcases mem_insertOrReplace.mp hMem with rfl | ⟨hOld, _⟩
  · obtain ⟨id, hId, hOpen⟩ := requireLiveDocumentAnchor_ok hAnchor hLive
    exact ⟨id, (okOr_eq_ok.mp hTask).trans hId, hOpen⟩
  · exact h doc hOld hLive

variable {id : DocumentId}

theorem setDocumentStatus_keepsAnchors
    (h : Anchored db db.documents) : Yields (setDocumentStatus db now id status) (KeepsAnchors db) := by
  refine .andThen fun found hFound => .andThen fun _ hAnchor =>
    .ite (fun _ => .pure (.inl rfl)) fun _ => .pure (.inr ⟨_, rfl, fun doc hMem hLive => ?_⟩)
  obtain ⟨hFoundMem, hFoundId⟩ := find?_eq_some_iff.mp (okOr_eq_ok.mp hFound)
  rcases (mem_updateDocument (setStatus status now) fun _ => rfl).mp hMem with ⟨old, hOld, hOldId, rfl⟩ | ⟨hOld, _⟩
  · have hSame := eq_of_key_eq hOld hFoundMem (hOldId.trans hFoundId.symm)
    subst hSame
    exact requireLiveDocumentAnchor_ok hAnchor hLive
  · exact h doc hOld hLive

theorem linkDocumentToTask_keepsAnchors
    (h : Anchored db db.documents) : Yields (linkDocumentToTask db now id taskId) (KeepsAnchors db) := by
  refine .andThen fun found hFound => ?_
  obtain ⟨hFoundMem, hFoundId⟩ := find?_eq_some_iff.mp (okOr_eq_ok.mp hFound)
  have hLinked : requireLiveDocumentAnchor db found.status taskId = .ok () →
      Anchored db (applyDocumentEvent db.documents (.documentTaskLinkChanged id taskId now)) := by
    intro hAnchor doc hMem hLive
    rcases (mem_updateDocument (fun doc => { doc with taskId := taskId, updatedAt := now })
      fun _ => rfl).mp hMem with ⟨old, hOld, hOldId, rfl⟩ | ⟨hOld, _⟩
    · have hSame := eq_of_key_eq hOld hFoundMem (hOldId.trans hFoundId.symm)
      subst hSame
      exact requireLiveDocumentAnchor_ok hAnchor hLive
    · exact h doc hOld hLive
  -- A given task is looked up before the anchor is checked.
  dsimp only
  split
  · exact .andThen fun _ _ => .andThen fun _ hAnchor =>
      .ite (fun _ => .pure (.inl rfl)) fun _ => .pure (.inr ⟨_, rfl, hLinked hAnchor⟩)
  · exact .andThen fun _ hAnchor =>
      .ite (fun _ => .pure (.inl rfl)) fun _ => .pure (.inr ⟨_, rfl, hLinked hAnchor⟩)

theorem buildEvents_keepsAnchors {command : DocumentCommand} (h : Anchored db db.documents) :
    Yields (buildEvents db env command) (KeepsAnchors db) := by
  cases command with
  | createDocument newDoc => exact createDocument_keepsAnchors h
  | replaceDocumentContent | appendDocumentContent =>
    exact .andThen fun _ _ => .pure (keepsAnchors_of_opens h rfl)
  | renameDocument documentId title =>
    exact .andThen fun _ _ => .andThen fun _ _ => .pure (keepsAnchors_of_opens h rfl)
  | archiveDocument documentId =>
    exact .andThen fun _ _ => .ite (fun _ => .pure (.inl rfl)) fun _ => .pure (keepsAnchors_of_opens h rfl)
  | setDocumentStatus documentId status => exact setDocumentStatus_keepsAnchors h
  | linkDocumentToTask documentId taskId => exact linkDocumentToTask_keepsAnchors h

end DocumentCommands

namespace Handler

variable {config : Config} {db : Database} {env : Env} {caller : Caller} {claimed : Actor} {command : Command}
  {batch : List Event} {relations : Relations} {trail : GateStage.Trail} {persisted : List EventEnvelope}
  {appended applied : Database} {outcome : Except CoreError Unit}

variable (h : Accepted config env caller command claimed db batch relations trail persisted appended)

include h in
theorem Accepted.noneOpened (hApplied : applyEvents (env.part 4) persisted appended = (outcome, applied))
    (hAbout : command.isAboutDocuments = false) : NoneOpened db.documents applied.documents := by
  obtain ⟨_, _, _, _, _, rfl⟩ := h.frame
  obtain ⟨taken, left, rfl, _, hFold⟩ := applyEvents_documents hApplied
  rw [hFold]
  exact DocumentRepo.noneOpened_foldl fun envelope hMem => h.opensNone hAbout (mem_append_left left hMem)

include h in
theorem Accepted.movedTo_closes (hApplied : applyEvents (env.part 4) persisted appended = (.ok (), applied))
    (hAbout : command.isAboutDocuments = false) {id : TaskId} {toStatus : Status}
    (hMoved : MovedTo db (persisted.map payload) id task toStatus)
    (hTerminal : toStatus.isTerminal = true) (hMem : doc ∈ applied.documents)
    (hAnchor : doc.taskId = some id) : isLive doc.status = false := by
  refine Bool.eq_false_iff.mpr fun hLive => ?_
  obtain ⟨old, hOld, hSame, hTask, hOldLive⟩ := h.noneOpened hApplied hAbout doc hMem hLive
  have hListed : old ∈ listLiveByTask db id :=
    mem_listLiveByTask.mpr ⟨hOld, hTask.trans hAnchor, hOldLive⟩
  have hClosing : ∃ closed instant, isLive closed = false ∧
      .document (.documentStatusChanged old.id old.status closed instant) ∈
        persisted.map payload := by
    obtain ⟨instant, hAll⟩ := hMoved.documents
    cases toStatus with
    | done => exact ⟨.frozen, instant, rfl, hAll _ (mem_map.mpr ⟨old, hListed, rfl⟩)⟩
    | cancelled => exact ⟨.archived, instant, rfl, hAll _ (mem_map.mpr ⟨old, hListed, rfl⟩)⟩
    | _ => cases hTerminal
  obtain ⟨closed, instant, hClosed, hRecorded⟩ := hClosing
  obtain ⟨taken, left, hSplit, hAll, hFold⟩ := applyEvents_documents hApplied
  rw [hAll rfl, append_nil] at hSplit
  subst hSplit
  rw [hFold] at hMem
  have hNot := DocumentRepo.closed_foldl (fun envelope hMem => h.opensNone hAbout hMem) hRecorded hClosed hMem
    hSame.symm
  exact absurd (hNot.symm.trans hLive) Bool.false_ne_true

theorem Accepted.documents_of_document {command : DocumentCommand}
    (h : Accepted config env caller (.document command) claimed db batch relations trail persisted appended)
    (hApplied : applyEvents (env.part 4) persisted appended = (outcome, applied))
    (hAnchored : Anchored db db.documents) : Anchored db applied.documents := by
  obtain ⟨built, plans, hBuilt, rfl⟩ := h.of_document
  obtain ⟨first, last, hPayloads, hFirst, hLast⟩ := h.surrounded rfl
  have hNone : ∀ events : List Event, (∀ event ∈ events, event.isAudit = true ∨ IsRelease event) →
      events.filterMap Event.asDocument = [] := by
    intro events hEvents
    refine filterMap_eq_nil_iff.mpr fun event hMem => ?_
    rcases hEvents event hMem with hAudit | ⟨_, _, _, rfl⟩
    · cases event with
      | document event => cases hAudit
      | _ => rfl
    · rfl
  have hBuiltDocuments : (built.map Event.document).filterMap Event.asDocument = built := by
    rw [filterMap_map]
    exact filterMap_some
  have hPlans : (plans.map Event.plan).filterMap Event.asDocument = [] := by
    rw [filterMap_map]
    exact filterMap_eq_nil_iff.mpr fun _ _ => rfl
  have hRecorded : (persisted.map payload).filterMap Event.asDocument = built := by
    rw [hPayloads, filterMap_append, filterMap_append, filterMap_append, hBuiltDocuments, hPlans,
      hNone first fun event hMem => .inl (hFirst event hMem), hNone last hLast]
    rw [nil_append, append_nil, append_nil]
  obtain ⟨_, _, _, _, _, rfl⟩ := h.frame
  obtain ⟨taken, left, rfl, _, hFold⟩ := applyEvents_documents hApplied
  rw [map_append, filterMap_append] at hRecorded
  rw [hFold, DocumentRepo.foldl_applyEvent rfl]
  rcases DocumentCommands.buildEvents_keepsAnchors hAnchored built hBuilt with rfl | ⟨event, rfl, hKept⟩
  · rw [(append_eq_nil_iff.mp hRecorded).1]
    exact hAnchored
  · rcases append_eq_singleton_iff.mp hRecorded with ⟨hTaken, _⟩ | ⟨hTaken, _⟩
    · rw [hTaken]
      exact hAnchored
    · rw [hTaken]
      exact hKept

include h in
theorem Accepted.keepsAnchored (hKeys : TaskRepo.KeysDistinct db.tasks) (hAnchored : Anchored db db.documents)
    (hFree : ∀ id (status : Status), status.isTerminal = true → command.WritesDirectly db (builderEnv env) id status →
      listLiveByTask db id = [])
    (hApplied : applyEvents (env.part 4) persisted appended = (outcome, applied)) :
    Anchored applied applied.documents := by
  cases hAbout : command.isAboutDocuments with
  | true =>
    cases command with
    | document command =>
      refine (h.documents_of_document hApplied hAnchored).mono (.refl _) fun id => ?_
      rw [(h.projected ⟨rfl, rfl⟩ hKeys hApplied).2 id, (h.spares rfl rfl id).after]
    | _ => cases hAbout
  | false =>
    intro doc hMem hLive
    obtain ⟨old, hOld, _, hTask, hOldLive⟩ := h.noneOpened hApplied hAbout doc hMem hLive
    obtain ⟨id, hAnchor, row, hRow, hOpen⟩ := hAnchored old hOld hOldLive
    have hListed : old ∈ listLiveByTask db id :=
      mem_listLiveByTask.mpr ⟨hOld, hAnchor, hOldLive⟩
    have hNotDirect : ∀ status : Status, command.WritesDirectly db (builderEnv env) id status →
        status.isTerminal = false := by
      intro status hDirect
      refine Bool.eq_false_iff.mpr fun hTerminal => ?_
      rw [hFree id status hTerminal hDirect] at hListed
      exact absurd hListed not_mem_nil
    refine ⟨id, hTask ▸ hAnchor, ?_⟩
    by_cases hPlain : command.IsPlain
    · obtain ⟨rfl, hRows⟩ := h.projected hPlain hKeys hApplied
      have hAfter := hRows id
      rw [hRow] at hAfter
      cases h.effect hPlain.1 id with
      | spared hSpared => exact ⟨row, hAfter.trans (hSpared.after _), hOpen⟩
      | moved task toStatus hMoved =>
        have hBefore : db.lifecycleOf id = some (task.status, task.completedAt.isSome) := by
          rw [Database.lifecycleOf, TaskRepo.lifecycleOf, hMoved.found]
          rfl
        obtain ⟨closed, hEffect, _⟩ := hMoved.effect task.completedAt.isSome
        have hRowAfter : applied.lifecycleOf id = some (toStatus, closed) := by
          rw [hAfter, ← hRow, hBefore, hEffect]
        refine ⟨_, hRowAfter, Bool.eq_false_iff.mpr fun hTerminal => ?_⟩
        have hClosed := h.movedTo_closes hApplied hAbout hMoved hTerminal hMem (hTask ▸ hAnchor)
        exact absurd (hClosed.symm.trans hLive) Bool.false_ne_true
      | deleted _ _ _ _ _ hNoDocuments =>
        rw [hNoDocuments] at hListed
        exact absurd hListed not_mem_nil
      | patched status hCommand hPatched _ =>
        exact ⟨_, hAfter.trans (hPatched _), hNotDirect status (.inl hCommand)⟩
    · rcases h.brings hPlain hApplied id with hKept | ⟨intake, hIntake, hNew, hId, hAfter⟩
      · exact ⟨row, hKept.trans hRow, hOpen⟩
      · exact ⟨_, hAfter, hNotDirect intake.status (.inr ⟨intake, hIntake, hNew, hId, rfl⟩)⟩

end Handler

namespace AutoAppend

def KeepsAnchors (before after : Database) : Prop :=
  NoneOpened before.documents after.documents ∧ SameLifecycles before after

theorem KeepsAnchors.anchored {before after : Database} (h : KeepsAnchors before after)
    (hAnchored : Anchored before before.documents) : Anchored after after.documents :=
  hAnchored.mono h.1 h.2

theorem KeepsAnchors.of_writes {logged : Event → Prop} {db middle after : Database} (h : WritesLog logged middle after)
    (hTables : middle.tasks = db.tasks ∧ middle.documents = db.documents)
    (hOpens : ∀ event, logged event → event.opensDocument = false) : KeepsAnchors db after := by
  obtain ⟨_, _, _, _, _, projected, rfl, _, _, hProjected⟩ := h
  refine ⟨hTables.2 ▸ DocumentRepo.noneOpened_foldl fun envelope hMem => hOpens _ (hProjected envelope hMem), fun _ => ?_⟩
  rw [Database.lifecycleOf, hTables.1]
  rfl

end AutoAppend

namespace Server

open Handler (builderEnv handled)

variable {config : Config} {db : Database} {call : Call}

theorem serve_keepsAnchors (hCall : Call.isCommand call = false) (db : Database) :
    AutoAppend.KeepsAnchors db (serve config db call) := by
  refine serve_rule hCall fun hWrites => .of_writes hWrites ⟨rfl, rfl⟩ ?_
  rintro event ((⟨_, _, _, rfl⟩ | ⟨_, signal, rfl⟩) | ⟨_, rfl⟩)
  · rfl
  · cases signal <;> rfl
  · rfl

def ClosesFreeTasks (db : Database) : Call → Prop
  | .command env _ command _ => ∀ id (status : Status), status.isTerminal = true →
      command.WritesDirectly db (builderEnv env) id status → listLiveByTask db id = []
  | _ => True

theorem serve_anchored (hKeys : TaskRepo.KeysDistinct db.tasks) (hAnchored : Anchored db db.documents)
    (h : ClosesFreeTasks db call) : Anchored (serve config db call) (serve config db call).documents := by
  cases call with
  | command env caller command actor =>
    refine @Handler.handle_rule config env caller command actor db (fun after => Anchored after after.documents)
      (fun hAudited => ?_) (fun hAccepted => hAccepted.keepsAnchored hKeys hAnchored h)
      fun hLines hApplied => (AutoAppend.KeepsAnchors.of_writes hLines ⟨rfl, rfl⟩ fun _ ⟨_, _, _, hIs⟩ => hIs ▸ rfl).anchored hApplied
    obtain ⟨_, _, _, _, _, _, rfl⟩ := hAudited
    exact hAnchored
  | acquireClaim | releaseClaim | sweepClaims | signal => exact (serve_keepsAnchors rfl db).anchored hAnchored

def NoOrphans (db : Database) : Prop := ∀ doc ∈ db.documents, ¬Orphaned db doc

/-- What the calls of such a run preserve. -/
def Moored (db : Database) : Prop := TaskRepo.KeysDistinct db.tasks ∧ Anchored db db.documents

theorem Moored.empty : Moored Database.empty :=
  ⟨TaskRepo.KeysDistinct.empty, fun doc hDoc => absurd hDoc (not_mem_empty doc)⟩

/-- In a run that writes terminal statuses directly only onto tasks without live
documents, every live document has a live anchor. -/
theorem live_documents_anchored {calls : List Call} (hMeets : Meets config ClosesFreeTasks Database.empty calls) :
    NoOrphans (run config calls) := by
  have hMoored : Moored (run config calls) := by
    refine run_induction Moored.empty ?_ hMeets
    rintro db call ⟨hKeys, hAnchored⟩ hCloses
    exact ⟨serve_keepKeys db call hKeys, serve_anchored hKeys hAnchored hCloses⟩
  exact fun doc hDoc => hMoored.2.not_orphaned hDoc

private def newDocument (taskId : TaskId) : NewDocument where
  id := some ⟨9⟩
  projectId := ⟨1⟩
  kind := .humanLog
  title := "document"
  content := none
  status := none
  taskId := some taskId
  triggerKind := none
  consumer := none

private def completedRun : List Call := commands [
  .task (.createTask { NewTask.new "task" with id := some ⟨7⟩ }),
  .document (.createDocument (newDocument ⟨7⟩)),
  .task (.completeTask ⟨7⟩ none)]

theorem live_documents_anchored_completed : NoOrphans (run engineConfig completedRun) := by
  refine live_documents_anchored ⟨fun id status hTerminal hDirect => ?_, fun id status _ hDirect => ?_,
    fun id status _ hDirect => ?_, trivial⟩
  · rcases hDirect with hPatches | ⟨intake, hIntake, _, _, rfl⟩
    · exact absurd hPatches not_false
    · rw [mem_singleton.mp hIntake] at hTerminal
      cases hTerminal
  · rcases hDirect with hPatches | ⟨intake, hIntake, _⟩
    · exact absurd hPatches not_false
    · exact absurd hIntake not_mem_nil
  · rcases hDirect with hPatches | ⟨intake, hIntake, _⟩
    · exact absurd hPatches not_false
    · exact absurd hIntake not_mem_nil

private def patchedOverRun : List Call := commands [
  .task (.createTask { NewTask.new "task" with id := some ⟨7⟩ }),
  .document (.createDocument (newDocument ⟨7⟩)),
  .task (.updateTask ⟨7⟩ { TaskPatch.none with status := some .done })]

theorem patched_task_keeps_document : ¬NoOrphans (run engineConfig patchedOverRun) := by
  have hDocument : ∃ doc ∈ (run engineConfig patchedOverRun).documents.rows,
      DocumentRepo.isLive doc.status = true ∧ doc.archivedAt = none ∧ doc.taskId = some ⟨7⟩ := by
    decide +kernel
  have hRow : (run engineConfig patchedOverRun).lifecycleOf ⟨7⟩ = some (.done, false) := by decide +kernel
  intro h
  obtain ⟨doc, hDoc, hLive, hKept, hAnchor⟩ := hDocument
  refine h doc (mem_rows.mp hDoc) ⟨hLive, hKept, ⟨7⟩, hAnchor, fun task hFound => ?_⟩
  rw [Database.lifecycleOf, TaskRepo.lifecycleOf, hFound] at hRow
  exact congrArg (fun row => row.1.isTerminal) (Option.some.inj hRow)

end Server
end Daruma
