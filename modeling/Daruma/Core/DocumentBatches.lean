import Daruma.Core.LifecycleSteps

/-! Which batches open documents, and what projecting a batch makes of the
documents. -/
namespace Daruma

open KeyedTable Stateful List
open DocumentRepo (applyEvent isLive)
open Stateful (Yields inTurn)

/-- The event can make a document live, or move it to another task. -/
def DocumentEvent.opens : DocumentEvent → Bool
  | .documentCreated _ | .documentTaskLinkChanged .. => true
  | .documentStatusChanged _ _ toStatus _ => isLive toStatus
  | _ => false

namespace DocumentRepo

variable {documents : Documents} {id : DocumentId} {doc : Document} {event : DocumentEvent}

theorem mem_updateDocument (f : Document → Document) (hId : ∀ old, (f old).id = old.id) :
    doc ∈ updateDocument documents id f ↔
      (∃ old ∈ documents, old.id = id ∧ doc = f old) ∨ (doc ∈ documents ∧ doc.id ≠ id) := by
  unfold updateDocument
  cases hFound : documents.find? id with
  | none =>
    have hNone := find?_eq_none_iff.mp hFound
    constructor
    · exact fun hMem => .inr ⟨hMem, hNone doc hMem⟩
    · rintro (⟨old, hOld, hSame, _⟩ | ⟨hMem, _⟩)
      · exact absurd hSame (hNone old hOld)
      · exact hMem
  | some found =>
    obtain ⟨hMem, rfl⟩ := find?_eq_some_iff.mp hFound
    rw [mem_insertOrReplace, hId]
    constructor
    · rintro (rfl | hOther)
      · exact .inl ⟨found, hMem, rfl, rfl⟩
      · exact .inr hOther
    · rintro (⟨old, hOld, hSame, rfl⟩ | hOther)
      · rw [eq_of_key_eq hOld hMem hSame]
        exact .inl rfl
      · exact .inr hOther

/-- Every live document was one before, with the same anchor. -/
def NoneOpened (before after : Documents) : Prop :=
  ∀ doc ∈ after, isLive doc.status = true → ∃ old ∈ before, old.id = doc.id ∧ old.taskId = doc.taskId ∧
    isLive old.status = true

theorem NoneOpened.refl (documents : Documents) : NoneOpened documents documents :=
  fun doc hMem hLive => ⟨doc, hMem, rfl, rfl, hLive⟩

theorem NoneOpened.trans {first second third : Documents} (h : NoneOpened first second)
    (h' : NoneOpened second third) : NoneOpened first third := by
  intro doc hMem hLive
  obtain ⟨middle, hMiddle, hId, hTask, hMiddleLive⟩ := h' doc hMem hLive
  obtain ⟨old, hOld, hId', hTask', hOldLive⟩ := h middle hMiddle hMiddleLive
  exact ⟨old, hOld, hId'.trans hId, hTask'.trans hTask, hOldLive⟩

theorem noneOpened_updateDocument {f : Document → Document} (hId : ∀ old, (f old).id = old.id)
    (hTask : ∀ old, (f old).taskId = old.taskId)
    (hLive : ∀ old, isLive (f old).status = true → isLive old.status = true) :
    NoneOpened documents (updateDocument documents id f) := by
  intro doc hMem hDoc
  rcases (mem_updateDocument f hId).mp hMem with ⟨old, hOld, _, rfl⟩ | ⟨hOld, _⟩
  · exact ⟨old, hOld, (hId old).symm, (hTask old).symm, hLive old hDoc⟩
  · exact ⟨doc, hOld, rfl, rfl, hDoc⟩

theorem noneOpened_applyDocumentEvent (h : event.opens = false) :
    NoneOpened documents (applyDocumentEvent documents event) := by
  cases event with
  | documentCreated | documentTaskLinkChanged => cases h
  | documentStatusChanged documentId fromStatus toStatus instant =>
    refine noneOpened_updateDocument (fun _ => rfl) (fun _ => rfl) fun old hLive => ?_
    exact absurd (h.symm.trans hLive) Bool.false_ne_true
  | documentArchived documentId instant =>
    refine noneOpened_updateDocument (fun _ => rfl) (fun _ => rfl) fun old hLive => ?_
    exact absurd hLive Bool.false_ne_true
  | documentContentReplaced | documentContentAppended | documentRenamed =>
    exact noneOpened_updateDocument (fun _ => rfl) (fun _ => rfl) fun _ hLive => hLive

variable {events : List Event} {fromStatus : DocumentStatus}

theorem closed_of_statusChanged {toStatus : DocumentStatus} {instant : Timestamp}
    (hStatus : isLive toStatus = false)
    (hMem : doc ∈ applyDocumentEvent documents (.documentStatusChanged id fromStatus toStatus instant))
    (hId : doc.id = id) : isLive doc.status = false := by
  rcases (mem_updateDocument (setStatus toStatus instant) fun _ => rfl).mp hMem with ⟨old, _, _, rfl⟩ | ⟨_, hOther⟩
  · exact hStatus
  · exact absurd hId hOther

end DocumentRepo

open Outcome

def Event.asDocument : Event → Option DocumentEvent
  | .document event => some event
  | _ => none

/-- The event can make a document live, or move it to another task. -/
def Event.opensDocument : Event → Bool
  | .document event => event.opens
  | _ => false

abbrev OpensNone (events : List Event) : Prop := Everywhere (fun event => event.opensDocument = false) events

/-- The event creates and deletes nothing, leaves the members of plans and the titles,
descriptions and projects of tasks, and rewrites no project. -/
def Event.landsNothing : Event → Bool
  | .task (.taskCreated _) | .task (.taskSplitGenerated ..) | .task (.taskDeleted _) | .plan (.planCreated _)
  | .plan (.planTaskAdded ..) | .plan (.planTaskRemoved ..) | .plan (.planDeleted ..) | .project (.projectCreated _)
  | .project (.projectUpdated ..) => false
  | .task (.taskUpdated _ patch) => (planOwnedPatchFields patch).isEmpty
  | _ => true

abbrev LandsNothing (events : List Event) : Prop := Everywhere (fun event => event.landsNothing = true) events

def Command.isAboutDocuments : Command → Bool
  | .document _ => true
  | _ => false

section

variable {db : Database} {env : Env} {links : Bool} {command : Command} {event : Event}

theorem MayRecord.opensNoDocument (h : MayRecord db env links command event) (hAbout : command.isAboutDocuments = false) :
    event.opensDocument = false := by
  cases h with
  | document => cases hAbout
  | documentClosed _ hClosed =>
    rcases hClosed with rfl | rfl
    · rfl
    · rfl
  | _ => rfl

theorem MayRecord.landsNothing (h : MayRecord db env links command event) (hPlaces : command.places = false) :
    event.landsNothing = true := by
  cases h with
  | created hPlaced | joined hPlaced => cases hPlaces.symm.trans hPlaced
  | split | patched | amended | deleted | planDeleted => cases hPlaces
  | planCreated hCreates =>
    cases command with
    | plan command =>
      cases command with
      | createPlan | materializePlan => cases hPlaces
      | _ => cases hCreates
    | _ => cases hCreates
  | left hCommand =>
    rcases hCommand with rfl | rfl
    · cases hPlaces
    · cases hPlaces
  | @aside command event hAside =>
    cases event with
    | planGoalChanged | planTaskAmended | planReordered | planModifiedByHuman => rfl
    | _ => cases hAside
  | @project command event hWrites =>
    cases event with
    | projectCreated | projectUpdated => cases hPlaces.symm.trans (hWrites rfl)
    | _ => rfl
  | _ => rfl

end

namespace Handler

variable {config : Config} {db : Database} {env : Env} {caller : Caller} {actor claimed : Actor}
  {command : Command} {batch : List Event} {relations : Relations} {trail : GateStage.Trail}
  {persisted : List EventEnvelope} {appended : Database}

theorem draft_opensNone (h : command.isAboutDocuments = false) :
    Yields (draft config db env caller actor command) fun drafted => OpensNone drafted.1 :=
  draft_rule (fun _ hRecords => hRecords.opensNoDocument h) fun _ _ => rfl

variable {envelope : EventEnvelope}

theorem Accepted.mem_of_document
    (h : Accepted config env caller command claimed db batch relations trail persisted appended) (hMem : envelope ∈ persisted) {event : DocumentEvent}
    (hPayload : envelope.payload = .document event) : .document event ∈ batch :=
  h.mem_batch (mem_map.mpr ⟨envelope, hMem, hPayload⟩) rfl

theorem Accepted.of_document {command : DocumentCommand}
    (h : Accepted config env caller (.document command) claimed db batch relations trail persisted appended) :
    ∃ built plans, DocumentCommands.buildEvents db (builderEnv env) command = .ok built ∧
      batch = built.map .document ++ List.map .plan plans := by
  obtain ⟨warnings, hDraft⟩ := h.built
  obtain ⟨built, hBuilt, rfl⟩ := draft_ok (fun plan hIs => by cases hIs) hDraft
  have hRecorded : lift (List.map Event.document <$> DocumentCommands.buildEvents db (builderEnv env) command)
      db.relations = (.ok built, relations) := hBuilt
  obtain ⟨hMapped, rfl⟩ := lift_eq.mp hRecorded
  obtain ⟨events, hEvents, rfl⟩ := map_eq_ok.mp hMapped
  rw [map_map]
  exact ⟨events, _, hEvents, rfl⟩

theorem Accepted.opensNone
    (h : Accepted config env caller command claimed db batch relations trail persisted appended)
    (hAbout : command.isAboutDocuments = false) (hMem : envelope ∈ persisted) :
    envelope.payload.opensDocument = false := by
  cases hPayload : envelope.payload with
  | document event =>
    obtain ⟨warnings, hBuilt⟩ := h.built
    exact draft_opensNone hAbout _ _ _ hBuilt _ (h.mem_of_document hMem hPayload)
  | _ => rfl

end Handler

namespace Projections

variable {env : Env} {envelope : EventEnvelope} {db db' : Database} {outcome : Except CoreError Unit}

/-- The documents, the units and the contracts between these are the same rows. -/
def SameWork (before after : Database) : Prop :=
  after.documents = before.documents ∧ after.workUnits = before.workUnits ∧ after.handoffs = before.handoffs

theorem projectors_sameWork {step : Database → Result Database}
    (hStep : step ∈ (projectors env envelope).take 8 ++ (projectors env envelope).drop 10)
    (h : step db = .ok db') : SameWork db db' := by
  obtain ⟨_, hOther, hWrote⟩ : ∃ n, (n < 8 ∨ 10 ≤ n) ∧ Wrote env envelope db n db' := by
    rcases mem_append.mp hStep with hFirst | hLast
    · obtain ⟨n, hLess, hWrote⟩ := exists_wrote_take hFirst h
      exact ⟨n, .inl hLess, hWrote⟩
    · obtain ⟨n, hMore, hWrote⟩ := exists_wrote_drop hLast h
      exact ⟨n, .inr hMore, hWrote⟩
  cases hWrote with
  | documents | handoffs => exact absurd hOther (by decide)
  | _ => exact ⟨rfl, rfl, rfl⟩

theorem projectors_rewrite {Part : Type} (part : Database → Part) (rewrite : Part → Part)
    (hSame : ∀ before after, SameWork before after → part after = part before)
    (hHandoffs : ∀ (db : Database) written, part { db with handoffs := written } = part db)
    (hDocuments : ∀ db, part (documents envelope db) = rewrite (part db))
    (h : inTurn (projectors env envelope) db = (outcome, db')) :
    (outcome ≠ .ok () ∧ part db' = part db) ∨ part db' = rewrite (part db) := by
  have hSplit : projectors env envelope = (projectors env envelope).take 8 ++
      (fun db => .ok (documents envelope db)) :: (handoffs envelope :: (projectors env envelope).drop 10) := rfl
  rw [hSplit] at h
  refine inTurn_field part rewrite ?_ ?_ ?_ h
  · exact fun step hStep db db' hRun => hSame _ _ (projectors_sameWork (mem_append_left _ hStep) hRun)
  · intro db db' hRun
    cases hRun
    exact hDocuments db
  · intro step hStep db db' hRun
    rcases mem_cons.mp hStep with rfl | hStep
    · obtain ⟨_, rfl⟩ := handoffs_ok hRun
      exact hHandoffs db _
    · exact hSame _ _ (projectors_sameWork (mem_append_right _ hStep) hRun)

theorem projectors_documents (h : inTurn (projectors env envelope) db = (outcome, db')) :
    (outcome ≠ .ok () ∧ db'.documents = db.documents) ∨
      db'.documents = applyEvent db.documents envelope :=
  projectors_rewrite Database.documents (applyEvent · envelope) (fun _ _ hSame => hSame.1)
    (fun _ _ => rfl) (fun _ => rfl) h

/-- The documents after a batch: the fold of a first part of it, and of all of it
when nothing was refused. -/
theorem applyEvents_documents {envelopes : List EventEnvelope} (h : applyEvents env envelopes db = (outcome, db')) :
    ∃ taken left, envelopes = taken ++ left ∧ (outcome = .ok () → left = []) ∧
      db'.documents = taken.foldl applyEvent db.documents :=
  inTurn_fold Database.documents applyEvent
    (fun _ _ _ _ _ hRun => projectors_documents hRun) h

end Projections
end Daruma
