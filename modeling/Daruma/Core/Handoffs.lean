import Daruma.Core.FinalRuns

/-! The handoffs that the completion of a run asks for: what the log says of them, and
what the activity feed is read to say. -/
namespace Daruma

open Outcome RunCommands List
open ActivityRepo (taskText applyEvent listForTask)
open RunRepo (listSteps)

/-- The statuses between which a task is handed over. -/
def handsOver (fromStatus toStatus : Status) : Bool :=
  toStatus = .inReview || toStatus = .done || (fromStatus = .inReview && toStatus = .todo)

def Event.tellsHandoff (id : TaskId) : Event → Bool
  | .task (.taskStatusChanged taskId fromStatus toStatus) => taskId = id && handsOver fromStatus toStatus
  | .task (.taskUpdated taskId patch) => taskId = id && patch.pipelinePosition.isSome
  | _ => false

def Event.readsHandoff (codec : TextCodec) (id : TaskId) (event : Event) : Prop :=
  ∃ field oldValue newValue, taskText event = some (id, field, oldValue, newValue) ∧
    isHandoff codec ⟨id, field, oldValue, newValue, 0, 0⟩ = true

def statusAfter (events : List EventEnvelope) (id : TaskId) : Option Status :=
  (lifecycleAfter (events.map EventEnvelope.payload) id none).map Prod.fst

def Hands (earlier : List EventEnvelope) (envelope : EventEnvelope) (id : TaskId) : Prop :=
  ∃ fromStatus toStatus, statusAfter earlier id = some fromStatus ∧
    statusAfter (earlier ++ [envelope]) id = some toStatus ∧ fromStatus ≠ toStatus ∧ handsOver fromStatus toStatus = true

def Database.withFeed (db : Database) (log : List EventEnvelope) : Database :=
  { db with activity := log.foldl applyEvent [] }

namespace RunStep

variable (log : List EventEnvelope) (step : RunStep)

def Told : Prop :=
  ∃ envelope ∈ log, step.startedAt ≤ envelope.occurredAt ∧ envelope.payload.tellsHandoff step.taskId = true

/-- Since then, another event changed its status so. -/
def Moved : Prop :=
  ∃ earlier envelope later, log = earlier ++ envelope :: later ∧ step.startedAt ≤ envelope.occurredAt ∧
    envelope.payload.tellsHandoff step.taskId = false ∧ Hands earlier envelope step.taskId

/-- Since then, another event of the task is read as one. -/
def Misread (codec : TextCodec) : Prop :=
  ∃ envelope ∈ log, step.startedAt ≤ envelope.occurredAt ∧ envelope.payload.tellsHandoff step.taskId = false ∧
    envelope.payload.readsHandoff codec step.taskId

def HandedOver : Prop :=
  ∃ earlier envelope later, log = earlier ++ envelope :: later ∧ step.startedAt ≤ envelope.occurredAt ∧
    (envelope.payload.tellsHandoff step.taskId = true ∨ Hands earlier envelope step.taskId)

end RunStep

variable {codec : TextCodec} {config : Config} {db : Database} {log : List EventEnvelope} {step : RunStep} {id : TaskId}

theorem RunStep.handedOver_iff : step.HandedOver log ↔ step.Told log ∨ step.Moved log := by
  constructor
  · rintro ⟨earlier, envelope, later, rfl, hSince, hIs⟩
    cases hTells : envelope.payload.tellsHandoff step.taskId with
    | true => exact .inl ⟨envelope, mem_append_right _ mem_cons_self, hSince, hTells⟩
    | false =>
      rw [hTells] at hIs
      exact .inr ⟨earlier, envelope, later, rfl, hSince, hTells, hIs.resolve_left Bool.false_ne_true⟩
  · rintro (⟨envelope, hMem, hSince, hTells⟩ | ⟨earlier, envelope, later, hSplit, hSince, _, hHands⟩)
    · obtain ⟨earlier, later, rfl⟩ := append_of_mem hMem
      exact ⟨earlier, envelope, later, rfl, hSince, .inl hTells⟩
    · exact ⟨earlier, envelope, later, hSplit, hSince, .inr hHands⟩

theorem mem_feed {row : Activity} {shown : List Activity} : row ∈ log.foldl applyEvent shown ↔ row ∈ shown ∨
    ∃ envelope ∈ log, taskText envelope.payload = some (row.taskId, row.field, row.oldValue, row.newValue) ∧
      row.occurredAt = envelope.occurredAt ∧ row.seq = envelope.seq := by
  induction log generalizing shown with
  | nil => simp
  | cons envelope rest ih =>
    rw [foldl_cons, ih, exists_mem_cons_iff, ← or_assoc]
    refine or_congr_left ?_
    unfold applyEvent
    cases hText : taskText envelope.payload with
    | none => simp
    | some text =>
      obtain ⟨taskId, field, oldValue, newValue⟩ := text
      rw [mem_append, mem_singleton]
      refine or_congr_right ⟨?_, ?_⟩
      · rintro rfl
        exact ⟨rfl, rfl, rfl⟩
      · obtain ⟨rowTask, rowField, rowOld, rowNew, occurredAt, seq⟩ := row
        rintro ⟨hIs, hAt, hSeq⟩
        cases hIs
        rw [show occurredAt = envelope.occurredAt from hAt, show seq = envelope.seq from hSeq]

theorem handoffRecordedSince_iff {since : Timestamp} : handoffRecordedSince codec (db.withFeed log) id since = true ↔
    ∃ envelope ∈ log, since ≤ envelope.occurredAt ∧ envelope.payload.readsHandoff codec id := by
  unfold handoffRecordedSince listForTask
  rw [any_eq_true]
  constructor
  · rintro ⟨row, hRow, hIs⟩
    obtain ⟨hSince, hHandoff⟩ := Bool.and_eq_true_iff.mp hIs
    obtain ⟨hFed, hTask⟩ := mem_filter.mp (mem_orderBy.mp hRow)
    have hTask : row.taskId = id := of_decide_eq_true hTask
    rcases mem_feed.mp hFed with hNone | ⟨envelope, hMem, hText, hAt, _⟩
    · exact absurd hNone not_mem_nil
    · exact ⟨envelope, hMem, hAt ▸ of_decide_eq_true hSince, row.field, row.oldValue, row.newValue, hTask ▸ hText, hHandoff⟩
  · rintro ⟨envelope, hMem, hSince, field, oldValue, newValue, hText, hHandoff⟩
    refine ⟨⟨id, field, oldValue, newValue, envelope.occurredAt, envelope.seq⟩, mem_orderBy.mpr (mem_filter.mpr
      ⟨mem_feed.mpr (.inr ⟨envelope, hMem, hText, rfl, rfl⟩), decide_eq_true rfl⟩), ?_⟩
    exact Bool.and_eq_true_iff.mpr ⟨decide_eq_true hSince, hHandoff⟩

theorem Event.readsHandoff_of_tells {event : Event} (h : event.tellsHandoff id = true) : event.readsHandoff codec id := by
  cases event with
  | task event =>
    cases event with
    | taskStatusChanged taskId fromStatus toStatus =>
      obtain ⟨hTask, hOver⟩ := Bool.and_eq_true_iff.mp h
      obtain rfl : taskId = id := of_decide_eq_true hTask
      refine ⟨_, _, _, rfl, ?_⟩
      cases toStatus with
      | inReview | done => rfl
      | todo =>
        cases fromStatus with
        | inReview => rfl
        | _ => cases hOver
      | _ => cases fromStatus <;> cases hOver
    | taskUpdated taskId patch =>
      obtain ⟨hTask, hPosition⟩ := Bool.and_eq_true_iff.mp h
      obtain rfl : taskId = id := of_decide_eq_true hTask
      exact ⟨_, _, _, rfl, hPosition⟩
    | _ => cases h
  | _ => cases h

theorem RunStep.recorded_iff : handoffRecordedSince codec (db.withFeed log) step.taskId step.startedAt = true ↔
    step.Told log ∨ step.Misread log codec := by
  rw [handoffRecordedSince_iff]
  constructor
  · rintro ⟨envelope, hMem, hSince, hReads⟩
    cases hTells : envelope.payload.tellsHandoff step.taskId with
    | true => exact .inl ⟨envelope, hMem, hSince, hTells⟩
    | false => exact .inr ⟨envelope, hMem, hSince, hTells, hReads⟩
  · rintro (⟨envelope, hMem, hSince, hTells⟩ | ⟨envelope, hMem, hSince, _, hReads⟩)
    · exact ⟨envelope, hMem, hSince, Event.readsHandoff_of_tells hTells⟩
    · exact ⟨envelope, hMem, hSince, hReads⟩

theorem ensureStep_ok {runId : RunId} : ensureStep codec db runId step = .ok () ↔ step.finishedAt.isSome = true ∧
    (step.outcome = some .done → handoffRecordedSince codec db step.taskId step.startedAt = true) := by
  unfold ensureStep
  constructor
  · intro h
    obtain ⟨_, hFinished, h⟩ := bind_eq_ok.mp h
    refine ⟨ensure_eq_ok.mp hFinished, fun hDone => ?_⟩
    have hBacked := ensure_eq_ok.mp h
    simpa [hDone] using hBacked
  · rintro ⟨hFinished, hBacked⟩
    refine bind_eq_ok.mpr ⟨(), ensure_eq_ok.mpr hFinished, ensure_eq_ok.mpr ?_⟩
    by_cases hDone : step.outcome = some .done
    · simp [hBacked hDone]
    · simp [hDone]

theorem forM_ok {α : Type} {f : α → Result Unit} {list : List α} : list.forM f = .ok () ↔ ∀ a ∈ list, f a = .ok () := by
  induction list with
  | nil => exact iff_of_true rfl fun _ hMem => absurd hMem not_mem_nil
  | cons a rest ih =>
    rw [forall_mem_cons, ← ih]
    constructor
    · intro h
      obtain ⟨_, hFirst, hRest⟩ := bind_eq_ok.mp h
      exact ⟨hFirst, hRest⟩
    · rintro ⟨hFirst, hRest⟩
      exact bind_eq_ok.mpr ⟨(), hFirst, hRest⟩

theorem completeRun_ok {now : Timestamp} {runId : RunId} (hActive : ActiveRun db runId) :
    (completeRun codec db now runId).isOk = true ↔ ∀ step ∈ listSteps db runId,
      step.finishedAt.isSome = true ∧
        (step.outcome = some .done → handoffRecordedSince codec db step.taskId step.startedAt = true) := by
  have hSteps : ensureRunPostconditions codec db runId = .ok () ↔ ∀ step ∈ listSteps db runId,
      step.finishedAt.isSome = true ∧
        (step.outcome = some .done → handoffRecordedSince codec db step.taskId step.startedAt = true) := by
    unfold ensureRunPostconditions
    rw [forM_ok]
    exact forall₂_congr fun _ _ => ensureStep_ok
  rw [← hSteps]
  obtain ⟨run, hRun, hIs⟩ := hActive
  constructor
  · intro h
    obtain ⟨events, hEvents⟩ : ∃ events, completeRun codec db now runId = .ok events := by
      cases hResult : completeRun codec db now runId with
      | error e =>
        rw [hResult] at h
        cases h
      | ok events => exact ⟨events, rfl⟩
    obtain ⟨_, _, hEvents⟩ := bind_eq_ok.mp hEvents
    obtain ⟨_, _, hEvents⟩ := bind_eq_ok.mp hEvents
    obtain ⟨_, hChecked, _⟩ := bind_eq_ok.mp hEvents
    exact hChecked
  · intro hChecked
    have hEvents : completeRun codec db now runId = .ok [.runCompleted runId now] :=
      bind_eq_ok.mpr ⟨run, okOr_eq_ok.mpr hRun, bind_eq_ok.mpr ⟨(), ensure_eq_ok.mpr (decide_eq_true hIs),
        bind_eq_ok.mpr ⟨(), hChecked, rfl⟩⟩⟩
    rw [hEvents]
    rfl

def Handler.Completes (config : Config) (db : Database) (env : Env) (actor : Actor) (caller : Caller) (runId : RunId) : Prop :=
  ensureRunCompletionOwner db caller (.run (.completeRun runId)) = .ok () ∧
    (RunCommands.buildEvents config db env actor (.completeRun runId)).isOk = true

def RunHandedOver (db : Database) (log : List EventEnvelope) (runId : RunId) : Prop :=
  ∀ step ∈ listSteps db runId, step.finishedAt.isSome = true ∧ (step.outcome = some .done → step.HandedOver log)

/-- The latest attempt at a task, when it is closed with an outcome, is not recorded
again. -/
def RepeatsNothing (config : Config) (db : Database) (env : Env) (actor : Actor) (runId : RunId) : Prop :=
  ∀ taskId outcome step, (listSteps db runId).reverse.find? (fun step => step.taskId = taskId) = some step →
    step.finishedAt.isSome = true → step.outcome = some outcome →
      RunCommands.buildEvents config db env actor (.runFinishStep runId taskId outcome) = .ok []

/-- What tells of handoffs settles the completion: a step is open, or the texts and the
other changes of status do not matter. -/
def HandoffsSettle (codec : TextCodec) (db : Database) (log : List EventEnvelope) (runId : RunId) : Prop :=
  (∃ step ∈ listSteps db runId, step.finishedAt.isSome = false) ∨
  (∀ step ∈ listSteps db runId, step.outcome = some .done →
    step.Told log ∨ (step.Misread log codec ∧ step.Moved log)) ∨
  ((∃ step ∈ listSteps db runId, step.outcome = some .done ∧ ¬step.Told log ∧ ¬step.Misread log codec) ∧
    ∃ step ∈ listSteps db runId, step.outcome = some .done ∧ ¬step.Told log ∧ ¬step.Moved log)

namespace Handler

variable {env : Env} {actor : Actor} {caller : Caller} {owner : AgentId} {runId : RunId}

theorem completes_iff (hActive : ActiveRun db runId) (hOwner : runOwner db runId = some owner)
    (hCaller : caller.agentId = some owner) : Completes config (db.withFeed log) env actor caller runId ↔
      ∀ step ∈ listSteps db runId, step.finishedAt.isSome = true ∧
        (step.outcome = some .done → step.Told log ∨ step.Misread log config.text) := by
  have hOwned : ensureRunCompletionOwner (db.withFeed log) caller (.run (.completeRun runId)) = .ok () := by
    unfold ensureRunCompletionOwner
    rw [hCaller]
    dsimp only
    split
    · rfl
    · have hSame : runOwner (db.withFeed log) runId = some owner := hOwner
      rw [hSame]
      exact if_pos rfl
  have hBuilt := @completeRun_ok config.text (db.withFeed log) env.now runId hActive
  refine (and_iff_right hOwned).trans (hBuilt.trans ?_)
  exact forall₂_congr fun step _ => and_congr_right fun _ => imp_congr_right fun _ => RunStep.recorded_iff

theorem repeatsNothing (hActive : ActiveRun db runId) : RepeatsNothing config db env actor runId := by
  intro taskId outcome step hLatest hFinished hOutcome
  obtain ⟨run, hRun, _⟩ := hActive
  refine bind_eq_ok.mpr ⟨run, okOr_eq_ok.mpr hRun, ?_⟩
  dsimp only
  rw [hLatest, if_pos (by simp [hFinished, hOutcome])]
  rfl

/-- Two ways of backing what is done agree where neither of them matters, or where
both leave something without. -/
theorem forall_agree_iff {α : Type} {list : List α} {done told misread moved : α → Prop} :
    ((∀ a ∈ list, done a → told a ∨ misread a) ↔ ∀ a ∈ list, done a → told a ∨ moved a) ↔
      (∀ a ∈ list, done a → told a ∨ (misread a ∧ moved a)) ∨
        ((∃ a ∈ list, done a ∧ ¬told a ∧ ¬misread a) ∧ ∃ a ∈ list, done a ∧ ¬told a ∧ ¬moved a) := by
  constructor
  · intro hSame
    by_cases hRead : ∀ a ∈ list, done a → told a ∨ misread a
    · have hMoved := hSame.mp hRead
      refine .inl fun a hMem hDone => ?_
      rcases hRead a hMem hDone with hTold | hMisread
      · exact .inl hTold
      · exact (hMoved a hMem hDone).imp_right fun hMoved => ⟨hMisread, hMoved⟩
    · have hUnmoved := mt hSame.mpr hRead
      push Not at hRead hUnmoved
      exact .inr ⟨hRead, hUnmoved⟩
  · rintro (hBoth | ⟨⟨a, hMem, hDone, hTold, hMisread⟩, b, hOther, hAlso, hUntold, hUnmoved⟩)
    · exact iff_of_true (fun a hMem hDone => (hBoth a hMem hDone).imp_right And.left)
        fun a hMem hDone => (hBoth a hMem hDone).imp_right And.right
    · exact iff_of_false (fun h => (h a hMem hDone).elim hTold hMisread) fun h => (h b hOther hAlso).elim hUntold hUnmoved

private def positionText : String := "\x7b\"pipeline_position\":0\x7d"

private def readingConfig : Config :=
  { Server.engineConfig with text := { Server.plainCodec with jsonHasPosition := fun text => text = positionText } }

private def executor : Caller := ⟨some ⟨5⟩, false⟩

private def executed (list : List Command) : Database :=
  Server.run readingConfig (list.mapIdx fun n command => .command (Server.nthEnv n) executor command .anyUser)

private def executedPlan : PlanId := (builderEnv (Server.nthEnv 1)).fresh 0

private def executedRun : RunId := (builderEnv (Server.nthEnv 3)).fresh 0

private def startedStep : List Command := [
  .task (.createTask { NewTask.new "task" with id := some ⟨7⟩ }),
  .plan (.createPlan (NewPlan.new "plan" ⟨0⟩ .anyUser) none),
  .plan (.setPlanStatus executedPlan .active false none),
  .run (.startRun executedPlan ⟨5⟩ none),
  .run (.runStartStep executedRun ⟨7⟩)]

/-- It says something of the task, or does something to it, and is done. -/
private def doneWith (command : Command) : Database :=
  executed (startedStep ++ [command, .run (.runFinishStep executedRun ⟨7⟩ .done)])

private def reviewed : Database := doneWith (.task (.setStatus ⟨7⟩ .inReview false none none))

private def commented : Database := doneWith (.comment (.addComment ⟨none, ⟨7⟩, positionText, none, none⟩))

private def patched : Database := doneWith (.task (.updateTask ⟨7⟩ { TaskPatch.none with status := some .done }))

private theorem activeRun (h : (db.runs.find? runId).map Run.status = some .active) : ActiveRun db runId := by
  obtain ⟨run, hRun, hIs⟩ := Option.map_eq_some_iff.mp h
  exact ⟨run, hRun, hIs⟩

private def writesStatus (id : TaskId) : Event → Bool
  | .task (.taskCreated _) | .task (.taskSplitGenerated ..) | .task (.taskStatusChanged ..) | .task (.taskCompleted ..)
    | .task (.taskDeleted _) => true
  | .task (.taskUpdated taskId patch) => taskId = id && patch.status.isSome
  | _ => false

private theorem status_kept {event : Event} (h : writesStatus id event = false) (before : Option Lifecycle) :
    (event.lifecycle id before).map Prod.fst = before.map Prod.fst := by
  cases event with
  | task event =>
    cases event with
    | taskUpdated taskId patch =>
      show (if taskId = id then before.map fun row => (patch.status.getD row.1, row.2) else before).map Prod.fst = _
      split
      · rename_i hTask
        have hStatus : patch.status = none := by simpa [writesStatus, hTask] using h
        rw [Option.map_map, hStatus]
        rfl
      · rfl
    | taskReopened taskId | taskClosed taskId =>
      show (if taskId = id then _ else before).map Prod.fst = _
      split
      · rw [Option.map_map]
        rfl
      · rfl
    | taskPriorityChanged | taskUnblocked | taskDueElapsed | taskContested => rfl
    | _ => cases h
  | _ => rfl

private theorem not_handedOver {step : RunStep} (h : log.all (fun envelope => decide (step.startedAt ≤ envelope.occurredAt) →
    !envelope.payload.tellsHandoff step.taskId && !writesStatus step.taskId envelope.payload) = true) : ¬step.HandedOver log := by
  rintro ⟨earlier, envelope, later, rfl, hSince, hIs⟩
  have hQuiet := all_eq_true.mp h envelope (mem_append_right _ mem_cons_self)
  simp only [hSince, decide_true, forall_const, Bool.and_eq_true, Bool.not_eq_true', decide_eq_true_eq] at hQuiet
  obtain ⟨hTells, hWrites⟩ := hQuiet
  rcases hIs with hIs | ⟨fromStatus, toStatus, hBefore, hAfter, hOther, _⟩
  · exact Bool.false_ne_true (hTells.symm.trans hIs)
  · unfold statusAfter at hBefore hAfter
    rw [map_append, lifecycleAfter_append, map_singleton, lifecycleAfter_cons, lifecycleAfter_nil,
      status_kept hWrites, hBefore] at hAfter
    exact hOther (Option.some.inj hAfter)

private theorem handedOver_at {step : RunStep} {n : Nat} {fromStatus toStatus : Status} (hLength : n < log.length)
    (hSince : step.startedAt ≤ (log.get ⟨n, hLength⟩).occurredAt)
    (hBefore : statusAfter (log.take n) step.taskId = some fromStatus)
    (hAfter : statusAfter (log.take (n + 1)) step.taskId = some toStatus) (hOther : fromStatus ≠ toStatus)
    (hOver : handsOver fromStatus toStatus = true) : step.HandedOver log := by
  refine ⟨log.take n, log.get ⟨n, hLength⟩, log.drop (n + 1), ?_, hSince, .inr ⟨fromStatus, toStatus, hBefore, ?_, hOther, hOver⟩⟩
  · rw [get_eq_getElem, ← drop_eq_getElem_cons hLength, take_append_drop]
  · rw [get_eq_getElem, take_append_getElem hLength]
    exact hAfter

private def doneStep : RunStep := ⟨executedRun, ⟨7⟩, 4, some 6, some .done⟩

end Handler
end Daruma
