import Daruma.Core.EvidenceStamps
import Daruma.Storage.EntityVersion

/-! The versions of tasks over whole runs. They are written where the projection of
tasks takes an event, while the projection of plans writes a task as well. -/
namespace Daruma

open Stateful List

open EntityVersion (Chained recordVersions valueOf createdIds history changesOf)

namespace Projections

/-- The versions after a batch, as far as its projections took it. -/
def recordEvents (env : Env) : Database → List TaskVersion → List EventEnvelope → List TaskVersion
  | _, versions, [] => versions
  | db, versions, envelope :: rest =>
    let part := env.part envelope.seq
    match tasks part envelope db with
    | .error _ => versions
    | .ok written =>
      let recorded := recordVersions db.tasks part envelope versions
      match Stateful.inTurn (projectors part envelope).tail written with
      | (.error _, _) => recorded
      | (.ok (), db') => recordEvents env db' recorded rest

def adopts (db : Database) : Event → Bool
  | .plan (.planTaskAdded planId taskId position dependsOn) =>
    ((db.tasks.find? taskId).any fun task => task.projectId.isNone) && (db.plans.find? planId).isSome &&
      (PlanRepo.memberProjects
        { db with planTasks := db.planTasks.insertOrReplace ⟨planId, taskId, position, dependsOn⟩ } taskId).length = 1
  | _ => false

/-- An event that creates only rows that are not there, and gives no task a project
from a plan. -/
def Recordable (env : Env) (db : Database) (envelope : EventEnvelope) : Prop :=
  (∀ id ∈ createdIds env envelope, db.tasks.find? id = none) ∧ (createdIds env envelope).Nodup ∧
    adopts db envelope.payload = false

instance (env : Env) (db : Database) (envelope : EventEnvelope) : Decidable (Recordable env db envelope) :=
  inferInstanceAs (Decidable (_ ∧ _ ∧ _))

/-- Every event of a batch, in the state that the ones before it left. -/
def EachRecordable (env : Env) : Database → List EventEnvelope → Prop
  | _, [] => True
  | db, envelope :: rest => Recordable (env.part envelope.seq) db envelope ∧
      EachRecordable env (Stateful.inTurn (projectors (env.part envelope.seq) envelope) db).2 rest

instance decidableEachRecordable (env : Env) :
    (db : Database) → (envelopes : List EventEnvelope) → Decidable (EachRecordable env db envelopes)
  | _, [] => instDecidableTrue
  | db, envelope :: rest =>
    have := decidableEachRecordable env
      (Stateful.inTurn (projectors (env.part envelope.seq) envelope) db).2 rest
    inferInstanceAs (Decidable (_ ∧ _))

variable {env : Env} {envelope : EventEnvelope} {db db' : Database} {versions : List TaskVersion}
  {envelopes : List EventEnvelope} {outcome : Except CoreError Unit}

theorem plans_values (hAdopts : adopts db envelope.payload = false) (id : TaskId) :
    valueOf (PlanRepo.applyEvent db env envelope).tasks id = valueOf db.tasks id := by
  refine PlanRepo.applyEvent_tasks_rule (P := fun tasks => valueOf tasks id = valueOf db.tasks id) rfl
    fun planId taskId position dependsOn hPayload hSingle => ?_
  rw [hPayload] at hAdopts
  have hFind := KeyedTable.find?_modify db.tasks taskId id
    (fun task : Task => { task with
      projectId := task.projectId.or ((db.plans.find? planId).map Plan.projectId) }) fun _ => rfl
  rw [valueOf, hFind]
  split
  · rename_i hId
    subst hId
    cases hFound : db.tasks.find? taskId with
    | none => rw [valueOf, hFound]; rfl
    | some task =>
      rw [valueOf, hFound]
      rw [adopts, hFound] at hAdopts
      cases hProject : task.projectId with
      | some projectId => simp [EntityVersion.taskValue, hProject]
      | none =>
        have hPlan : db.plans.find? planId = none := by
          by_contra hSome
          simp [hProject, hSingle, Option.isSome_iff_ne_none.mpr hSome] at hAdopts
        simp [EntityVersion.taskValue, hProject, hPlan]
  · rfl

def SameTasks (before after : Database) : Prop := after.tasks = before.tasks

theorem SameTasks.refl (db : Database) : SameTasks db db := rfl

theorem SameTasks.trans {first second third : Database} (h : SameTasks first second) (h' : SameTasks second third) :
    SameTasks first third := Eq.trans h' h

variable {step : Database → Result Database}

/-- After the projections of tasks and plans no other one writes a task. -/
theorem laterProjectors_tasks (hStep : step ∈ (projectors env envelope).drop 3)
    (h : step db = .ok db') : SameTasks db db' := by
  obtain ⟨_, hLater, hWrote⟩ := exists_wrote_drop hStep h
  cases hWrote with
  | tasks | records | plans => exact absurd hLater (by decide)
  | _ => rfl

theorem otherProjectors_values (hAdopts : adopts db envelope.payload = false)
    (h : Stateful.inTurn (projectors env envelope).tail db = (outcome, db')) (id : TaskId) :
    valueOf db'.tasks id = valueOf db.tasks id := by
  have hSplit : (projectors env envelope).tail = (fun db => .ok (records envelope db)) ::
      (fun db => .ok (PlanRepo.applyEvent db env envelope)) :: (projectors env envelope).drop 3 := rfl
  rw [hSplit] at h
  rcases inTurn_cons h with ⟨_, hFailed, _⟩ | ⟨middle, hRecords, h⟩
  · cases hFailed
  cases hRecords
  rcases inTurn_cons h with ⟨_, hFailed, _⟩ | ⟨middle, hPlans, h⟩
  · cases hFailed
  cases hPlans
  have hRest : SameTasks _ db' := inTurn_rel SameTasks.refl (fun _ _ _ => .trans)
    (fun step hStep _ _ hRun => laterProjectors_tasks hStep hRun) h
  rw [hRest]
  have hSame : adopts (records envelope db) envelope.payload = false := hAdopts
  exact plans_values hSame id

theorem recordEvents_cons {rest : List EventEnvelope} : recordEvents env db versions (envelope :: rest) =
      match tasks (env.part envelope.seq) envelope db with
      | .error _ => versions
      | .ok written =>
        match Stateful.inTurn (projectors (env.part envelope.seq) envelope).tail written with
        | (.error _, _) => recordVersions db.tasks (env.part envelope.seq) envelope versions
        | (.ok (), db') => recordEvents env db' (recordVersions db.tasks (env.part envelope.seq) envelope versions) rest := rfl

theorem recordEvents_chained (hChained : Chained versions db.tasks)
    (h : applyEvents env envelopes db = (outcome, db')) (hEach : EachRecordable env db envelopes)
    (hFresh : ∀ version ∈ versions, ∀ envelope ∈ envelopes, version.sourceEventId ≠ envelope.id)
    (hDistinct : (envelopes.map EventEnvelope.id).Nodup) :
    Chained (recordEvents env db versions envelopes) db'.tasks := by
  induction envelopes generalizing db versions with
  | nil =>
    obtain ⟨_, rfl⟩ := pure_eq.mp h
    exact hChained
  | cons envelope rest ih =>
    obtain ⟨⟨hNew, hCreated, hAdopts⟩, hRest⟩ := hEach
    rw [map_cons, nodup_cons] at hDistinct
    rw [applyEvents, batchProjectors, flatMap_cons, inTurn_append] at h
    rw [recordEvents_cons]
    cases hTasks : tasks (env.part envelope.seq) envelope db with
    | error e =>
      have hRun : inTurn (projectors (env.part envelope.seq) envelope) db = (.error e, db) := by
        unfold projectors inTurn
        rw [hTasks]
      rw [hRun] at h
      cases h
      exact hChained
    | ok written =>
      have hRun : inTurn (projectors (env.part envelope.seq) envelope) db =
          inTurn (projectors (env.part envelope.seq) envelope).tail written := by
        unfold projectors
        conv_lhs => unfold inTurn
        rw [hTasks]
        rfl
      rw [hRun] at h hRest
      obtain ⟨rows, hRows, rfl⟩ := tasks_ok hTasks
      have hRecorded := EntityVersion.recordVersions_chained hChained hRows
        (fun version hMem => hFresh version hMem envelope mem_cons_self) hNew hCreated
      have hWritten : adopts { db with tasks := rows } envelope.payload = false := by
        cases hEvent : envelope.payload with
        | plan event =>
          unfold TaskRepo.applyEvent at hRows
          rw [hEvent] at hRows hAdopts
          cases hRows
          exact hAdopts
        | _ => rfl
      dsimp only
      cases hOthers : inTurn (projectors (env.part envelope.seq) envelope).tail
          { db with tasks := rows } with
      | mk done middle =>
      have hMiddle := hRecorded.of_values (otherProjectors_values hWritten hOthers)
      rw [hOthers] at h hRest
      cases done with
      | error e =>
        cases h
        exact hMiddle
      | ok done =>
        apply ih hMiddle h hRest _ hDistinct.2
        intro version hMem other hOther
        rcases EntityVersion.recordVersions_cases hMem with hOld | hSource
        · exact hFresh version hOld other (mem_cons_of_mem _ hOther)
        · rw [hSource]
          exact fun hSame => hDistinct.1 (hSame ▸ mem_map_of_mem hOther)

theorem recordEvents_cases {version : TaskVersion} (h : version ∈ recordEvents env db versions envelopes) :
    version ∈ versions ∨ ∃ envelope ∈ envelopes, version.sourceEventId = envelope.id := by
  induction envelopes generalizing db versions with
  | nil => exact .inl h
  | cons envelope rest ih =>
    have hStep : version ∈ recordVersions db.tasks (env.part envelope.seq) envelope versions →
        version ∈ versions ∨ ∃ other ∈ envelope :: rest, version.sourceEventId = other.id := fun hMem =>
      (EntityVersion.recordVersions_cases hMem).imp_right fun hSource => ⟨envelope, mem_cons_self, hSource⟩
    rw [recordEvents_cons] at h
    split at h
    · exact .inl h
    · split at h
      · exact hStep h
      · rcases ih h with hMem | ⟨other, hOther, hSource⟩
        · exact hStep hMem
        · exact .inr ⟨other, mem_cons_of_mem _ hOther, hSource⟩

end Projections

namespace Handler

/-- A call of the handler up to the append: the events that it has persisted. -/
def stored (config : Config) (env : Env) (caller : Caller) (command : Command) (claimed : Actor) :
    Serving (List EventEnvelope) := do
  let actor := attributedActor caller command claimed
  let db ← Stateful.get
  if isCompletedRunRetry db caller command then pure []
  else do
    Stateful.lift (ensureRunCompletionOwner db caller command)
    let (events, _) ← building (draft config db (env.part 0) caller actor command)
    if events.isEmpty then pure []
    else do
      let trail ← GateStage.gated config (env.part 1) actor (gateOverrideOf command) events
      let envelopes := envelopesOf (env.part 2) actor (trail.surround events)
      commit (env.part 3) caller actor command (withProvenance command envelopes)

/-- The events that a call has persisted, and the database that they are applied to. -/
def toApply (config : Config) (env : Env) (caller : Caller) (command : Command) (claimed : Actor) (db : Database) :
    List EventEnvelope × Database :=
  match stored config env caller command claimed db with
  | (.ok persisted, appended) => (persisted, appended)
  | (.error _, db') => ([], db')

/-- The rest of the call. -/
def applyStored (config : Config) (env : Env) (persisted : List EventEnvelope) (db : Database) : Database :=
  match Projections.applyEvents (env.part 4) persisted db with
  | (.error _, db') => db'
  | (.ok (), applied) => AutoAppend.autoAppendLogs config (env.part 5) applied persisted

variable {config : Config} {env : Env} {caller : Caller} {command : Command} {claimed : Actor} {db db' : Database}

theorem handle_stored : (handleWithRunOwner config env caller command claimed db).2 =
    Stateful.leaving (stored config env caller command claimed) (applyStored config env) db := by
  have hEnd : ∀ (warnings : List MutationWarning) (persisted : List EventEnvelope) (db : Database),
      ((do
        Projections.applyEvents (env.part 4) persisted
        let applied ← get
        set (AutoAppend.autoAppendLogs config (env.part 5) applied persisted)
        pure ⟨persisted, warnings⟩ : Serving DispatchOutcome) db).2 = applyStored config env persisted db := by
    intro warnings persisted db
    rw [bind_leaves, leaving, applyStored]
    cases Projections.applyEvents (env.part 4) persisted db with
    | mk outcome applied => cases outcome <;> rfl
  unfold handleWithRunOwner stored
  rw [bind_leaves, leaving_bind]
  apply congrFun
  apply congrArg
  funext current middle
  dsimp only
  split
  · rfl
  rw [bind_leaves, leaving_bind]
  apply congrFun
  apply congrArg
  funext _ middle
  rw [bind_leaves, leaving_bind]
  apply congrFun
  apply congrArg
  funext built middle
  obtain ⟨events, warnings⟩ := built
  dsimp only
  split
  · rfl
  rw [bind_leaves, leaving_bind]
  apply congrFun
  apply congrArg
  funext trail middle
  rw [bind_leaves]
  apply congrFun
  apply congrArg
  funext persisted appended
  exact hEnd _ _ _

theorem stored_cases {outcome : Except CoreError (List EventEnvelope)}
    (h : stored config env caller command claimed db = (outcome, db')) :
    db'.tasks = db.tasks ∧ AutoAppend.LogGrows db db' ∧
      ∀ persisted, outcome = .ok persisted → db'.events.rows = db.events.rows ++ persisted := by
  have hIdle : ∀ (db : Database), db.tasks = db.tasks ∧ AutoAppend.LogGrows db db ∧
      ∀ persisted, (.ok [] : Except CoreError (List EventEnvelope)) = .ok persisted →
        db.events.rows = db.events.rows ++ persisted := by
    intro db
    refine ⟨rfl, .refl db, fun persisted hOk => ?_⟩
    cases hOk
    exact (append_nil _).symm
  replace h := get_bind.mp h
  dsimp only at h
  split at h
  · obtain ⟨rfl, rfl⟩ := pure_eq.mp h
    exact hIdle db
  rcases lift_bind_cases h with ⟨e, rfl, _, rfl⟩ | ⟨_, _, h⟩
  · exact ⟨rfl, .refl db, nofun⟩
  rcases bind_cases h with ⟨e, rfl, hBuilt⟩ | ⟨⟨events, warnings⟩, middle, hBuilt, h⟩
  · obtain ⟨relations, _, rfl⟩ := building_eq hBuilt
    exact ⟨rfl, .refl db, nofun⟩
  obtain ⟨relations, _, rfl⟩ := building_eq hBuilt
  dsimp only at h
  split at h
  · obtain ⟨rfl, rfl⟩ := pure_eq.mp h
    exact hIdle db
  rcases bind_cases h with ⟨e, rfl, hGated⟩ | ⟨trail, middle, hGated, h⟩
  · obtain ⟨_, hTrail, _⟩ | ⟨_, _, audit, _, hLog, _, _, _, rfl⟩ := gated_cases hGated
    · cases hTrail
    · exact ⟨rfl, ⟨audit, hLog⟩, nofun⟩
  obtain ⟨_, _, rfl⟩ | ⟨_, hTrail, _⟩ := gated_cases hGated
  swap
  · cases hTrail
  cases outcome with
  | ok persisted =>
    obtain ⟨runs, agentClaims, owners, released, hAppend⟩ := persist_ok (commit_ok h)
    obtain ⟨_, hRows, _, _, rfl⟩ := appendBatch_ok hAppend
    refine ⟨rfl, ⟨persisted, hRows⟩, fun _ hOk => ?_⟩
    cases hOk
    exact hRows
  | error e =>
    rcases bind_cases h with ⟨_, _, hGet⟩ | ⟨current, middle, hGet, h⟩
    · obtain ⟨_, rfl⟩ := get_eq.mp hGet
      exact ⟨rfl, .refl db, nofun⟩
    obtain ⟨_, rfl⟩ := get_eq.mp hGet
    rcases bind_cases h with ⟨_, _, hStored⟩ | ⟨_, _, _, h⟩
    · obtain ⟨_, rfl⟩ := lift_eq.mp hStored
      exact ⟨rfl, .refl db, nofun⟩
    · rcases bind_cases h with ⟨_, _, hSet⟩ | ⟨_, _, _, hPure⟩
      · cases (set_eq.mp hSet).1
      · cases (pure_eq.mp hPure).1

end Handler

namespace Server

open Projections (SameTasks)

variable {env : Env}

end Server

theorem AutoAppend.autoAppendLogs_tasks {config : Config} {env : Env} (envelopes : List EventEnvelope) (db : Database) :
    Projections.SameTasks db (autoAppendLogs config env db envelopes) := by
  obtain ⟨_, _, _, _, _, _, hLines, _⟩ := autoAppendLogs_lines envelopes db
  rw [hLines]
  exact rfl

namespace Server

open Projections (SameTasks)

def versionsAfter (config : Config) (db : Database) (versions : List TaskVersion) : Call → List TaskVersion
  | .command env caller command actor =>
    let (persisted, appended) := Handler.toApply config env caller command actor db
    Projections.recordEvents (env.part 4) appended versions persisted
  | _ => versions

def serveRecording (config : Config) (state : Database × List TaskVersion) (call : Call) :
    Database × List TaskVersion :=
  (serve config state.1 call, versionsAfter config state.1 state.2 call)

def runRecording (config : Config) (calls : List Call) : Database × List TaskVersion :=
  calls.foldl (serveRecording config) (Database.empty, [])

/-- A call whose events can each be recorded where it is applied. -/
def RecordableCall (config : Config) (db : Database) : Call → Prop
  | .command env caller command actor =>
    Projections.EachRecordable (env.part 4) (Handler.toApply config env caller command actor db).2
      (Handler.toApply config env caller command actor db).1
  | _ => True

instance (config : Config) (db : Database) : DecidablePred (RecordableCall config db)
  | .command .. => Projections.decidableEachRecordable _ _ _
  | .acquireClaim .. | .releaseClaim .. | .sweepClaims .. | .signal .. => instDecidableTrue

/-- The chains, and the events of the log that the versions come from. -/
structure Recorded (state : Database × List TaskVersion) : Prop where
  chained : Chained state.2 state.1.tasks
  sources : ∀ version ∈ state.2, ∃ envelope ∈ state.1.events.rows, envelope.id = version.sourceEventId

variable {config : Config} {db : Database} {versions : List TaskVersion} {call : Call}

theorem Recorded.keep {db' : Database} (h : Recorded (db, versions)) (hTasks : db'.tasks = db.tasks)
    (hLog : AutoAppend.LogGrows db db') : Recorded (db', versions) := by
  obtain ⟨later, hRows⟩ := hLog
  refine ⟨h.chained.of_values fun id => by rw [hTasks], fun version hMem => ?_⟩
  obtain ⟨envelope, hEnvelope, hSource⟩ := h.sources version hMem
  exact ⟨envelope, hRows ▸ mem_append_left later hEnvelope, hSource⟩

theorem Recorded.command {env : Env} {caller : Caller} {command : Command} {actor : Actor}
    (h : Recorded (db, versions)) (hMeets : RecordableCall config db (.command env caller command actor)) :
    Recorded (serveRecording config (db, versions) (.command env caller command actor)) := by
  change Recorded ((Handler.handleWithRunOwner config env caller command actor db).2, _)
  rw [Handler.handle_stored, leaving, versionsAfter]
  rw [RecordableCall] at hMeets
  unfold Handler.toApply at hMeets ⊢
  cases hStored : Handler.stored config env caller command actor db with
  | mk outcome appended =>
  rw [hStored] at hMeets
  obtain ⟨hTasks, hLog, hRows⟩ := Handler.stored_cases hStored
  cases outcome with
  | error e => exact h.keep hTasks hLog
  | ok persisted =>
    dsimp only at hMeets ⊢
    have hAppended := h.keep hTasks hLog
    have hKeys := appended.events.nodup
    rw [hRows persisted rfl, map_append, nodup_append] at hKeys
    have hFresh : ∀ version ∈ versions, ∀ envelope ∈ persisted, version.sourceEventId ≠ envelope.id := by
      intro version hMem envelope hEnvelope hSame
      obtain ⟨origin, hOrigin, hSource⟩ := h.sources version hMem
      exact hKeys.2.2 _ (mem_map_of_mem hOrigin) _ (mem_map_of_mem hEnvelope) (hSource.trans hSame)
    cases hApplied : Projections.applyEvents (env.part 4) persisted appended with
    | mk done applied =>
    have hSources : ∀ version ∈ Projections.recordEvents (env.part 4) appended versions persisted,
        ∃ envelope ∈ appended.events.rows, envelope.id = version.sourceEventId := by
      intro version hMem
      rcases Projections.recordEvents_cases hMem with hOld | ⟨envelope, hEnvelope, hSource⟩
      · exact hAppended.sources version hOld
      · exact ⟨envelope, hRows persisted rfl ▸ mem_append_right _ hEnvelope, hSource.symm⟩
    have hRecorded : Recorded (applied, Projections.recordEvents (env.part 4) appended versions persisted) := by
      refine ⟨Projections.recordEvents_chained hAppended.chained hApplied hMeets hFresh hKeys.2.1, ?_⟩
      rw [(Projections.applyEvents_sameLog hApplied).1]
      exact hSources
    rw [Handler.applyStored, hApplied]
    cases done with
    | error e => exact hRecorded
    | ok done => exact hRecorded.keep (AutoAppend.autoAppendLogs_tasks _ _) (AutoAppend.autoAppendLogs_lines _ _).grows

theorem serve_tasks (hCall : Call.isCommand call = false) : SameTasks db (serve config db call) := by
  refine serve_rule hCall fun ⟨_, _, _, _, _, _, hFrame, _⟩ => ?_
  rw [hFrame]
  exact rfl

theorem serve_log (hCall : Call.isCommand call = false) : AutoAppend.LogGrows db (serve config db call) :=
  serve_rule hCall fun hWrites => hWrites.grows

theorem serve_grows (db : Database) (call : Call) : AutoAppend.LogGrows db (serve config db call) := by
  cases call with
  | command env caller command claimed =>
    refine Handler.handle_rule (fun hAudited => ?_) (fun hAccepted hApplied => ?_)
      fun hLines hApplied => hApplied.trans hLines.grows
    · obtain ⟨audit, _, hLog, _⟩ := hAudited
      exact ⟨audit, hLog⟩
    · exact ⟨_, (Projections.applyEvents_sameLog hApplied).1.symm ▸ hAccepted.log⟩
  | _ => exact serve_log rfl

/-- Whatever calls come later, an event of the log stays as it is and where it is. -/
theorem run_log_grows (earlier later : List Call) :
    AutoAppend.LogGrows (run config earlier) (run config (earlier ++ later)) := by
  rw [run, run, foldl_append]
  have hEvery : Meets config (fun _ _ => True) (earlier.foldl (serve config) .empty) later :=
    Meets.of_forall fun _ _ => trivial
  exact foldl_induction (fun db call hGrown _ => hGrown.trans (serve_grows db call)) (.refl _) hEvery

theorem Recorded.serve (h : Recorded (db, versions)) (hMeets : RecordableCall config db call) :
    Recorded (serveRecording config (db, versions) call) := by
  cases hCall : Call.isCommand call with
  | false =>
    have hVersions : versionsAfter config db versions call = versions := by
      cases call with
      | command => cases hCall
      | _ => rfl
    rw [serveRecording, hVersions]
    exact h.keep (serve_tasks hCall) (serve_log hCall)
  | true =>
    cases call with
    | command env caller command actor => exact h.command hMeets
    | _ => cases hCall

theorem runRecording_state (calls : List Call) (state : Database × List TaskVersion) :
    (calls.foldl (serveRecording config) state).1 = calls.foldl (serve config) state.1 := by
  induction calls generalizing state with
  | nil => rfl
  | cons call rest ih => exact ih (serveRecording config state call)

theorem recorded_foldl {calls : List Call} {state : Database × List TaskVersion} (h : Recorded state)
    (hMeets : Meets config (RecordableCall config) state.1 calls) :
    Recorded (calls.foldl (serveRecording config) state) := by
  induction calls generalizing state with
  | nil => exact h
  | cons call rest ih => exact ih (h.serve hMeets.1) hMeets.2

/-- The versions of every task are a chain from no row to its row, numbered from
one, in a run whose events create only rows that are not there and give no task a
project from a plan. An event has one version of a task at most, also when it is
applied once more. -/
theorem versions_chained {calls : List Call} (hMeets : Meets config (RecordableCall config) Database.empty calls) :
    (runRecording config calls).1 = run config calls ∧
      Chained (runRecording config calls).2 (run config calls).tasks ∧
      (∀ version ∈ (runRecording config calls).2,
        ∃ envelope ∈ (run config calls).events.rows, envelope.id = version.sourceEventId) ∧
      ∀ (tasks : Tasks) (env : Env) (envelope : EventEnvelope) (id : TaskId),
        (∃ version ∈ history (runRecording config calls).2 id, version.sourceEventId = envelope.id) →
        history (recordVersions tasks env envelope (runRecording config calls).2) id =
          history (runRecording config calls).2 id := by
  have hEmpty : Recorded (Database.empty, []) := ⟨.empty, fun _ hMem => absurd hMem not_mem_nil⟩
  have hState : (runRecording config calls).1 = run config calls := runRecording_state calls _
  obtain ⟨hChained, hSources⟩ := recorded_foldl hEmpty hMeets
  refine ⟨hState, ?_, ?_, fun tasks env envelope id hRecorded => ?_⟩
  · rw [← hState]
    exact hChained
  · rw [← hState]
    exact hSources
  · exact EntityVersion.recordVersions_again hRecorded

private def startedTaskRun : List Call := commands [
  .task (.createTask { NewTask.new "task" with id := some ⟨7⟩ }),
  .task (.setStatus ⟨7⟩ .inProgress false none none)]

theorem versions_chained_started : Meets engineConfig (RecordableCall engineConfig) Database.empty startedTaskRun ∧
    Chained (runRecording engineConfig startedTaskRun).2 (run engineConfig startedTaskRun).tasks := by
  have hMeets : Meets engineConfig (RecordableCall engineConfig) Database.empty startedTaskRun :=
    ⟨by decide +kernel, by decide +kernel, trivial⟩
  exact ⟨hMeets, (versions_chained hMeets).2.1⟩

private def splitTaskRun : List Call := commands [
  .task (.createTask { NewTask.new "task" with id := some ⟨7⟩ }),
  .task (.splitTask ⟨7⟩ [{ NewTask.new "first" with id := some ⟨8⟩ }, { NewTask.new "second" with id := some ⟨9⟩ }])]

/-- The part is recorded as new twice: by the event of the split, and by the event of
its own creation. -/
theorem split_breaks_chain :
    ¬Chained (runRecording engineConfig splitTaskRun).2 (run engineConfig splitTaskRun).tasks := by
  intro h
  have hBefore : (history (runRecording engineConfig splitTaskRun).2 ⟨8⟩).map TaskVersion.before = [none, none] := by
    decide +kernel
  have hAfter : ((history (runRecording engineConfig splitTaskRun).2 ⟨8⟩).map fun version => version.after.isSome) =
      [true, true] := by
    decide +kernel
  obtain ⟨first, rest, hHistory, hFirst, hRest⟩ := map_eq_cons_iff.mp hBefore
  obtain ⟨second, later, rfl, hSecond, _⟩ := map_eq_cons_iff.mp hRest
  have hNext : second.before = first.after := h.next hHistory
  rw [hHistory, map_cons, ← hNext, hSecond] at hAfter
  cases hAfter

end Server
end Daruma
