import Daruma.Core.ClaimCalls
import Daruma.Core.FinalRuns
import Daruma.Core.TerminatedClaims

/-! Draining a plan, or the active plans of a project, as a sequence of reads and calls between
which others are served, and what the calls do to claims, to the task that is handed out and to
the run that is opened. -/
namespace Daruma

open Handler (runOwner)

namespace NextTaskResolver

/-- A member of a plan that an agent may be given: it waits neither for its owner nor
for another task, and no other agent has it. -/
def offers (db : Database) (now : Timestamp) (agentId : AgentId) (member : PlanTask) : Bool :=
  match db.tasks.find? member.taskId with
  | none => false
  | some task =>
    !task.status.isTerminal && task.status ≠ .inbox &&
      (member.dependsOn.all fun dependency => (db.tasks.find? dependency).any fun task => task.status = .done) &&
      (RelationEnforcement.listActiveBlockers db.relations db.tasks member.taskId).isEmpty &&
      !AgentClaimRepo.heldByOther db.agentClaims now agentId member.taskId

end NextTaskResolver

inductive DrainScope where
  | plan (planId : PlanId)
  | project (projectId : ProjectId)

structure DrainRequest where
  agentId : AgentId
  isAdmin : Bool
  actor : Actor
  scope : DrainScope
  runId : Option RunId
  claimTtl : Duration

namespace DrainRequest

def caller (request : DrainRequest) : Caller := ⟨some request.agentId, request.isAdmin⟩

def noReadyTask (request : DrainRequest) : String :=
  match request.scope with
  | .plan _ => "drain_next: no ready task"
  | .project _ => "ready_drain: no ready task"

def failure (request : DrainRequest) : String :=
  match request.scope with
  | .plan _ => "drain_next: error"
  | .project _ => "ready_drain: error"

end DrainRequest

structure PlanDrain where
  planId : PlanId
  runId : RunId
  implicitRun : Bool
  /-- The plans that the request tries afterwards. -/
  later : List PlanId

/-- A member of the plan that the request has claimed. -/
structure ClaimedTask where
  taskId : TaskId
  position : Nat
  claimId : ClaimId
  expiresAt : Timestamp
  deriving DecidableEq

inductive DrainAnswer where
  | task (planId : PlanId) (runId : RunId) (claimed : ClaimedTask)
  | null
  | error (e : CoreError)
  deriving DecidableEq

/-- Where a request is between two of its steps. -/
inductive DrainPhase where
  | entering
  | listing (supplied : Option (RunId × PlanId))
  | choosing (supplied : Option (RunId × PlanId)) (plans : List PlanId)
  | counting (drain : PlanDrain)
  | resolving (drain : PlanDrain) (attempts : Nat)
  | scanning (drain : PlanDrain) (attempts : Nat) (members : List PlanTask)
  | claiming (drain : PlanDrain) (attempts : Nat) (member : PlanTask)
  | reading (drain : PlanDrain) (claimed : ClaimedTask)
  | starting (drain : PlanDrain) (claimed : ClaimedTask)
  | releasing (drain : PlanDrain) (claimed : ClaimedTask) (e : CoreError)
  | leaving (drain : PlanDrain) (outcome : Except CoreError Unit)
  | answered (answer : DrainAnswer)

namespace DrainPhase

def activePlans (db : Database) (projectId : ProjectId) : List PlanId :=
  (orderBy Plan.createdAt (db.plans.rows.filter fun plan =>
    plan.projectId = projectId && plan.status = .active)).map Plan.id

def validateRunAssignment (db : Database) (agentId : AgentId) (runId : RunId) (planId : PlanId) : Result Unit :=
  match AgentClaimRepo.resolveRunAssignment db agentId runId with
  | .error e => .error e
  | .ok actual => if actual ≠ planId then .error (.conflict "run belongs to a different plan") else .ok ()

def startDrainRun (request : DrainRequest) (planId : PlanId) : Command :=
  .run (.startRun planId request.agentId none)

/-- The coupled transition. It overrides the blockers that the request has seen to, and no rule. -/
def startTask (claimed : ClaimedTask) : Command :=
  .task (.setStatus claimed.taskId .inProgress true none none)

def abortDrainRun (request : DrainRequest) (drain : PlanDrain) (outcome : Except CoreError Unit) : Command :=
  .run (.abortRun drain.runId (match outcome with
    | .ok _ => request.noReadyTask
    | .error _ => request.failure))

/-- The call that a request makes on the server in a phase. The other phases only read. -/
def call (request : DrainRequest) (env : Env) : DrainPhase → Option Call
  | choosing none (planId :: _) => some (.command env request.caller (startDrainRun request planId) request.actor)
  | claiming drain _ member => some (.acquireClaim env request.actor request.agentId member.taskId request.claimTtl
      (some (drain.runId, drain.planId)))
  | starting _ claimed => some (.command env .internal (startTask claimed) request.actor)
  | releasing _ claimed _ =>
    some (.releaseClaim env request.actor request.agentId claimed.taskId claimed.claimId)
  | leaving drain outcome =>
    if drain.implicitRun then some (.command env request.caller (abortDrainRun request drain outcome) request.actor)
    else none
  | _ => none

def serve (config : Config) (request : DrainRequest) (env : Env) (db : Database) (phase : DrainPhase) : Database :=
  match phase.call request env with
  | some call => Server.serve config db call
  | none => db

def startedRun (events : List EventEnvelope) : Option RunId :=
  events.findSome? fun envelope => match envelope.payload with
    | .run (.runStarted run) => some run.id
    | _ => none

def enter (request : DrainRequest) (db : Database) : DrainPhase :=
  match request.scope, request.runId with
  | .plan planId, some runId =>
    match validateRunAssignment db request.agentId runId planId with
    | .error e => answered (.error e)
    | .ok _ => counting ⟨planId, runId, false, []⟩
  | .plan planId, none => choosing none [planId]
  | .project _, some runId =>
    match AgentClaimRepo.resolveRunAssignment db request.agentId runId with
    | .error e => answered (.error e)
    | .ok planId => listing (some (runId, planId))
  | .project _, none => listing none

def scopedPlans (request : DrainRequest) (db : Database) : List PlanId :=
  match request.scope with
  | .plan planId => [planId]
  | .project projectId => activePlans db projectId

def list (request : DrainRequest) (db : Database) : Option (RunId × PlanId) → DrainPhase
  | some (runId, planId) =>
    if planId ∈ scopedPlans request db then choosing (some (runId, planId)) (scopedPlans request db)
    else answered (.error (.conflict "run plan does not belong to the requested project"))
  | none => choosing none (scopedPlans request db)

/-- The next plan: the one of the supplied run, or any with a run opened for it. -/
def choose (config : Config) (request : DrainRequest) (env : Env) (db : Database) :
    Option (RunId × PlanId) → List PlanId → DrainPhase
  | _, [] => answered .null
  | some (runId, runPlanId), planId :: later =>
    if runPlanId = planId then counting ⟨planId, runId, false, later⟩
    else choosing (some (runId, runPlanId)) later
  | none, planId :: later =>
    match (Handler.handleWithRunOwner config env request.caller (startDrainRun request planId) request.actor db).1 with
    | .error e => answered (.error e)
    | .ok outcome =>
      match startedRun outcome.events with
      | some runId => counting ⟨planId, runId, true, later⟩
      | none => answered (.error (.storage "expected RunStarted event"))

/-- The members of the plan, while it is active. -/
def resolve (db : Database) (drain : PlanDrain) : Nat → DrainPhase
  | 0 => leaving drain (.ok ())
  | attempts + 1 =>
    match db.plans.find? drain.planId with
    | none => leaving drain (.error (.notFound s!"plan {drain.planId}"))
    | some plan =>
      if plan.status ≠ .active then leaving drain (.ok ())
      else scanning drain attempts (PlanRepo.listTasksOrdered db drain.planId)

/-- The claim of a member, if no other agent has taken it in the meantime. -/
def claim (request : DrainRequest) (env : Env) (db : Database) (drain : PlanDrain) (attempts : Nat)
    (member : PlanTask) : DrainPhase :=
  match AgentClaimRepo.tryAcquireBoundRecorded db (env.part 0) request.actor request.agentId member.taskId (env.fresh 0)
      (env.now + request.claimTtl) (some (drain.runId, drain.planId)) with
  | .error e => leaving drain (.error e)
  | .ok (.busy .., _) => resolving drain attempts
  | .ok (.acquired expiresAt claimId _, _) => reading drain ⟨member.taskId, member.position, claimId, expiresAt⟩

def next (config : Config) (request : DrainRequest) (env : Env) (db : Database) : DrainPhase → DrainPhase
  | entering => enter request db
  | listing supplied => list request db supplied
  | choosing supplied plans => choose config request env db supplied plans
  -- One sweep of the plan is enough: whoever was faster is skipped from then on.
  | counting drain => resolving drain (max (PlanRepo.listTasksOrdered db drain.planId).length 1)
  | resolving drain attempts => resolve db drain attempts
  | scanning drain _ [] => leaving drain (.ok ())
  | scanning drain attempts (member :: rest) =>
    if NextTaskResolver.offers db env.now request.agentId member then claiming drain attempts member
    else scanning drain attempts rest
  | claiming drain attempts member => claim request env db drain attempts member
  | reading drain claimed =>
    if (db.tasks.find? claimed.taskId).any fun task => task.status ≠ .inProgress && !task.status.isTerminal then
      starting drain claimed
    else answered (.task drain.planId drain.runId claimed)
  | starting drain claimed =>
    match (Handler.handleWithRunOwner config env .internal (startTask claimed) request.actor db).1 with
    | .ok _ => answered (.task drain.planId drain.runId claimed)
    | .error e => releasing drain claimed e
  | releasing drain _ e => leaving drain (.error e)
  | leaving _ (.error e) => answered (.error e)
  | leaving drain (.ok _) =>
    choosing (if drain.implicitRun then none else some (drain.runId, drain.planId)) drain.later
  | answered answer => answered answer

/-- The answer of a request that has come to its end. -/
def answer : DrainPhase → Option DrainAnswer
  | answered answer => some answer
  | _ => none

def opened : DrainPhase → List RunId
  | counting drain => if drain.implicitRun then [drain.runId] else []
  | _ => []

end DrainPhase

/-- A server with one drain request among its callers, and the runs it has opened. -/
structure DrainWorld where
  db : Database
  clock : Timestamp
  phase : DrainPhase
  opened : List RunId

/-- What happens next: a step of the request, or a call of somebody else. -/
inductive DrainMove where
  | own (env : Env)
  | other (call : Call)

/-- The instant at which a move reads the clock. -/
def DrainMove.now : DrainMove → Timestamp
  | own env => env.now
  | other call => call.env.now

def DrainWorld.after (config : Config) (request : DrainRequest) (world : DrainWorld) : DrainMove → DrainWorld
  | .own env =>
    let phase := world.phase.next config request env world.db
    { world with
      db := world.phase.serve config request env world.db, phase := phase, opened := phase.opened ++ world.opened }
  | .other call => { world with db := Server.serve config world.db call }

/-- One step of an interleaving of moves that satisfy a condition. -/
inductive DrainStep (config : Config) (request : DrainRequest) (allowed : DrainWorld → DrainMove → Prop) :
    DrainWorld → DrainWorld → Prop where
  | move {world : DrainWorld} (move : DrainMove) (hAllowed : allowed world move) (hNow : move.now ≤ world.clock) :
      DrainStep config request allowed world (world.after config request move)
  | tick {world : DrainWorld} {later : Timestamp} (h : world.clock ≤ later) :
      DrainStep config request allowed world { world with clock := later }

open List

namespace TaskCommands

open Stateful (Yields)

structure Starts (db : Database) (id : TaskId) (events : List Event) : Prop where
  only : ∀ other fromStatus toStatus, .task (.taskStatusChanged other fromStatus toStatus) ∈ events → toStatus = .inProgress
  moves : (events = [] ∧ db.statusOf id = some .inProgress) ∨
    ∃ fromStatus, .task (.taskStatusChanged id fromStatus .inProgress) ∈ events

variable {db : Database} {env : Env} {actor : Actor} {id : TaskId}

theorem statusTransitionEvents_starts {task : Task} (hFound : db.tasks.find? task.id = some task) :
    Yields (statusTransitionEvents db task .inProgress actor env.now) (Starts db task.id) := by
  refine .ite (fun hSame => .pure ⟨fun _ _ _ hMem => absurd hMem not_mem_nil, .inl ⟨rfl, ?_⟩⟩) fun hDiffers => ?_
  · rw [Database.statusOf, hFound, Option.map_some, hSame]
  refine .andThen fun relations => .andThen fun _ => .ite (fun hDone => by cases hDone) fun _ => ?_
  have hNothing : Yields (pure [] : Building (List Event)) fun released => released = [] := .pure rfl
  refine .bind hNothing fun released hNone => .pure ⟨fun other fromStatus toStatus hMem => ?_, ?_⟩
  · subst hNone
    simp only [closeTaskDocuments, append_nil, cons_append, nil_append, mem_cons] at hMem
    rcases hMem with hIs | hClosure
    · cases hIs
      rfl
    · unfold closureEvents at hClosure
      split at hClosure
      · cases mem_singleton.mp hClosure
      · split at hClosure
        · cases mem_singleton.mp hClosure
        · exact absurd hClosure not_mem_nil
  · exact .inr ⟨task.status, by simp⟩

theorem setStatus_starts {comment : Option TransitionComment} :
    Yields (setStatus db env actor id .inProgress comment) (Starts db id) := by
  refine .bind (.lift requireTask_row) fun task ⟨hId, hFound⟩ => ?_
  subst hId
  refine .andThen fun note => .bind (.andThen fun _ => statusTransitionEvents_starts hFound) fun events hEvents => ?_
  cases note with
  | none => exact .pure hEvents
  | some body =>
    refine .ite (fun _ => .pure hEvents) fun hNonempty => .pure ⟨fun other fromStatus toStatus hMem => ?_, ?_⟩
    · rcases mem_append.mp hMem with hEvent | hComment
      · exact hEvents.only other fromStatus toStatus hEvent
      · simp [commentEvents] at hComment
    · rcases hEvents.moves with ⟨rfl, _⟩ | ⟨fromStatus, hMem⟩
      · exact absurd rfl hNonempty
      · exact .inr ⟨fromStatus, mem_append_left _ hMem⟩

end TaskCommands

namespace Handler

variable {config : Config} {env : Env} {caller : Caller} {command : Command} {claimed : Actor} {db after : Database}
  {batch : List Event} {relations : Relations} {trail : GateStage.Trail} {persisted : List EventEnvelope}
  {appended applied : Database} {outcome : Except CoreError DispatchOutcome}

theorem handle_sameClaims (h : handleWithRunOwner config env caller command claimed db = (outcome, after))
    (hAccepted : ∀ {batch relations trail persisted appended},
      Accepted config env caller command claimed db batch relations trail persisted appended → SameClaims db appended ∧
        ∃ unclaimed unleased : TaskId → Prop, (∀ id, ¬unclaimed id) ∧
          ∀ envelope ∈ persisted, envelope.payload.OnlyFrees unclaimed unleased) : SameClaims db after := by
  have hProjected : ∀ {batch relations trail persisted appended projection applied},
      Accepted config env caller command claimed db batch relations trail persisted appended →
      Projections.applyEvents (env.part 4) persisted appended = (projection, applied) → SameClaims db applied := by
    intro batch relations trail persisted appended projection applied hBatch hApplied
    obtain ⟨hSame, unclaimed, unleased, hNone, hEvents⟩ := hAccepted hBatch
    have hFrees := Projections.applyEvents_onlyFrees hEvents hApplied
    intro claim
    rw [← hSame claim]
    exact ⟨hFrees.claims claim, fun hClaim => hFrees.claimsKept claim hClaim (hNone _)⟩
  cases handled h with
  | unlogged _ _ hAudited =>
    obtain ⟨_, _, _, _, _, _, rfl⟩ := hAudited
    exact fun _ => Iff.rfl
  | stranded hBatch hApplied => exact hProjected hBatch hApplied
  | @projected _ _ _ _ persisted _ applied hBatch hApplied _ =>
    have hHolding : AutoAppend.Holding applied (AutoAppend.autoAppendLogs config (env.part 5) applied persisted) :=
      AutoAppend.autoAppendLogs_holding _ _
    exact fun claim => (hHolding.sameClaims claim).trans (hProjected hBatch hApplied claim)

section

variable {id : TaskId} {force : Bool} {reason : Option String} {comment : Option TransitionComment}

theorem Accepted.starts
    (h : Accepted config env caller (.task (.setStatus id .inProgress force reason comment)) claimed db batch relations
      trail persisted appended) :
    ∃ built, TaskCommands.Starts db id built ∧ batch = built.map (authenticated caller) ++
      (Reconciliation.planReconciliations db (built.map (authenticated caller))).map .plan := by
  obtain ⟨built, hBuilt, hBatch⟩ := h.of_task
  exact ⟨built, TaskCommands.setStatus_starts _ _ _ hBuilt, hBatch⟩

theorem Accepted.starts_only
    (h : Accepted config env caller (.task (.setStatus id .inProgress force reason comment)) claimed db batch relations
      trail persisted appended) {other : TaskId} {fromStatus toStatus : Status}
    (hMem : .task (.taskStatusChanged other fromStatus toStatus) ∈ persisted.map EventEnvelope.payload) :
    toStatus = .inProgress := by
  obtain ⟨built, hStarts, rfl⟩ := h.starts
  rcases mem_append.mp (h.mem_batch hMem rfl) with hEvent | hClosing
  · obtain ⟨original, hOriginal, hAuthenticated⟩ := mem_map.mp hEvent
    unfold authenticated at hAuthenticated
    split at hAuthenticated
    · cases hAuthenticated
    · exact hStarts.only _ _ _ (hAuthenticated ▸ hOriginal)
  · obtain ⟨_, _, hPlan⟩ := mem_map.mp hClosing
    cases hPlan

theorem Accepted.not_endsIn_of_start
    (h : Accepted config env caller (.task (.setStatus id .inProgress force reason comment)) claimed db batch relations
      trail persisted appended) (other : TaskId) : ¬EndsIn (persisted.map EventEnvelope.payload) other := by
  intro hEnds
  cases h.effect rfl other with
  | spared hSpares => exact hSpares.not_endsIn hEnds
  | patched _ _ _ hUnended => exact hUnended hEnds
  | deleted _ _ hCommand => cases hCommand
  | moved task toStatus hMoved =>
    obtain rfl := h.starts_only hMoved.changed
    cases (hMoved.ends hEnds).1

theorem setStatus_sameClaims
    (h : handleWithRunOwner config env caller (.task (.setStatus id .inProgress force reason comment)) claimed db =
      (outcome, after)) : SameClaims db after := by
  refine handle_sameClaims h fun {batch relations trail persisted appended} hAccepted => ?_
  have hFrees := hAccepted.frees (.inl rfl)
  refine ⟨fun claim => (hFrees.claims claim).trans (and_iff_left (hAccepted.not_endsIn_of_start _)), _, _,
    hAccepted.not_endsIn_of_start, fun envelope hMem => hFrees.free _ (mem_map_of_mem hMem)⟩

theorem Accepted.started
    (h : Accepted config env caller (.task (.setStatus id .inProgress force reason comment)) claimed db batch relations
      trail persisted appended)
    (hApplied : Projections.applyEvents (env.part 4) persisted appended = (.ok (), applied)) :
    applied.statusOf id = some .inProgress := by
  obtain ⟨built, hStarts, rfl⟩ := h.starts
  rw [Database.statusOf_eq, h.lifecycles hApplied id]
  cases h.effect rfl id with
  | spared hSpares =>
    rcases hStarts.moves with ⟨_, hBefore⟩ | ⟨fromStatus, hMem⟩
    · rw [hSpares.after, ← Database.statusOf_eq, hBefore]
    · have hChanged := (h.carries rfl).tasks _ (mem_append_left _ (mem_map.mpr ⟨_, hMem, rfl⟩))
      have hSame := hSpares _ hChanged (some (.inbox, false))
      simp [Event.lifecycle, TaskEvent.lifecycle] at hSame
  | patched _ hPatches => exact absurd hPatches not_false
  | deleted _ _ hCommand => cases hCommand
  | moved task toStatus hMoved =>
    obtain rfl := h.starts_only hMoved.changed
    obtain ⟨closed, hEffect, _⟩ := hMoved.effect task.completedAt.isSome
    have hBefore : db.lifecycleOf id = some (task.status, task.completedAt.isSome) := by
      rw [Database.lifecycleOf, TaskRepo.lifecycleOf, hMoved.found]
      rfl
    rw [hBefore, hEffect]
    rfl

theorem setStatus_started {answer : DispatchOutcome}
    (h : handleWithRunOwner config env caller (.task (.setStatus id .inProgress force reason comment)) claimed db =
      (.ok answer, after)) : after.statusOf id = some .inProgress := by
  obtain ⟨batch, relations, ⟨warnings, hDraft⟩, hEnd⟩ := (answered h).resolve_left nofun
  rcases hEnd with ⟨rfl, rfl⟩ | ⟨trail, persisted, appended, applied, hAccepted, hApplied, _, rfl⟩
  · obtain ⟨built, hBuilt, hBatch⟩ := draft_ok (fun plan hIs => by cases hIs) hDraft
    have hStarts : TaskCommands.Starts db id built := TaskCommands.setStatus_starts _ _ _ hBuilt
    have hEmpty : built = [] := map_eq_nil_iff.mp (append_eq_nil_iff.mp hBatch.symm).1
    subst hEmpty
    rcases hStarts.moves with ⟨_, hBefore⟩ | ⟨_, hMem⟩
    · exact hBefore
    · exact absurd hMem not_mem_nil
  · have hSame : Projections.SameLifecycles applied
        (AutoAppend.autoAppendLogs config (env.part 5) applied persisted) :=
      AutoAppend.autoAppendLogs_lifecycles _ _
    rw [Database.statusOf_eq, hSame id, ← Database.statusOf_eq]
    exact hAccepted.started hApplied

end

section

variable {planId : PlanId} {agentId requester : AgentId} {parentRunId : Option RunId} {runId : RunId} {reason : String}

theorem Accepted.startRun_work
    (h : Accepted config env caller (.run (.startRun planId agentId parentRunId)) claimed db batch relations trail
      persisted appended) : AllWork batch := by
  obtain ⟨warnings, hDraft⟩ := h.built
  obtain ⟨built, hBuilt, rfl⟩ := draft_of_unsourced rfl hDraft
  obtain ⟨events, hEvents, rfl⟩ := Outcome.map_eq_ok.mp (Stateful.lift_eq.mp hBuilt).1
  have hWork : Outcome.Yields (RunCommands.startRun db (builderEnv env) planId agentId parentRunId) fun events =>
      AllWork (events.map .run) := .andThen fun _ _ => .andThen fun _ _ => .pure (.cons rfl .nil)
  exact .append (allWork_authenticated (hWork _ hEvents)) (.map fun _ => rfl)

theorem startRun_sameClaims (hAgent : caller.agentId = some requester)
    (h : handleWithRunOwner config env caller (.run (.startRun planId agentId parentRunId)) claimed db =
      (outcome, after)) : SameClaims db after := by
  refine handle_sameClaims h fun {batch relations trail persisted appended} hAccepted => ?_
  have hStored : AgentClaimRepo.recordRunStarted { db with relations := relations } requester
      (offered env caller (.run (.startRun planId agentId parentRunId)) claimed batch trail) = .ok (persisted, appended) := by
    have hStored := hAccepted.stored
    unfold persist at hStored
    rw [hAgent] at hStored
    exact hStored
  have hAppended : ∃ owners, appendBatch { db with relations := relations, runClaimOwners := owners }
      (offered env caller (.run (.startRun planId agentId parentRunId)) claimed batch trail) = .ok (persisted, appended) := by
    unfold AgentClaimRepo.recordRunStarted at hStored
    dsimp only at hStored
    split at hStored
    · cases hStored
    · split at hStored
      · cases hStored
      · exact ⟨_, hStored⟩
  obtain ⟨owners, hAppend⟩ := hAppended
  refine ⟨fun claim => ?_, fun _ => False, fun _ => False, fun _ => not_false, fun envelope hMem => ?_⟩
  · rw [AgentClaimRepo.appendBatch_agentClaims hAppend]
  · have hPayload := mem_map_of_mem (f := EventEnvelope.payload) hMem
    rw [(appendBatch_ok hAppend).1] at hPayload
    have hIs := offered_cases rfl hAccepted.startRun_work hPayload
    generalize envelope.payload = event at hIs
    cases event with
    | plan | run | audit => exact trivial
    | _ => rcases hIs with hIs | hIs <;> cases hIs

theorem startRun_id {answer : DispatchOutcome}
    (h : handleWithRunOwner config env caller (.run (.startRun planId agentId parentRunId)) claimed db =
      (.ok answer, after)) (hStarted : DrainPhase.startedRun answer.events = some runId) :
    runId = (builderEnv env).fresh 0 := by
  obtain ⟨envelope, hEnvelope, hIs⟩ := exists_of_findSome?_eq_some hStarted
  split at hIs
  swap
  · cases hIs
  rename_i run hPayload
  cases hIs
  have hMem := mem_map_of_mem (f := EventEnvelope.payload) hEnvelope
  rw [hPayload] at hMem
  cases handled h with
  | unlogged hOutcome _ _ =>
    rw [hOutcome answer rfl] at hMem
    exact absurd hMem not_mem_nil
  | projected hAccepted _ hAnswer =>
    rw [hAnswer] at hMem
    have hWarranted := hAccepted.warranted (hAccepted.mem_of_work hMem (.inr ⟨_, rfl⟩)) rfl
    exact hWarranted.1

theorem draft_abortRun {actor : Actor} {warnings : List MutationWarning}
    (h : draft config db (env.part 0) caller actor (.run (.abortRun runId reason)) db.relations =
      (.ok (batch, warnings), relations)) : ∃ instant closing, batch = .run (.runAborted runId reason instant) ::
        List.map Event.plan closing := by
  obtain ⟨built, hBuilt, rfl⟩ := draft_of_unsourced rfl h
  obtain ⟨events, hEvents, rfl⟩ := Outcome.map_eq_ok.mp (Stateful.lift_eq.mp hBuilt).1
  have hAbort : Outcome.Yields (RunCommands.abortRun db (builderEnv env).now runId reason) fun events =>
      events = [.runAborted runId reason (builderEnv env).now] := .andThen fun _ _ => .pure rfl
  rw [hAbort _ hEvents]
  exact ⟨_, _, rfl⟩

def KeepsEnded (id : RunId) (before after : Database) : Prop := TerminalRun before id → TerminalRun after id

theorem KeepsEnded.work (id : RunId) : WorkRelation (KeepsEnded id) where
  trans := fun _ _ _ h h' hFirst => h' (h hFirst)
  same := fun before after h hBefore => by
    unfold TerminalRun at *
    rwa [h.runs]

theorem runAborted_keepsEnded {id : RunId} {instant : Timestamp} (before : Database) :
    KeepsEnded id before (RunRepo.applyRunEvent before (.runAborted id reason instant)) := by
  rintro ⟨run, hFound, _⟩
  refine ⟨RunRepo.endRun .aborted reason instant run, ?_, nofun⟩
  change (before.runs.modify id (RunRepo.endRun .aborted reason instant)).find? id = _
  rw [KeyedTable.find?_modify, if_pos rfl, hFound]
  · rfl
  · exact fun _ => rfl

theorem abortRun_ends (hAgent : caller.agentId = some requester)
    (h : handleWithRunOwner config env caller (.run (.abortRun runId reason)) claimed db = (outcome, after)) :
    ((∃ e, outcome = .error e) ∧ SameClaims db after ∧ after.runs = db.runs) ∨
      ∃ run, db.runs.find? runId = some run ∧ run.status = .active ∧ run.id = runId ∧ TerminalRun after runId ∧
        ∀ claim, claim ∈ after.agentClaims ↔ claim ∈ db.agentClaims ∧ ¬AgentClaimRepo.EndsWith db run claim := by
  cases outcome with
  | error e =>
    cases handled h with
    | unlogged _ _ hAudited =>
      obtain ⟨_, _, _, _, _, _, rfl⟩ := hAudited
      exact .inl ⟨⟨e, rfl⟩, fun _ => Iff.rfl, rfl⟩
    | stranded hAccepted hApplied =>
      obtain ⟨_, hAll, _⟩ := Projections.applyEvents_settled (hAccepted.settled (.inl rfl))
      cases hAll.symm.trans hApplied
  | ok answer =>
    obtain ⟨batch, relations, ⟨warnings, hDraft⟩, hEnd⟩ := (answered h).resolve_left nofun
    rcases hEnd with ⟨rfl, _⟩ | ⟨trail, persisted, appended, applied, hAccepted, hApplied, _, rfl⟩
    · obtain ⟨_, _, hBatch⟩ := draft_abortRun hDraft
      cases hBatch
    obtain ⟨instant, closing, rfl⟩ := draft_abortRun hDraft
    obtain ⟨_, hAll, hClaims⟩ := Projections.applyEvents_settled (hAccepted.settled (.inl rfl))
    cases hAll.symm.trans hApplied
    obtain ⟨_, run, status, reason', hEnds, hEnded⟩ := hAccepted.run_terminated hAgent (.inr ⟨_, _, rfl⟩)
    have hId : run.id = runId := hEnds.names (.inr rfl)
    have hStored : TerminalRun appended runId := by
      refine terminalRun_of_ending (hId ▸ hEnded.ending) ?_
      rcases hEnds with ⟨rfl, _⟩ | ⟨rfl, _⟩ <;> exact nofun
    have hApplying : KeepsEnded runId appended applied := by
      refine Projections.applyEvents_work (KeepsEnded.work runId) (fun event _ before env envelope => ?_)
        (fun event hMem before => ?_) hApplied
      · obtain ⟨_, _, _, _, hFrame⟩ := PlanRepo.applyPlanEvent_frame before env envelope event
        rw [hFrame]
        exact fun hBefore => hBefore
      · rcases mem_cons.mp (hAccepted.mem_of_work hMem (.inr ⟨_, rfl⟩)) with hIs | hPlan
        · cases hIs
          exact runAborted_keepsEnded before
        · obtain ⟨_, _, hIs⟩ := mem_map.mp hPlan
          cases hIs
    have hLogging : KeepsEnded runId applied
        (AutoAppend.autoAppendLogs config (env.part 5) applied persisted) :=
      AutoAppend.autoAppendLogs_work (KeepsEnded.work runId)
    have hHolding : AutoAppend.Holding applied
        (AutoAppend.autoAppendLogs config (env.part 5) applied persisted) :=
      AutoAppend.autoAppendLogs_holding _ _
    refine .inr ⟨run, hId ▸ hEnded.stored, hEnded.active, hId, hLogging (hApplying hStored), fun claim => ?_⟩
    rw [hHolding.sameClaims claim, show applied.agentClaims = appended.agentClaims from hClaims]
    exact hEnded.claims claim

end

end Handler
end Daruma
