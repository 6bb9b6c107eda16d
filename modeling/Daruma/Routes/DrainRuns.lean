import Daruma.Routes.DrainEffects

/-! A drain request is all or nothing while other callers are served: it hands out a
task in progress under a claim of its own, or it leaves the claims of its caller and no
open run. -/
namespace Daruma

open AgentClaimRepo (Exclusive)
open Handler (builderEnv runOwner)
open Server (KeepsTerminal LeavesAlone)
open Transition
open DrainPhase (next serve startTask abortDrainRun enter list choose call resolve)
open Server (nthEnv engineConfig run)

def ClaimedTask.claim (claimed : ClaimedTask) (agentId : AgentId) (runId : RunId) (acquiredAt : Timestamp) : AgentClaim :=
  ⟨agentId, claimed.taskId, acquiredAt, claimed.expiresAt, some runId, claimed.claimId⟩

def Holds (agentId : AgentId) (clock : Timestamp) (db : Database) (owned : AgentClaim → Prop) : Prop :=
  ∀ claim : AgentClaim, claim.agentId = agentId → claim.live clock = true → (claim ∈ db.agentClaims ↔ owned claim)

/-- The agent has the live claims that it had before. -/
def HoldsAsBefore (agentId : AgentId) (clock : Timestamp) (before db : Database) : Prop :=
  Holds agentId clock db fun claim => claim ∈ before.agentClaims

/-- What is promised of an answer. A task is in progress under a live claim of the
caller for the run of the answer, and no other agent has one; any other answer leaves
the caller with the claims that it had, and with no run that it opened. -/
def AllOrNothing (request : DrainRequest) (before : Database) (world : DrainWorld) : DrainAnswer → Prop
  | .task _ runId claimed => world.clock ≤ claimed.expiresAt →
      world.db.statusOf claimed.taskId = some .inProgress ∧
      (∃ acquiredAt, claimed.claim request.agentId runId acquiredAt ∈ world.db.agentClaims) ∧
      ∀ claim ∈ world.db.agentClaims, claim.taskId = claimed.taskId → claim.live world.clock = true →
        claim.agentId = request.agentId
  | _ => HoldsAsBefore request.agentId world.clock before world.db ∧
      ∀ runId ∈ world.opened, ¬ActiveRun world.db runId

/-- The steps of the request go as they should: a new run has a new id; a refused
transition is of a task that the caller had no claim on; and a compensation takes place. -/
def OwnFair (config : Config) (request : DrainRequest) (before : Database) (world : DrainWorld) (env : Env) : Prop :=
  match world.phase with
  | .choosing none (_ :: _) => (world.db.runs.find? ((builderEnv env).fresh 0)).isNone = true ∧
      ∀ claim ∈ world.db.agentClaims.rows, claim.runId ≠ some ((builderEnv env).fresh 0)
  | .starting _ claimed =>
    (Handler.handleWithRunOwner config env .internal (startTask claimed) request.actor world.db).1.toBool =
        true ∨
      ∀ claim ∈ before.agentClaims.rows, claim.agentId = request.agentId → claim.live world.clock = true →
        claim.taskId ≠ claimed.taskId
  | .releasing .. => (world.db.events.find? ((env.part 0).fresh 0)).isNone = true
  | .leaving drain outcome => drain.implicitRun = true →
      (world.db.runs.find? drain.runId).any (fun run => run.status ≠ .active) = true ∨
        ((runOwner world.db drain.runId).isSome = true ∧
          (Handler.handleWithRunOwner config env request.caller (abortDrainRun request drain outcome)
            request.actor world.db).1.toBool = true)
  | _ => True

/-- A move of the request goes as it should, and one of another caller leaves what
the caller holds alone. -/
def Fair (config : Config) (request : DrainRequest) (before : Database) (world : DrainWorld) : DrainMove → Prop
  | .own env => OwnFair config request before world env
  | .other call => LeavesAlone request.agentId world.clock world.db (Server.serve config world.db call) ∧
      KeepsTerminal world.db call

namespace DrainPhase

def drained : DrainPhase → Option PlanDrain
  | counting drain | resolving drain _ | scanning drain _ _ | claiming drain _ _ | reading drain _ | starting drain _
  | releasing drain _ _ | leaving drain _ => some drain
  | _ => none

/-- The run that the request has opened for the plan that it drains. -/
def Uses (phase : DrainPhase) (runId : RunId) : Prop :=
  ∃ drain, phase.drained = some drain ∧ drain.implicitRun = true ∧ drain.runId = runId

def held : DrainPhase → Option (RunId × ClaimedTask)
  | reading drain claimed | starting drain claimed | releasing drain claimed _ => some (drain.runId, claimed)
  | answered (.task _ runId claimed) => some (runId, claimed)
  | _ => none

end DrainPhase

/-- The live claims of the caller are those it had, or those with the claim it has taken. -/
def Holdings (agentId : AgentId) (clock : Timestamp) (before db : Database) : Option (RunId × ClaimedTask) → Prop
  | none => HoldsAsBefore agentId clock before db
  | some (runId, claimed) => ∃ acquiredAt, Holds agentId clock db fun claim =>
    claim = claimed.claim agentId runId acquiredAt ∨
      (claim ∈ before.agentClaims ∧ claim.key ≠ (agentId, claimed.taskId))

section

variable {agentId : AgentId} {clock later : Timestamp} {before db after : Database} {owned : AgentClaim → Prop}
  {held : Option (RunId × ClaimedTask)}

theorem live_earlier {claim : AgentClaim} (hLe : clock ≤ later) (h : claim.live later = true) :
    claim.live clock = true :=
  decide_eq_true (AgentClaim.live_of_le hLe h)

theorem Holds.tick (h : Holds agentId clock db owned) (hLe : clock ≤ later) : Holds agentId later db owned :=
  fun claim hMine hLive => h claim hMine (live_earlier hLe hLive)

theorem Holds.served (h : Holds agentId clock db owned)
    (hKept : ∀ claim : AgentClaim, claim.agentId = agentId → claim.live clock = true →
      (claim ∈ after.agentClaims ↔ claim ∈ db.agentClaims)) : Holds agentId clock after owned :=
  fun claim hMine hLive => (hKept claim hMine hLive).trans (h claim hMine hLive)

theorem Holdings.tick (h : Holdings agentId clock before db held) (hLe : clock ≤ later) :
    Holdings agentId later before db held := by
  cases held with
  | none => exact Holds.tick h hLe
  | some taken => exact h.imp fun _ hHolds => hHolds.tick hLe

theorem Holdings.served (h : Holdings agentId clock before db held)
    (hKept : ∀ claim : AgentClaim, claim.agentId = agentId → claim.live clock = true →
      (claim ∈ after.agentClaims ↔ claim ∈ db.agentClaims)) : Holdings agentId clock before after held := by
  cases held with
  | none => exact Holds.served h hKept
  | some taken => exact h.imp fun _ hHolds => hHolds.served hKept

end

/-- What holds of a request between its steps. -/
structure DrainKept (request : DrainRequest) (before : Database) (world : DrainWorld) : Prop where
  holdings : Holdings request.agentId world.clock before world.db world.phase.held
  /-- No claim that the caller had is bound to the run that the request has opened. -/
  unbound : ∀ runId, world.phase.Uses runId → ∀ claim ∈ before.agentClaims, claim.agentId = request.agentId →
    claim.live world.clock = true → claim.runId ≠ some runId
  isOpen : ∀ drain claimed, world.phase = .reading drain claimed → world.clock ≤ claimed.expiresAt →
    ∃ status, world.db.statusOf claimed.taskId = some status ∧ status.isTerminal = false
  /-- The transition is undone only for a task that the caller had no claim on. -/
  alone : ∀ drain claimed e, world.phase = .releasing drain claimed e → ∀ claim ∈ before.agentClaims,
    claim.agentId = request.agentId → claim.live world.clock = true → claim.taskId ≠ claimed.taskId
  started : ∀ planId runId claimed, world.phase = .answered (.task planId runId claimed) →
    world.clock ≤ claimed.expiresAt → world.db.statusOf claimed.taskId = some .inProgress
  opened : (∀ planId runId claimed, world.phase ≠ .answered (.task planId runId claimed)) →
    ∀ runId ∈ world.opened, TerminalRun world.db runId ∨ world.phase.Uses runId
  exclusive : Exclusive ⟨world.db, world.clock⟩

namespace DrainKept

variable {config : Config} {request : DrainRequest} {before db after : Database} {clock later : Timestamp}
  {phase phase' : DrainPhase} {opened : List RunId} {env : Env}

theorem terminalRun_of_kept {id : RunId} (hKept : TerminalKept db after) (h : TerminalRun db id) :
    TerminalRun after id := by
  obtain ⟨run, hFound, hEnded⟩ := h
  have hEnding : db.runEnding id = some (run.status, run.outcome) := by
    rw [Database.runEnding, hFound]
    rfl
  exact terminalRun_of_ending ((hKept id ⟨run, hFound, hEnded⟩).1.trans hEnding) hEnded

variable (h : DrainKept request before ⟨db, clock, phase, opened⟩)

include h in
theorem tick (hLe : clock ≤ later) : DrainKept request before ⟨db, later, phase, opened⟩ where
  holdings := h.holdings.tick hLe
  unbound := fun runId hUses claim hClaim hMine hLive => h.unbound runId hUses claim hClaim hMine (live_earlier hLe hLive)
  isOpen := fun drain claimed hIs hTime => h.isOpen drain claimed hIs (le_trans hLe hTime)
  alone := fun drain claimed e hIs claim hClaim hMine hLive =>
    h.alone drain claimed e hIs claim hClaim hMine (live_earlier hLe hLive)
  started := fun planId runId claimed hIs hTime => h.started planId runId claimed hIs (le_trans hLe hTime)
  opened := h.opened
  exclusive := Exclusive.step (.tick hLe) h.exclusive

variable {runId : RunId} {call : Call}

include h in
theorem taken {claimed : ClaimedTask}
    (hHeld : phase.held = some (runId, claimed)) (hTime : clock ≤ claimed.expiresAt) :
    ∃ acquiredAt, claimed.claim request.agentId runId acquiredAt ∈ db.agentClaims := by
  have hHoldings := h.holdings
  dsimp only at hHoldings
  rw [hHeld] at hHoldings
  obtain ⟨acquiredAt, hHolds⟩ := hHoldings
  exact ⟨acquiredAt, (hHolds (claimed.claim request.agentId runId acquiredAt) rfl (decide_eq_true hTime)).mpr (.inl rfl)⟩

include h in
/-- Another caller is served. -/
theorem other (hNow : call.env.now ≤ clock)
    (hAlone : LeavesAlone request.agentId clock db (Server.serve config db call)) (hTerminal : KeepsTerminal db call) :
    DrainKept request before ⟨Server.serve config db call, clock, phase, opened⟩ := by
  have hStatus : ∀ {runId : RunId} {claimed : ClaimedTask}, phase.held = some (runId, claimed) →
      clock ≤ claimed.expiresAt → (Server.serve config db call).statusOf claimed.taskId = db.statusOf claimed.taskId := by
    intro runId claimed hHeld hTime
    obtain ⟨acquiredAt, hClaim⟩ := h.taken hHeld hTime
    exact hAlone.statuses _ hClaim rfl (decide_eq_true hTime)
  refine ⟨h.holdings.served hAlone.claims, h.unbound, fun drain claimed hIs hTime => ?_, h.alone,
    fun planId runId claimed hIs hTime => ?_, fun hUnanswered runId hRun => ?_,
    Server.serve_keepsExclusive call hNow h.exclusive⟩
  · obtain ⟨status, hBefore, hOpen⟩ := h.isOpen drain claimed hIs hTime
    cases hIs
    exact ⟨status, (hStatus rfl hTime).trans hBefore, hOpen⟩
  · have hBefore := h.started planId runId claimed hIs hTime
    cases hIs
    exact (hStatus rfl hTime).trans hBefore
  · exact (h.opened hUnanswered runId hRun).imp_left (terminalRun_of_kept (Server.serve_terminalKept hTerminal))

theorem of_free (hFree : phase'.held = none) (hHolds : HoldsAsBefore request.agentId clock before after)
    (hUnbound : ∀ runId, phase'.Uses runId → ∀ claim ∈ before.agentClaims, claim.agentId = request.agentId →
      claim.live clock = true → claim.runId ≠ some runId)
    (hOpened : ∀ runId ∈ opened, TerminalRun after runId ∨ phase'.Uses runId) (hExclusive : Exclusive ⟨after, clock⟩) :
    DrainKept request before ⟨after, clock, phase', opened⟩ where
  holdings := by
    dsimp only
    rw [hFree]
    exact hHolds
  unbound := hUnbound
  isOpen := fun drain claimed hIs => by
    cases hIs
    cases hFree
  alone := fun drain claimed e hIs => by
    cases hIs
    cases hFree
  started := fun planId runId claimed hIs => by
    cases hIs
    cases hFree
  opened := fun _ => hOpened
  exclusive := hExclusive

include h in
theorem asBefore (hFree : phase.held = none) : HoldsAsBefore request.agentId clock before db := by
  have hHoldings := h.holdings
  dsimp only at hHoldings
  rwa [hFree] at hHoldings

include h in
/-- Nor is a task handed out in it. -/
theorem openedBefore (hFree : phase.held = none) : ∀ runId ∈ opened, TerminalRun db runId ∨ phase.Uses runId := by
  refine h.opened fun planId runId claimed hIs => ?_
  dsimp only at hIs
  rw [hIs] at hFree
  cases hFree

include h in
theorem reads (hFree : phase.held = none)
    (hFree' : phase'.held = none) (hUses : ∀ runId, phase'.Uses runId ↔ phase.Uses runId) :
    DrainKept request before ⟨db, clock, phase', opened⟩ :=
  of_free hFree' (h.asBefore hFree) (fun runId hRun => h.unbound runId ((hUses runId).mp hRun))
    (fun runId hRun => (h.openedBefore hFree runId hRun).imp_right (hUses runId).mpr) h.exclusive

/-- A phase in which no task is claimed and no run has just been opened. -/
structure Quiet (phase : DrainPhase) : Prop where
  free : phase.held = none
  idle : ∀ runId, ¬phase.Uses runId
  none : phase.opened = []

theorem quiet_of_undrained (hFree : phase.held = none) (hDrained : phase.drained = none) (hOpened : phase.opened = []) :
    Quiet phase := by
  refine ⟨hFree, fun runId ⟨drain, hIs, _⟩ => ?_, hOpened⟩
  rw [hDrained] at hIs
  cases hIs

variable {planId : PlanId} {plans : List PlanId} {drain : PlanDrain} {claimed : ClaimedTask}
  {outcome : Except CoreError Unit}

theorem quiet_counting : Quiet (.counting ⟨planId, runId, false, plans⟩) := by
  refine ⟨rfl, fun runId ⟨drain, hIs, hImplicit, _⟩ => ?_, rfl⟩
  cases hIs
  cases hImplicit

theorem quiet_enter : Quiet (enter request db) := by
  unfold enter
  split
  · split
    · exact quiet_of_undrained rfl rfl rfl
    · exact quiet_counting
  · exact quiet_of_undrained rfl rfl rfl
  · split <;> exact quiet_of_undrained rfl rfl rfl
  · exact quiet_of_undrained rfl rfl rfl

theorem quiet_list {supplied : Option (RunId × PlanId)} : Quiet (list request db supplied) := by
  unfold list
  split
  · split
    · exact quiet_of_undrained rfl rfl rfl
    · exact quiet_of_undrained rfl rfl rfl
  · exact quiet_of_undrained rfl rfl rfl

include h in
theorem quiet (hQuiet : Quiet phase) (hQuiet' : Quiet phase') :
    DrainKept request before ⟨db, clock, phase', phase'.opened ++ opened⟩ := by
  rw [hQuiet'.none]
  refine h.reads hQuiet.free hQuiet'.free fun runId => ?_
  exact iff_of_false (hQuiet'.idle runId) (hQuiet.idle runId)

theorem call_env (h : phase.call request env = some call) : call.env = env := by
  unfold DrainPhase.call at h
  split at h
  case h_5 =>
    split at h
    · cases h
      rfl
    · cases h
  all_goals
    cases h
    try rfl

theorem serve_exclusive (hNow : env.now ≤ clock) (h : Exclusive ⟨db, clock⟩) :
    Exclusive ⟨phase.serve config request env db, clock⟩ := by
  unfold serve
  split
  · rename_i call hCall
    exact Server.serve_keepsExclusive call (call_env hCall ▸ hNow) h
  · exact h

theorem serve_terminalKept (hFair : OwnFair config request before ⟨db, clock, phase, opened⟩ env) :
    TerminalKept db (phase.serve config request env db) := by
  unfold serve
  split
  · rename_i call hCall
    refine Server.serve_terminalKept ?_
    unfold DrainPhase.call at hCall
    split at hCall
    · cases hCall
      exact Option.isNone_iff_eq_none.mp hFair.1
    · cases hCall
      exact trivial
    · cases hCall
      exact trivial
    · cases hCall
      exact trivial
    · split at hCall
      · cases hCall
        exact fun hNone => nomatch hNone
      · cases hCall
    · cases hCall
  · exact .refl db

theorem opens (hNow : env.now ≤ clock)
    (h : DrainKept request before ⟨db, clock, .choosing none (planId :: plans), opened⟩)
    (hFair : OwnFair config request before ⟨db, clock, .choosing none (planId :: plans), opened⟩ env) :
    DrainKept request before
      (DrainWorld.after config request ⟨db, clock, .choosing none (planId :: plans), opened⟩ (.own env)) := by
  have hKept := serve_terminalKept hFair
  have hExclusive : Exclusive ⟨(DrainPhase.choosing none (planId :: plans)).serve config request env db, clock⟩ :=
    serve_exclusive hNow h.exclusive
  have hBefore := h.asBefore rfl
  have hHolds : HoldsAsBefore request.agentId clock before
      ((DrainPhase.choosing none (planId :: plans)).serve config request env db) :=
    hBefore.served fun claim _ _ => Handler.startRun_sameClaims rfl Prod.mk.eta.symm claim
  have hEnded : ∀ runId ∈ opened,
      TerminalRun ((DrainPhase.choosing none (planId :: plans)).serve config request env db) runId := by
    intro runId hRun
    rcases h.openedBefore rfl runId hRun with hTerminal | ⟨drain, hIs, _⟩
    · exact terminalRun_of_kept hKept hTerminal
    · cases hIs
  have hAnswered : ∀ {answer : DrainAnswer}, Quiet (.answered answer) → DrainKept request before
      ⟨(DrainPhase.choosing none (planId :: plans)).serve config request env db, clock, .answered answer, opened⟩ :=
    fun hQuiet => of_free hQuiet.free hHolds (fun runId hUses => absurd hUses (hQuiet.idle runId))
      (fun runId hRun => .inl (hEnded runId hRun)) hExclusive
  unfold DrainWorld.after
  dsimp only [next, choose]
  cases hOutcome : (Handler.handleWithRunOwner config env request.caller (DrainPhase.startDrainRun request planId)
      request.actor db).1 with
  | error e => exact hAnswered (quiet_of_undrained rfl rfl rfl)
  | ok answer =>
    dsimp only
    cases hStarted : DrainPhase.startedRun answer.events with
    | none => exact hAnswered (quiet_of_undrained rfl rfl rfl)
    | some runId =>
      have hRun : runId = (builderEnv env).fresh 0 := Handler.startRun_id (Prod.ext hOutcome rfl) hStarted
      refine of_free rfl hHolds (fun opening hUses claim hClaim hMine hLive => ?_) (fun opening hMem => ?_) hExclusive
      · obtain ⟨drain, hIs, _, rfl⟩ := hUses
        cases hIs
        rw [hRun]
        exact hFair.2 claim ((hBefore claim hMine hLive).mpr hClaim)
      · rcases List.mem_cons.mp hMem with rfl | hOld
        · exact .inr ⟨_, rfl, rfl, rfl⟩
        · exact .inl (hEnded opening hOld)

theorem claims {attempts : Nat} {member : PlanTask} (hNow : env.now ≤ clock)
    (h : DrainKept request before ⟨db, clock, .claiming drain attempts member, opened⟩) : DrainKept request before
      (DrainWorld.after config request ⟨db, clock, .claiming drain attempts member, opened⟩ (.own env)) := by
  have hKept : TerminalKept db ((DrainPhase.claiming drain attempts member).serve config request env db) :=
    @serve_terminalKept config request before db clock _ opened env trivial
  have hExclusive : Exclusive ⟨(DrainPhase.claiming drain attempts member).serve config request env db, clock⟩ :=
    serve_exclusive hNow h.exclusive
  have hBefore := h.asBefore rfl
  have hEnded : ∀ {phase' : DrainPhase}, phase'.drained = some drain → ∀ runId ∈ opened,
      TerminalRun ((DrainPhase.claiming drain attempts member).serve config request env db) runId ∨ phase'.Uses runId := by
    intro phase' hDrained runId hRun
    refine (h.openedBefore rfl runId hRun).imp (terminalRun_of_kept hKept) fun ⟨same, hIs, hUses⟩ => ?_
    cases hIs
    exact ⟨drain, hDrained, hUses⟩
  have hUnbound : ∀ {phase' : DrainPhase}, phase'.drained = some drain → ∀ runId, phase'.Uses runId →
      ∀ claim ∈ before.agentClaims, claim.agentId = request.agentId → claim.live clock = true → claim.runId ≠ some runId := by
    rintro phase' hDrained runId ⟨same, hIs, hUses⟩
    cases hIs.symm.trans hDrained
    exact h.unbound runId ⟨drain, rfl, hUses⟩
  unfold DrainWorld.after
  dsimp only [next, DrainPhase.claim]
  cases hResult : AgentClaimRepo.tryAcquireBoundRecorded db (env.part 0) request.actor request.agentId member.taskId
      (env.fresh 0) (env.now + request.claimTtl) (some (drain.runId, drain.planId)) with
  | error e =>
    refine of_free rfl (hBefore.served fun claim _ _ => ?_) (hUnbound rfl) (hEnded rfl) hExclusive
    exact Server.acquireClaim_busy (fun _ _ _ _ hIs => by cases hResult.symm.trans hIs) claim
  | ok result =>
    obtain ⟨outcome, stored⟩ := result
    cases outcome with
    | busy holder busyUntil =>
      refine of_free rfl (hBefore.served fun claim _ _ => ?_) (hUnbound rfl) (hEnded rfl) hExclusive
      exact Server.acquireClaim_busy (fun _ _ _ _ hIs => by cases hResult.symm.trans hIs) claim
    | acquired expiresAt claimId event =>
      obtain ⟨hClaims, hOpen⟩ := @Server.acquireClaim_grants config _ _ _ _ _ _ _ _ _ _ _ hResult
      refine ⟨⟨env.now, fun claim hMine hLive => ?_⟩, hUnbound rfl, fun _ _ hIs _ => ?_, nofun, nofun,
        fun _ => hEnded rfl, hExclusive⟩
      · exact (hClaims claim).trans (or_congr_right (and_congr_left' (hBefore claim hMine hLive)))
      · cases hIs
        exact hOpen

theorem looks (h : DrainKept request before ⟨db, clock, .reading drain claimed, opened⟩) :
    DrainKept request before (DrainWorld.after config request ⟨db, clock, .reading drain claimed, opened⟩ (.own env)) := by
  unfold DrainWorld.after
  dsimp only [next]
  split
  · exact ⟨h.holdings, h.unbound, (fun _ _ hIs => by cases hIs), (fun _ _ _ hIs => by cases hIs), (fun _ _ _ hIs => by cases hIs),
      fun _ => h.opened (fun _ _ _ hIs => by cases hIs), h.exclusive⟩
  · rename_i hStays
    refine ⟨h.holdings, ?_, (fun _ _ hIs => by cases hIs), (fun _ _ _ hIs => by cases hIs), fun _ _ _ hIs hTime => ?_,
      fun hUnanswered => absurd rfl (hUnanswered _ _ _), h.exclusive⟩
    · rintro _ ⟨_, hIs, _⟩
      cases hIs
    · cases hIs
      obtain ⟨status, hStatus, hOpen⟩ := h.isOpen drain claimed rfl hTime
      refine hStatus.trans (congrArg some ?_)
      obtain ⟨task, hFound, rfl⟩ := Option.map_eq_some_iff.mp hStatus
      rw [hFound, Option.any_some, hOpen] at hStays
      simpa using hStays

theorem starts (hNow : env.now ≤ clock) (h : DrainKept request before ⟨db, clock, .starting drain claimed, opened⟩)
    (hFair : OwnFair config request before ⟨db, clock, .starting drain claimed, opened⟩ env) :
    DrainKept request before (DrainWorld.after config request ⟨db, clock, .starting drain claimed, opened⟩ (.own env)) := by
  have hKept := serve_terminalKept hFair
  have hExclusive : Exclusive ⟨(DrainPhase.starting drain claimed).serve config request env db, clock⟩ :=
    serve_exclusive hNow h.exclusive
  have hHoldings : Holdings request.agentId clock before
      ((DrainPhase.starting drain claimed).serve config request env db) (some (drain.runId, claimed)) :=
    Holdings.served h.holdings fun claim _ _ => Handler.setStatus_sameClaims Prod.mk.eta.symm claim
  unfold DrainWorld.after
  dsimp only [next]
  cases hOutcome : (Handler.handleWithRunOwner config env .internal (startTask claimed) request.actor db).1 with
  | ok answer =>
    refine ⟨hHoldings, ?_, nofun, nofun, fun _ _ _ hIs _ => ?_, fun hUnanswered => absurd rfl (hUnanswered _ _ _),
      hExclusive⟩
    · rintro _ ⟨_, hIs, _⟩
      cases hIs
    · cases hIs
      exact Handler.setStatus_started (Prod.ext hOutcome rfl)
  | error e =>
    have hAlone := hFair.resolve_left (by rw [hOutcome]; exact Bool.false_ne_true)
    refine ⟨hHoldings, h.unbound, nofun, fun _ _ _ hIs claim hClaim hMine hLive => ?_, nofun,
      fun _ runId hRun => ?_, hExclusive⟩
    · cases hIs
      exact hAlone claim hClaim hMine hLive
    · exact (h.opened nofun runId hRun).imp_left (terminalRun_of_kept hKept)

theorem releases {e : CoreError} (hNow : env.now ≤ clock)
    (h : DrainKept request before ⟨db, clock, .releasing drain claimed e, opened⟩)
    (hFair : OwnFair config request before ⟨db, clock, .releasing drain claimed e, opened⟩ env) :
    DrainKept request before (DrainWorld.after config request ⟨db, clock, .releasing drain claimed e, opened⟩ (.own env)) := by
  obtain ⟨acquiredAt, hHolds⟩ := h.holdings
  refine of_free rfl (fun claim hMine hLive => ?_) h.unbound (fun runId hRun => ?_) (serve_exclusive hNow h.exclusive)
  · have hReleased := @Server.releaseClaim_claims config db env request.actor request.agentId claimed.taskId
      claimed.claimId (Option.isNone_iff_eq_none.mp hFair) claim
    refine hReleased.trans ?_
    rw [hHolds claim hMine hLive]
    constructor
    · rintro ⟨rfl | ⟨hClaim, _⟩, hOther⟩
      · exact absurd ⟨rfl, rfl⟩ hOther
      · exact hClaim
    · intro hClaim
      have hTask : claim.taskId ≠ claimed.taskId := h.alone drain claimed e rfl claim hClaim hMine hLive
      have hKey : claim.key ≠ (request.agentId, claimed.taskId) := fun hSame => hTask (congrArg Prod.snd hSame)
      exact ⟨.inr ⟨hClaim, hKey⟩, fun ⟨hSame, _⟩ => hKey hSame⟩
  · exact (h.opened nofun runId hRun).imp_left (terminalRun_of_kept (serve_terminalKept hFair))

theorem aborts (hImplicit : drain.implicitRun = true)
    (h : DrainKept request before ⟨db, clock, .leaving drain outcome, opened⟩)
    (hFair : OwnFair config request before ⟨db, clock, .leaving drain outcome, opened⟩ env) :
    TerminalRun ((DrainPhase.leaving drain outcome).serve config request env db) drain.runId ∧
      HoldsAsBefore request.agentId clock before ((DrainPhase.leaving drain outcome).serve config request env db) := by
  have hKept := serve_terminalKept hFair
  have hTaken := hFair hImplicit
  have hBefore := h.asBefore rfl
  dsimp only at hTaken
  cases hRun : Handler.handleWithRunOwner config env request.caller (abortDrainRun request drain outcome)
      request.actor db with
  | mk result after =>
  have hServed : (DrainPhase.leaving drain outcome).serve config request env db = after := by
    dsimp only [serve, call]
    rw [if_pos hImplicit]
    exact congrArg Prod.snd hRun
  rcases Handler.abortRun_ends rfl hRun with ⟨⟨e, rfl⟩, hSame, _⟩ | ⟨run, hFound, hActive, hId, hTerminal, hClaims⟩
  · have hEnded := hTaken.resolve_right fun ⟨_, hAccepted⟩ => by
      rw [hRun] at hAccepted
      cases hAccepted
    obtain ⟨run, hFound, hStatus⟩ := (Option.any_eq_true _ _).mp hEnded
    refine ⟨terminalRun_of_kept hKept ⟨run, hFound, of_decide_eq_true hStatus⟩, ?_⟩
    rw [hServed]
    exact hBefore.served fun claim _ _ => hSame claim
  · have hOwned := (hTaken.resolve_left fun hEnded => by
      rw [hFound] at hEnded
      exact absurd hActive (of_decide_eq_true hEnded)).1
    rw [hServed]
    refine ⟨hTerminal, hBefore.served fun claim hMine hLive => (hClaims claim).trans (and_iff_left_of_imp fun hClaim => ?_)⟩
    rintro (hBound | ⟨hUnowned, _⟩)
    · exact h.unbound drain.runId ⟨drain, rfl, hImplicit, rfl⟩ claim ((hBefore claim hMine hLive).mp hClaim) hMine hLive
        (hId ▸ hBound)
    · rw [hId] at hUnowned
      exact absurd hUnowned (Option.isSome_iff_ne_none.mp hOwned)

theorem leaves (hNow : env.now ≤ clock) (h : DrainKept request before ⟨db, clock, .leaving drain outcome, opened⟩)
    (hFair : OwnFair config request before ⟨db, clock, .leaving drain outcome, opened⟩ env) :
    DrainKept request before (DrainWorld.after config request ⟨db, clock, .leaving drain outcome, opened⟩ (.own env)) := by
  have hKept := serve_terminalKept hFair
  have hExclusive : Exclusive ⟨(DrainPhase.leaving drain outcome).serve config request env db, clock⟩ :=
    serve_exclusive hNow h.exclusive
  have hLeft : (∀ runId ∈ opened, TerminalRun ((DrainPhase.leaving drain outcome).serve config request env db) runId) ∧
      HoldsAsBefore request.agentId clock before ((DrainPhase.leaving drain outcome).serve config request env db) := by
    cases hImplicit : drain.implicitRun with
    | true =>
      obtain ⟨hTerminal, hHolds⟩ := h.aborts hImplicit hFair
      refine ⟨fun runId hRun => ?_, hHolds⟩
      rcases h.openedBefore rfl runId hRun with hOld | ⟨same, hIs, _, rfl⟩
      · exact terminalRun_of_kept hKept hOld
      · cases hIs
        exact hTerminal
    | false =>
      have hServed : (DrainPhase.leaving drain outcome).serve config request env db = db := by
        dsimp only [serve, call]
        rw [hImplicit]
        rfl
      rw [hServed]
      refine ⟨fun runId hRun => ?_, h.asBefore rfl⟩
      rcases h.openedBefore rfl runId hRun with hOld | ⟨same, hIs, hUses, _⟩
      · exact hOld
      · cases hIs
        cases hImplicit.symm.trans hUses
  have hNext : Quiet (next config request env db (.leaving drain outcome)) := by
    cases outcome <;> exact quiet_of_undrained rfl rfl rfl
  unfold DrainWorld.after
  dsimp only
  rw [hNext.none]
  exact of_free hNext.free hLeft.2 (fun runId hUses => absurd hUses (hNext.idle runId))
    (fun runId hRun => .inl (hLeft.1 runId hRun)) hExclusive

include h in
theorem own (hNow : env.now ≤ clock) (hFair : OwnFair config request before ⟨db, clock, phase, opened⟩ env) :
    DrainKept request before (DrainWorld.after config request ⟨db, clock, phase, opened⟩ (.own env)) := by
  cases phase with
  | entering => exact h.quiet (quiet_of_undrained rfl rfl rfl) quiet_enter
  | listing supplied => exact h.quiet (quiet_of_undrained rfl rfl rfl) quiet_list
  | choosing supplied plans =>
    cases plans with
    | nil => cases supplied <;> exact h.quiet (quiet_of_undrained rfl rfl rfl) (quiet_of_undrained rfl rfl rfl)
    | cons planId rest =>
      cases supplied with
      | none => exact h.opens hNow hFair
      | some bound =>
        refine h.quiet (quiet_of_undrained rfl rfl rfl) ?_
        dsimp only [next, choose]
        split
        · exact quiet_counting
        · exact quiet_of_undrained rfl rfl rfl
  | counting drain => exact h.reads rfl rfl fun _ => Iff.rfl
  | resolving drain attempts =>
    unfold DrainWorld.after
    dsimp only [next]
    cases attempts with
    | zero => exact h.reads rfl rfl fun _ => Iff.rfl
    | succ attempts =>
      dsimp only [resolve]
      split
      · exact h.reads rfl rfl fun _ => Iff.rfl
      · split <;> exact h.reads rfl rfl fun _ => Iff.rfl
  | scanning drain attempts members =>
    cases members with
    | nil => exact h.reads rfl rfl fun _ => Iff.rfl
    | cons member rest =>
      unfold DrainWorld.after
      dsimp only [next]
      split <;> exact h.reads rfl rfl fun _ => Iff.rfl
  | claiming drain attempts member => exact h.claims hNow
  | reading drain claimed => exact h.looks
  | starting drain claimed => exact h.starts hNow hFair
  | releasing drain claimed e => exact h.releases hNow hFair
  | leaving drain outcome => exact h.leaves hNow hFair
  | answered answer => exact h

theorem step : Preserves (DrainStep config request (Fair config request before)) (DrainKept request before) := by
  rintro ⟨db, clock, phase, opened⟩ _ hStep h
  cases hStep with
  | move move hAllowed hNow =>
    cases move with
    | own env => exact h.own hNow hAllowed
    | other call => exact h.other hNow hAllowed.1 hAllowed.2
  | tick hLe => exact h.tick hLe

theorem entering (h : Exclusive ⟨before, clock⟩) : DrainKept request before ⟨before, clock, .entering, []⟩ :=
  of_free rfl (fun _ _ _ => Iff.rfl) (fun _ ⟨_, hIs, _⟩ => nomatch hIs) (fun _ hMem => absurd hMem List.not_mem_nil) h

theorem answered {world : DrainWorld} {answer : DrainAnswer} (h : DrainKept request before world)
    (hAnswer : world.phase.answer = some answer) : AllOrNothing request before world answer := by
  obtain ⟨db, clock, phase, opened⟩ := world
  cases phase <;> cases hAnswer
  have hNothing : (DrainPhase.answered answer).held = none → HoldsAsBefore request.agentId clock before db ∧
      ∀ runId ∈ opened, ¬ActiveRun db runId := by
    intro hFree
    refine ⟨h.asBefore hFree, fun runId hRun => ?_⟩
    rcases h.openedBefore hFree runId hRun with hTerminal | ⟨_, hIs, _⟩
    · exact hTerminal.not_active
    · cases hIs
  cases answer with
  | task planId runId claimed =>
    intro hTime
    obtain ⟨acquiredAt, hClaim⟩ := h.taken rfl hTime
    refine ⟨h.started planId runId claimed rfl hTime, ⟨acquiredAt, hClaim⟩, fun claim hMem hTask hLive => ?_⟩
    exact h.exclusive claim hMem _ hClaim hTask hLive (decide_eq_true hTime)
  | null | error => exact hNothing rfl

end DrainKept

/-- In every interleaving of a drain request with the calls of others, from any state
that a server reaches, whose moves go as they should, the request is all or nothing. -/
theorem drain_all_or_nothing {config : Config} {request : DrainRequest} {calls : List Call} {clock : Timestamp}
    {finish : DrainWorld} {answer : DrainAnswer} (hCalls : ∀ call ∈ calls, call.env.now ≤ clock)
    (hRun : Trace (DrainStep config request (Fair config request (Server.run config calls)))
      ⟨Server.run config calls, clock, .entering, []⟩ finish)
    (hAnswer : finish.phase.answer = some answer) : AllOrNothing request (Server.run config calls) finish answer :=
  (DrainKept.step.trace hRun (.entering (Server.run_exclusive hCalls))).answered hAnswer

def Undisturbed (config : Config) (request : DrainRequest) (allowed : DrainWorld → DrainMove → Prop) :
    DrainWorld → List Env → Prop
  | _, [] => True
  | world, env :: rest => allowed world (.own env) ∧ env.now ≤ world.clock ∧
      Undisturbed config request allowed (world.after config request (.own env)) rest

def drainAlone (config : Config) (request : DrainRequest) (world : DrainWorld) (envs : List Env) : DrainWorld :=
  envs.foldl (fun world env => world.after config request (.own env)) world

variable {envs : List Env} {world : DrainWorld}

theorem trace_drainAlone {config : Config} {request : DrainRequest} {allowed : DrainWorld → DrainMove → Prop} (h : Undisturbed config request allowed world envs) :
    Trace (DrainStep config request allowed) world (drainAlone config request world envs) := by
  induction envs generalizing world with
  | nil => exact .refl
  | cons env rest ih => exact .head (.move (.own env) h.1 h.2.1) (ih h.2.2)

theorem undisturbed_of_times {config : Config} {request : DrainRequest}
    (h : ∀ env ∈ envs, env.now ≤ world.clock) : Undisturbed config request (fun _ _ => True) world envs := by
  induction envs generalizing world with
  | nil => exact trivial
  | cons env rest ih =>
    have ⟨hNow, hRest⟩ := List.forall_mem_cons.mp h
    exact ⟨trivial, hNow, ih hRest⟩

instance decidableOwnFair (config : Config) (request : DrainRequest) (before : Database) :
    ∀ (world : DrainWorld) (env : Env), Decidable (OwnFair config request before world env)
  | ⟨_, _, .choosing none (_ :: _), _⟩, _ => inferInstanceAs (Decidable (_ ∧ _))
  | ⟨_, _, .starting .., _⟩, _ => inferInstanceAs (Decidable (_ ∨ _))
  | ⟨_, _, .releasing .., _⟩, _ => inferInstanceAs (Decidable (_ = true))
  | ⟨_, _, .leaving .., _⟩, _ => inferInstanceAs (Decidable (_ → _))
  | ⟨_, _, .entering, _⟩, _ | ⟨_, _, .listing _, _⟩, _ | ⟨_, _, .choosing none [], _⟩, _
  | ⟨_, _, .choosing (some _) _, _⟩, _ | ⟨_, _, .counting _, _⟩, _ | ⟨_, _, .resolving .., _⟩, _
  | ⟨_, _, .scanning .., _⟩, _ | ⟨_, _, .claiming .., _⟩, _ | ⟨_, _, .reading .., _⟩, _
  | ⟨_, _, .answered _, _⟩, _ => inferInstanceAs (Decidable True)

instance decidableUndisturbed (config : Config) (request : DrainRequest) (before : Database) :
    ∀ (envs : List Env) (world : DrainWorld), Decidable (Undisturbed config request (Fair config request before) world envs)
  | [], _ => inferInstanceAs (Decidable True)
  | env :: rest, world =>
    have := decidableUndisturbed config request before rest (world.after config request (.own env))
    inferInstanceAs (Decidable (OwnFair config request before world env ∧ env.now ≤ world.clock ∧
      Undisturbed config request (Fair config request before) (world.after config request (.own env)) rest))

private def drainedPlanId : PlanId := (builderEnv (nthEnv 2)).fresh 0

/-- An active plan with a task that is ready, and the rules that are set up after it. -/
private def plannedTask (rules : List Command) : List Call := Server.commands ([
  .task (.createTask { NewTask.new "task" with id := some ⟨7⟩ }),
  .task (.setStatus ⟨7⟩ .todo false none none),
  .plan (.createPlan (NewPlan.new "plan" ⟨0⟩ .anyUser) none),
  .plan (.addPlanTask drainedPlanId ⟨7⟩ none none),
  .plan (.setPlanStatus drainedPlanId .active false none)] ++ rules)

private def drainRequest : DrainRequest := ⟨⟨5⟩, false, .anyUser, .plan drainedPlanId, none, 1000000000⟩

/-- The moves of a request from the tenth on. -/
private def drainEnvs (n : Nat) : List Env := (List.range n).map fun k => nthEnv (10 + k)

private def handedOut : DrainWorld := drainAlone engineConfig drainRequest
  ⟨run engineConfig (plannedTask []), 100, .entering, []⟩ (drainEnvs 8)

private def handedOutAnswer : DrainAnswer := .task drainedPlanId ((builderEnv (nthEnv 11)).fresh 0)
  ⟨⟨7⟩, 0, (nthEnv 15).fresh 0, 1000000015⟩

theorem drain_all_or_nothing_handed_out :
    AllOrNothing drainRequest (Server.run Server.engineConfig (plannedTask [])) handedOut handedOutAnswer :=
  drain_all_or_nothing (by decide +kernel) (trace_drainAlone (by decide +kernel)) (by decide +kernel)

/-- The same with a rule that refuses the start, and a claim that the agent has already. -/
private def claimedBefore : List Call :=
  plannedTask [.rule (.createRule ⟨none, "required", "", .tenant, .taskBeforeStart, none, .ownerRequired, .required, "",
    false, true⟩)] ++ [.acquireClaim (nthEnv 6) .anyUser ⟨5⟩ ⟨7⟩ 1000000000 none]

private def refused : DrainWorld := drainAlone engineConfig drainRequest
  ⟨run engineConfig claimedBefore, 100, .entering, []⟩ (drainEnvs 10)

/-- The refused request renews the claim, and then releases it: the agent has lost the
claim that it had before. -/
theorem refused_drain_loses_claim : Trace (DrainStep Server.engineConfig drainRequest fun _ _ => True)
      ⟨Server.run Server.engineConfig claimedBefore, 100, .entering, []⟩ refused ∧
    ∃ answer, refused.phase.answer = some answer ∧
      ¬AllOrNothing drainRequest (Server.run Server.engineConfig claimedBefore) refused answer := by
  refine ⟨trace_drainAlone (undisturbed_of_times (by decide +kernel)), ?_⟩
  have hRefused : refused.phase.answer.any (fun | .error _ => true | _ => false) = true := by decide +kernel
  have hLost : ∃ claim ∈ (Server.run Server.engineConfig claimedBefore).agentClaims.rows, claim.agentId = ⟨5⟩ ∧
      claim.live refused.clock = true ∧ claim ∉ refused.db.agentClaims.rows := by
    decide +kernel
  cases hAnswer : refused.phase.answer with
  | none =>
    rw [hAnswer] at hRefused
    cases hRefused
  | some answer =>
    rw [hAnswer] at hRefused
    refine ⟨answer, rfl, fun hKept => ?_⟩
    cases answer with
    | task planId runId claimed => cases hRefused
    | null => cases hRefused
    | error e =>
      obtain ⟨claim, hMem, hAgent, hLive, hNot⟩ := hLost
      exact hNot ((hKept.1 claim hAgent hLive).mpr hMem)

end Daruma
