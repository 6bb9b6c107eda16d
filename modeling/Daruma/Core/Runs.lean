import Daruma.Core.Handler
import Daruma.Core.RuleEngine

/-! The calls that the server makes on its handler, and the databases that a
sequence of them leads to. -/
namespace Daruma

/-- What the watchdogs of the server put on record. -/
inductive WatchdogSignal where
  | runUnresponsive (runId : RunId)
  | runStale (runId : RunId)
  | taskDueElapsed (taskId : TaskId) (dueAt : Timestamp)
  | orphanDocumentArchived (documentId : DocumentId) (fromStatus : DocumentStatus)

def WatchdogSignal.event (now : Timestamp) : WatchdogSignal → Event
  | .runUnresponsive runId => .run (.runUnresponsive runId now)
  | .runStale runId => .run (.runStale runId now)
  | .taskDueElapsed taskId dueAt => .task (.taskDueElapsed taskId dueAt now)
  | .orphanDocumentArchived documentId fromStatus =>
    .document (.documentStatusChanged documentId fromStatus .archived now)

inductive Call where
  | command (env : Env) (caller : Caller) (command : Command) (actor : Actor)
  | acquireClaim (env : Env) (actor : Actor) (agentId : AgentId) (taskId : TaskId) (ttl : Duration)
      (run : Option (RunId × PlanId))
  | releaseClaim (env : Env) (actor : Actor) (agentId : AgentId) (taskId : TaskId) (claimId : ClaimId)
  | sweepClaims (env : Env) (actor : Actor)
  | signal (env : Env) (signal : WatchdogSignal)

namespace Server

def publishRecordedClaimEvents (config : Config) (env : Env) (db : Database) (events : List EventEnvelope) :
    Database :=
  AutoAppend.autoAppendLogs config env
    { db with activity := events.foldl ActivityRepo.applyEvent db.activity } events

def tryAcquireClaim (config : Config) (db : Database) (env : Env) (actor : Actor) (agentId : AgentId)
    (taskId : TaskId) (ttl : Duration) (run : Option (RunId × PlanId)) : Database :=
  match AgentClaimRepo.tryAcquireBoundRecorded db (env.part 0) actor agentId taskId (env.fresh 0)
      (env.now + ttl) run with
  | .ok (.acquired _ _ event, db') => publishRecordedClaimEvents config (env.part 1) db' [event]
  | .ok (.busy .., db') => db'
  | .error _ => db

def releaseClaim (config : Config) (db : Database) (env : Env) (actor : Actor) (agentId : AgentId)
    (taskId : TaskId) (claimId : ClaimId) : Database :=
  match AgentClaimRepo.releaseRecorded db (env.part 0) actor agentId taskId claimId with
  | .ok (event, db') => publishRecordedClaimEvents config (env.part 1) db' event.toList
  | .error _ => db

def sweepExpiredClaims (config : Config) (db : Database) (env : Env) (actor : Actor) : Database :=
  match AgentClaimRepo.sweepExpiredRecorded db (env.part 0) actor
      (AgentClaimRepo.selectExpired db.agentClaims env.now) with
  | .ok (events, db') => publishRecordedClaimEvents config (env.part 1) db' events
  | .error _ => db

def serve (config : Config) (db : Database) : Call → Database
  | .command env caller command actor => (Handler.handleWithRunOwner config env caller command actor db).2
  | .acquireClaim env actor agentId taskId ttl run =>
    tryAcquireClaim config db env actor agentId taskId ttl run
  | .releaseClaim env actor agentId taskId claimId => releaseClaim config db env actor agentId taskId claimId
  | .sweepClaims env actor => sweepExpiredClaims config db env actor
  | .signal env signal => (AutoAppend.persistSignalEvent env .anyUser (signal.event env.now) db).2

def run (config : Config) (calls : List Call) : Database :=
  calls.foldl (serve config) Database.empty

def Meets (config : Config) (condition : Database → Call → Prop) : Database → List Call → Prop
  | _, [] => True
  | db, call :: rest => condition db call ∧ Meets config condition (serve config db call) rest

variable {config : Config}

variable {calls : List Call} {db : Database}

theorem Meets.imp {condition wider : Database → Call → Prop} (h : ∀ db call, condition db call → wider db call)
    (hMeets : Meets config condition db calls) : Meets config wider db calls := by
  induction calls generalizing db with
  | nil => exact trivial
  | cons call rest ih => exact ⟨h db call hMeets.1, ih hMeets.2⟩

/-- Every run meets what always holds. -/
theorem Meets.of_forall {condition : Database → Call → Prop} (h : ∀ db call, condition db call) :
    Meets config condition db calls := by
  induction calls generalizing db with
  | nil => exact trivial
  | cons call rest ih => exact ⟨h db call, ih⟩

theorem Meets.split {condition : Database → Call → Prop} {earlier later : List Call}
    (hMeets : Meets config condition db (earlier ++ later)) :
    Meets config condition db earlier ∧ Meets config condition (earlier.foldl (serve config) db) later := by
  induction earlier generalizing db with
  | nil => exact ⟨trivial, hMeets⟩
  | cons call rest ih =>
    obtain ⟨hEarlier, hLater⟩ := ih hMeets.2
    exact ⟨⟨hMeets.1, hEarlier⟩, hLater⟩

theorem foldl_induction {condition : Database → Call → Prop} {inv : Database → Prop}
    (hServe : ∀ db call, inv db → condition db call → inv (serve config db call)) (hInv : inv db) (hMeets : Meets config condition db calls) :
    inv (calls.foldl (serve config) db) := by
  induction calls generalizing db with
  | nil => exact hInv
  | cons call rest ih => exact ih (hServe db call hInv hMeets.1) hMeets.2

theorem run_induction {config : Config} {condition : Database → Call → Prop} {inv : Database → Prop}
    (hEmpty : inv Database.empty)
    (hServe : ∀ db call, inv db → condition db call → inv (serve config db call)) {calls : List Call}
    (hMeets : Meets config condition Database.empty calls) : inv (run config calls) :=
  foldl_induction hServe hEmpty hMeets

def plainCodec : TextCodec :=
  ⟨fun _ => .error "", fun _ => true, id, fun _ => false, fun _ => "[]", fun _ => "", fun _ => "", fun _ => ""⟩

def engineConfig : Config := ⟨false, some RuleEngine.checkObserved, none, none, plainCodec⟩

/-- What the `n`-th call of a run takes from outside. -/
def nthEnv (n : Nat) : Env := Env.part ⟨n, fun k => k⟩ n

/-- A run of commands from inside the server. -/
def commands (list : List Command) : List Call :=
  list.mapIdx fun n command => .command (nthEnv n) .internal command .anyUser

end Server
end Daruma
