import Daruma.Library.Replay
import Daruma.Storage.ProjectRepo
import Daruma.Storage.TaskRepo

/-! Bootstrap snapshots: the state that a device replica maintains, folded from the
event log up to a sequence number. The log is read in pages, while events arrive and
old telemetry goes. -/
namespace Daruma

open Replay (replay)

inductive EventClass where
  | domain | telemetry
  deriving DecidableEq

/-- Operational measurements are retained for a time only. -/
def Event.class : Event → EventClass
  | .audit (.operationalMetricRecorded _) => .telemetry
  | _ => .domain

namespace EventStore

/-- The events after a number, in their order, as many as a page holds. -/
def loadSince (db : Database) (sinceSeq limit : Nat) : List EventEnvelope :=
  (orderBy EventEnvelope.seq (db.events.rows.filter fun event => sinceSeq < event.seq)).take limit

/-- Delete the telemetry before an instant. The numbers of the others stay. -/
def purgeTelemetryBefore (db : Database) (cutoff : Timestamp) : Database :=
  { db with events := db.events.filter fun event =>
      !(event.payload.class = .telemetry && event.occurredAt < cutoff) }

end EventStore

def Task.read (task : Task) : Task := { task with pipelinePosition := none }

def TaskRepo.listAll (tasks : Tasks) : List Task := (orderBy Task.createdAt tasks.rows).map Task.read

def CommentRepo.listAll (comments : CommentRepo.Comments) : List Comment :=
  orderBy Comment.createdAt comments.rows

/-- The state of the projections that devices replicate. -/
structure ProjectionSnapshot where
  tasks : List Task
  projects : List Project
  comments : List Comment

/-- Snapshots of other versions than this are never served. -/
def snapshotCutVersion : Nat := 1

/-- A stored snapshot. Every event up to its number is in it, if it is consistent. -/
structure Snapshot where
  id : Nat
  seq : Nat
  createdAt : Timestamp
  payload : ProjectionSnapshot
  cutVersion : Nat

def Snapshot.isConsistent (self : Snapshot) : Bool := self.cutVersion = snapshotCutVersion

/-- The replicated projectors over a database of their own. -/
structure ProjectionFold where
  tasks : Tasks
  projects : ProjectRepo.Projects
  comments : CommentRepo.Comments

namespace ProjectionFold

def empty : ProjectionFold := ⟨.empty, .empty, .empty⟩

/-- Start from the empty log, or from the state at some number. -/
def new : Option ProjectionSnapshot → Result ProjectionFold
  | none => .ok empty
  | some base =>
    match replay TaskRepo.upsertTask .empty base.tasks with
    | .error e => .error e
    | .ok tasks => .ok {
        tasks := tasks
        projects := base.projects.foldl ProjectRepo.upsertProject .empty
        comments := base.comments.foldl KeyedTable.insertOrReplace .empty }

/-- Apply one event. `mint` says what identifiers the projectors mint for it. -/
def apply (mint : EventEnvelope → Env) (fold : ProjectionFold) (event : EventEnvelope) : Result ProjectionFold :=
  match TaskRepo.applyEvent fold.tasks (mint event) event with
  | .error e => .error e
  | .ok tasks => .ok ⟨tasks, ProjectRepo.applyEvent fold.projects event, CommentRepo.applyEvent fold.comments event⟩

def state (fold : ProjectionFold) : ProjectionSnapshot where
  tasks := TaskRepo.listAll fold.tasks
  projects := orderBy Project.createdAt fold.projects.rows
  comments := CommentRepo.listAll fold.comments

end ProjectionFold

namespace SnapshotRepo

abbrev Snapshots := KeyedTable Nat Snapshot Snapshot.id

/-- Events read from the log in one round. -/
def foldPageSize : Nat := 1000

def newestFirst (snapshots : Snapshots) : List Snapshot :=
  (snapshots.rows.filter Snapshot.isConsistent).insertionSort fun first second => second.seq ≤ first.seq

def latest (snapshots : Snapshots) : Option Snapshot := (newestFirst snapshots).head?

/-- A snapshot that is being written: where it shall be cut, and what of the log is
folded already. -/
structure Writing where
  target : Nat
  cursor : Nat
  fold : ProjectionFold
  finished : Bool

/-- Start a snapshot of the log as it is, unless too little has happened since the
last one. -/
def begin (db : Database) (snapshots : Snapshots) (minEvents : Nat) : Result (Option Writing) :=
  let target := db.latestSeq
  let base := latest snapshots
  let cursor := (base.map Snapshot.seq).getD 0
  if target - cursor < minEvents then .ok none
  else
    match ProjectionFold.new (base.map Snapshot.payload) with
    | .error e => .error e
    | .ok fold => .ok (some ⟨target, cursor, fold, false⟩)

namespace Writing

/-- More of the log is to be read. -/
def isDue (writing : Writing) : Bool := !writing.finished && writing.cursor < writing.target

def foldPage (mint : EventEnvelope → Env) (writing : Writing) : List EventEnvelope → Result Writing
  | [] => .ok writing
  | event :: rest =>
    if writing.target < event.seq then .ok { writing with finished := true }
    else
      match writing.fold.apply mint event with
      | .error e => .error e
      | .ok fold => foldPage mint { writing with fold := fold, cursor := event.seq } rest

/-- Read a page and fold it. Without events left, the tail of the log was purged. -/
def advance (mint : EventEnvelope → Env) (db : Database) (writing : Writing) : Result Writing :=
  match EventStore.loadSince db writing.cursor foldPageSize with
  | [] => .ok { writing with finished := true }
  | event :: rest => writing.foldPage mint (event :: rest)

end Writing

def insert (snapshots : Snapshots) (id : Nat) (now : Timestamp) (seq : Nat) (payload : ProjectionSnapshot) :
    Result Snapshots :=
  let snapshot : Snapshot := ⟨id, seq, now, payload, snapshotCutVersion⟩
  if h : snapshots.find? snapshot.id = none then .ok (snapshots.append snapshot h)
  else .error (.storage "UNIQUE constraint failed: snapshots.id")

/-- Drop all but the newest consistent snapshots, and whatever cannot be served. -/
def pruneKeepLatest (snapshots : Snapshots) (keep : Nat) : Snapshots :=
  snapshots.filter fun snapshot => snapshot.id ∈ ((newestFirst snapshots).take keep).map Snapshot.id

end SnapshotRepo
end Daruma
