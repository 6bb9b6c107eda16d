import Mathlib.Logic.Function.Basic

/-! Which server the local replicas belong to. Processes on one data directory open
the active replica, bind the default file to a server, queue and send, each step of one
between any two steps of another; each may stop, and the registry may get lost. -/
namespace Daruma
namespace ReplicaOwner

/-- A database of the data directory: the default file, or that of a server. -/
inductive Path (Server : Type) where
  | default
  | of (server : Server)
  deriving DecidableEq

/-- The contents of `replicas.json`. -/
structure Registry (Server : Type) where
  active : Option Server
  defaultOwner : Option Server

section

variable {Server : Type} [DecidableEq Server]

namespace Registry

def empty : Registry Server := ⟨none, none⟩

/-- Follow the server that the user paired with, and whether that changed anything. -/
def follow (registry : Registry Server) (server : Server) : Registry Server × Bool :=
  if registry.active = none ∨ registry.active = some server then (registry, false)
  else ({ registry with active := some server }, true)

def bindDefault (server : Server) : Registry Server := ⟨some server, some server⟩

def activePath (registry : Registry Server) : Path Server :=
  match registry.active with
  | some server => if registry.defaultOwner ≠ some server then .of server else .default
  | none => .default

end Registry

end

/-- A queued event, and the server that its replica was bound to. -/
structure Queued (Server : Type) where
  id : Nat
  boundTo : Option Server
  flushed : Bool
  rejected : Bool
  deriving DecidableEq

/-- What of a replica says whether it holds something of a server. `noOwner` is the
row of `desktop_no_owner`, `holdsRows` whether there are events, tasks or projects. -/
structure Replica (Server : Type) where
  noOwner : Bool
  serverSeq : Nat
  holdsRows : Bool
  outbox : List (Queued Server)

variable {Server P : Type}

namespace Replica

def fresh : Replica Server := ⟨false, 0, false, []⟩

def isEmpty (replica : Replica Server) : Bool :=
  replica.serverSeq = 0 && !replica.holdsRows && replica.outbox.isEmpty && !replica.outbox.any (·.rejected)

def noteIfEmpty (replica : Replica Server) : Replica Server :=
  if replica.isEmpty then { replica with noOwner := true } else replica

def noteOwner (replica : Replica Server) : Replica Server := { replica with noOwner := false }

/-- It may hold something of a server that it cannot name. -/
def hasUnknownPast (replica : Replica Server) : Bool :=
  !replica.noOwner || 0 < replica.serverSeq || replica.outbox.any (·.flushed) || replica.outbox.any (·.rejected)

def enqueue (replica : Replica Server) (event : Queued Server) : Replica Server :=
  { replica with holdsRows := true, outbox := replica.outbox ++ [event] }

/-- What a log sent is applied. -/
def catchUp (replica : Replica Server) (serverSeq : Nat) : Replica Server :=
  { replica with serverSeq := max replica.serverSeq serverSeq, holdsRows := true }

def mark (replica : Replica Server) (n : Nat) (change : Queued Server → Queued Server) : Replica Server :=
  { replica with outbox := replica.outbox.modify n change }

def markFlushed (replica : Replica Server) (n : Nat) : Replica Server := replica.mark n ({ · with flushed := true })

def markRejected (replica : Replica Server) (n : Nat) : Replica Server := replica.mark n ({ · with rejected := true })

def requeueRejected (replica : Replica Server) : Replica Server :=
  { replica with outbox := replica.outbox.map ({ · with rejected := false }) }

/-- The entry of the queue that may go out. -/
def pending (replica : Replica Server) (n : Nat) : Option (Queued Server) :=
  replica.outbox[n]?.filter fun event => !event.flushed && !event.rejected

end Replica

/-- Where a process is: in `open_in`, with its replica, in `ensure_bound` or `adopt`,
or sending to a server that was found to be its own. -/
inductive Phase (Server : Type) where
  | starting
  | paired (pairedWith : Option Server)
  | loaded (pairedWith : Option Server) (registry : Registry Server) (followed : Bool)
  | opening (pairedWith : Option Server) (registry : Registry Server)
  | judging (pairedWith : Option Server)
  | binding (server : Server)
  | owning (server : Server)
  | ready (own : Option Server) (path : Path Server)
  | ensuring (server : Server)
  | recording (server : Server) (adopting : Bool)
  | saving (server : Server) (adopting : Bool)
  | recorded (server : Server) (adopting : Bool)
  | sending (own : Option Server) (path : Path Server) (server : Server)

/-- The server that a process takes the default file to be of. -/
def Phase.treats : Phase Server → Option Server
  | .owning server | .recorded server _ | .sending _ .default server => some server
  | .ready own .default => own
  | _ => none

/-- The data directory and its processes. `owner` is the server that the default file
was last bound to, `treated` are those it was taken to be of, and `sent` are the
events that were sent, with the server they were sent to. -/
structure World (Server P : Type) where
  registry : Option (Registry Server)
  pairedWith : Option Server
  defaultReplica : Replica Server
  replicas : Server → Replica Server
  processes : P → Option (Phase Server)
  owner : Option Server
  treated : List Server
  sent : List (Queued Server × Server)

/-- A data directory without a registry, as an older binary may have left it. -/
def start (defaultReplica : Replica Server) : World Server P :=
  ⟨none, none, defaultReplica, fun _ => .fresh, fun _ => none, none, [], []⟩

inductive Move (Server P : Type) where
  | launch (p : P)
  | step (p : P)
  | queue (p : P) (id : Nat)
  | ensureBound (p : P) (server : Server)
  | adopt (p : P) (server : Server)
  | push (p : P) (n : Nat)
  | flushed (p : P) (n : Nat)
  | rejected (p : P) (n : Nat)
  | requeue (p : P)
  | catchUp (p : P) (serverSeq : Nat)
  | settle (p : P)
  | stop (p : P)
  | pair (server : Option Server)
  | lose

def Move.isAdopt : Move Server P → Bool
  | .adopt .. => true
  | _ => false

variable [DecidableEq Server] [DecidableEq P]

namespace World

def load (world : World Server P) : Registry Server := world.registry.getD .empty

def enter (world : World Server P) (p : P) (phase : Phase Server) : World Server P :=
  { world with
    processes := Function.update world.processes p (some phase), treated := world.treated ++ phase.treats.toList }

def replicaAt (world : World Server P) : Path Server → Replica Server
  | .default => world.defaultReplica
  | .of server => world.replicas server

def writeAt (world : World Server P) (path : Path Server) (replica : Replica Server) : World Server P :=
  match path with
  | .default => { world with defaultReplica := replica }
  | .of server => { world with replicas := Function.update world.replicas server replica }

/-- The registry is replaced by one that gives the default file to a server. -/
def bind (world : World Server P) (server : Server) : World Server P :=
  { world with registry := some (.bindDefault server), owner := some server }

def step (world : World Server P) (p : P) : Phase Server → World Server P
  | .starting => world.enter p (.paired world.pairedWith)
  | .paired none => world.enter p (.loaded none world.load false)
  | .paired (some server) =>
    let followed := world.load.follow server
    world.enter p (.loaded (some server) followed.1 followed.2)
  | .loaded pairedWith registry followed =>
    { world with registry := if followed then some registry else world.registry }.enter p (.opening pairedWith registry)
  | .opening pairedWith registry => match registry.active with
      | some server => world.enter p (.ready (some server) registry.activePath)
      | none => { world with defaultReplica := world.defaultReplica.noteIfEmpty }.enter p (.judging pairedWith)
  | .judging pairedWith => match world.defaultReplica.hasUnknownPast, pairedWith with
      | false, some server => world.enter p (.binding server)
      | _, _ => world.enter p (.ready none .default)
  | .binding server => (world.bind server).enter p (.owning server)
  | .owning server =>
    { world with defaultReplica := world.defaultReplica.noteOwner }.enter p (.ready (some server) .default)
  | .ensuring server =>
    if world.defaultReplica.hasUnknownPast then world.enter p (.ready none .default)
    else world.enter p (.recording server false)
  | .recording server adopting => match world.load.active with
      | some _ => world.enter p (.ready none .default)
      | none => world.enter p (.saving server adopting)
  | .saving server adopting => (world.bind server).enter p (.recorded server adopting)
  | .recorded server adopting =>
    { world with defaultReplica := world.defaultReplica.noteOwner }.enter p
      (if adopting then .ready none .default else .sending none .default server)
  | .ready .. | .sending .. => world

def whileSending (world : World Server P) (p : P) (change : Replica Server → Replica Server) : World Server P :=
  match world.processes p with
  | some (.sending _ path _) => world.writeAt path (change (world.replicaAt path))
  | _ => world

/-- The data directory after a move. What cannot be done changes nothing. -/
def after (world : World Server P) : Move Server P → World Server P
  | .launch p => match world.processes p with
      | none => world.enter p .starting
      | some _ => world
  | .step p => match world.processes p with
      | some phase => world.step p phase
      | none => world
  | .queue p id => match world.processes p with
      | some (.ready own path) | some (.sending own path _) =>
        world.writeAt path ((world.replicaAt path).enqueue ⟨id, own.or world.owner, false, false⟩)
      | _ => world
  | .ensureBound p server => match world.processes p with
      | some (.ready (some own) path) => if own = server then world.enter p (.sending (some own) path server) else world
      | some (.ready none _) => world.enter p (.ensuring server)
      | _ => world
  | .adopt p server => match world.processes p with
      | some (.ready none _) => world.enter p (.recording server true)
      | _ => world
  | .push p n => match world.processes p with
      | some (.sending _ path server) =>
        { world with sent := world.sent ++ ((world.replicaAt path).pending n).toList.map (·, server) }
      | _ => world
  | .flushed p n => world.whileSending p (·.markFlushed n)
  | .rejected p n => world.whileSending p (·.markRejected n)
  | .requeue p => world.whileSending p .requeueRejected
  | .catchUp p serverSeq => world.whileSending p (·.catchUp serverSeq)
  | .settle p => match world.processes p with
      | some (.sending own path _) => world.enter p (.ready own path)
      | _ => world
  | .stop p => { world with processes := Function.update world.processes p none }
  | .pair server => { world with pairedWith := server }
  | .lose => { world with registry := none }

def run (world : World Server P) (moves : List (Move Server P)) : World Server P := moves.foldl after world

end World

/-- The default file was taken to be of one server at most, and no event was sent to
another server than the one its replica was bound to. -/
structure OneServer (world : World Server P) : Prop where
  treated : ∀ server ∈ world.treated, ∀ other ∈ world.treated, server = other
  sent : ∀ entry ∈ world.sent, ∀ server, entry.1.boundTo = some server → entry.2 = server

/-- The registry that a binding replaces records no server and the default file has no
unknown past, or the default file was last bound to that server. -/
def CanBind (world : World Server P) (server : Server) : Prop :=
  (world.load.active = none ∧ world.defaultReplica.hasUnknownPast = false) ∨ world.owner = some server

/-- A binding is still right when it is written, and an adopted file was not another server's. -/
def StillRight (world : World Server P) : Phase Server → Prop
  | .binding server | .saving server false => CanBind world server
  | .saving server true => world.owner = none ∨ world.owner = some server
  | _ => True

/-- Bindings are still right, and the registry is lost only while it records nothing or
once the default file says by itself that it may be somebody's. -/
def Careful (world : World Server P) : Move Server P → Prop
  | .step p => match world.processes p with
      | some phase => StillRight world phase
      | none => True
  | .lose => world.load.active = none ∨ (world.defaultReplica.noOwner = false ∧ world.defaultReplica.isEmpty = false)
  | _ => True

def AllCareful : World Server P → List (Move Server P) → Prop
  | _, [] => True
  | world, move :: rest => Careful world move ∧ AllCareful (world.after move) rest

instance (world : World Server P) (server : Server) : Decidable (CanBind world server) :=
  inferInstanceAs (Decidable (_ ∨ _))

instance (world : World Server P) (phase : Phase Server) : Decidable (StillRight world phase) :=
  match phase with
  | .binding _ | .saving _ false => inferInstanceAs (Decidable (CanBind world _))
  | .saving _ true => inferInstanceAs (Decidable (_ ∨ _))
  | .starting | .paired _ | .loaded .. | .opening .. | .judging _ | .owning _ | .ready .. | .ensuring _
  | .recording .. | .recorded .. | .sending .. => inferInstanceAs (Decidable True)

instance (world : World Server P) (move : Move Server P) : Decidable (Careful world move) :=
  match move with
  | .step p => match h : world.processes p with
      | some phase => decidable_of_iff (StillRight world phase) (by simp only [Careful, h])
      | none => isTrue (by simp only [Careful, h])
  | .lose => inferInstanceAs (Decidable (_ ∨ _))
  | .launch _ | .queue .. | .ensureBound .. | .adopt .. | .push .. | .flushed .. | .rejected .. | .requeue _
  | .catchUp .. | .settle _ | .stop _ | .pair _ => inferInstanceAs (Decidable True)

instance decideAllCareful : (world : World Server P) → (moves : List (Move Server P)) → Decidable (AllCareful world moves)
  | _, [] => isTrue trivial
  | world, move :: later => @instDecidableAnd (Careful world move) (AllCareful (world.after move) later) inferInstance
      (decideAllCareful (world.after move) later)

end ReplicaOwner
end Daruma
