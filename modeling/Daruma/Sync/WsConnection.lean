import Daruma.Auth.Verify
import Daruma.Sync.Hub

/-! A WebSocket connection and the revocations of its token and its device. The read
loop, the writer, the forwarder, the rows and the latches of the hub move between any
two steps; a wake-up may come at any time, or never. -/
namespace Daruma
namespace WsConnection

open Hub (wsSubscriberChannel)
open VerifyBearer (parse)

/-- Why an authenticated connection has to end. -/
inductive Refusal where
  | device | token
  /-- The token row is unreadable. -/
  | tokenUnverified
  deriving DecidableEq

/-- A frame to the client. `content` are those of subscriptions and dispatches. -/
inductive ServerFrame (Content : Type) where
  | hello
  | ping
  | pong
  | error (code message : String)
  | close (code : Nat) (reason : String)
  | content (content : Content)

inductive ClientFrame (Request : Type) where
  | subscribe (request : Request)
  | dispatch (request : Request)
  | ping
  | pong
  | ack
  | malformed
  | close
  /-- Not a text frame. -/
  | other

def Refusal.frames {Content : Type} : Refusal → List (ServerFrame Content)
  | .device => [.error "unauthorized" "device revoked", .close 1008 "device revoked"]
  | .token => [.error "auth_revoked" "token revoked", .close 1008 "token revoked"]
  | .tokenUnverified => [.error "auth_storage" "token check failed", .close 1011 "token check failed"]

/-- The two steps of a check: the latches, then the row. -/
inductive CheckStage where
  | latch | row

/-- Where the read loop is. A client frame carries whether it was read after a revoke. -/
inductive Reader (Request : Type) where
  | connecting
  | authenticating
  | classifying (bare : String) (candidates : List ApiToken)
  | admittingDevice (stage : CheckStage)
  | admitting (stage : CheckStage)
  | entering
  | selecting (awaitingPong : Bool)
  | checking (frame : ClientFrame Request) (awaitingPong : Bool) (stage : CheckStage) (late : Bool)
  | acting (frame : ClientFrame Request) (awaitingPong : Bool)
  | leaving
  | closed

/-- Where the writer is. A frame carries whether it was taken after a revoke. -/
inductive Writer (Content : Type) where
  | absent
  | idle
  | checking (frame : ServerFrame Content) (stage : CheckStage) (late : Bool)
  | passed (frame : ServerFrame Content) (late : Bool)
  | ended

/-- What became of a frame that the writer took: written, before or after a revoke,
replaced by a refusal, or lost with the socket. -/
inductive Fate where
  | written (late : Bool)
  | replaced (refusal : Refusal)
  | undelivered

structure Taken (Content : Type) where
  frame : ServerFrame Content
  late : Bool
  fate : Fate

/-- The rows, the latches of the hub, and one connection. `acted`, `taken` and
`registeredLate` record which frames were acted upon, what the writer did with the
frames that it took, and whether a revoke came before the writer was there. -/
structure Socket (Content Request : Type) where
  tokens : ApiTokens
  devices : Devices
  clock : Timestamp
  revokedTokens : List TokenId
  revokedDevices : List DeviceId
  bearer : Option String
  ctx : Option AuthContext
  reader : Reader Request
  writer : Writer Content
  queue : List (ServerFrame Content)
  door : List (ServerFrame Content)
  acted : List (ClientFrame Request × Bool)
  taken : List (Taken Content)
  registeredLate : Option Bool

variable {Content Request : Type}

def start (bearer : Option String) : Socket Content Request :=
  ⟨.empty, fun _ => none, 0, [], [], bearer, none, .connecting, .absent, [], [], [], [], none⟩

namespace Socket

def latchedRefusal (s : Socket Content Request) : Option Refusal :=
  s.ctx.bind fun ctx =>
    if ctx.deviceId.any fun id => id ∈ s.revokedDevices then some .device
    else if ctx.tokenId ∈ s.revokedTokens then some .token
    else none

/-- A revoke of the token or of the device of the connection is latched, as it is once
the revoke has returned. -/
def latched (s : Socket Content Request) : Bool := s.latchedRefusal.isSome

def rowRefusal (s : Socket Content Request) (failed : Bool) : Option Refusal :=
  s.ctx.bind fun ctx =>
    if failed then some .tokenUnverified
    else match s.tokens.find? ctx.tokenId with
      | some token => if token.revokedAt.isNone then none else some .token
      | none => some .token

/-- A revoked row latches its token. -/
def noted (s : Socket Content Request) : Option Refusal → Socket Content Request
  | some .token => { s with revokedTokens := (s.ctx.map AuthContext.tokenId).toList ++ s.revokedTokens }
  | _ => s

/-- `try_send`: a full queue drops the frame, and so does one whose writer has ended. -/
def push (s : Socket Content Request) (frame : ServerFrame Content) : Socket Content Request :=
  match s.writer with
  | .ended => s
  | _ => if s.queue.length < wsSubscriberChannel then { s with queue := s.queue ++ [frame] } else s

def sendRefusal (s : Socket Content Request) (refusal : Refusal) : Socket Content Request :=
  refusal.frames.foldl push s

/-- Turn a client away before it has a writer. -/
def refuse (s : Socket Content Request) (frames : List (ServerFrame Content)) : Socket Content Request :=
  { s with door := frames, reader := .closed }

end Socket

/-- What wakes the read loop. Outside of its selection it just goes on; a read of a row
may fail there. -/
inductive Choice (Request : Type) where
  | go (failed : Bool)
  | wake
  | closed
  | beat
  | frame (frame : ClientFrame Request)
  | hangUp

inductive Move (Content Request : Type) where
  | reader (choice : Choice Request)
  /-- A read of the row and a write to the socket may fail. -/
  | writer (failed lost : Bool)
  /-- A frame of the subscription or of a reply. -/
  | forward (content : Content)
  | insertToken (token : ApiToken)
  | revokeToken (id : TokenId)
  | notifyTokenRevoked (id : TokenId)
  | insertDevice (device : DeviceId)
  | revokeDevice (device : DeviceId)
  | notifyDeviceRevoked (device : DeviceId)
  | tick (later : Timestamp)

def act (s : Socket Content Request) (awaitingPong : Bool) : ClientFrame Request → Socket Content Request
  | .subscribe _ | .dispatch _ | .ack | .other => { s with reader := .selecting awaitingPong }
  | .ping => { s.push .pong with reader := .selecting awaitingPong }
  | .pong => { s with reader := .selecting false }
  | .malformed => { s.push (.error "ws_malformed" "could not parse client message") with reader := .selecting awaitingPong }
  | .close => { s with reader := .leaving }

/-- One step of `handle_socket`. -/
def read (verifyPlaintext : String → String → Bool) (s : Socket Content Request) (choice : Choice Request) :
    Socket Content Request :=
  match s.reader, choice with
  | .connecting, .go _ => { s with reader := .authenticating }
  | .authenticating, .go failed =>
    if s.bearer.getD "" = "" then s.refuse [.close 1008 "missing token"]
    else match parse (s.bearer.getD "") with
      | .error _ => s.refuse [.close 1008 "invalid token"]
      | .ok bare =>
        let candidates := TokenRepo.listByPrefix s.tokens s.devices (prefixOf bare)
        if failed || candidates.isEmpty then s.refuse [.close 1008 "invalid token"]
        else { s with reader := .classifying bare candidates }
  | .classifying bare candidates, .go _ =>
    match VerifyBearer.classify verifyPlaintext s.clock bare .mismatch candidates with
    | .error _ => s.refuse [.close 1008 "invalid token"]
    | .ok ctx =>
      if ctx.scope.projects ≠ .all then s.refuse []
      else { s with
        ctx := some ctx
        reader := if ctx.deviceId.isSome then .admittingDevice .latch else .admitting .latch }
  | .admittingDevice .latch, .go _ =>
    if (s.ctx.bind AuthContext.deviceId).any fun id => id ∈ s.revokedDevices then s.refuse Refusal.device.frames
    else { s with reader := .admittingDevice .row }
  | .admittingDevice .row, .go failed =>
    if failed || (s.ctx.bind AuthContext.deviceId).any fun id => DeviceRepo.isRevoked s.devices id then
      s.refuse Refusal.device.frames
    else { s with reader := .admitting .latch }
  | .admitting .latch, .go _ => match s.latchedRefusal with
      | some refusal => s.refuse refusal.frames
      | none => { s with reader := .admitting .row }
  | .admitting .row, .go failed => match s.rowRefusal failed with
      | some refusal => (s.noted (some refusal)).refuse refusal.frames
      | none => { s with reader := .entering }
  | .entering, .go _ =>
    { s with registeredLate := some s.latched, queue := [.hello], writer := .idle, reader := .selecting false }
  | .selecting awaitingPong, .wake => match s.latchedRefusal with
      | some refusal => { s.sendRefusal refusal with reader := .leaving }
      | none => { s with reader := .selecting awaitingPong }
  | .selecting awaitingPong, .closed => match s.writer with
      | .ended => { s with reader := .leaving }
      | _ => s
  | .selecting awaitingPong, .beat =>
    if awaitingPong then { s with reader := .leaving } else { s.push .ping with reader := .selecting true }
  | .selecting awaitingPong, .frame frame => { s with reader := .checking frame awaitingPong .latch s.latched }
  | .selecting _, .hangUp => { s with reader := .leaving }
  | .checking frame awaitingPong .latch late, .go _ => match s.latchedRefusal with
      | some refusal => { s.sendRefusal refusal with reader := .leaving }
      | none => { s with reader := .checking frame awaitingPong .row late }
  | .checking frame awaitingPong .row late, .go failed => match s.rowRefusal failed with
      | some refusal => { (s.noted (some refusal)).sendRefusal refusal with reader := .leaving }
      | none => { s with acted := s.acted ++ [(frame, late)], reader := .acting frame awaitingPong }
  | .acting frame awaitingPong, .go _ => act s awaitingPong frame
  | .leaving, .go _ => { s with reader := .closed }
  | _, _ => s

def Socket.put (s : Socket Content Request) (frame : ServerFrame Content) (late : Bool) (fate : Fate)
    (writer : Writer Content) : Socket Content Request :=
  { s with taken := s.taken ++ [⟨frame, late, fate⟩], writer := writer }

/-- One step of the writer. -/
def write (s : Socket Content Request) (failed lost : Bool) : Socket Content Request :=
  match s.writer with
  | .absent | .ended => s
  | .idle => match s.queue, s.reader with
      | frame :: rest, _ => { s with queue := rest, writer := .checking frame .latch s.latched }
      | [], .closed => { s with writer := .ended }
      | [], _ => s
  | .checking frame .latch late => match s.latchedRefusal with
      | some refusal => s.put frame late (.replaced refusal) .ended
      | none => { s with writer := .checking frame .row late }
  | .checking frame .row late => match s.rowRefusal failed with
      | some refusal => (s.noted (some refusal)).put frame late (.replaced refusal) .ended
      | none => { s with writer := .passed frame late }
  | .passed frame late =>
    if lost then s.put frame late .undelivered .ended else s.put frame late (.written s.latched) .idle

/-- The connection after a move. -/
def Socket.after (verifyPlaintext : String → String → Bool) (s : Socket Content Request) :
    Move Content Request → Socket Content Request
  | .reader choice => read verifyPlaintext s choice
  | .writer failed lost => write s failed lost
  | .forward content => s.push (.content content)
  | .insertToken token => if (s.tokens.find? token.id).isNone then { s with tokens := s.tokens.upsert token } else s
  | .revokeToken id => { s with tokens := TokenRepo.revoke s.tokens s.clock id }
  | .notifyTokenRevoked id => { s with revokedTokens := id :: s.revokedTokens }
  | .insertDevice device => { s with devices := fun id => if id = device then some ⟨none⟩ else s.devices id }
  | .revokeDevice device => { s with devices := DeviceRepo.revoke s.devices s.clock device }
  | .notifyDeviceRevoked device => { s with revokedDevices := device :: s.revokedDevices }
  | .tick later => if s.clock ≤ later then { s with clock := later } else s

def run (verifyPlaintext : String → String → Bool) (s : Socket Content Request) (moves : List (Move Content Request)) :
    Socket Content Request :=
  moves.foldl (Socket.after verifyPlaintext) s

end WsConnection
end Daruma
