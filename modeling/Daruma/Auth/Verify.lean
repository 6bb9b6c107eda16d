import Daruma.Library.KeyedTable
import Daruma.Shared.Ids
import Daruma.Shared.Text

/-! The rows of API tokens, and the verification of a bearer against them. -/
namespace Daruma

inductive TokenKind where
  | pat | bot | svc | usr | license
  deriving DecidableEq

inductive ProjectFilter where
  | all
  | only (projects : List ProjectId)
  deriving DecidableEq

/-- The scope of a token. Capabilities are kept by name. -/
structure TokenScope where
  projects : ProjectFilter
  capabilities : List String
  deriving DecidableEq

/-- A row of the tokens table. `deviceRevokedAt` is joined from the bound device. -/
structure ApiToken where
  id : TokenId
  start : String
  hash : String
  kind : TokenKind
  agentId : AgentId
  scope : TokenScope
  rateLimitPerMin : Nat
  tenantId : Option String
  expiredAt : Option Timestamp
  revokedAt : Option Timestamp
  deviceId : Option DeviceId
  deviceRevokedAt : Option Timestamp
  deriving DecidableEq

/-- What a verified bearer grants to a request. -/
structure AuthContext where
  agentId : AgentId
  tokenId : TokenId
  deviceId : Option DeviceId
  tenantId : Option String
  rateLimitPerMin : Nat
  scope : TokenScope
  tokenKind : TokenKind
  principalId : Option AgentId
  client : Option String
  deriving DecidableEq

inductive VerifyError where
  | missing | malformed | unknown | mismatch | revoked | deviceRevoked | expired
  | storage (message : String)
  deriving DecidableEq

namespace VerifyError

def code : VerifyError → String
  | missing => "auth_missing"
  | malformed => "auth_malformed"
  | unknown | mismatch => "auth_invalid"
  | revoked => "auth_revoked"
  | deviceRevoked => "unauthorized"
  | expired => "auth_expired"
  | storage _ => "auth_storage"

def message : VerifyError → String
  | missing => "missing Authorization bearer token"
  | malformed => "bearer token is malformed"
  | unknown => "bearer token is not recognised"
  | mismatch => "bearer token did not verify"
  | revoked => "bearer token has been revoked"
  | deviceRevoked => "device has been revoked"
  | expired => "bearer token has expired"
  | storage message => message

end VerifyError

abbrev ApiTokens := KeyedTable TokenId ApiToken ApiToken.id

/-- What of a row of the devices table tells whether the device is admitted. -/
structure Device where
  revokedAt : Option Timestamp

abbrev Devices := DeviceId → Option Device

/-- The twelve characters that a row is looked up by. -/
def prefixOf (token : String) : String := String.ofList (token.toList.take 12)

namespace TokenRepo

def withDevice (devices : Devices) (token : ApiToken) : ApiToken :=
  { token with deviceRevokedAt := (token.deviceId.bind devices).bind Device.revokedAt }

def listByPrefix (tokens : ApiTokens) (devices : Devices) (start : String) : List ApiToken :=
  (tokens.rows.filter fun token => token.start = start).map (withDevice devices)

/-- The first revocation of a token stays. -/
def revoke (tokens : ApiTokens) (now : Timestamp) (id : TokenId) : ApiTokens :=
  tokens.modify id fun token => { token with revokedAt := token.revokedAt.or (some now) }

def bindDevice (tokens : ApiTokens) (id : TokenId) (device : DeviceId) : ApiTokens :=
  tokens.modify id fun token => { token with deviceId := some device }

end TokenRepo

namespace DeviceRepo

/-- A device without a row counts as revoked. -/
def isRevoked (devices : Devices) (id : DeviceId) : Bool := (devices id).all fun device => device.revokedAt.isSome

/-- The first revocation of a device stays. -/
def revoke (devices : Devices) (now : Timestamp) (id : DeviceId) : Devices := fun other =>
  if other = id then (devices other).map fun device => ⟨device.revokedAt.or (some now)⟩ else devices other

end DeviceRepo

namespace VerifyBearer

/-- The token of a header, which may name its scheme. -/
def parse (raw : String) : Except VerifyError String :=
  let trimmed := trim raw
  if trimmed = "" then .error .missing
  else
    let bare := ((stripPrefix "Bearer " trimmed).or (stripPrefix "bearer " trimmed)).getD trimmed
    if byteLength bare < 14 || (stripPrefix "ta_" bare).isNone then .error .malformed else .ok bare

def contextOf (token : ApiToken) : AuthContext :=
  ⟨token.agentId, token.id, token.deviceId, token.tenantId, token.rateLimitPerMin, token.scope, token.kind, none, none⟩

/-- The first row that the token was hashed into and that is alive. Of the others the
last one says what was wrong. -/
def classify (verifyPlaintext : String → String → Bool) (now : Timestamp) (bare : String) :
    VerifyError → List ApiToken → Except VerifyError AuthContext
  | lastStateErr, [] => .error lastStateErr
  | lastStateErr, candidate :: rest =>
    if !verifyPlaintext bare candidate.hash then classify verifyPlaintext now bare lastStateErr rest
    else if candidate.revokedAt.isSome then classify verifyPlaintext now bare .revoked rest
    else if candidate.deviceRevokedAt.isSome then classify verifyPlaintext now bare .deviceRevoked rest
    else if candidate.expiredAt.any (· ≤ now) then classify verifyPlaintext now bare .expired rest
    else .ok (contextOf candidate)

theorem classify_ok {verifyPlaintext : String → String → Bool} {now : Timestamp} {bare : String}
    {lastStateErr : VerifyError} {candidates : List ApiToken} {ctx : AuthContext}
    (h : classify verifyPlaintext now bare lastStateErr candidates = .ok ctx) :
    ∃ token ∈ candidates, ctx = contextOf token ∧ verifyPlaintext bare token.hash = true ∧ token.revokedAt = none ∧
      token.deviceRevokedAt = none ∧ token.expiredAt.all (fun instant => now < instant) = true := by
  induction candidates generalizing lastStateErr with
  | nil => cases h
  | cons candidate rest ih =>
    have hRest : ∀ {e}, classify verifyPlaintext now bare e rest = .ok ctx → ∃ token ∈ candidate :: rest,
        ctx = contextOf token ∧ verifyPlaintext bare token.hash = true ∧ token.revokedAt = none ∧
        token.deviceRevokedAt = none ∧ token.expiredAt.all (fun instant => now < instant) = true := by
      intro e hLater
      obtain ⟨token, hMem, hToken⟩ := ih hLater
      exact ⟨token, List.mem_cons_of_mem _ hMem, hToken⟩
    unfold classify at h
    split at h
    · exact hRest h
    rename_i hHash
    split at h
    · exact hRest h
    rename_i hRevoked
    split at h
    · exact hRest h
    rename_i hDevice
    split at h
    · exact hRest h
    rename_i hExpired
    cases h
    refine ⟨candidate, List.mem_cons_self, rfl, by simpa using hHash, by simpa using hRevoked, by simpa using hDevice, ?_⟩
    cases hInstant : candidate.expiredAt with
    | none => rfl
    | some instant =>
      rw [hInstant] at hExpired
      simpa using hExpired

end VerifyBearer
end Daruma
