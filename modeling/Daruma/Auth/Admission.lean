import Daruma.Auth.Verify
import Daruma.Library.Transition
import Mathlib.Logic.Function.Basic

/-! The middleware that admits requests: a cache of verified bearers, in front of the
verification against the token rows. Requests, revokes, changes of the rows and the
clock interleave at every step. -/
namespace Daruma

open KeyedTable

namespace RequireAuth

open Transition
open VerifyBearer (parse)

/-- How long a verified bearer stays in the cache. -/
def cacheTtl : Duration := 30 * 1000000000

/-- The size from which a store prunes the cache first. -/
def cacheMaxEntries : Nat := 2048

structure CacheEntry (Key : Type) where
  key : Key
  ctx : AuthContext
  expiresAt : Timestamp

abbrev AuthCache (Key : Type) := KeyedTable Key (CacheEntry Key) CacheEntry.key

/-- argon2 and SHA-256. -/
structure Digests (Key : Type) where
  verifyPlaintext : String → String → Bool
  hashBearer : String → Key

section

variable {Key : Type} [DecidableEq Key]

/-- A fresh entry of a token that is not latched as revoked. Any other entry is dropped. -/
def cacheLookup (cache : AuthCache Key) (revokedTokens : List TokenId) (now : Timestamp) (key : Key) :
    Option AuthContext × AuthCache Key :=
  match cache.find? key with
  | some entry =>
    if now < entry.expiresAt ∧ entry.ctx.tokenId ∉ revokedTokens then (some entry.ctx, cache)
    else (none, cache.erase key)
  | none => (none, cache)

def cacheStore (cache : AuthCache Key) (now : Timestamp) (key : Key) (ctx : AuthContext) : AuthCache Key :=
  let pruned := if cacheMaxEntries ≤ cache.rows.length then cache.filter fun entry => now < entry.expiresAt else cache
  pruned.insertOrReplace ⟨key, ctx, now + cacheTtl⟩

end

/-- How far the admission of a request has come. -/
inductive Phase where
  | arrived
  | verifying
  | classifying (bare : String) (candidates : List ApiToken)
  | verified (ctx : AuthContext)
  /-- The latch was read after the verification. -/
  | confirmed (ctx : AuthContext)
  | admitted (ctx : AuthContext)
  | refused (e : VerifyError)
  deriving DecidableEq

/-- A request with its authorization header, and the principal and the client of it
that do not come from the token. `arrivedAt`, `revokedBefore` and `checkedAt` record
when it came, what had been revoked by then, and when its bearer was checked. -/
structure Exchange where
  header : String
  host : Option AgentId
  client : Option String
  arrivedAt : Timestamp
  revokedBefore : List TokenId
  checkedAt : Timestamp
  phase : Phase

/-- What neither the token nor the cache knows of a request. -/
def insertAuthContext (exchange : Exchange) (ctx : AuthContext) : AuthContext :=
  { ctx with principalId := exchange.host.or ctx.principalId, client := exchange.client }

/-- The rows, the cache, the latches of the hub, and the requests. `returned` are the
tokens of the revokes that have been answered. -/
structure World (Key R : Type) where
  tokens : ApiTokens
  devices : Devices
  clock : Timestamp
  cache : AuthCache Key
  revokedTokens : List TokenId
  returned : List TokenId
  requests : R → Option Exchange

/-- A server without tokens. -/
def start (Key R : Type) : World Key R := ⟨.empty, fun _ => none, 0, .empty, [], [], fun _ => none⟩

inductive Move (R : Type) where
  | arrive (r : R) (header : String) (host : Option AgentId) (client : Option String)
  /-- The next step of a request. A read of the rows may fail. -/
  | advance (r : R) (failure : Option String)
  | insertToken (token : ApiToken)
  /-- The row of a revoke, through this server or past it. -/
  | revokeRow (id : TokenId)
  | notifyTokenRevoked (id : TokenId)
  | revokeReturned (id : TokenId)
  | bindDevice (id : TokenId) (device : DeviceId)
  | insertDevice (device : DeviceId)
  | revokeDevice (device : DeviceId)
  | tick (later : Timestamp)

variable {Key R : Type} [DecidableEq Key] [DecidableEq R]

def World.update (world : World Key R) (r : R) (exchange : Exchange) : World Key R :=
  { world with requests := Function.update world.requests r (some exchange) }

/-- One step of `require_auth`. -/
def requireAuth (digests : Digests Key) (world : World Key R) (r : R) (exchange : Exchange) (failure : Option String) :
    World Key R :=
  match exchange.phase with
  | .arrived =>
    if exchange.header = "" then world.update r { exchange with phase := .verifying }
    else match cacheLookup world.cache world.revokedTokens world.clock (digests.hashBearer exchange.header) with
      | (some ctx, cache) => { world with cache := cache }.update r
          { exchange with checkedAt := world.clock, phase := .admitted (insertAuthContext exchange ctx) }
      | (none, cache) => { world with cache := cache }.update r { exchange with phase := .verifying }
  | .verifying => match parse exchange.header, failure with
      | .error e, _ => world.update r { exchange with phase := .refused e }
      | .ok _, some message => world.update r { exchange with phase := .refused (.storage message) }
      | .ok bare, none =>
        let candidates := TokenRepo.listByPrefix world.tokens world.devices (prefixOf bare)
        world.update r { exchange with
          phase := if candidates.isEmpty then .refused .unknown else .classifying bare candidates }
  | .classifying bare candidates =>
    match VerifyBearer.classify digests.verifyPlaintext world.clock bare .mismatch candidates with
    | .ok ctx => world.update r { exchange with checkedAt := world.clock, phase := .verified ctx }
    | .error e => world.update r { exchange with phase := .refused e }
  | .verified ctx =>
    -- Without a header the latch is not read; nothing verifies there.
    if exchange.header = "" then
      world.update r { exchange with phase := .admitted (insertAuthContext exchange ctx) }
    else if ctx.tokenId ∈ world.revokedTokens then world.update r { exchange with phase := .refused .revoked }
    else world.update r { exchange with phase := .confirmed ctx }
  | .confirmed ctx =>
    let cache := if ctx.deviceId.isNone then
        cacheStore world.cache world.clock (digests.hashBearer exchange.header) ctx
      else world.cache
    { world with cache := cache }.update r
      { exchange with phase := .admitted (insertAuthContext exchange ctx) }
  | .admitted _ | .refused _ => world

def Move.Enabled (world : World Key R) : Move R → Prop
  | arrive r _ _ _ => (world.requests r).isNone = true
  | insertToken token => (world.tokens.find? token.id).isNone = true
  | insertDevice device => (world.devices device).isNone = true
  | revokeReturned id => id ∈ world.revokedTokens
  | tick later => world.clock ≤ later
  | _ => True

instance (world : World Key R) : (move : Move R) → Decidable (move.Enabled world)
  | .arrive .. | .insertToken _ | .insertDevice _ => inferInstanceAs (Decidable (_ = true))
  | .revokeReturned id => inferInstanceAs (Decidable (id ∈ world.revokedTokens))
  | .tick later => inferInstanceAs (Decidable (world.clock ≤ later))
  | .advance .. | .revokeRow _ | .notifyTokenRevoked _ | .bindDevice .. | .revokeDevice _ => inferInstanceAs (Decidable True)

def World.after (digests : Digests Key) (world : World Key R) : Move R → World Key R
  | .arrive r header host client =>
    world.update r ⟨header, host, client, world.clock, world.returned, world.clock, .arrived⟩
  | .advance r failure => match world.requests r with
      | some exchange => requireAuth digests world r exchange failure
      | none => world
  | .insertToken token => { world with tokens := world.tokens.upsert token }
  | .revokeRow id => { world with tokens := TokenRepo.revoke world.tokens world.clock id }
  | .notifyTokenRevoked id => { world with revokedTokens := id :: world.revokedTokens }
  | .revokeReturned id => { world with returned := id :: world.returned }
  | .bindDevice id device => { world with tokens := TokenRepo.bindDevice world.tokens id device }
  | .insertDevice device => { world with devices := Function.update world.devices device (some ⟨none⟩) }
  | .revokeDevice device =>
    { world with devices := DeviceRepo.revoke world.devices world.clock device }
  | .tick later => { world with clock := later }

/-- One step of an interleaving whose moves satisfy a condition. -/
inductive Step (digests : Digests Key) (allowed : World Key R → Move R → Prop) : World Key R → World Key R → Prop where
  | move {world : World Key R} (move : Move R) (hEnabled : move.Enabled world) (hAllowed : allowed world move) :
      Step digests allowed world (world.after digests move)

def Bears (digests : Digests Key) (tokens : ApiTokens) (header : String) (id : TokenId) : Prop :=
  ∃ bare, parse header = .ok bare ∧ ∃ token ∈ tokens, token.id = id ∧ digests.verifyPlaintext bare token.hash = true

def Unexpired (tokens : ApiTokens) (id : TokenId) (now : Timestamp) : Prop :=
  ∃ token ∈ tokens.rows, token.id = id ∧ token.expiredAt.all (fun instant => now < instant) = true

/-- What is promised of an admitted request: its bearer is that of the token, the token
had not expired when the bearer was checked, after the request came, and no revoke of
it had returned before. -/
structure Promised (digests : Digests Key) (tokens : ApiTokens) (exchange : Exchange) (ctx : AuthContext) : Prop where
  bears : Bears digests tokens exchange.header ctx.tokenId
  checked : exchange.arrivedAt ≤ exchange.checkedAt
  unexpired : Unexpired tokens ctx.tokenId exchange.checkedAt
  unrevoked : ctx.tokenId ∉ exchange.revokedBefore

/-- An entry that would serve a request that is looked up now is of a token that has
not expired. -/
def ServesUnexpired (digests : Digests Key) (world : World Key R) : Move R → Prop
  | .advance r _ => ∀ exchange ∈ world.requests r, exchange.phase = .arrived →
      ∀ entry ∈ world.cache.find? (digests.hashBearer exchange.header), world.clock < entry.expiresAt →
      entry.ctx.tokenId ∉ world.revokedTokens → Unexpired world.tokens entry.ctx.tokenId world.clock
  | _ => True

/-- Hash and expiry of every row stay. -/
def TokensKept (before after : ApiTokens) : Prop :=
  ∀ token ∈ before, ∃ kept ∈ after, kept.id = token.id ∧ kept.hash = token.hash ∧ kept.expiredAt = token.expiredAt

theorem tokensKept_upsert {tokens : ApiTokens} {token : ApiToken} (h : tokens.find? token.id = none) :
    TokensKept tokens (tokens.upsert token) := by
  intro kept hKept
  refine ⟨kept, mem_upsert.mpr (.inr ⟨hKept, fun hSame => ?_⟩), rfl, rfl, rfl⟩
  exact find?_eq_none_iff.mp h kept hKept hSame

theorem tokensKept_modify {tokens : ApiTokens} {id : TokenId} {f : ApiToken → ApiToken} (hId : ∀ token, (f token).id = token.id)
    (hSame : ∀ token, (f token).hash = token.hash ∧ (f token).expiredAt = token.expiredAt) :
    TokensKept tokens (tokens.modify id f) := by
  intro token hToken
  by_cases hIs : token.id = id
  · exact ⟨f token, (mem_modify hId).mpr (.inl ⟨token, hToken, hIs, rfl⟩), hId token, hSame token⟩
  · exact ⟨token, (mem_modify hId).mpr (.inr ⟨hToken, hIs⟩), rfl, rfl, rfl⟩

section

variable {digests : Digests Key} {tokens after : ApiTokens} {header : String} {id : TokenId}

theorem Bears.kept (h : Bears digests tokens header id) (hKept : TokensKept tokens after) : Bears digests after header id := by
  obtain ⟨bare, hParse, token, hToken, hId, hHash⟩ := h
  obtain ⟨kept, hMem, hSame, hSameHash, _⟩ := hKept token hToken
  exact ⟨bare, hParse, kept, hMem, hSame.trans hId, hSameHash ▸ hHash⟩

theorem Unexpired.kept {now : Timestamp} (h : Unexpired tokens id now) (hKept : TokensKept tokens after) :
    Unexpired after id now := by
  obtain ⟨token, hToken, hId, hAlive⟩ := h
  obtain ⟨kept, hMem, hSame, _, hExpiry⟩ := hKept token hToken
  exact ⟨kept, hMem, hSame.trans hId, hExpiry ▸ hAlive⟩

/-- Rows that were read are those of the table, as far as they stay. -/
def FromRows (tokens : ApiTokens) (candidates : List ApiToken) : Prop :=
  ∀ candidate ∈ candidates, ∃ token ∈ tokens,
    token.id = candidate.id ∧ token.hash = candidate.hash ∧ token.expiredAt = candidate.expiredAt

theorem FromRows.kept {candidates : List ApiToken} (h : FromRows tokens candidates) (hKept : TokensKept tokens after) :
    FromRows after candidates := by
  intro candidate hCandidate
  obtain ⟨token, hToken, hId, hHash, hExpiry⟩ := h candidate hCandidate
  obtain ⟨kept, hMem, hSame, hSameHash, hSameExpiry⟩ := hKept token hToken
  exact ⟨kept, hMem, hSame.trans hId, hSameHash.trans hHash, hSameExpiry.trans hExpiry⟩

theorem fromRows_listByPrefix {devices : Devices} {text : String} :
    FromRows tokens (TokenRepo.listByPrefix tokens devices text) := by
  intro candidate hCandidate
  obtain ⟨token, hToken, rfl⟩ := List.mem_map.mp hCandidate
  exact ⟨token, (List.mem_filter.mp hToken).1, rfl, rfl, rfl⟩

end

def PhaseSound (digests : Digests Key) (tokens : ApiTokens) (exchange : Exchange) : Prop :=
  match exchange.phase with
  | .arrived | .verifying | .refused _ => True
  | .classifying bare candidates => parse exchange.header = .ok bare ∧ FromRows tokens candidates
  | .verified ctx => Bears digests tokens exchange.header ctx.tokenId ∧ exchange.arrivedAt ≤ exchange.checkedAt ∧
      Unexpired tokens ctx.tokenId exchange.checkedAt
  | .confirmed ctx | .admitted ctx => Promised digests tokens exchange ctx

structure Sound (digests : Digests Key) (world : World Key R) : Prop where
  cached : ∀ entry ∈ world.cache, ∃ header, digests.hashBearer header = entry.key ∧
    Bears digests world.tokens header entry.ctx.tokenId
  latched : ∀ id ∈ world.returned, id ∈ world.revokedTokens
  arrived : ∀ r exchange, world.requests r = some exchange → exchange.arrivedAt ≤ world.clock ∧
    ∀ id ∈ exchange.revokedBefore, id ∈ world.returned
  phases : ∀ r exchange, world.requests r = some exchange → PhaseSound digests world.tokens exchange

section

variable {digests : Digests Key} {world : World Key R} {tokens : ApiTokens}

variable {exchange : Exchange}

theorem PhaseSound.kept (h : PhaseSound digests tokens exchange) {after : ApiTokens}
    (hKept : TokensKept tokens after) : PhaseSound digests after exchange := by
  unfold PhaseSound at *
  split
  · trivial
  · trivial
  · trivial
  · rename_i hPhase
    rw [hPhase] at h
    exact ⟨h.1, h.2.kept hKept⟩
  · rename_i hPhase
    rw [hPhase] at h
    exact ⟨h.1.kept hKept, h.2.1, h.2.2.kept hKept⟩
  · rename_i hPhase
    rw [hPhase] at h
    exact ⟨h.bears.kept hKept, h.checked, h.unexpired.kept hKept, h.unrevoked⟩
  · rename_i hPhase
    rw [hPhase] at h
    exact ⟨h.bears.kept hKept, h.checked, h.unexpired.kept hKept, h.unrevoked⟩

theorem Sound.rows (h : Sound digests world) (hKept : TokensKept world.tokens tokens) :
    Sound digests { world with tokens := tokens } where
  cached := fun entry hEntry =>
    have ⟨header, hKey, hBears⟩ := h.cached entry hEntry
    ⟨header, hKey, hBears.kept hKept⟩
  latched := h.latched
  arrived := h.arrived
  phases := fun r exchange hRequest => (h.phases r exchange hRequest).kept hKept

/-- A request goes on, and may leave another cache. -/
theorem Sound.update (h : Sound digests world) {cache : AuthCache Key} {r : R}
    (hCached : ∀ entry ∈ cache, ∃ header, digests.hashBearer header = entry.key ∧
      Bears digests world.tokens header entry.ctx.tokenId)
    (hArrived : exchange.arrivedAt ≤ world.clock) (hBefore : ∀ id ∈ exchange.revokedBefore, id ∈ world.returned)
    (hPhase : PhaseSound digests world.tokens exchange) :
    Sound digests ({ world with cache := cache }.update r exchange) where
  cached := hCached
  latched := h.latched
  arrived := by
    intro r' other hRequest
    change Function.update world.requests r (some exchange) r' = some other at hRequest
    rw [Function.update_apply] at hRequest
    split at hRequest
    · cases hRequest
      exact ⟨hArrived, hBefore⟩
    · exact h.arrived r' other hRequest
  phases := by
    intro r' other hRequest
    change Function.update world.requests r (some exchange) r' = some other at hRequest
    rw [Function.update_apply] at hRequest
    split at hRequest
    · cases hRequest
      exact hPhase
    · exact h.phases r' other hRequest

variable {cache left : AuthCache Key} {now : Timestamp} {key : Key} {ctx : AuthContext} {revokedTokens : List TokenId}

theorem mem_cacheStore {entry : CacheEntry Key}
    (h : entry ∈ cacheStore cache now key ctx) : entry = ⟨key, ctx, now + cacheTtl⟩ ∨ entry ∈ cache := by
  rcases mem_insertOrReplace.mp h with hNew | ⟨hOld, _⟩
  · exact .inl hNew
  · split at hOld
    · exact .inr (mem_filter.mp hOld).1
    · exact .inr hOld

theorem cacheLookup_some (h : cacheLookup cache revokedTokens now key = (some ctx, left)) :
    left = cache ∧ ∃ entry, cache.find? key = some entry ∧ entry.ctx = ctx ∧ now < entry.expiresAt ∧
      ctx.tokenId ∉ revokedTokens := by
  unfold cacheLookup at h
  split at h
  · rename_i entry hFound
    split at h
    · rename_i hServes
      cases h
      exact ⟨rfl, entry, hFound, rfl, hServes⟩
    · cases h
  · cases h

theorem cacheLookup_none
    (h : cacheLookup cache revokedTokens now key = (none, left)) : ∀ entry ∈ left, entry ∈ cache := by
  unfold cacheLookup at h
  split at h
  · split at h
    · cases h
    · cases h
      exact fun entry hEntry => (mem_erase.mp hEntry).1
  · cases h
    exact fun entry hEntry => hEntry

theorem Sound.requireAuth (hInjective : Function.Injective digests.hashBearer) (h : Sound digests world) {r : R} {failure : Option String} (hRequest : world.requests r = some exchange)
    (hServes : ServesUnexpired digests world (.advance r failure)) :
    Sound digests (requireAuth digests world r exchange failure) := by
  obtain ⟨hArrived, hBefore⟩ := h.arrived r exchange hRequest
  have hSound := h.phases r exchange hRequest
  have hGo : ∀ {next : Exchange}, next.arrivedAt = exchange.arrivedAt → next.revokedBefore = exchange.revokedBefore →
      PhaseSound digests world.tokens next → Sound digests (world.update r next) := by
    intro next hSame hSameBefore hPhase
    exact h.update h.cached (hSame ▸ hArrived) (hSameBefore ▸ hBefore) hPhase
  unfold RequireAuth.requireAuth
  unfold PhaseSound at hSound
  cases hPhase : exchange.phase with
  | arrived =>
    dsimp only
    split
    · exact hGo rfl rfl trivial
    · split
      · rename_i ctx left hLookup
        obtain ⟨rfl, entry, hFound, rfl, hFresh, hUnlatched⟩ := cacheLookup_some hLookup
        refine h.update h.cached hArrived hBefore ?_
        obtain ⟨header, hKey, hBears⟩ := h.cached entry (mem_of_find? hFound)
        rw [key_of_find? hFound] at hKey
        cases hInjective hKey
        exact ⟨hBears, hArrived, hServes exchange hRequest hPhase entry hFound hFresh hUnlatched,
          fun hOld => hUnlatched (h.latched _ (hBefore _ hOld))⟩
      · rename_i left hLookup
        refine h.update (fun entry hEntry => h.cached entry (cacheLookup_none hLookup entry hEntry)) hArrived hBefore ?_
        exact trivial
  | verifying =>
    dsimp only
    split
    · exact hGo rfl rfl trivial
    · exact hGo rfl rfl trivial
    · rename_i bare hParse
      refine hGo rfl rfl ?_
      unfold PhaseSound
      dsimp only
      split
      · rename_i hIs
        split at hIs <;> cases hIs
      · rename_i hIs
        split at hIs <;> cases hIs
      · trivial
      · rename_i hIs
        split at hIs
        · cases hIs
        · cases hIs
          exact ⟨hParse, fromRows_listByPrefix⟩
      all_goals
        rename_i hIs
        split at hIs <;> cases hIs
  | classifying bare candidates =>
    rw [hPhase] at hSound
    obtain ⟨hParse, hRows⟩ := hSound
    dsimp only
    split
    · rename_i ctx hOk
      obtain ⟨candidate, hCandidate, rfl, hHash, _, _, hAlive⟩ := VerifyBearer.classify_ok hOk
      obtain ⟨token, hToken, hId, hSameHash, hSameExpiry⟩ := hRows candidate hCandidate
      refine hGo rfl rfl ⟨⟨bare, hParse, token, hToken, hId, hSameHash ▸ hHash⟩, hArrived, token, hToken, hId, ?_⟩
      rw [hSameExpiry]
      exact hAlive
    · exact hGo rfl rfl trivial
  | verified ctx =>
    rw [hPhase] at hSound
    obtain ⟨hBears, hChecked, hUnexpired⟩ := hSound
    dsimp only
    split
    · rename_i hEmpty
      obtain ⟨bare, hParse, _⟩ := hBears
      rw [hEmpty] at hParse
      cases hParse
    · split
      · exact hGo rfl rfl trivial
      · rename_i hUnlatched
        exact hGo rfl rfl ⟨hBears, hChecked, hUnexpired, fun hOld => hUnlatched (h.latched _ (hBefore _ hOld))⟩
  | confirmed ctx =>
    rw [hPhase] at hSound
    refine h.update ?_ hArrived hBefore ⟨hSound.bears, hSound.checked, hSound.unexpired, hSound.unrevoked⟩
    intro entry hEntry
    split at hEntry
    · rcases mem_cacheStore hEntry with rfl | hOld
      · exact ⟨exchange.header, rfl, hSound.bears⟩
      · exact h.cached entry hOld
    · exact h.cached entry hEntry
  | admitted | refused => exact h

theorem sound_start : Sound digests (start Key R) := by
  refine ⟨fun entry hEntry => ?_, fun _ hMem => absurd hMem List.not_mem_nil, fun r exchange hRequest => ?_,
    fun r exchange hRequest => ?_⟩
  · exact absurd hEntry (not_mem_empty entry)
  · cases hRequest
  · cases hRequest

theorem Sound.step (hInjective : Function.Injective digests.hashBearer) :
    Preserves (Step digests (ServesUnexpired (R := R) digests)) (Sound digests) := by
  intro before after hStep h
  cases hStep with
  | move move hEnabled hAllowed =>
  cases move with
  | arrive r header host client =>
    exact h.update h.cached (Int.le_refl _) (fun _ hMem => hMem) trivial
  | advance r failure =>
    unfold World.after
    dsimp only
    split
    · rename_i exchange hRequest
      exact h.requireAuth hInjective hRequest hAllowed
    · exact h
  | insertToken token => exact h.rows (tokensKept_upsert (Option.isNone_iff_eq_none.mp hEnabled))
  | revokeRow | bindDevice => exact h.rows (tokensKept_modify (fun _ => rfl) fun _ => ⟨rfl, rfl⟩)
  | notifyTokenRevoked id =>
    exact ⟨h.cached, fun id hMem => List.mem_cons_of_mem _ (h.latched id hMem), h.arrived, h.phases⟩
  | revokeReturned id =>
    refine ⟨h.cached, fun other hMem => ?_, fun r exchange hRequest => ?_, h.phases⟩
    · rcases List.mem_cons.mp hMem with rfl | hOld
      · exact hEnabled
      · exact h.latched other hOld
    · have ⟨hArrived, hBefore⟩ := h.arrived r exchange hRequest
      exact ⟨hArrived, fun other hMem => List.mem_cons_of_mem _ (hBefore other hMem)⟩
  | insertDevice | revokeDevice => exact ⟨h.cached, h.latched, h.arrived, h.phases⟩
  | tick later =>
    refine ⟨h.cached, h.latched, fun r exchange hRequest => ?_, h.phases⟩
    have ⟨hArrived, hBefore⟩ := h.arrived r exchange hRequest
    exact ⟨Int.le_trans hArrived hEnabled, hBefore⟩

/-- In every interleaving in which the cache serves no expired token, every admitted
request has what is promised. -/
theorem admissions_sound (hInjective : Function.Injective digests.hashBearer)
    (hRun : Trace (Step digests (ServesUnexpired digests)) (start Key R) world) {r : R} {exchange : Exchange}
    {ctx : AuthContext} (hRequest : world.requests r = some exchange) (hAdmitted : exchange.phase = .admitted ctx) :
    Promised digests world.tokens exchange ctx := by
  have hSound := ((Sound.step hInjective).trace hRun sound_start).phases r exchange hRequest
  unfold PhaseSound at hSound
  rw [hAdmitted] at hSound
  exact hSound

end

/-- Every move of a list can be made, and satisfies the condition. -/
def Possible (digests : Digests Key) (allowed : World Key R → Move R → Prop) : World Key R → List (Move R) → Prop
  | _, [] => True
  | world, move :: rest => move.Enabled world ∧ allowed world move ∧ Possible digests allowed (world.after digests move) rest

theorem trace_of_possible {digests : Digests Key} {allowed : World Key R → Move R → Prop} {moves : List (Move R)}
    {world : World Key R} (h : Possible digests allowed world moves) :
    Trace (Step digests allowed) world (moves.foldl (World.after digests) world) := by
  induction moves generalizing world with
  | nil => exact .refl
  | cons move rest ih => exact .head (.move move h.1 h.2.1) (ih h.2.2)

instance decidablePossible {digests : Digests Key} {allowed : World Key R → Move R → Prop}
    [∀ world move, Decidable (allowed world move)] :
    ∀ (moves : List (Move R)) (world : World Key R), Decidable (Possible digests allowed world moves)
  | [], _ => inferInstanceAs (Decidable True)
  | move :: rest, world =>
    have : Decidable (Possible digests allowed (world.after digests move) rest) := decidablePossible rest _
    inferInstanceAs (Decidable (move.Enabled world ∧ allowed world move ∧
      Possible digests allowed (world.after digests move) rest))

instance {digests : Digests Key} (world : World Key R) (move : Move R) :
    Decidable (ServesUnexpired digests world move) := by
  cases move with
  | advance r failure =>
    have (id : TokenId) : Decidable (Unexpired world.tokens id world.clock) :=
      inferInstanceAs (Decidable (∃ token ∈ world.tokens.rows, _))
    exact inferInstanceAs (Decidable (∀ exchange ∈ world.requests r, _))
  | _ => exact inferInstanceAs (Decidable True)

private def plainDigests : Digests String := ⟨fun token hash => token = hash, id⟩

/-- A token that expires ten seconds after the start. -/
private def shortToken : ApiToken :=
  ⟨⟨1⟩, "ta_pat_01234", "ta_pat_0123456789", .pat, ⟨2⟩, ⟨.all, []⟩, 60, none, some 10000000000, none, none, none⟩

/-- A request is verified and put in the cache, and another one comes later. -/
private def twoRequests (later : Timestamp) : List (Move Nat) := [
  .insertToken shortToken,
  .arrive 0 "Bearer ta_pat_0123456789" none none,
  .advance 0 none, .advance 0 none, .advance 0 none, .advance 0 none, .advance 0 none,
  .tick later,
  .arrive 1 "Bearer ta_pat_0123456789" none none,
  .advance 1 none]

private def servedTwice (later : Timestamp) : World String Nat :=
  (twoRequests later).foldl (World.after plainDigests) (start String Nat)

theorem admissions_sound_cached : ∃ exchange ctx, (servedTwice 5000000000).requests 1 = some exchange ∧
    exchange.phase = .admitted ctx ∧ Promised plainDigests (servedTwice 5000000000).tokens exchange ctx := by
  have hRun : Trace (Step plainDigests (ServesUnexpired plainDigests)) (start String Nat) (servedTwice 5000000000) :=
    trace_of_possible (by decide +kernel)
  have hPhase : ((servedTwice 5000000000).requests 1).map Exchange.phase =
      some (.admitted (VerifyBearer.contextOf shortToken)) := by
    decide +kernel
  obtain ⟨exchange, hRequest, hAdmitted⟩ := Option.map_eq_some_iff.mp hPhase
  exact ⟨exchange, _, hRequest, hAdmitted, admissions_sound Function.injective_id hRun hRequest hAdmitted⟩

/-- Twenty seconds later the cache still admits the token. -/
theorem expired_token_admitted : Trace (Step plainDigests fun _ _ => True) (start String Nat) (servedTwice 20000000000) ∧
    ∃ exchange ctx, (servedTwice 20000000000).requests 1 = some exchange ∧ exchange.phase = .admitted ctx ∧
      ¬Promised plainDigests (servedTwice 20000000000).tokens exchange ctx := by
  refine ⟨trace_of_possible (by decide +kernel), ?_⟩
  have hPhase : ((servedTwice 20000000000).requests 1).map Exchange.phase =
      some (.admitted (VerifyBearer.contextOf shortToken)) := by
    decide +kernel
  have hLate : ((servedTwice 20000000000).requests 1).map Exchange.checkedAt = some 20000000000 := by
    decide +kernel
  have hExpired : ¬Unexpired (servedTwice 20000000000).tokens (VerifyBearer.contextOf shortToken).tokenId 20000000000 := by
    unfold Unexpired
    decide +kernel
  obtain ⟨exchange, hRequest, hAdmitted⟩ := Option.map_eq_some_iff.mp hPhase
  refine ⟨exchange, _, hRequest, hAdmitted, fun hPromised => hExpired ?_⟩
  have hChecked : exchange.checkedAt = 20000000000 := by
    rw [hRequest] at hLate
    exact Option.some.inj hLate
  have hUnexpired := hPromised.unexpired
  rw [hChecked] at hUnexpired
  exact hUnexpired

end RequireAuth
end Daruma
