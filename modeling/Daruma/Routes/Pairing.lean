import Daruma.Library.KeyedTable
import Daruma.Library.Standing
import Daruma.Shared.Text

/-! Pairing a device over the local network. A ticket is good for one request, which has to
name the certificate of the server. The random values are parameters, and so is the keyed
hash, which is taken to have no collisions. -/
namespace Daruma
namespace Pairing

open Standing (Stands)

def pairingTtlSecs : Int := 5 * 60

structure PairingTicket where
  token : String
  /-- In nanoseconds, as all instants here. -/
  expiresAt : Int
  host : String
  tlsFingerprint : String

def PairingTicket.isExpired (ticket : PairingTicket) (now : Int) : Bool := ticket.expiresAt ≤ now

structure Entry where
  ticket : PairingTicket
  used : Bool

def Entry.token (entry : Entry) : String := entry.ticket.token

def Entry.use (entry : Entry) : Entry := { entry with used := true }

theorem Entry.token_use (entry : Entry) : entry.use.token = entry.token := rfl

abbrev PairingStore := KeyedTable String Entry Entry.token

/-- No byte is compared before all of them were read. -/
def constantEq (a b : List UInt8) : Bool :=
  a.length = b.length ∧ (a.zip b).foldl (fun acc pair => acc ||| (pair.1 ^^^ pair.2)) 0 = 0

def bytes (text : String) : List UInt8 := text.toByteArray.data.toList

def PairingStore.sweep (store : PairingStore) (now : Int) : PairingStore :=
  store.filter fun entry => !entry.ticket.isExpired now

def PairingStore.issue (store : PairingStore) (token host tlsFingerprint : String)
    (issuedAt now : Int) : PairingStore :=
  (store.sweep now).insertOrReplace
    ⟨⟨token, issuedAt + pairingTtlSecs * 1000000000, host, tlsFingerprint⟩, false⟩

variable (hmacTag : List UInt8 → List UInt8 → List UInt8)

def PairingStore.consume (store : PairingStore) (candidate : String) (nonce : List UInt8) (now : Int) :
    Option PairingTicket × PairingStore :=
  match (store.sweep now).rows.find? fun entry =>
      !entry.used && constantEq (hmacTag nonce (bytes candidate)) (hmacTag nonce (bytes entry.token)) with
  | some entry => (some entry.ticket, (store.sweep now).modify entry.token Entry.use)
  | none => (none, store.sweep now)

/-- Bare hexadecimal digits in small letters. -/
def normalizeFingerprint (raw : String) : String :=
  let raw := (trim raw).toList
  toAsciiLowercase (String.ofList
    (if (raw.take 7).map Char.toLower = "sha256:".toList then raw.drop 7 else raw))

structure PairRequest where
  token : String
  tlsFingerprint : String
  nonce : List UInt8
  now : Int

/-- Where the ticket is returned, the device gets a bearer token. -/
def pairDevice (store : PairingStore) (body : PairRequest) : Except String PairingTicket × PairingStore :=
  if trim body.token = "" then (.error "token must not be empty", store)
  else if trim body.tlsFingerprint = "" then (.error "tls_fingerprint must not be empty", store)
  else
    match store.consume hmacTag (trim body.token) body.nonce body.now with
    | (none, store') => (.error "invalid, expired, or already-used pairing token", store')
    | (some ticket, store') =>
      if constantEq (bytes (normalizeFingerprint ticket.tlsFingerprint))
          (bytes (normalizeFingerprint (trim body.tlsFingerprint))) then (.ok ticket, store')
      else (.error "TLS fingerprint mismatch — ensure you are connecting to the correct server", store')

inductive Op where
  | issue (token host tlsFingerprint : String) (issuedAt now : Int)
  | pair (body : PairRequest)
  | sweep (now : Int)

def apply (store : PairingStore) : Op → PairingStore
  | .issue token host tlsFingerprint issuedAt now => store.issue token host tlsFingerprint issuedAt now
  | .pair body => (pairDevice hmacTag store body).2
  | .sweep now => store.sweep now

def run (history : List Op) : PairingStore := history.foldl (apply hmacTag) .empty

namespace Op

def Issues : Op → PairingTicket → Prop
  | .issue token host tlsFingerprint issuedAt _, ticket =>
    ticket = ⟨token, issuedAt + pairingTtlSecs * 1000000000, host, tlsFingerprint⟩
  | _, _ => False

/-- The store is not locked after the end of the ticket, nor its token issued again or presented. -/
def Keeps : Op → PairingTicket → Prop
  | .issue token _ _ _ now, ticket => now < ticket.expiresAt ∧ ticket.token ≠ token
  | .pair body, ticket => trim body.token ≠ "" → trim body.tlsFingerprint ≠ "" →
      body.now < ticket.expiresAt ∧ ticket.token ≠ trim body.token
  | .sweep now, ticket => now < ticket.expiresAt

end Op

theorem constantEq_iff {a b : List UInt8} : constantEq a b ↔ a = b := by
  have hFold : ∀ (a b : List UInt8) (acc : UInt8), a.length = b.length →
      ((a.zip b).foldl (fun acc pair => acc ||| (pair.1 ^^^ pair.2)) acc = 0 ↔ acc = 0 ∧ a = b) := by
    intro a
    induction a with
    | nil =>
      intro b acc hLength
      simp [List.length_eq_zero_iff.mp hLength.symm]
    | cons x a ih =>
      intro b acc hLength
      obtain ⟨y, b, rfl⟩ := List.exists_cons_of_length_eq_add_one hLength.symm
      rw [List.zip_cons_cons, List.foldl_cons, ih b _ (by simpa using hLength)]
      simp [and_assoc]
  simp only [constantEq, Bool.decide_and, Bool.and_eq_true, decide_eq_true_eq]
  constructor
  · rintro ⟨hLength, hZero⟩
    exact ((hFold a b 0 hLength).mp hZero).2
  · rintro rfl
    exact ⟨rfl, (hFold a a 0 rfl).mpr ⟨rfl, rfl⟩⟩

theorem bytes_inj {a b : String} : bytes a = bytes b ↔ a = b := by
  rw [← String.toByteArray_inj, bytes, bytes, Array.toList_inj, ByteArray.ext_iff]

theorem mem_sweep {entry : Entry} {store : PairingStore} {now : Int} :
    entry ∈ store.sweep now ↔ entry ∈ store ∧ now < entry.ticket.expiresAt := by
  simp [PairingStore.sweep, PairingTicket.isExpired]

section
variable {hmacTag} (hTag : ∀ nonce, Function.Injective (hmacTag nonce)) {ticket : PairingTicket}

include hTag

/-- The ticket that is found is the unused one of the candidate, and is used afterwards. -/
theorem consume_cases (store : PairingStore) (candidate : String) (nonce : List UInt8) (now : Int) :
    (∃ found, ⟨found, false⟩ ∈ store.sweep now ∧ found.token = candidate ∧
      store.consume hmacTag candidate nonce now =
        (some found, (store.sweep now).modify candidate Entry.use)) ∨
    (∀ entry ∈ store.sweep now, entry.used = false → entry.token ≠ candidate) ∧
      store.consume hmacTag candidate nonce now = (none, store.sweep now) := by
  have hMatches : ∀ entry : Entry, (!entry.used && constantEq (hmacTag nonce (bytes candidate))
      (hmacTag nonce (bytes entry.token))) = true ↔ entry.used = false ∧ entry.token = candidate := by
    intro entry
    rw [Bool.and_eq_true, constantEq_iff, (hTag nonce).eq_iff, bytes_inj, Bool.not_eq_true', @eq_comm _ candidate]
  unfold PairingStore.consume
  split
  · rename_i entry hFound
    have hMatch := List.find?_some hFound
    obtain ⟨hUnused, hToken⟩ := (hMatches entry).mp hMatch
    refine .inl ⟨entry.ticket, ?_, hToken, by rw [hToken]⟩
    rw [← hUnused]
    exact List.mem_of_find?_eq_some hFound
  · rename_i hNone
    refine .inr ⟨fun entry hEntry hUnused hToken => ?_, rfl⟩
    exact List.find?_eq_none.mp hNone entry hEntry ((hMatches entry).mpr ⟨hUnused, hToken⟩)

theorem mem_consume (store : PairingStore) (candidate : String) (nonce : List UInt8) (now : Int) :
    ⟨ticket, false⟩ ∈ (store.consume hmacTag candidate nonce now).2 ↔
      ⟨ticket, false⟩ ∈ store ∧ now < ticket.expiresAt ∧ ticket.token ≠ candidate := by
  obtain ⟨found, hFound, hToken, hEq⟩ | ⟨hNone, hEq⟩ := consume_cases hTag store candidate nonce now
  · rw [hEq, KeyedTable.mem_modify Entry.token_use]
    simp [mem_sweep, Entry.use, Entry.token, and_assoc]
  · rw [hEq, mem_sweep, and_congr_right_iff]
    exact fun hEntry => ⟨fun hLive => ⟨hLive, hNone _ (mem_sweep.mpr ⟨hEntry, hLive⟩) rfl⟩, And.left⟩

theorem consume_eq_some (store : PairingStore) (candidate : String) (nonce : List UInt8) (now : Int) :
    (store.consume hmacTag candidate nonce now).1 = some ticket ↔
      ⟨ticket, false⟩ ∈ store ∧ now < ticket.expiresAt ∧ ticket.token = candidate := by
  obtain ⟨found, hFound, hToken, hEq⟩ | ⟨hNone, hEq⟩ := consume_cases hTag store candidate nonce now
  · rw [hEq, Option.some_inj, ← and_assoc, ← mem_sweep]
    constructor
    · rintro rfl
      exact ⟨hFound, hToken⟩
    · rintro ⟨hEntry, hSame⟩
      exact congrArg Entry.ticket (KeyedTable.eq_of_key_eq hFound hEntry (hToken.trans hSame.symm))
  · rw [hEq]
    constructor
    · rintro ⟨⟩
    · rintro ⟨hEntry, hLive, hToken⟩
      exact absurd hToken (hNone _ (mem_sweep.mpr ⟨hEntry, hLive⟩) rfl)

theorem mem_apply (store : PairingStore) (op : Op) : ⟨ticket, false⟩ ∈ apply hmacTag store op ↔
    op.Issues ticket ∨ ⟨ticket, false⟩ ∈ store ∧ op.Keeps ticket := by
  cases op with
  | issue token host tlsFingerprint issuedAt now =>
    simp only [apply, PairingStore.issue, KeyedTable.mem_insertOrReplace, mem_sweep, Op.Issues, Op.Keeps,
      Entry.token, Entry.mk.injEq, and_true, and_assoc]
  | sweep now => simp [apply, mem_sweep, Op.Issues, Op.Keeps]
  | pair body =>
    have hConsume := @mem_consume _ hTag ticket store (trim body.token) body.nonce body.now
    simp only [apply, pairDevice, Op.Issues, Op.Keeps, false_or]
    split
    · simp_all
    · split
      · simp_all
      · split
        · simp_all
        · split <;> simp_all

/-- A device is paired exactly when its request is the first one with a ticket that was issued
less than five minutes ago, and names the certificate that the ticket names. -/
theorem paired_iff (history : List Op) (body : PairRequest) :
    (pairDevice hmacTag (run hmacTag history) body).1 = .ok ticket ↔
      trim body.token ≠ "" ∧ trim body.tlsFingerprint ≠ "" ∧ Stands Op.Issues Op.Keeps history ticket ∧
        body.now < ticket.expiresAt ∧ ticket.token = trim body.token ∧
        normalizeFingerprint ticket.tlsFingerprint = normalizeFingerprint (trim body.tlsFingerprint) := by
  have hStands : ⟨ticket, false⟩ ∈ run hmacTag history ↔ Stands Op.Issues Op.Keeps history ticket :=
    @Standing.holds_iff _ _ _ _ _ ticket _ (fun store => Entry.mk ticket false ∈ store) _
      (KeyedTable.not_mem_empty _) (mem_apply hTag) history
  have hSome := @consume_eq_some _ hTag ticket (run hmacTag history) (trim body.token) body.nonce body.now
  rw [← hStands, pairDevice]
  split
  · simp_all
  · split
    · simp_all
    · split
      · simp_all
      · rename_i found _ hConsumed
        simp only [hConsumed, Option.some_inj, hStands] at hSome
        simp only [constantEq_iff, bytes_inj]
        by_cases hIs : found = ticket
        · obtain ⟨hStand, hLive, hToken⟩ := hSome.mp hIs
          split <;> simp_all
        · have hNot : ¬(Stands _ _ _ _ ∧ _) := mt hSome.mpr hIs
          split <;> simp_all

end

/-- The second issue sweeps nothing yet, and the scheme and the case of the digits do not matter. -/
theorem first_request_pairs :
    (pairDevice (· ++ ·) (run (· ++ ·) [.issue "a" "host" "sha256:AB" 0 0, .issue "b" "host" "sha256:AB" 0 1])
      ⟨" a", "ab", [7], 2⟩).1 = .ok ⟨"a", 300000000000, "host", "sha256:AB"⟩ :=
  (paired_iff (fun nonce => List.append_right_injective nonce) _ _).mpr
    ⟨by decide, by decide, ⟨[], _, _, rfl, rfl, by simp [Op.Keeps]⟩, by decide, by decide, by decide⟩

end Pairing
end Daruma
