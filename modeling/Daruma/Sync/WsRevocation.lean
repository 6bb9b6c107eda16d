import Daruma.Sync.WsConnection

/-! A connection whose token or device was revoked goes silent. -/
namespace Daruma

open List

namespace WsConnection

variable {Content Request : Type}

/-- The frame was written although a revoke had returned. -/
def Taken.writtenLate (taken : Taken Content) : Bool :=
  match taken.fate with
  | .written late => late
  | _ => false

def Taken.isWritten (taken : Taken Content) : Bool :=
  match taken.fate with
  | .written _ => true
  | _ => false

/-- The steps that are left to the read loop after a revoke, at most. -/
def Reader.rank : Reader Request → Nat
  | .connecting => 16
  | .authenticating => 15
  | .classifying .. => 14
  | .admittingDevice .latch => 13
  | .admittingDevice .row => 12
  | .admitting .latch => 11
  | .admitting .row => 10
  | .entering => 9
  | .checking _ _ .row _ => 8
  | .acting .. => 7
  | .selecting false => 5
  | .selecting true => 4
  | .checking _ _ .latch _ => 3
  | .leaving => 1
  | .closed => 0

def Writer.rank : Writer Content → Nat
  | .checking _ .row _ => 5
  | .passed .. => 4
  | .absent | .idle => 3
  | .checking _ .latch _ => 2
  | .ended => 0

def Socket.rank (s : Socket Content Request) : Nat := s.reader.rank + s.writer.rank

/-- The steps of the read loop and of the writer. -/
def Move.isOwn : Move Content Request → Bool
  | .reader _ | .writer .. => true
  | _ => false

/-- The own steps among some moves that get the connection any further. -/
def advances (verifyPlaintext : String → String → Bool) : Socket Content Request → List (Move Content Request) → Nat
  | _, [] => 0
  | s, move :: rest =>
    let next := s.after verifyPlaintext move
    (if move.isOwn && next.rank ≠ s.rank then 1 else 0) + advances verifyPlaintext next rest

/-- What is promised of a connection: no client frame that was read after a revoke is
acted upon; every server frame that was taken after it is replaced by a refusal, and of
those taken before one at most is written after it; where the writer came after a revoke, nothing
is acted upon or written; and after a revoke the connection takes only so many steps,
of which there is one until it is closed. -/
structure GoesSilent (verifyPlaintext : String → String → Bool) (s : Socket Content Request) : Prop where
  unread : ∀ entry ∈ s.acted, entry.2 = false
  replaced : ∀ taken ∈ s.taken, taken.late = true → ∃ refusal, taken.fate = .replaced refusal
  one : (s.taken.filter Taken.writtenLate).length ≤ 1
  refused : s.registeredLate = some true → s.acted = [] ∧ ∀ taken ∈ s.taken, taken.isWritten = false
  ends : s.latched = true → ∀ moves, advances verifyPlaintext s moves ≤ s.rank
  goesOn : s.latched = true → s.reader.rank ≠ 0 → ∃ choice, (read verifyPlaintext s choice).rank < s.rank

/-- Nothing was read, taken or registered. -/
def Fresh (s : Socket Content Request) : Prop :=
  s.acted = [] ∧ s.taken = [] ∧ s.registeredLate = none ∧ s.writer = .absent

/-- A frame that was read after a revoke is not past the latches. -/
def ReaderSound (s : Socket Content Request) : Prop :=
  match s.reader with
  | .checking _ _ .latch late => (late = true → s.latched = true) ∧ (s.registeredLate = some true → late = true)
  | .checking _ _ .row late => late = false ∧ s.registeredLate ≠ some true
  | .acting .. => s.registeredLate ≠ some true
  | .selecting _ | .leaving | .closed => True
  | .connecting | .authenticating | .classifying .. => Fresh s ∧ s.ctx = none
  | .admittingDevice _ | .admitting _ | .entering => Fresh s

/-- A frame that was taken after a revoke is not past the latches, and none is after
one was written late. -/
def WriterSound (s : Socket Content Request) : Prop :=
  match s.writer with
  | .checking _ .latch late => (late = true → s.latched = true) ∧ (s.registeredLate = some true → late = true) ∧
      ((∃ taken ∈ s.taken, taken.writtenLate = true) → late = true)
  | .checking _ .row late | .passed _ late => late = false ∧ s.registeredLate ≠ some true ∧
      ∀ taken ∈ s.taken, taken.writtenLate = false
  | .absent | .idle | .ended => True

structure Silent (s : Socket Content Request) : Prop where
  acted : ∀ entry ∈ s.acted, entry.2 = false
  taken : ∀ taken ∈ s.taken, taken.late = true → ∃ refusal, taken.fate = .replaced refusal
  one : (s.taken.filter Taken.writtenLate).length ≤ 1
  spent : (∃ taken ∈ s.taken, taken.writtenLate = true) → s.latched = true
  registered : s.registeredLate = some true →
    s.latched = true ∧ s.acted = [] ∧ ∀ taken ∈ s.taken, taken.isWritten = false
  reader : ReaderSound s
  writer : WriterSound s

section

variable {s s' : Socket Content Request}

theorem Silent.of_same (h : Silent s) (hReader : s'.reader = s.reader) (hWriter : s'.writer = s.writer)
    (hActed : s'.acted = s.acted) (hTaken : s'.taken = s.taken) (hRegistered : s'.registeredLate = s.registeredLate)
    (hCtx : s'.ctx = s.ctx) (hLatched : s.latched = true → s'.latched = true) : Silent s' where
  acted := hActed ▸ h.acted
  taken := hTaken ▸ h.taken
  one := hTaken ▸ h.one
  spent := fun hLate => hLatched (h.spent (hTaken ▸ hLate))
  registered := fun hIs => by
    obtain ⟨hOld, hNone, hUnwritten⟩ := h.registered (hRegistered ▸ hIs)
    exact ⟨hLatched hOld, hActed.trans hNone, hTaken ▸ hUnwritten⟩
  reader := by
    have hSound := h.reader
    unfold ReaderSound Fresh at *
    rw [hReader, hActed, hTaken, hRegistered, hWriter, hCtx]
    split
    · rename_i hIs
      rw [hIs] at hSound
      exact ⟨fun hLate => hLatched (hSound.1 hLate), hSound.2⟩
    all_goals
      rename_i hIs
      rw [hIs] at hSound
      exact hSound
  writer := by
    have hSound := h.writer
    unfold WriterSound at *
    rw [hWriter, hTaken, hRegistered]
    split
    · rename_i hIs
      rw [hIs] at hSound
      exact ⟨fun hLate => hLatched (hSound.1 hLate), hSound.2⟩
    all_goals
      rename_i hIs
      rw [hIs] at hSound
      exact hSound

/-- The read loop goes to another place. -/
theorem Silent.goes (h : Silent s) {reader : Reader Request} (hSound : ReaderSound { s with reader := reader }) :
    Silent { s with reader := reader } :=
  ⟨h.acted, h.taken, h.one, h.spent, h.registered, hSound, h.writer⟩

theorem Silent.of_fresh (hFresh : Fresh s) (hSound : ReaderSound s) : Silent s := by
  obtain ⟨hActed, hTaken, hRegistered, hWriter⟩ := hFresh
  refine ⟨?_, ?_, ?_, ?_, ?_, hSound, ?_⟩
  · rw [hActed]
    exact fun _ hMem => absurd hMem not_mem_nil
  · rw [hTaken]
    exact fun _ hMem => absurd hMem not_mem_nil
  · rw [hTaken]
    exact Nat.zero_le 1
  · rw [hTaken]
    exact fun ⟨_, hMem, _⟩ => absurd hMem not_mem_nil
  · rw [hRegistered]
    exact nofun
  · unfold WriterSound
    rw [hWriter]
    trivial

theorem push_eq (s : Socket Content Request) (frame : ServerFrame Content) :
    ∃ queue, s.push frame = { s with queue := queue } := by
  unfold Socket.push
  split
  · exact ⟨_, rfl⟩
  · split <;> exact ⟨_, rfl⟩

theorem sendRefusal_eq (s : Socket Content Request) (refusal : Refusal) :
    ∃ queue, s.sendRefusal refusal = { s with queue := queue } := by
  have hPushes : ∀ (frames : List (ServerFrame Content)) (s : Socket Content Request),
      ∃ queue, frames.foldl Socket.push s = { s with queue := queue } := by
    intro frames
    induction frames with
    | nil => exact fun s => ⟨_, rfl⟩
    | cons frame rest ih =>
      intro s
      obtain ⟨queue, hPush⟩ := push_eq s frame
      rw [foldl_cons, hPush]
      exact ih _
  exact hPushes _ s

theorem noted_eq (s : Socket Content Request) (refusal : Option Refusal) :
    ∃ more, s.noted refusal = { s with revokedTokens := more ++ s.revokedTokens } := by
  unfold Socket.noted
  split
  · exact ⟨_, rfl⟩
  · exact ⟨[], rfl⟩

theorem latched_more {tokens : List TokenId} {devices : List DeviceId} (h : s.latched = true)
    (hTokens : ∀ id ∈ s.revokedTokens, id ∈ tokens) (hDevices : ∀ id ∈ s.revokedDevices, id ∈ devices) :
    { s with revokedTokens := tokens, revokedDevices := devices }.latched = true := by
  unfold Socket.latched Socket.latchedRefusal at *
  cases hCtx : s.ctx with
  | none =>
    rw [hCtx] at h
    cases h
  | some ctx =>
    rw [hCtx] at h
    dsimp only [Option.bind_some] at h ⊢
    by_cases hDevice : (ctx.deviceId.any fun id => decide (id ∈ devices)) = true
    · rw [if_pos hDevice]
      rfl
    · rw [if_neg hDevice]
      have hOld : ¬(ctx.deviceId.any fun id => decide (id ∈ s.revokedDevices)) = true := by
        intro hAny
        obtain ⟨id, hId, hMem⟩ := (Option.any_eq_true _ _).mp hAny
        exact hDevice ((Option.any_eq_true _ _).mpr ⟨id, hId, decide_eq_true (hDevices id (of_decide_eq_true hMem))⟩)
      rw [if_neg hOld] at h
      split at h
      · rename_i hToken
        rw [if_pos (hTokens _ hToken)]
        rfl
      · cases h

theorem Silent.push (h : Silent s) (frame : ServerFrame Content) : Silent (s.push frame) := by
  obtain ⟨queue, hPush⟩ := push_eq s frame
  rw [hPush]
  exact h.of_same rfl rfl rfl rfl rfl rfl id

theorem Silent.sendRefusal (h : Silent s) (refusal : Refusal) : Silent (s.sendRefusal refusal) := by
  obtain ⟨queue, hSend⟩ := sendRefusal_eq s refusal
  rw [hSend]
  exact h.of_same rfl rfl rfl rfl rfl rfl id

theorem Silent.noted (h : Silent s) (refusal : Option Refusal) : Silent (s.noted refusal) := by
  obtain ⟨more, hNoted⟩ := noted_eq s refusal
  rw [hNoted]
  exact h.of_same rfl rfl rfl rfl rfl rfl fun hLatched =>
    latched_more hLatched (fun _ hMem => mem_append_right _ hMem) fun _ hMem => hMem

theorem Silent.refuse (h : Silent s) (frames : List (ServerFrame Content)) : Silent (s.refuse frames) :=
  Silent.goes (s := { s with door := frames }) (h.of_same rfl rfl rfl rfl rfl rfl id) trivial

theorem Silent.act (h : Silent s) (awaitingPong : Bool) (frame : ClientFrame Request) :
    Silent (act s awaitingPong frame) := by
  cases frame with
  | ping | malformed => exact (h.push _).goes trivial
  | _ => exact h.goes trivial

theorem not_latched (h : s.latchedRefusal = none) : s.latched ≠ true := by
  unfold Socket.latched
  rw [h]
  exact Bool.false_ne_true

theorem Silent.read {verifyPlaintext : String → String → Bool} (h : Silent s) (choice : Choice Request) :
    Silent (read verifyPlaintext s choice) := by
  have hSound := h.reader
  unfold ReaderSound at hSound
  unfold WsConnection.read
  split
  · rename_i hReader
    rw [hReader] at hSound
    exact h.goes hSound
  · rename_i hReader
    rw [hReader] at hSound
    split
    · exact h.refuse _
    · split
      · exact h.refuse _
      · dsimp only
        split
        · exact h.refuse _
        · exact h.goes hSound
  · rename_i hReader
    rw [hReader] at hSound
    split
    · exact h.refuse _
    · split
      · exact h.refuse _
      · split
        · exact .of_fresh hSound.1 hSound.1
        · exact .of_fresh hSound.1 hSound.1
  · rename_i hReader
    rw [hReader] at hSound
    split
    · exact h.refuse _
    · exact h.goes hSound
  · rename_i hReader
    rw [hReader] at hSound
    split
    · exact h.refuse _
    · exact h.goes hSound
  · rename_i hReader
    rw [hReader] at hSound
    split
    · exact h.refuse _
    · exact h.goes hSound
  · rename_i hReader
    rw [hReader] at hSound
    split
    · exact (h.noted _).refuse _
    · exact h.goes hSound
  · -- the writer starts: what comes from here on is late if the latch is set now
    rename_i hReader
    rw [hReader] at hSound
    obtain ⟨hActed, hTaken, _, _⟩ := hSound
    refine ⟨h.acted, h.taken, h.one, h.spent, fun hLate => ?_, trivial, trivial⟩
    refine ⟨Option.some.inj hLate, hActed, ?_⟩
    rw [hTaken]
    exact fun _ hMem => absurd hMem not_mem_nil
  · split
    · exact (h.sendRefusal _).goes trivial
    · exact h.goes trivial
  · split
    · exact h.goes trivial
    · exact h
  · split
    · exact h.goes trivial
    · exact (h.push _).goes trivial
  · exact h.goes ⟨fun hLate => hLate, fun hRegistered => (h.registered hRegistered).1⟩
  · exact h.goes trivial
  · rename_i hReader
    rw [hReader] at hSound
    split
    · exact (h.sendRefusal _).goes trivial
    · rename_i hNone
      refine h.goes ⟨?_, fun hRegistered => not_latched hNone (hSound.1 (hSound.2 hRegistered))⟩
      exact Bool.eq_false_iff.mpr fun hLate => not_latched hNone (hSound.1 hLate)
  · rename_i hReader
    rw [hReader] at hSound
    split
    · exact ((h.noted _).sendRefusal _).goes trivial
    · obtain ⟨rfl, hUnregistered⟩ := hSound
      refine ⟨fun entry hMem => ?_, h.taken, h.one, h.spent, fun hLate => absurd hLate hUnregistered, hUnregistered,
        h.writer⟩
      rcases mem_append.mp hMem with hOld | hNew
      · exact h.acted entry hOld
      · rw [mem_singleton.mp hNew]
  · exact h.act _ _
  · exact h.goes trivial
  · exact h

theorem ReaderSound.of_registered (h : ReaderSound s) (hWriter : s.writer ≠ .absent) (hReader : s'.reader = s.reader)
    (hRegistered : s'.registeredLate = s.registeredLate) (hLatched : s.latched = true → s'.latched = true) :
    ReaderSound s' := by
  unfold ReaderSound at *
  rw [hReader]
  split
  · rename_i hIs
    rw [hIs] at h
    exact ⟨fun hLate => hLatched (h.1 hLate), hRegistered ▸ h.2⟩
  · rename_i hIs
    rw [hIs] at h
    exact ⟨h.1, hRegistered ▸ h.2⟩
  · rename_i hIs
    rw [hIs] at h
    exact hRegistered ▸ h
  · trivial
  · trivial
  · trivial
  · rename_i hIs
    rw [hIs] at h
    exact absurd h.1.2.2.2 hWriter
  · rename_i hIs
    rw [hIs] at h
    exact absurd h.1.2.2.2 hWriter
  · rename_i hIs
    rw [hIs] at h
    exact absurd h.1.2.2.2 hWriter
  · rename_i hIs
    rw [hIs] at h
    exact absurd h.2.2.2 hWriter
  · rename_i hIs
    rw [hIs] at h
    exact absurd h.2.2.2 hWriter
  · rename_i hIs
    rw [hIs] at h
    exact absurd h.2.2.2 hWriter

theorem Silent.writes (h : Silent s) (hWriter : s.writer ≠ .absent) {queue : List (ServerFrame Content)}
    {writer : Writer Content} (hSound : WriterSound { s with queue := queue, writer := writer }) :
    Silent { s with queue := queue, writer := writer } :=
  ⟨h.acted, h.taken, h.one, h.spent, h.registered, h.reader.of_registered hWriter rfl rfl id, hSound⟩

theorem Silent.put (h : Silent s) (hWriter : s.writer ≠ .absent) {frame : ServerFrame Content} {late : Bool} {fate : Fate}
    (hFate : ∀ late, fate ≠ .written late) (hReplaced : late = true → ∃ refusal, fate = .replaced refusal) :
    Silent (s.put frame late fate .ended) := by
  have hUnwritten : (⟨frame, late, fate⟩ : Taken Content).isWritten = false := by
    cases fate with
    | written late => exact absurd rfl (hFate late)
    | _ => rfl
  have hOnTime : (⟨frame, late, fate⟩ : Taken Content).writtenLate = false := by
    cases fate with
    | written late => exact absurd rfl (hFate late)
    | _ => rfl
  have hMem : ∀ taken ∈ s.taken ++ [⟨frame, late, fate⟩], taken ∈ s.taken ∨ taken = ⟨frame, late, fate⟩ := by
    intro taken hTaken
    exact (mem_append.mp hTaken).imp_right mem_singleton.mp
  refine ⟨h.acted, fun taken hTaken hLate => ?_, ?_, fun ⟨taken, hTaken, hWritten⟩ => ?_, fun hRegistered => ?_,
    h.reader.of_registered hWriter rfl rfl id, trivial⟩
  · rcases hMem taken hTaken with hOld | rfl
    · exact h.taken taken hOld hLate
    · exact hReplaced hLate
  · change ((s.taken ++ [_]).filter Taken.writtenLate).length ≤ 1
    rw [filter_append, filter_cons_of_neg (by rw [hOnTime]; exact Bool.false_ne_true), filter_nil,
      append_nil]
    exact h.one
  · rcases hMem taken hTaken with hOld | rfl
    · exact h.spent ⟨taken, hOld, hWritten⟩
    · rw [hOnTime] at hWritten
      cases hWritten
  · obtain ⟨hLatched, hActed, hNone⟩ := h.registered hRegistered
    refine ⟨hLatched, hActed, fun taken hTaken => ?_⟩
    rcases hMem taken hTaken with hOld | rfl
    · exact hNone taken hOld
    · exact hUnwritten

theorem Silent.write (h : Silent s) (failed lost : Bool) : Silent (write s failed lost) := by
  have hSound := h.writer
  unfold WriterSound at hSound
  unfold WsConnection.write
  split
  · exact h
  · exact h
  · rename_i hWriter
    have hThere : s.writer ≠ .absent := by
      rw [hWriter]
      exact nofun
    split
    · exact h.writes hThere ⟨fun hLate => hLate, fun hRegistered => (h.registered hRegistered).1, h.spent⟩
    · exact h.writes hThere trivial
    · exact h
  · rename_i frame late hWriter
    have hThere : s.writer ≠ .absent := by
      rw [hWriter]
      exact nofun
    rw [hWriter] at hSound
    split
    · exact h.put hThere (by exact nofun) fun _ => ⟨_, rfl⟩
    · rename_i hNone
      have hEarly : ¬late = true := fun hLate => not_latched hNone (hSound.1 hLate)
      refine h.writes hThere ⟨Bool.eq_false_iff.mpr hEarly, fun hRegistered => hEarly (hSound.2.1 hRegistered), ?_⟩
      intro taken hTaken
      exact Bool.eq_false_iff.mpr fun hWritten => hEarly (hSound.2.2 ⟨taken, hTaken, hWritten⟩)
  · rename_i frame late hWriter
    have hThere : ∀ refusal, (s.noted refusal).writer ≠ .absent := by
      intro refusal
      obtain ⟨more, hNoted⟩ := noted_eq s refusal
      rw [hNoted]
      change s.writer ≠ .absent
      rw [hWriter]
      exact nofun
    rw [hWriter] at hSound
    split
    · exact (h.noted _).put (hThere _) (by exact nofun) fun _ => ⟨_, rfl⟩
    · exact h.writes (hThere none) hSound
  · rename_i frame late hWriter
    have hThere : s.writer ≠ .absent := by
      rw [hWriter]
      exact nofun
    rw [hWriter] at hSound
    obtain ⟨rfl, hUnregistered, hNone⟩ := hSound
    split
    · exact h.put hThere (by exact nofun) (by exact nofun)
    · have hMem : ∀ taken ∈ s.taken ++ [⟨frame, false, .written s.latched⟩],
          taken ∈ s.taken ∨ taken = ⟨frame, false, .written s.latched⟩ := by
        intro taken hTaken
        exact (mem_append.mp hTaken).imp_right mem_singleton.mp
      refine ⟨h.acted, fun taken hTaken hLate => ?_, ?_, fun ⟨taken, hTaken, hWritten⟩ => ?_,
        fun hRegistered => absurd hRegistered hUnregistered, h.reader.of_registered hThere rfl rfl id, trivial⟩
      · rcases hMem taken hTaken with hOld | rfl
        · exact h.taken taken hOld hLate
        · cases hLate
      · change ((s.taken ++ [_]).filter Taken.writtenLate).length ≤ 1
        have hEmpty : s.taken.filter Taken.writtenLate = [] :=
          filter_eq_nil_iff.mpr fun taken hTaken => by
            rw [hNone taken hTaken]
            exact Bool.false_ne_true
        rw [filter_append, hEmpty, nil_append]
        exact length_filter_le _ _
      · rcases hMem taken hTaken with hOld | rfl
        · exact h.spent ⟨taken, hOld, hWritten⟩
        · exact hWritten

theorem silent_start (bearer : Option String) : Silent (start bearer : Socket Content Request) :=
  .of_fresh ⟨rfl, rfl, rfl, rfl⟩ ⟨⟨rfl, rfl, rfl, rfl⟩, rfl⟩

theorem Silent.after {verifyPlaintext : String → String → Bool} (h : Silent s) (move : Move Content Request) :
    Silent (s.after verifyPlaintext move) := by
  cases move with
  | reader choice => exact h.read choice
  | writer failed lost => exact h.write failed lost
  | forward content => exact h.push _
  | insertToken token =>
    unfold Socket.after
    dsimp only
    split
    · exact h.of_same rfl rfl rfl rfl rfl rfl id
    · exact h
  | revokeToken | insertDevice | revokeDevice => exact h.of_same rfl rfl rfl rfl rfl rfl fun hLatched => hLatched
  | notifyTokenRevoked id =>
    exact h.of_same rfl rfl rfl rfl rfl rfl fun hLatched =>
      latched_more hLatched (fun _ hMem => mem_cons_of_mem _ hMem) fun _ hMem => hMem
  | notifyDeviceRevoked device =>
    exact h.of_same rfl rfl rfl rfl rfl rfl fun hLatched =>
      latched_more hLatched (fun _ hMem => hMem) fun _ hMem => mem_cons_of_mem _ hMem
  | tick later =>
    unfold Socket.after
    dsimp only
    split
    · exact h.of_same rfl rfl rfl rfl rfl rfl fun hLatched => hLatched
    · exact h

theorem Silent.run {verifyPlaintext : String → String → Bool} (h : Silent s) (moves : List (Move Content Request)) :
    Silent (run verifyPlaintext s moves) := by
  induction moves generalizing s with
  | nil => exact h
  | cons move rest ih => exact ih (h.after move)

theorem rank_push (s : Socket Content Request) (frame : ServerFrame Content) (reader : Reader Request) :
    { s.push frame with reader := reader }.rank = reader.rank + s.writer.rank := by
  obtain ⟨queue, hPush⟩ := push_eq s frame
  rw [hPush]
  rfl

theorem rank_sendRefusal (s : Socket Content Request) (refusal : Refusal) (reader : Reader Request) :
    { s.sendRefusal refusal with reader := reader }.rank = reader.rank + s.writer.rank := by
  obtain ⟨queue, hSend⟩ := sendRefusal_eq s refusal
  rw [hSend]
  rfl

theorem noted_writer (s : Socket Content Request) (refusal : Option Refusal) : (s.noted refusal).writer = s.writer := by
  obtain ⟨more, hNoted⟩ := noted_eq s refusal
  rw [hNoted]

theorem rank_act (s : Socket Content Request) (awaitingPong : Bool) (frame : ClientFrame Request) :
    (act s awaitingPong frame).rank ≤ 5 + s.writer.rank := by
  have hSelecting : ∀ awaiting, (Reader.selecting awaiting : Reader Request).rank ≤ 5 := by
    intro awaiting
    cases awaiting with
    | false => exact Nat.le_refl 5
    | true => exact Nat.le_succ 4
  cases frame with
  | ping | malformed =>
    unfold act
    rw [rank_push]
    exact Nat.add_le_add_right (hSelecting _) _
  | close => exact Nat.add_le_add_right (by decide : (1 : Nat) ≤ 5) _
  | pong => exact Nat.add_le_add_right (hSelecting false) _
  | _ => exact Nat.add_le_add_right (hSelecting _) _

variable {verifyPlaintext : String → String → Bool}

theorem rank_lt {old : Reader Request} {n : Nat} (hReader : s.reader = old) (hLt : n < old.rank) :
    n + s.writer.rank < s.rank := by
  unfold Socket.rank
  rw [hReader]
  exact Nat.add_lt_add_right hLt _

theorem latched_some (h : s.latched = true) : s.latchedRefusal ≠ none := fun hNone => not_latched hNone h

theorem read_go (hLatched : s.latched = true) (hSelecting : ∀ awaiting, s.reader ≠ .selecting awaiting)
    (hOpen : s.reader.rank ≠ 0) (failed : Bool) : (read verifyPlaintext s (.go failed)).rank < s.rank := by
  have hDoor : ∀ {t : Socket Content Request} {frames}, t.writer = s.writer → 0 < s.reader.rank →
      (t.refuse frames).rank < s.rank := by
    intro t frames hWriter hLt
    have hRank : (t.refuse frames).rank = 0 + s.writer.rank := congrArg (fun writer => 0 + Writer.rank writer) hWriter
    rw [hRank]
    exact rank_lt rfl hLt
  have hTurned : ∀ {frames}, (s.refuse frames).rank < s.rank := hDoor rfl (Nat.pos_of_ne_zero hOpen)
  cases hReader : s.reader with
  | connecting =>
    unfold read
    rw [hReader]
    exact rank_lt hReader (by decide : 15 < 16)
  | authenticating =>
    unfold read
    rw [hReader]
    dsimp only
    split
    · exact hTurned
    · split
      · exact hTurned
      · split
        · exact hTurned
        · exact rank_lt hReader (by decide : 14 < 15)
  | classifying bare candidates =>
    unfold read
    rw [hReader]
    dsimp only
    split
    · exact hTurned
    · split
      · exact hTurned
      · split
        · exact rank_lt hReader (by decide : 13 < 14)
        · exact rank_lt hReader (by decide : 11 < 14)
  | admittingDevice stage =>
    unfold read
    rw [hReader]
    cases stage with
    | latch =>
      dsimp only
      split
      · exact hTurned
      · exact rank_lt hReader (by decide : 12 < 13)
    | row =>
      dsimp only
      split
      · exact hTurned
      · exact rank_lt hReader (by decide : 11 < 12)
  | admitting stage =>
    unfold read
    rw [hReader]
    cases stage with
    | latch =>
      dsimp only
      split
      · exact hTurned
      · exact rank_lt hReader (by decide : 10 < 11)
    | row =>
      dsimp only
      split
      · exact hDoor (noted_writer s _) (Nat.pos_of_ne_zero hOpen)
      · exact rank_lt hReader (by decide : 9 < 10)
  | entering =>
    unfold read Socket.rank
    rw [hReader]
    change 5 + 3 < 9 + s.writer.rank
    omega
  | selecting awaiting => exact absurd hReader (hSelecting awaiting)
  | checking frame awaiting stage late =>
    unfold read
    rw [hReader]
    cases stage with
    | latch =>
      dsimp only
      split
      · rw [rank_sendRefusal]
        exact rank_lt hReader (by decide : 1 < 3)
      · rename_i hNone
        exact absurd hNone (latched_some hLatched)
    | row =>
      dsimp only
      split
      · rw [rank_sendRefusal, noted_writer]
        exact rank_lt hReader (by decide : 1 < 8)
      · exact rank_lt hReader (by decide : 7 < 8)
  | acting frame awaiting =>
    unfold read
    rw [hReader]
    exact Nat.lt_of_le_of_lt (rank_act s awaiting frame) (rank_lt hReader (by decide : 5 < 7))
  | leaving =>
    unfold read
    rw [hReader]
    exact rank_lt hReader (by decide : 0 < 1)
  | closed =>
    rw [hReader] at hOpen
    exact absurd rfl hOpen

theorem read_beat {awaiting : Bool} (hReader : s.reader = .selecting awaiting) :
    (read verifyPlaintext s .beat).rank < s.rank := by
  unfold read
  rw [hReader]
  cases awaiting with
  | false =>
    dsimp only
    rw [if_neg Bool.false_ne_true, rank_push]
    exact rank_lt hReader (by decide : 4 < 5)
  | true => exact rank_lt hReader (by decide : 1 < 4)

theorem read_idle {choice : Choice Request} (hSelecting : ∀ awaiting, s.reader ≠ .selecting awaiting)
    (hChoice : ∀ failed, choice ≠ .go failed) : read verifyPlaintext s choice = s := by
  unfold read
  split
  all_goals first
    | rfl
    | exact absurd rfl (hChoice _)
    | exact absurd (by assumption) (hSelecting _)

theorem read_rank (hLatched : s.latched = true) (choice : Choice Request) :
    (read verifyPlaintext s choice).rank ≤ s.rank := by
  by_cases hSelecting : ∃ awaiting, s.reader = .selecting awaiting
  · obtain ⟨awaiting, hReader⟩ := hSelecting
    have hFour : 4 ≤ (Reader.selecting awaiting : Reader Request).rank := by
      cases awaiting with
      | false => exact Nat.le_succ 4
      | true => exact Nat.le_refl 4
    have hLower : ∀ {n}, n < 4 → n + s.writer.rank ≤ s.rank := fun hLt =>
      Nat.le_of_lt (rank_lt hReader (Nat.lt_of_lt_of_le hLt hFour))
    cases choice with
    | beat => exact Nat.le_of_lt (read_beat hReader)
    | go failed =>
      apply Nat.le_of_eq
      unfold read
      rw [hReader]
    | wake =>
      unfold read
      rw [hReader]
      dsimp only
      split
      · rw [rank_sendRefusal]
        exact hLower (by decide : 1 < 4)
      · rename_i hNone
        exact absurd hNone (latched_some hLatched)
    | closed =>
      unfold read
      rw [hReader]
      dsimp only
      split
      · exact hLower (by decide : 1 < 4)
      · exact Nat.le_refl _
    | frame frame =>
      unfold read
      rw [hReader]
      exact hLower (by decide : 3 < 4)
    | hangUp =>
      unfold read
      rw [hReader]
      exact hLower (by decide : 1 < 4)
  · have hOutside : ∀ awaiting, s.reader ≠ .selecting awaiting := fun awaiting hReader => hSelecting ⟨awaiting, hReader⟩
    by_cases hOpen : s.reader.rank = 0
    · have hClosed : s.reader = .closed := by
        cases hReader : s.reader with
        | closed => rfl
        | selecting awaiting => exact absurd hReader (hOutside awaiting)
        | admittingDevice stage => cases stage <;> (rw [hReader] at hOpen; cases hOpen)
        | admitting stage => cases stage <;> (rw [hReader] at hOpen; cases hOpen)
        | checking _ _ stage => cases stage <;> (rw [hReader] at hOpen; cases hOpen)
        | _ =>
          rw [hReader] at hOpen
          cases hOpen
      apply Nat.le_of_eq
      unfold read
      rw [hClosed]
    · cases choice with
      | go failed => exact Nat.le_of_lt (read_go hLatched hOutside hOpen failed)
      | _ =>
        apply Nat.le_of_eq
        rw [read_idle hOutside (by exact nofun)]

theorem write_rank (hLatched : s.latched = true) (failed lost : Bool) : (write s failed lost).rank ≤ s.rank := by
  unfold write
  split
  · exact Nat.le_refl _
  · exact Nat.le_refl _
  · rename_i hWriter
    unfold Socket.rank
    rw [hWriter]
    split
    · exact Nat.add_le_add_left (by decide : 2 ≤ 3) _
    · exact Nat.add_le_add_left (by decide : 0 ≤ 3) _
    · exact Nat.add_le_add_left (Nat.le_of_eq (by rw [hWriter])) _
  · rename_i hWriter
    unfold Socket.rank
    rw [hWriter]
    split
    · exact Nat.add_le_add_left (by decide : 0 ≤ 2) _
    · rename_i hNone
      exact absurd hNone (latched_some hLatched)
  · rename_i hWriter
    unfold Socket.rank
    rw [hWriter]
    split
    · obtain ⟨more, hNoted⟩ := noted_eq s (some _)
      rw [hNoted]
      exact Nat.add_le_add_left (by decide : 0 ≤ 5) _
    · exact Nat.add_le_add_left (by decide : 4 ≤ 5) _
  · rename_i hWriter
    unfold Socket.rank
    rw [hWriter]
    split
    · exact Nat.add_le_add_left (by decide : 0 ≤ 4) _
    · exact Nat.add_le_add_left (by decide : 3 ≤ 4) _

/-- The same connection, with more latches at most. -/
def LatchesKept (s s' : Socket Content Request) : Prop :=
  s'.ctx = s.ctx ∧ (∀ id ∈ s.revokedTokens, id ∈ s'.revokedTokens) ∧ ∀ id ∈ s.revokedDevices, id ∈ s'.revokedDevices

theorem LatchesKept.refl (s : Socket Content Request) : LatchesKept s s := ⟨rfl, fun _ h => h, fun _ h => h⟩

theorem LatchesKept.trans {s s' s'' : Socket Content Request} (h : LatchesKept s s') (h' : LatchesKept s' s'') :
    LatchesKept s s'' :=
  ⟨h'.1.trans h.1, fun id hMem => h'.2.1 id (h.2.1 id hMem), fun id hMem => h'.2.2 id (h.2.2 id hMem)⟩

theorem LatchesKept.latched (h : LatchesKept s s') (hLatched : s.latched = true) : s'.latched = true := by
  have hMore := latched_more hLatched h.2.1 h.2.2
  unfold Socket.latched Socket.latchedRefusal at *
  rw [h.1]
  exact hMore

theorem latchesKept_push (s : Socket Content Request) (frame : ServerFrame Content) : LatchesKept s (s.push frame) := by
  obtain ⟨queue, hPush⟩ := push_eq s frame
  rw [hPush]
  exact .refl s

theorem latchesKept_sendRefusal (s : Socket Content Request) (refusal : Refusal) :
    LatchesKept s (s.sendRefusal refusal) := by
  obtain ⟨queue, hSend⟩ := sendRefusal_eq s refusal
  rw [hSend]
  exact .refl s

theorem latchesKept_noted (s : Socket Content Request) (refusal : Option Refusal) : LatchesKept s (s.noted refusal) := by
  obtain ⟨more, hNoted⟩ := noted_eq s refusal
  rw [hNoted]
  exact ⟨rfl, fun _ hMem => mem_append_right _ hMem, fun _ hMem => hMem⟩

theorem latchesKept_act (s : Socket Content Request) (awaitingPong : Bool) (frame : ClientFrame Request) :
    LatchesKept s (act s awaitingPong frame) := by
  cases frame with
  | ping | malformed => exact latchesKept_push s _
  | _ => exact .refl s

theorem latchesKept_read (h : Silent s) (hLatched : s.latched = true) (choice : Choice Request) :
    LatchesKept s (read verifyPlaintext s choice) := by
  have hSound := h.reader
  unfold ReaderSound at hSound
  unfold read
  split
  · exact .refl s
  · split
    · exact .refl s
    · split
      · exact .refl s
      · dsimp only
        split <;> exact .refl s
  · -- the connection has no token yet that could be latched
    rename_i hReader
    rw [hReader] at hSound
    unfold Socket.latched Socket.latchedRefusal at hLatched
    rw [hSound.2] at hLatched
    cases hLatched
  · split <;> exact .refl s
  · split <;> exact .refl s
  · split <;> exact .refl s
  · split
    · exact latchesKept_noted s _
    · exact .refl s
  · exact .refl s
  · split
    · exact latchesKept_sendRefusal s _
    · exact .refl s
  · split <;> exact .refl s
  · split
    · exact .refl s
    · exact latchesKept_push s _
  · exact .refl s
  · exact .refl s
  · split
    · exact latchesKept_sendRefusal s _
    · exact .refl s
  · split
    · exact (latchesKept_noted s _).trans (latchesKept_sendRefusal _ _)
    · exact .refl s
  · exact latchesKept_act s _ _
  · exact .refl s
  · exact .refl s

theorem latchesKept_write (s : Socket Content Request) (failed lost : Bool) : LatchesKept s (write s failed lost) := by
  unfold write
  split
  · exact .refl s
  · exact .refl s
  · split <;> exact .refl s
  · split <;> exact .refl s
  · split
    · exact latchesKept_noted s _
    · exact .refl s
  · split <;> exact .refl s

theorem latched_after (h : Silent s) (hLatched : s.latched = true) (move : Move Content Request) :
    (s.after verifyPlaintext move).latched = true := by
  refine LatchesKept.latched (s := s) ?_ hLatched
  cases move with
  | reader choice => exact latchesKept_read h hLatched choice
  | writer failed lost => exact latchesKept_write s failed lost
  | forward content => exact latchesKept_push s _
  | insertToken | tick =>
    unfold Socket.after
    dsimp only
    split <;> exact .refl s
  | notifyTokenRevoked id => exact ⟨rfl, fun _ hMem => mem_cons_of_mem _ hMem, fun _ hMem => hMem⟩
  | notifyDeviceRevoked device => exact ⟨rfl, fun _ hMem => hMem, fun _ hMem => mem_cons_of_mem _ hMem⟩
  | _ => exact .refl s

theorem rank_others {move : Move Content Request} (hOther : move.isOwn = false) :
    (s.after verifyPlaintext move).rank = s.rank := by
  cases move with
  | reader | writer => cases hOther
  | forward content =>
    obtain ⟨queue, hPush⟩ := push_eq s (.content content)
    change (s.push (.content content)).rank = s.rank
    rw [hPush]
    rfl
  | insertToken | tick =>
    unfold Socket.after
    dsimp only
    split <;> rfl
  | _ => rfl

theorem advances_le (h : Silent s) (hLatched : s.latched = true) (moves : List (Move Content Request)) :
    advances verifyPlaintext s moves ≤ s.rank := by
  induction moves generalizing s with
  | nil => exact Nat.zero_le _
  | cons move rest ih =>
    have hRest := @ih (s.after verifyPlaintext move) (h.after move) (latched_after h hLatched move)
    have hRank : (s.after verifyPlaintext move).rank ≤ s.rank := by
      cases hOwn : move.isOwn with
      | false => exact Nat.le_of_eq (rank_others hOwn)
      | true =>
        cases move with
        | reader choice => exact read_rank hLatched choice
        | writer failed lost => exact write_rank hLatched failed lost
        | _ => cases hOwn
    unfold advances
    dsimp only
    split
    · rename_i hAdvances
      have hLess : (s.after verifyPlaintext move).rank ≠ s.rank := by
        simpa using (Bool.and_eq_true_iff.mp hAdvances).2
      omega
    · omega

/-- In any interleaving, a connection whose token or device was revoked goes silent. -/
theorem revoked_goes_silent (verifyPlaintext : String → String → Bool) (bearer : Option String)
    (moves : List (Move Content Request)) :
    GoesSilent verifyPlaintext (run verifyPlaintext (start bearer) moves) := by
  have h : Silent (run verifyPlaintext (start bearer) moves) := (silent_start bearer).run moves
  refine ⟨h.acted, h.taken, h.one, fun hLate => (h.registered hLate).2, fun hLatched => advances_le h hLatched,
    fun hLatched hOpen => ?_⟩
  by_cases hSelecting : ∃ awaiting, (run verifyPlaintext (start bearer) moves).reader = .selecting awaiting
  · obtain ⟨awaiting, hReader⟩ := hSelecting
    exact ⟨.beat, read_beat hReader⟩
  · exact ⟨.go false, read_go hLatched (fun awaiting hReader => hSelecting ⟨awaiting, hReader⟩) hOpen false⟩

end

end WsConnection
end Daruma
