import Daruma.Library.Transition
import Daruma.Storage.FoldViews

/-! The writer of snapshots beside a log that grows and is purged. Each snapshot that
it stores shows the fold of every event up to its number. -/
namespace Daruma

open List
open ProjectionFold (apply new_state)
open EventEnvelope (seq)

open Replay (replay upTo after Numbered replay_cons_ok upTo_cons upTo_eq_nil mem_upTo mem_after)
open SnapshotRepo (Snapshots Writing latest newestFirst)
open Transition (Trace)

/-- The log of the server with its snapshots and their writer. `history` holds every
event that was ever appended, purged or not. -/
structure SnapshotServer where
  db : Database
  history : List EventEnvelope
  snapshots : Snapshots
  writing : Option Writing

namespace SnapshotServer

/-- The number up to which the newest snapshot holds the log. -/
def lastSeq (server : SnapshotServer) : Nat := ((latest server.snapshots).map Snapshot.seq).getD 0

/-- The steps of the server. The writer reads one page in a step. -/
inductive Step (mint : EventEnvelope → Env) : SnapshotServer → SnapshotServer → Prop where
  | appended {server : SnapshotServer} {envelope stored : EventEnvelope} {db : Database}
      (h : appendOn server.db envelope = .ok (stored, db)) :
      Step mint server { server with db := db, history := server.history ++ [stored] }
  /-- Whatever else happens to the tables of the server. -/
  | written {server : SnapshotServer} (db : Database) (hEvents : db.events = server.db.events)
      (hSeq : db.latestSeq = server.db.latestSeq) : Step mint server { server with db := db }
  | purged {server : SnapshotServer} (cutoff : Timestamp) :
      Step mint server { server with db := EventStore.purgeTelemetryBefore server.db cutoff }
  /-- Events that the newest snapshot holds are deleted. -/
  | truncated {server : SnapshotServer} (keep : EventEnvelope → Bool)
      (hKeep : ∀ event, server.lastSeq < event.seq → keep event = true) :
      Step mint server { server with db := { server.db with events := server.db.events.filter keep } }
  | begun {server : SnapshotServer} {minEvents : Nat} {writing : Writing} (hIdle : server.writing = none)
      (h : SnapshotRepo.begin server.db server.snapshots minEvents = .ok (some writing)) :
      Step mint server { server with writing := some writing }
  | advanced {server : SnapshotServer} {writing writing' : Writing} (hWriting : server.writing = some writing)
      (hDue : writing.isDue = true) (h : writing.advance mint server.db = .ok writing') :
      Step mint server { server with writing := some writing' }
  | failed {server : SnapshotServer} {writing : Writing} {e : CoreError} (hWriting : server.writing = some writing)
      (hDue : writing.isDue = true) (h : writing.advance mint server.db = .error e) :
      Step mint server { server with writing := none }
  | stored {server : SnapshotServer} {writing : Writing} {id : Nat} {now : Timestamp} {snapshots : Snapshots}
      (hWriting : server.writing = some writing) (hDone : writing.isDue = false)
      (h : SnapshotRepo.insert server.snapshots id now writing.target writing.fold.state = .ok snapshots) :
      Step mint server { server with snapshots := snapshots, writing := none }
  | pruned {server : SnapshotServer} (hIdle : server.writing = none) :
      Step mint server { server with snapshots := SnapshotRepo.pruneKeepLatest server.snapshots 3 }

/-- A server without events, and without snapshots that it trusts. -/
structure Fresh (server : SnapshotServer) : Prop where
  rows : server.db.events.rows = []
  seq : server.db.latestSeq = 0
  history : server.history = []
  snapshots : ∀ snapshot ∈ server.snapshots, snapshot.isConsistent = false
  writing : server.writing = none

end SnapshotServer

namespace SnapshotRepo

variable {snapshots : Snapshots} {snapshot : Snapshot}

theorem mem_newestFirst : snapshot ∈ newestFirst snapshots ↔ snapshot ∈ snapshots ∧ snapshot.isConsistent = true := by
  unfold newestFirst
  rw [(perm_insertionSort _ _).mem_iff, mem_filter, KeyedTable.mem_rows]

theorem mem_of_latest (h : latest snapshots = some snapshot) : snapshot ∈ snapshots ∧ snapshot.isConsistent = true :=
  mem_newestFirst.mp (mem_of_head? h)

theorem seq_le_latest (hMem : snapshot ∈ snapshots) (hConsistent : snapshot.isConsistent = true) :
    snapshot.seq ≤ ((latest snapshots).map Snapshot.seq).getD 0 := by
  have hSorted : (newestFirst snapshots).Pairwise fun first second => second.seq ≤ first.seq := by
    have hTotal : Std.Total fun first second : Snapshot => second.seq ≤ first.seq :=
      ⟨fun first second => Nat.le_total second.seq first.seq⟩
    have hTrans : IsTrans Snapshot fun first second => second.seq ≤ first.seq :=
      ⟨fun _ _ _ h h' => Nat.le_trans h' h⟩
    exact pairwise_insertionSort _ _
  have hListed := mem_newestFirst.mpr ⟨hMem, hConsistent⟩
  unfold latest
  cases hFirst : newestFirst snapshots with
  | nil =>
    rw [hFirst] at hListed
    exact absurd hListed not_mem_nil
  | cons newest others =>
    rw [hFirst] at hListed hSorted
    rcases mem_cons.mp hListed with rfl | hOther
    · exact Nat.le_refl _
    · exact (pairwise_cons.mp hSorted).1 snapshot hOther

variable {keep : Nat}

theorem mem_pruneKeepLatest (h : snapshot ∈ pruneKeepLatest snapshots keep) : snapshot ∈ snapshots :=
  (KeyedTable.mem_filter.mp h).1

theorem latest_mem_prune (h : latest snapshots = some snapshot) :
    snapshot ∈ pruneKeepLatest snapshots (keep + 1) := by
  refine KeyedTable.mem_filter.mpr ⟨(mem_of_latest h).1, decide_eq_true (mem_map_of_mem ?_)⟩
  unfold latest at h
  cases hFirst : newestFirst snapshots with
  | nil =>
    rw [hFirst] at h
    cases h
  | cons newest others =>
    rw [hFirst] at h
    cases h
    exact mem_cons_self

end SnapshotRepo

namespace SnapshotRepo.Writing

variable {mint : EventEnvelope → Env} {writing writing' : Writing} {log : List EventEnvelope}

/-- How far the log is folded. -/
def position (writing : Writing) : Nat := if writing.finished then writing.target else writing.cursor

/-- A writer that folded some more of the log: what it took is the log between the
two positions. -/
structure Folded (mint : EventEnvelope → Env) (log : List EventEnvelope) (writing writing' : Writing) : Prop where
  target : writing'.target = writing.target
  cursor : writing.cursor ≤ writing'.cursor ∧ writing'.cursor ≤ writing.target
  position : writing.cursor ≤ writing'.position
  fold : replay (apply mint) writing.fold (upTo seq writing'.position log) =
    .ok writing'.fold

theorem foldPage_folded {size : Nat} (hLog : Numbered seq log) (hRunning : writing.finished = false)
    (hCursor : writing.cursor ≤ writing.target) (hAfter : ∀ event ∈ log, writing.cursor < event.seq)
    (h : writing.foldPage mint (log.take size) = .ok writing') : Folded mint log writing writing' := by
  have hHere : writing.position = writing.cursor := if_neg (by rw [hRunning]; exact Bool.false_ne_true)
  induction size generalizing log writing with
  | zero =>
    cases h
    refine ⟨rfl, ⟨Nat.le_refl _, hCursor⟩, hHere.ge, ?_⟩
    rw [hHere, upTo_eq_nil hAfter]
    rfl
  | succ size ih =>
    cases log with
    | nil =>
      cases h
      exact ⟨rfl, ⟨Nat.le_refl _, hCursor⟩, hHere.ge, rfl⟩
    | cons event rest =>
      obtain ⟨hFirst, hRest⟩ := pairwise_cons.mp hLog
      rw [take_succ_cons, foldPage] at h
      split at h
      · rename_i hBeyond
        cases h
        refine ⟨rfl, ⟨Nat.le_refl _, hCursor⟩, hCursor, ?_⟩
        have hAll : ∀ other ∈ event :: rest, writing.target < other.seq :=
          forall_mem_cons.mpr ⟨hBeyond, fun other hOther => hBeyond.trans (hFirst other hOther)⟩
        change replay _ _ (upTo seq writing.target (event :: rest)) = _
        rw [upTo_eq_nil hAll]
        rfl
      · rename_i hWithin
        split at h
        · cases h
        · rename_i fold hApplied
          have hNext : Folded mint rest { writing with fold := fold, cursor := event.seq } writing' :=
            ih hRest hRunning (not_lt.mp hWithin) hFirst h (if_neg (by rw [hRunning]; exact Bool.false_ne_true))
          have hEvent : event.seq ≤ writing'.position := hNext.position
          have hLater : writing.cursor ≤ event.seq := (hAfter event mem_cons_self).le
          refine ⟨hNext.target, ⟨hLater.trans hNext.cursor.1, hNext.cursor.2⟩, hLater.trans hEvent, ?_⟩
          rw [upTo_cons hEvent]
          exact replay_cons_ok.mpr ⟨fold, hApplied, hNext.fold⟩

theorem advance_folded {db : Database} (hLog : Numbered seq db.events.rows)
    (hDue : writing.isDue = true) (h : writing.advance mint db = .ok writing') :
    Folded mint (after seq writing.cursor db.events.rows) writing writing' := by
  obtain ⟨hRunning, hCursor⟩ := Bool.and_eq_true_iff.mp hDue
  have hCursor : writing.cursor < writing.target := of_decide_eq_true hCursor
  have hAfter : Numbered seq (after seq writing.cursor db.events.rows) :=
    hLog.sublist filter_sublist
  have hPage : EventStore.loadSince db writing.cursor foldPageSize =
      (after seq writing.cursor db.events.rows).take foldPageSize := by
    have hOrdered : (after seq writing.cursor db.events.rows).Pairwise
        fun first second => first.seq ≤ second.seq := hAfter.imp Nat.le_of_lt
    exact congrArg (List.take foldPageSize) (List.Pairwise.insertionSort_eq hOrdered)
  unfold advance at h
  rw [hPage] at h
  split at h
  · rename_i hEmpty
    have hNone : after seq writing.cursor db.events.rows = [] :=
      (take_eq_nil_iff.mp hEmpty).resolve_left (by decide)
    cases h
    rw [hNone]
    exact ⟨rfl, ⟨Nat.le_refl _, hCursor.le⟩, hCursor.le, rfl⟩
  · rename_i event rest hCons
    rw [← hCons] at h
    exact foldPage_folded hAfter (by simpa using hRunning) hCursor.le (fun event hMem => (mem_after.mp hMem).2) h

end SnapshotRepo.Writing
namespace SnapshotServer

variable {mint : EventEnvelope → Env}

def Cut (mint : EventEnvelope → Env) (history : List EventEnvelope) (high : Nat) (fold : ProjectionFold) : Prop :=
  fold.Sound ∧ ∃ whole, replay (apply mint) .empty (upTo seq high history) = .ok whole ∧
    fold.Alike whole

variable {history : List EventEnvelope} {high : Nat} {fold : ProjectionFold}

theorem Cut.advance {low : Nat} {fold' : ProjectionFold}
    (h : Cut mint history low fold) (hHistory : Numbered seq history) (hLe : low ≤ high)
    (hFold : replay (apply mint) fold (upTo seq high (after seq low history)) =
      .ok fold') : Cut mint history high fold' := by
  obtain ⟨hSound, whole, hWhole, hAlike⟩ := h
  obtain ⟨whole', hWhole', hAlike'⟩ := Replay.replay_rel (fun _ _ _ _ hRel hOk => hRel.apply hOk) hAlike hFold
  refine ⟨Replay.replay_inv (fun _ _ _ hInv hOk => hInv.apply hOk) hSound hFold, whole', ?_, hAlike'⟩
  rw [hHistory.upTo_eq hLe]
  exact Replay.replay_append_ok.mpr ⟨whole, hWhole, hWhole'⟩

/-- Telemetry can be left out of a log. -/
theorem replay_congr {events other : List EventEnvelope}
    (h : events.filter (fun event => event.payload.class = .domain) =
      other.filter fun event => event.payload.class = .domain) :
    replay (apply mint) fold events = replay (apply mint) fold other := by
  have hNeutral : ∀ (state : ProjectionFold) (event : EventEnvelope), decide (event.payload.class = .domain) = false →
      apply mint state event = .ok state := by
    intro state event hOther
    refine ProjectionFold.apply_telemetry ?_
    cases hClass : event.payload.class with
    | telemetry => rfl
    | domain =>
      rw [hClass] at hOther
      cases hOther
  rw [← Replay.replay_filter hNeutral, h, Replay.replay_filter hNeutral]

/-- What holds of the server at all times. -/
structure Sound (mint : EventEnvelope → Env) (server : SnapshotServer) : Prop where
  numbered : Numbered seq server.history
  bounds : ∀ event ∈ server.history, 0 < event.seq ∧ event.seq ≤ server.db.latestSeq
  rows : server.db.events.rows.Sublist server.history
  kept : ∀ event ∈ server.history, event.payload.class = .domain → server.lastSeq < event.seq →
    event ∈ server.db.events
  snapshots : ∀ snapshot ∈ server.snapshots, snapshot.isConsistent = true → snapshot.seq ≤ server.db.latestSeq ∧
    ∃ fold, snapshot.payload = fold.state ∧ Cut mint server.history snapshot.seq fold
  writing : ∀ writing, server.writing = some writing → writing.target ≤ server.db.latestSeq ∧
    server.lastSeq ≤ writing.cursor ∧ writing.cursor ≤ writing.target ∧
    Cut mint server.history writing.position writing.fold

theorem Fresh.sound {server : SnapshotServer} (h : Fresh server) : Sound mint server := by
  refine ⟨?_, ?_, ?_, ?_, fun snapshot hMem hConsistent => ?_, fun writing hWriting => ?_⟩
  · rw [h.history]
    exact List.Pairwise.nil
  · rw [h.history]
    exact fun _ hMem => absurd hMem not_mem_nil
  · rw [h.rows]
    exact nil_sublist _
  · rw [h.history]
    exact fun _ hMem => absurd hMem not_mem_nil
  · exact Bool.noConfusion ((h.snapshots snapshot hMem).symm.trans hConsistent)
  · cases h.writing.symm.trans hWriting

theorem Sound.domain_rows {server : SnapshotServer} (h : Sound mint server) {low high : Nat}
    (hLow : server.lastSeq ≤ low) :
    (upTo seq high (after seq low server.db.events.rows)).filter
        (fun event => event.payload.class = .domain) =
      (upTo seq high (after seq low server.history)).filter
        fun event => event.payload.class = .domain := by
  have hSub := ((h.rows.filter fun event => decide (low < event.seq)).filter fun event => decide (event.seq ≤ high)).filter
    fun event => decide (event.payload.class = .domain)
  have hNodup : server.history.Nodup := h.numbered.imp fun {first second} hLt hSame => by
    rw [hSame] at hLt
    exact lt_irrefl _ hLt
  have hNodup := ((hNodup.filter fun event => decide (low < event.seq)).filter fun event =>
    decide (event.seq ≤ high)).filter fun event => decide (event.payload.class = .domain)
  refine hSub.eq_of_length_le (subperm_of_subset hNodup fun event hMem => ?_).length_le
  · obtain ⟨hBetween, hDomain⟩ := mem_filter.mp hMem
    obtain ⟨hAfter, hHigh⟩ := mem_upTo.mp hBetween
    obtain ⟨hHistory, hLater⟩ := mem_after.mp hAfter
    have hRow := h.kept event hHistory (of_decide_eq_true hDomain) (hLow.trans_lt hLater)
    exact mem_filter.mpr ⟨mem_upTo.mpr ⟨mem_after.mpr ⟨hRow, hLater⟩, hHigh⟩, hDomain⟩

theorem Cut.append {stored : EventEnvelope}
    (h : Cut mint history high fold) (hLater : high < stored.seq) : Cut mint (history ++ [stored]) high fold := by
  have hSame : upTo seq high (history ++ [stored]) = upTo seq high history := by
    have hNone : upTo seq high [stored] = [] :=
      upTo_eq_nil fun event hMem => mem_singleton.mp hMem ▸ hLater
    rw [upTo, filter_append]
    exact (congrArg _ hNone).trans (append_nil _)
  obtain ⟨hSound, whole, hWhole, hAlike⟩ := h
  exact ⟨hSound, whole, hSame.symm ▸ hWhole, hAlike⟩

section

variable {server : SnapshotServer}

theorem Sound.append (h : Sound mint server) {envelope stored : EventEnvelope} {db : Database}
    (hOk : appendOn server.db envelope = .ok (stored, db)) :
    Sound mint { server with db := db, history := server.history ++ [stored] } := by
  obtain ⟨hStored, _, hRows, hSeq, _⟩ := appendOn_ok hOk
  have hStoredSeq : stored.seq = server.db.latestSeq + 1 := hStored ▸ rfl
  have hLater : ∀ {high : Nat}, high ≤ server.db.latestSeq → high < stored.seq :=
    fun hHigh => hStoredSeq ▸ Nat.lt_succ_of_le hHigh
  refine ⟨?_, fun event hMem => ?_, ?_, fun event hMem hDomain hNew => ?_, fun snapshot hMem hConsistent => ?_,
    fun writing hWriting => ?_⟩
  · refine pairwise_append.mpr ⟨h.numbered, pairwise_singleton _ _, fun event hEvent other hOther => ?_⟩
    rw [mem_singleton.mp hOther]
    exact hLater (h.bounds event hEvent).2
  · change 0 < event.seq ∧ event.seq ≤ db.latestSeq
    rw [hSeq]
    rcases mem_append.mp hMem with hOld | hNew
    · exact ⟨(h.bounds event hOld).1, (h.bounds event hOld).2.trans (Nat.le_succ _)⟩
    · rw [mem_singleton.mp hNew, hStoredSeq]
      exact ⟨Nat.succ_pos _, Nat.le_refl _⟩
  · change db.events.rows.Sublist _
    rw [hRows]
    exact h.rows.append (List.Sublist.refl _)
  · change event ∈ db.events.rows
    rw [hRows]
    rcases mem_append.mp hMem with hOld | hStored
    · exact mem_append_left _ (h.kept event hOld hDomain hNew)
    · exact mem_append_right _ hStored
  · obtain ⟨hBound, fold, hPayload, hCut⟩ := h.snapshots snapshot hMem hConsistent
    exact ⟨hBound.trans (hSeq ▸ Nat.le_succ _), fold, hPayload, hCut.append (hLater hBound)⟩
  · obtain ⟨hTarget, hLast, hCursor, hCut⟩ := h.writing writing hWriting
    refine ⟨hTarget.trans (hSeq ▸ Nat.le_succ _), hLast, hCursor, hCut.append (hLater ?_)⟩
    unfold Writing.position
    split
    · exact hTarget
    · exact hCursor.trans hTarget

/-- The log loses events that no snapshot is missing. -/
theorem Sound.filter (h : Sound mint server) {keep : EventEnvelope → Bool}
    (hKeep : ∀ event, event.payload.class = .domain → server.lastSeq < event.seq → keep event = true) :
    Sound mint { server with db := { server.db with events := server.db.events.filter keep } } :=
  ⟨h.numbered, h.bounds, filter_sublist.trans h.rows, fun event hMem hDomain hNew =>
    KeyedTable.mem_filter.mpr ⟨h.kept event hMem hDomain hNew, hKeep event hDomain hNew⟩, h.snapshots, h.writing⟩

theorem Sound.write (h : Sound mint server) {db : Database} (hEvents : db.events = server.db.events)
    (hSeq : db.latestSeq = server.db.latestSeq) : Sound mint { server with db := db } := by
  obtain ⟨hNumbered, hBounds, hRows, hKept, hSnapshots, hWriting⟩ := h
  rw [← hSeq] at hBounds hSnapshots hWriting
  rw [← hEvents] at hRows hKept
  exact ⟨hNumbered, hBounds, hRows, hKept, hSnapshots, hWriting⟩

/-- A writer starts from what the last snapshot shows. -/
theorem Sound.begin (h : Sound mint server) {minEvents : Nat} {writing : Writing}
    (hOk : SnapshotRepo.begin server.db server.snapshots minEvents = .ok (some writing)) :
    Sound mint { server with writing := some writing } := by
  refine ⟨h.numbered, h.bounds, h.rows, h.kept, h.snapshots, fun started hStarted => ?_⟩
  cases hStarted
  unfold SnapshotRepo.begin at hOk
  dsimp only at hOk
  split at hOk
  · cases hOk
  split at hOk
  · cases hOk
  rename_i fold hNew
  cases hOk
  cases hBase : latest server.snapshots with
  | none =>
    rw [hBase] at hNew
    cases hNew
    have hLast : server.lastSeq = 0 := by
      rw [lastSeq, hBase]
      rfl
    refine ⟨Nat.le_refl _, hLast.le, Nat.zero_le _, .empty, .empty, ?_, .refl _⟩
    have hNone : upTo seq 0 server.history = [] :=
      upTo_eq_nil fun event hMem => (h.bounds event hMem).1
    change replay _ _ (upTo seq 0 server.history) = _
    rw [hNone]
    rfl
  | some base =>
    obtain ⟨hMem, hConsistent⟩ := SnapshotRepo.mem_of_latest hBase
    obtain ⟨hBound, cut, hPayload, hSound, whole, hWhole, hAlike⟩ := h.snapshots base hMem hConsistent
    obtain ⟨restored, hRestored, hSame⟩ := new_state hSound
    rw [hBase, Option.map_some, hPayload, hRestored] at hNew
    cases hNew
    have hLast : server.lastSeq = base.seq := by
      rw [lastSeq, hBase]
      rfl
    exact ⟨Nat.le_refl _, hLast.le, hBound, hSound.of_alike hSame, whole, hWhole, hSame.symm.trans hAlike⟩

theorem Sound.advance (h : Sound mint server) {writing writing' : Writing} (hWriting : server.writing = some writing)
    (hDue : writing.isDue = true) (hOk : writing.advance mint server.db = .ok writing') :
    Sound mint { server with writing := some writing' } := by
  refine ⟨h.numbered, h.bounds, h.rows, h.kept, h.snapshots, fun advanced hAdvanced => ?_⟩
  cases hAdvanced
  obtain ⟨hTarget, hLast, hCursor, hCut⟩ := h.writing writing hWriting
  have hFolded : Writing.Folded mint _ writing writing' :=
    Writing.advance_folded (h.numbered.sublist h.rows) hDue hOk
  have hHere : writing.position = writing.cursor := by
    refine if_neg fun hFinished => ?_
    rw [Writing.isDue, hFinished] at hDue
    cases hDue
  rw [hHere] at hCut
  refine ⟨hFolded.target ▸ hTarget, hLast.trans hFolded.cursor.1, hFolded.target ▸ hFolded.cursor.2,
    hCut.advance h.numbered hFolded.position ?_⟩
  rw [← replay_congr (h.domain_rows hLast)]
  exact hFolded.fold

theorem Sound.serve (h : Sound mint server) {snapshots : Snapshots}
    (hSnapshots : ∀ snapshot ∈ snapshots, snapshot.isConsistent = true →
      snapshot.seq ≤ server.db.latestSeq ∧ ∃ fold, snapshot.payload = fold.state ∧ Cut mint server.history snapshot.seq fold)
    (hLatest : ∀ snapshot, latest server.snapshots = some snapshot → snapshot ∈ snapshots) :
    Sound mint { server with snapshots := snapshots, writing := none } := by
  refine ⟨h.numbered, h.bounds, h.rows, fun event hMem hDomain hNew => h.kept event hMem hDomain ?_, hSnapshots, nofun⟩
  refine lt_of_le_of_lt ?_ hNew
  unfold lastSeq
  cases hBase : latest server.snapshots with
  | none => exact Nat.zero_le _
  | some base => exact SnapshotRepo.seq_le_latest (hLatest base hBase) (SnapshotRepo.mem_of_latest hBase).2

theorem Sound.store (h : Sound mint server) {writing : Writing} {id : Nat} {now : Timestamp} {snapshots : Snapshots}
    (hWriting : server.writing = some writing) (hDone : writing.isDue = false)
    (hOk : SnapshotRepo.insert server.snapshots id now writing.target writing.fold.state = .ok snapshots) :
    Sound mint { server with snapshots := snapshots, writing := none } := by
  obtain ⟨hTarget, _, hCursor, hCut⟩ := h.writing writing hWriting
  have hPosition : writing.position = writing.target := by
    unfold Writing.position
    split
    · rfl
    · rename_i hRunning
      rw [Writing.isDue, Bool.eq_false_iff.mpr hRunning] at hDone
      exact Nat.le_antisymm hCursor (not_lt.mp (of_decide_eq_false hDone))
  rw [hPosition] at hCut
  unfold SnapshotRepo.insert at hOk
  dsimp only at hOk
  split at hOk
  · cases hOk
    refine h.serve (fun snapshot hMem hConsistent => ?_) fun base hBase =>
      KeyedTable.mem_append.mpr (.inl (SnapshotRepo.mem_of_latest hBase).1)
    rcases KeyedTable.mem_append.mp hMem with hOld | rfl
    · exact h.snapshots snapshot hOld hConsistent
    · exact ⟨hTarget, writing.fold, rfl, hCut⟩
  · cases hOk

theorem Sound.step : Transition.Preserves (Step mint) (Sound mint) := by
  intro before after hStep h
  cases hStep with
  | appended hOk => exact h.append hOk
  | written db hEvents hSeq => exact h.write hEvents hSeq
  | purged cutoff =>
    refine h.filter fun event hDomain _ => ?_
    rw [hDomain]
    rfl
  | truncated keep hKeep => exact h.filter fun event _ hNew => hKeep event hNew
  | begun hIdle hOk => exact h.begin hOk
  | advanced hWriting hDue hOk => exact h.advance hWriting hDue hOk
  | failed => exact ⟨h.numbered, h.bounds, h.rows, h.kept, h.snapshots, nofun⟩
  | stored hWriting hDone hOk => exact h.store hWriting hDone hOk
  | pruned hIdle =>
    have hServed : Sound mint { before with
        snapshots := SnapshotRepo.pruneKeepLatest before.snapshots 3, writing := none } := h.serve (fun snapshot hMem => h.snapshots snapshot (SnapshotRepo.mem_pruneKeepLatest hMem))
      fun base hBase => SnapshotRepo.latest_mem_prune hBase
    rwa [← hIdle] at hServed

end

/-- In every run of the server, each snapshot that it serves shows the fold of every
event up to its number, however the log was read and purged in the meantime. -/
theorem snapshot_shows_log (mint : EventEnvelope → Env) {start server : SnapshotServer} (hStart : Fresh start)
    (hRun : Trace (Step mint) start server) {snapshot : Snapshot} (hMem : snapshot ∈ server.snapshots)
    (hConsistent : snapshot.isConsistent = true) :
    ∃ whole, replay (ProjectionFold.apply mint) .empty (upTo EventEnvelope.seq snapshot.seq server.history) = .ok whole ∧
      ProjectionFold.Shows snapshot.payload whole := by
  have hSound : Sound mint server := Sound.step.trace hRun hStart.sound
  obtain ⟨_, fold, hPayload, _, whole, hWhole, hAlike⟩ := hSound.snapshots snapshot hMem hConsistent
  exact ⟨whole, hWhole, hPayload ▸ hAlike.shows⟩

private def plainProject : Project := ⟨⟨1⟩, none, "plain", "Plain", none, false, 5, 5⟩

private def creation : EventEnvelope := .new ⟨1⟩ 5 .anyUser (.project (.projectCreated plainProject))

private def firstLog : Database :=
  { Database.empty with events := ⟨[{ creation with seq := 1 }], nodup_singleton _⟩, latestSeq := 1 }

private def firstFold : ProjectionFold := ⟨.empty, ProjectRepo.upsertProject .empty plainProject, .empty⟩

private def firstSnapshot : Snapshot := ⟨0, 1, 9, firstFold.state, snapshotCutVersion⟩

private def idleServer : SnapshotServer := ⟨Database.empty, [], .empty, none⟩

theorem snapshot_shows_log_created :
    ∃ whole, replay (ProjectionFold.apply fun _ => ⟨0, id⟩) .empty [{ creation with seq := 1 }] = .ok whole ∧
      ProjectionFold.Shows firstFold.state whole := by
  have hAppended : Step (fun _ => ⟨0, id⟩) idleServer ⟨firstLog, [{ creation with seq := 1 }], .empty, none⟩ :=
    .appended (rfl : appendOn Database.empty creation = .ok ({ creation with seq := 1 }, firstLog))
  have hBegun : Step (fun _ => ⟨0, id⟩) ⟨firstLog, [{ creation with seq := 1 }], .empty, none⟩
      ⟨firstLog, [{ creation with seq := 1 }], .empty, some ⟨1, 0, .empty, false⟩⟩ :=
    .begun rfl (rfl : SnapshotRepo.begin firstLog .empty 1 = .ok (some ⟨1, 0, .empty, false⟩))
  have hAdvanced : Step (fun _ => ⟨0, id⟩) ⟨firstLog, [{ creation with seq := 1 }], .empty, some ⟨1, 0, .empty, false⟩⟩
      ⟨firstLog, [{ creation with seq := 1 }], .empty, some ⟨1, 1, firstFold, false⟩⟩ :=
    .advanced rfl rfl rfl
  have hStored : Step (fun _ => ⟨0, id⟩) ⟨firstLog, [{ creation with seq := 1 }], .empty, some ⟨1, 1, firstFold, false⟩⟩
      ⟨firstLog, [{ creation with seq := 1 }], ⟨[firstSnapshot], nodup_singleton _⟩, none⟩ :=
    .stored rfl rfl (rfl : SnapshotRepo.insert .empty 0 9 1 firstFold.state = .ok ⟨[firstSnapshot], nodup_singleton _⟩)
  have hFresh : Fresh idleServer :=
    ⟨rfl, rfl, rfl, fun _ hMem => absurd hMem (KeyedTable.not_mem_empty _), rfl⟩
  exact snapshot_shows_log (fun _ => ⟨0, id⟩) hFresh
    ((((Relation.ReflTransGen.single hAppended).tail hBegun).tail hAdvanced).tail hStored)
    (KeyedTable.mem_rows.mp (mem_singleton_self firstSnapshot)) rfl

end SnapshotServer
end Daruma
