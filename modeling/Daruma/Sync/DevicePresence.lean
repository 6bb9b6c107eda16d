import Daruma.Library.KeyedTable
import Daruma.Library.Transition
import Daruma.Shared.Ids

/-! Which devices are connected. The hub counts the sockets of a device in a map that
locks one operation at a time; the end of a socket takes two of them. -/
namespace Daruma

open List KeyedTable
namespace Presence

open Transition

structure DeviceCount where
  device : DeviceId
  count : Nat
  deriving DecidableEq

abbrev Devices := KeyedTable DeviceId DeviceCount DeviceCount.device

def deviceConnected (devices : Devices) (id : DeviceId) : Devices :=
  match devices.find? id with
  | some entry => devices.upsert { entry with count := entry.count + 1 }
  | none => devices.upsert ⟨id, 1⟩

/-- The first operation of a disconnect: take one from a count above one. Otherwise
the entry is left to the second. -/
def takeOne (devices : Devices) (id : DeviceId) : Option Devices :=
  match devices.find? id with
  | some entry => if 1 < entry.count then some (devices.upsert { entry with count := entry.count - 1 }) else none
  | none => none

def connectedDevices (devices : Devices) : List DeviceId := devices.rows.map DeviceCount.device

/-- How far a socket is. A closing one has read its count, and removes the entry next. -/
inductive Phase where
  | connected | closing | disconnected
  deriving DecidableEq

/-- A socket that told the hub of its device. -/
structure Socket where
  device : DeviceId
  phase : Phase
  deriving DecidableEq

structure World where
  devices : Devices
  sockets : List Socket

def init : World := ⟨.empty, []⟩

inductive Action where
  | connect (device : DeviceId)
  /-- The first operation of the disconnect of a socket. -/
  | disconnect (place : Nat)
  /-- The second one. -/
  | remove (place : Nat)

def settle (world : World) (place : Nat) (socket : Socket) (phase : Phase) : List Socket :=
  world.sockets.set place { socket with phase := phase }

/-- One operation on the map, where it can happen. -/
def step (world : World) : Action → Option World
  | .connect device => some ⟨deviceConnected world.devices device, world.sockets ++ [⟨device, .connected⟩]⟩
  | .disconnect place =>
    match world.sockets[place]? with
    | some socket =>
      if socket.phase = .connected then
        match takeOne world.devices socket.device with
        | some devices => some ⟨devices, settle world place socket .disconnected⟩
        | none => some ⟨world.devices, settle world place socket .closing⟩
      else none
    | none => none
  | .remove place =>
    match world.sockets[place]? with
    | some socket =>
      if socket.phase = .closing then
        some ⟨world.devices.erase socket.device, settle world place socket .disconnected⟩
      else none
    | none => none

def number (world : World) (device : DeviceId) (phase : Phase) : Nat := world.sockets.count ⟨device, phase⟩

def connects (world : World) (device : DeviceId) : Nat :=
  (world.sockets.filter fun socket => socket.device = device).length

def disconnects (world : World) (device : DeviceId) : Nat := number world device .disconnected

/-- No disconnect stands between its two operations. -/
def Quiet (world : World) : Prop := ∀ device, number world device .closing = 0

/-- The map lists the devices with more connects than disconnects, with the difference. -/
def Counts (world : World) : Prop :=
  ∀ device, (device ∈ connectedDevices world.devices ↔ disconnects world device < connects world device) ∧
    ∀ entry, world.devices.find? device = some entry → entry.count + disconnects world device = connects world device

/-- One operation of a run. -/
def Does (world after : World) : Prop := ∃ action, step world action = some after

/-- A device does not connect while its entry is about to be removed. -/
def Apart (world : World) : Action → Prop
  | .connect device => number world device .closing = 0
  | _ => True

def DoesApart (world after : World) : Prop := ∃ action, Apart world action ∧ step world action = some after

variable {devices : Devices} {world after : World} {id device : DeviceId}

def entryCount (devices : Devices) (id : DeviceId) : Option Nat := (devices.find? id).map DeviceCount.count

theorem entryCount_upsert (entry : DeviceCount) :
    entryCount (devices.upsert entry) id = if entry.device = id then some entry.count else entryCount devices id := by
  unfold entryCount
  rw [find?_upsert]
  split <;> rfl

theorem entryCount_connected : entryCount (deviceConnected devices device) id =
      if device = id then some ((entryCount devices id).getD 0 + 1) else entryCount devices id := by
  unfold deviceConnected
  split
  · rename_i entry hEntry
    have hDevice : entry.device = device := key_of_find? hEntry
    rw [entryCount_upsert]
    dsimp only
    rw [hDevice]
    split
    · rename_i hSame
      subst hSame
      unfold entryCount
      rw [hEntry]
      rfl
    · rfl
  · rename_i hNone
    rw [entryCount_upsert]
    dsimp only
    split
    · rename_i hSame
      subst hSame
      unfold entryCount
      rw [hNone]
      rfl
    · rfl

theorem entryCount_erase :
    entryCount (devices.erase device) id = if device = id then none else entryCount devices id := by
  unfold entryCount
  split
  · rename_i hSame
    subst hSame
    rw [find?_erase_self]
    rfl
  · rename_i hOther
    rw [find?_erase_of_ne devices (Ne.symm hOther)]

theorem takeOne_cases (devices : Devices) (device : DeviceId) :
    (∃ taken count, takeOne devices device = some taken ∧ entryCount devices device = some (count + 2) ∧
      ∀ id, entryCount taken id = if device = id then some (count + 1) else entryCount devices id) ∨
    (takeOne devices device = none ∧ (entryCount devices device).getD 0 ≤ 1) := by
  unfold takeOne entryCount
  split
  · rename_i entry hEntry
    rw [hEntry]
    have hDevice : entry.device = device := key_of_find? hEntry
    split
    · rename_i hMore
      refine .inl ⟨_, entry.count - 2, rfl, ?_, fun id => ?_⟩
      · exact congrArg some (by omega)
      · have hCount : entry.count - 2 + 1 = entry.count - 1 := by omega
        rw [hCount, ← hDevice]
        exact entryCount_upsert { entry with count := entry.count - 1 }
    · rename_i hFew
      exact .inr ⟨rfl, Nat.le_of_not_lt hFew⟩
  · rename_i hNone
    rw [hNone]
    exact .inr ⟨rfl, Nat.zero_le _⟩

theorem number_connect (phase : Phase) : number ⟨devices, world.sockets ++ [⟨device, .connected⟩]⟩ id phase =
      number world id phase + if device = id ∧ phase = .connected then 1 else 0 := by
  unfold number
  rw [count_append, count_singleton]
  congr 1
  simp only [beq_iff_eq, Socket.mk.injEq, eq_comm (a := phase)]

theorem number_set {place : Nat} {socket moved : Socket} (hSocket : world.sockets[place]? = some socket) (phase : Phase) :
    number ⟨devices, world.sockets.set place moved⟩ id phase + (if socket = ⟨id, phase⟩ then 1 else 0) =
      number world id phase + if moved = ⟨id, phase⟩ then 1 else 0 := by
  obtain ⟨hBound, rfl⟩ := List.getElem?_eq_some_iff.mp hSocket
  have hSet := @count_set Socket _ moved ⟨id, phase⟩ world.sockets place hBound
  have hHeld : world.sockets[place] = ⟨id, phase⟩ → 0 < world.sockets.count ⟨id, phase⟩ := fun hIs =>
    count_pos_iff.mpr (hIs ▸ getElem_mem hBound)
  simp only [beq_iff_eq] at hSet
  unfold number
  rw [hSet]
  split
  · rename_i hIs
    have hPositive := hHeld hIs
    omega
  · omega

theorem connects_eq (world : World) (device : DeviceId) : connects world device =
      number world device .connected + number world device .closing + number world device .disconnected := by
  obtain ⟨devices, sockets⟩ := world
  unfold connects number
  dsimp only
  induction sockets with
  | nil => rfl
  | cons socket rest ih =>
    obtain ⟨other, phase⟩ := socket
    rw [filter_cons]
    by_cases hSame : other = device
    · subst hSame
      cases phase <;> simp [count_cons, ih] <;> omega
    · simp [count_cons, hSame, ih]

structure Kept (world : World) (device : DeviceId) : Prop where
  count : (entryCount world.devices device).getD 0 = number world device .connected + number world device .closing
  positive : entryCount world.devices device ≠ some 0
  last : number world device .closing = 0 ∨ number world device .closing = 1 ∧ number world device .connected = 0

theorem Kept.connect (h : Kept world id) (hApart : number world device .closing = 0) :
    Kept ⟨deviceConnected world.devices device, world.sockets ++ [⟨device, .connected⟩]⟩ id := by
  have hConnected := @number_connect (deviceConnected world.devices device) world id device .connected
  have hClosing := @number_connect (deviceConnected world.devices device) world id device .closing
  have hEntry := @entryCount_connected world.devices id device
  obtain ⟨hCount, hPositive, hLast⟩ := h
  by_cases hSame : device = id
  · subst hSame
    simp only [if_true, true_and, reduceCtorEq, if_false, Nat.add_zero] at hConnected hClosing hEntry
    refine ⟨?_, ?_, .inl (hClosing.trans hApart)⟩
    · rw [hEntry, hConnected, hClosing, Option.getD_some]
      omega
    · rw [hEntry]
      simp
  · simp only [hSame, if_false, false_and, Nat.add_zero] at hConnected hClosing hEntry
    exact ⟨by rw [hEntry, hConnected, hClosing, hCount], by rwa [hEntry], by rwa [hConnected, hClosing]⟩

variable {place : Nat}

theorem Kept.disconnect (h : Kept world id) (hSocket : world.sockets[place]? = some ⟨device, .connected⟩)
    {left : Devices} {phase : Phase}
    (hTakes : (∃ count, entryCount world.devices device = some (count + 2) ∧ phase = .disconnected ∧
        ∀ id, entryCount left id = if device = id then some (count + 1) else entryCount world.devices id) ∨
      ((entryCount world.devices device).getD 0 ≤ 1 ∧ phase = .closing ∧ left = world.devices)) :
    Kept ⟨left, world.sockets.set place ⟨device, phase⟩⟩ id := by
  have hConnected := @number_set left world id place _ ⟨device, phase⟩ hSocket .connected
  have hClosing := @number_set left world id place _ ⟨device, phase⟩ hSocket .closing
  obtain ⟨hCount, hPositive, hLast⟩ := h
  by_cases hSame : device = id
  · subst hSame
    obtain ⟨count, hEntry, rfl, hLeft⟩ | ⟨hFew, rfl, rfl⟩ := hTakes
    · simp only [Socket.mk.injEq, true_and, reduceCtorEq, if_true, if_false, Nat.add_zero] at hConnected hClosing
      rw [hEntry, Option.getD_some] at hCount
      have hOwn := hLeft device
      rw [if_pos rfl] at hOwn
      refine ⟨?_, ?_, ?_⟩
      · rw [hOwn, Option.getD_some]
        omega
      · rw [hOwn]
        simp
      · omega
    · simp only [Socket.mk.injEq, true_and, reduceCtorEq, if_true, if_false, Nat.add_zero] at hConnected hClosing
      exact ⟨by dsimp only; omega, hPositive, by omega⟩
  · have hEntry : entryCount left id = entryCount world.devices id := by
      obtain ⟨count, _, _, hLeft⟩ | ⟨_, _, rfl⟩ := hTakes
      · rw [hLeft id, if_neg hSame]
      · rfl
    simp only [Socket.mk.injEq, hSame, false_and, if_false, Nat.add_zero] at hConnected hClosing
    exact ⟨by rw [hEntry, hConnected, hClosing, hCount], by rwa [hEntry], by rwa [hConnected, hClosing]⟩

theorem Kept.remove (h : Kept world id) (hSocket : world.sockets[place]? = some ⟨device, .closing⟩) :
    Kept ⟨world.devices.erase device, world.sockets.set place ⟨device, .disconnected⟩⟩ id := by
  have hConnected := @number_set (world.devices.erase device) world id place _ ⟨device, .disconnected⟩ hSocket .connected
  have hClosing := @number_set (world.devices.erase device) world id place _ ⟨device, .disconnected⟩ hSocket .closing
  have hEntry := @entryCount_erase world.devices id device
  obtain ⟨hCount, hPositive, hLast⟩ := h
  by_cases hSame : device = id
  · subst hSame
    simp only [Socket.mk.injEq, true_and, reduceCtorEq, if_true, if_false, Nat.add_zero] at hConnected hClosing hEntry
    refine ⟨?_, ?_, ?_⟩
    · rw [hEntry, Option.getD_none]
      omega
    · rw [hEntry]
      simp
    · omega
  · simp only [Socket.mk.injEq, hSame, false_and, if_false, Nat.add_zero] at hConnected hClosing hEntry
    exact ⟨by rw [hEntry, hConnected, hClosing, hCount], by rwa [hEntry], by rwa [hConnected, hClosing]⟩

theorem keeps_counts : Preserves DoesApart fun world => ∀ device, Kept world device := by
  rintro world after ⟨action, hApart, hStep⟩ hKept id
  cases action with
  | connect device =>
    cases hStep
    exact (hKept id).connect hApart
  | disconnect place =>
    dsimp only [step] at hStep
    split at hStep
    · rename_i socket hSocket
      obtain ⟨device, phase⟩ := socket
      split at hStep
      · rename_i hConnected
        cases hConnected
        obtain ⟨taken, count, hTaken, hEntry, hLeft⟩ | ⟨hTaken, hFew⟩ := takeOne_cases world.devices device
        · rw [hTaken] at hStep
          cases hStep
          exact (hKept id).disconnect hSocket (.inl ⟨count, hEntry, rfl, hLeft⟩)
        · rw [hTaken] at hStep
          cases hStep
          exact (hKept id).disconnect hSocket (.inr ⟨hFew, rfl, rfl⟩)
      · cases hStep
    · cases hStep
  | remove place =>
    dsimp only [step] at hStep
    split at hStep
    · rename_i socket hSocket
      obtain ⟨device, phase⟩ := socket
      split at hStep
      · rename_i hClosing
        cases hClosing
        cases hStep
        exact (hKept id).remove hSocket
      · cases hStep
    · cases hStep

theorem mem_connectedDevices : id ∈ connectedDevices devices ↔ (entryCount devices id).isSome = true := by
  unfold entryCount
  rw [Option.isSome_map, ← KeyedTable.contains, KeyedTable.contains_iff]
  exact mem_map

theorem Kept.counts (h : ∀ device, Kept world device) (hQuiet : Quiet world) : Counts world := by
  intro device
  obtain ⟨hCount, hPositive, _⟩ := h device
  have hNone := hQuiet device
  have hSum := connects_eq world device
  rw [mem_connectedDevices]
  unfold disconnects
  have hFound : ∀ count, entryCount world.devices device = some count →
      count = number world device .connected ∧ 0 < count := by
    intro count hEntry
    rw [hEntry, Option.getD_some] at hCount
    rw [hEntry] at hPositive
    have hNonzero : count ≠ 0 := fun hZero => hPositive (congrArg some hZero)
    omega
  refine ⟨?_, fun entry hEntry => ?_⟩
  · cases hEntry : entryCount world.devices device with
    | none =>
      rw [hEntry, Option.getD_none] at hCount
      simp only [Option.isSome_none, Bool.false_eq_true, false_iff]
      omega
    | some count =>
      have hIs := hFound count hEntry
      simp only [Option.isSome_some, true_iff]
      omega
  · have hIs := hFound entry.count (by unfold entryCount; rw [hEntry]; rfl)
    omega

theorem init_kept (device : DeviceId) : Kept init device := ⟨rfl, fun h => (by cases h), .inl rfl⟩

/-- In every run in which no device connects while its entry is about to be removed,
the map counts its sockets whenever no disconnect is in progress. -/
theorem devices_counted (hRun : Trace DoesApart init world) (hQuiet : Quiet world) : Counts world :=
  Kept.counts (keeps_counts.trace hRun init_kept) hQuiet

private def phone : DeviceId := ⟨1⟩

private def sockets : List Socket := [⟨phone, .disconnected⟩, ⟨phone, .connected⟩]

private theorem sockets_quiet : Quiet ⟨devices, sockets⟩ := fun device =>
  count_eq_zero_of_not_mem (by simp [sockets])

theorem devices_counted_twice : Counts ⟨⟨[⟨phone, 1⟩], by decide⟩, sockets⟩ :=
  devices_counted (.tail (.tail (.tail .refl ⟨.connect phone, rfl, rfl⟩) ⟨.connect phone, rfl, rfl⟩)
    ⟨.disconnect 0, trivial, rfl⟩) sockets_quiet

/-- A device that connects between the two operations of a disconnect is removed with
the entry of the old socket. -/
theorem connected_device_lost : ¬∀ world, Trace Does init world → Quiet world → Counts world := by
  intro hAll
  have hRun : Trace Does init ⟨.empty, sockets⟩ :=
    .tail (.tail (.tail (.tail .refl ⟨.connect phone, rfl⟩) ⟨.disconnect 0, rfl⟩) ⟨.connect phone, rfl⟩) ⟨.remove 0, rfl⟩
  have hListed := (hAll _ hRun sockets_quiet phone).1.mpr (by decide)
  exact not_mem_nil hListed

end Presence
end Daruma
