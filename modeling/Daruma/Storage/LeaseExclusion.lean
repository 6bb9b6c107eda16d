import Daruma.Library.Transition
import Daruma.Storage.WorkLeaseRepo

/-! Exclusion of work leases. Reservations, expiries and the events of earlier
reservations interleave; an event of a reservation may be applied at any later
time, any number of times. -/
namespace Daruma

open List
namespace WorkLeaseRepo

open Transition

def Contend (instant : Timestamp) (a b : WorkLease) : Prop :=
  (a.agentId ≠ b.agentId ∧ a.projectId = b.projectId) ∧
    (instant ≤ a.expiresAt ∧ instant ≤ b.expiresAt) ∧
    targetsOverlap a.resourceKey b.resourceKey = true ∧ a.mode.conflictsWith b.mode = true

instance (instant : Timestamp) (a b : WorkLease) : Decidable (Contend instant a b) :=
  inferInstanceAs (Decidable (_ ∧ _))

variable {instant now expiresAt : Timestamp} {a b row : WorkLease} {before after : WorkLeases} {agentId : AgentId}
  {projectId : Option ProjectId} {requested : List String} {mode : LeaseMode} {db db' : Database} {taskId : TaskId}
  {env : Env} {leases : List WorkLease} {envelope : EventEnvelope} {world : LeaseWorld}

theorem Contend.symm (h : Contend instant a b) : Contend instant b a := by
  obtain ⟨⟨hAgent, hProject⟩, ⟨hA, hB⟩, hOverlap, hModes⟩ := h
  exact ⟨⟨hAgent.symm, hProject.symm⟩, ⟨hB, hA⟩, targetsOverlap_comm _ _ ▸ hOverlap,
    LeaseMode.conflictsWith_comm _ _ ▸ hModes⟩

theorem Contend.earlier {earlier later : Timestamp} (h : Contend later a b)
    (hLe : earlier ≤ later) : Contend earlier a b :=
  ⟨h.1, ⟨Int.le_trans hLe h.2.1.1, Int.le_trans hLe h.2.1.2⟩, h.2.2⟩

/-- No two leases of the table contend. -/
def Exclusive (leases : WorkLeases) (instant : Timestamp) : Prop :=
  ∀ a ∈ leases, ∀ b ∈ leases, ¬Contend instant a b

theorem Exclusive.later {leases : WorkLeases} {earlier later : Timestamp}
    (h : Exclusive leases earlier) (hLe : earlier ≤ later) : Exclusive leases later :=
  fun a hA b hB hContend => h a hA b hB (hContend.earlier hLe)

theorem Exclusive.of_subset
    (h : Exclusive before instant) (hSub : ∀ row ∈ after, row ∈ before) : Exclusive after instant :=
  fun a hA b hB => h a (hSub a hA) b (hSub b hB)

theorem Exclusive.add {added : List WorkLease}
    (h : Exclusive before instant) (hAfter : ∀ row ∈ after, row ∈ before ∨ row ∈ added)
    (hHolder : ∀ a ∈ added, ∀ b ∈ added, a.agentId = b.agentId)
    (hFree : ∀ a ∈ added, ∀ b ∈ before, ¬Contend instant a b) : Exclusive after instant := by
  intro a hA b hB hContend
  rcases hAfter a hA with hA | hA <;> rcases hAfter b hB with hB | hB
  · exact h a hA b hB hContend
  · exact hFree b hB a hA hContend.symm
  · exact hFree a hA b hB hContend
  · exact hContend.1.1 (hHolder a hA b hB)

theorem findConflict_eq_none_iff {leases : WorkLeases} :
    findConflict (contenders leases now agentId projectId) requested mode = none ↔
      ∀ row ∈ leases, now ≤ row.expiresAt → row.agentId ≠ agentId → row.projectId = projectId →
        mode.conflictsWith row.mode = true → ∀ req ∈ requested,
          targetsOverlap req row.resourceKey = false := by
  simp only [findConflict, contenders, findSome?_eq_none_iff, mem_filter, KeyedTable.mem_rows,
    Bool.and_eq_true, decide_eq_true_eq, Bool.not_eq_true', ite_eq_left_iff, Bool.not_eq_false,
    Option.map_eq_none_iff, find?_eq_none, Bool.not_eq_true]
  constructor
  · intro h row hRow hLive hAgent hProject hMode
    exact h row ⟨hRow, ⟨hLive, hAgent⟩, hProject⟩ hMode
  · rintro h row ⟨hRow, ⟨hLive, hAgent⟩, hProject⟩ hMode
    exact h row hRow hLive hAgent hProject hMode

/-- What a request grants: fresh leases of the requester on the requested targets. -/
structure GrantedTo (agentId : AgentId) (projectId : Option ProjectId) (mode : LeaseMode)
    (requested : List String) (lease : WorkLease) : Prop where
  agentId : lease.agentId = agentId
  projectId : lease.projectId = projectId
  mode : lease.mode = mode
  resourceKey : lease.resourceKey ∈ requested

theorem grantTarget_ok {id : WorkLeaseId} {req : String} {lease : WorkLease}
    (h : grantTarget db agentId taskId projectId mode now expiresAt id req = .ok (lease, db')) :
    GrantedTo agentId projectId mode [req] lease ∧ lease.id = id ∧
      ∀ row ∈ db'.workLeases, row ∈ db.workLeases ∨ row = lease := by
  unfold grantTarget at h
  dsimp only at h
  split at h
  · rename_i hFree
    cases h
    refine ⟨⟨rfl, rfl, rfl, mem_singleton_self _⟩, rfl, fun row hRow => ?_⟩
    rcases (KeyedTable.mem_append (h := hFree)).mp hRow with hOld | hNew
    · exact Or.inl (KeyedTable.mem_filter.mp hOld).1
    · exact Or.inr hNew
  · cases h

theorem grantTargets_ok {n : Nat}
    (h : grantTargets db env agentId taskId projectId mode expiresAt n requested = .ok (leases, db')) :
    (∀ lease ∈ leases, GrantedTo agentId projectId mode requested lease) ∧
      leases.map WorkLease.id = (List.range' n requested.length).map env.fresh ∧
      ∀ row ∈ db'.workLeases, row ∈ db.workLeases ∨ row ∈ leases := by
  induction requested generalizing db leases n with
  | nil =>
    cases h
    exact ⟨fun _ hLease => absurd hLease not_mem_nil, rfl, fun _ hRow => Or.inl hRow⟩
  | cons req rest ih =>
    unfold grantTargets at h
    split at h
    · cases h
    · rename_i lease middle hFirst
      split at h
      · cases h
      · rename_i later last hRest
        cases h
        obtain ⟨hGrant, hId, hRows⟩ := grantTarget_ok hFirst
        obtain ⟨hGrants, hIds, hRows'⟩ := ih hRest
        refine ⟨?_, by simp [hId, hIds, List.range'_succ], fun row hRow => ?_⟩
        · intro granted hGranted
          rcases mem_cons.mp hGranted with rfl | hLater
          · exact ⟨hGrant.agentId, hGrant.projectId, hGrant.mode,
              mem_cons.mpr (Or.inl (mem_singleton.mp hGrant.resourceKey))⟩
          · have hLater := hGrants granted hLater
            exact ⟨hLater.agentId, hLater.projectId, hLater.mode,
              mem_cons_of_mem _ hLater.resourceKey⟩
        · rcases hRows' row hRow with hMiddle | hLater
          · rcases hRows row hMiddle with hOld | rfl
            · exact Or.inl hOld
            · exact Or.inr mem_cons_self
          · exact Or.inr (mem_cons_of_mem _ hLater)

def ReserveOutcome.granted : ReserveOutcome → List WorkLease
  | .reserved leases => leases
  | .conflict .. => []

/-- What a reservation does to the table: nothing, or it adds leases of one
agent that contend with none of the rows there. -/
structure Reserves (db db' : Database) (env : Env) (granted : List WorkLease) : Prop where
  holder : ∀ a ∈ granted, ∀ b ∈ granted, a.agentId = b.agentId
  ids : ∃ count, granted.map WorkLease.id = (List.range count).map env.fresh
  rows : ∀ row ∈ db'.workLeases, row ∈ db.workLeases ∨ row ∈ granted
  free : ∀ a ∈ granted, ∀ b ∈ db.workLeases, ¬Contend env.now a b

theorem tryReserveTargets_reserves {targets : List String} {ttl : Duration} {outcome : ReserveOutcome}
    (h : tryReserveTargets db env agentId taskId projectId targets mode ttl = .ok (outcome, db')) :
    Reserves db db' env outcome.granted := by
  unfold tryReserveTargets at h
  dsimp only at h
  split at h
  · cases h
    exact ⟨fun _ hA => absurd hA not_mem_nil, ⟨0, rfl⟩, fun _ hRow => Or.inl hRow,
      fun _ hA => absurd hA not_mem_nil⟩
  · rename_i hScan
    split at h
    · cases h
    · rename_i leases last hGrants
      cases h
      obtain ⟨hGrant, hIds, hRows⟩ := grantTargets_ok hGrants
      refine ⟨fun a hA b hB => (hGrant a hA).agentId.trans (hGrant b hB).agentId.symm,
        ⟨_, by rw [ReserveOutcome.granted, hIds, range_eq_range']⟩, hRows, ?_⟩
      intro a hA b hB hContend
      obtain ⟨⟨hAgent, hProject⟩, ⟨_, hLive⟩, hOverlap, hModes⟩ := hContend
      have hGrantA := hGrant a hA
      rw [hGrantA.agentId] at hAgent
      rw [hGrantA.projectId] at hProject
      rw [hGrantA.mode] at hModes
      have hNone := findConflict_eq_none_iff.mp hScan b hB hLive hAgent.symm hProject.symm hModes _
        hGrantA.resourceKey
      rw [hNone] at hOverlap
      cases hOverlap

/-- A database, the instant it is, and the reservations made so far, whose
events are applied later. -/
structure LeaseWorld where
  db : Database
  clock : Timestamp
  grants : List (List WorkLease)

/-- Nothing reserved yet. -/
def LeaseWorld.initial (clock : Timestamp) : LeaseWorld := ⟨Database.empty, clock, []⟩

/-- An identifier is minted once. -/
def Fresh (env : Env) (grants : List (List WorkLease)) : Prop :=
  Function.Injective env.uuid ∧ ∀ leases ∈ grants, ∀ lease ∈ leases, ∀ n, lease.id ≠ env.fresh n

/-- The events that the run has produced: the reservations that were made, and
any release or task event. -/
def Produced (grants : List (List WorkLease)) : Event → Prop
  | .lease (.filesReserved leases) => leases ∈ grants
  | _ => True

/-- One step of an interleaving in which the events that are applied satisfy a
condition. A reservation or a sweep uses the instant it read when it started. -/
inductive LeaseStep (allowed : LeaseWorld → Event → Prop) : LeaseWorld → LeaseWorld → Prop where
  | reserve {world : LeaseWorld} {db' : Database} {outcome : ReserveOutcome} (env : Env)
      (agentId : AgentId) (taskId : TaskId) (projectId : Option ProjectId) (targets : List String)
      (mode : LeaseMode) (ttl : Duration) (hNow : env.now ≤ world.clock)
      (hFresh : Fresh env world.grants)
      (h : tryReserveTargets world.db env agentId taskId projectId targets mode ttl =
        .ok (outcome, db')) :
      LeaseStep allowed world ⟨db', world.clock, outcome.granted :: world.grants⟩
  | applied {world : LeaseWorld} (envelope : EventEnvelope)
      (hProduced : Produced world.grants envelope.payload) (hAllowed : allowed world envelope.payload) :
      LeaseStep allowed world { world with db := applyEvent world.db envelope }
  | sweep {world : LeaseWorld} (now : Timestamp) (hNow : now ≤ world.clock) :
      LeaseStep allowed world { world with db := (sweepExpired world.db now).2 }
  | tick {world : LeaseWorld} {later : Timestamp} (h : world.clock ≤ later) :
      LeaseStep allowed world { world with clock := later }
  | elsewhere {world : LeaseWorld} {db' : Database} (h : db'.workLeases = world.db.workLeases) :
      LeaseStep allowed world { world with db := db' }

/-- The scan that a reservation makes finds nothing against the unexpired leases
of an event. Leases whose rows are still in the table pass it. -/
def Admissible (world : LeaseWorld) : Event → Prop
  | .lease (.filesReserved leases) => ∀ lease ∈ leases, world.clock ≤ lease.expiresAt →
      findConflict (contenders world.db.workLeases world.clock lease.agentId lease.projectId)
        [lease.resourceKey] lease.mode = none
  | _ => True

theorem mem_foldl_applyReserved
    (h : row ∈ (leases.foldl applyReserved db).workLeases) : row ∈ db.workLeases ∨ row ∈ leases := by
  induction leases generalizing db with
  | nil => exact Or.inl h
  | cons lease rest ih =>
    rcases ih h with hDb | hRest
    · rcases KeyedTable.mem_insertOrReplace.mp hDb with rfl | ⟨hOld, _⟩
      · exact Or.inr mem_cons_self
      · exact Or.inl hOld
    · exact Or.inr (mem_cons_of_mem _ hRest)

theorem foldl_applyReserved_keeps
    (h : row ∈ db.workLeases) (hOther : ∀ lease ∈ leases, row.id = lease.id → row = lease) :
    row ∈ (leases.foldl applyReserved db).workLeases := by
  induction leases generalizing db with
  | nil => exact h
  | cons lease rest ih =>
    obtain ⟨hLease, hRest⟩ := forall_mem_cons.mp hOther
    refine ih (KeyedTable.mem_insertOrReplace.mpr ?_) hRest
    by_cases hId : row.id = lease.id
    · exact Or.inl (hLease hId)
    · exact Or.inr ⟨h, hId⟩

theorem foldl_applyReserved_has (h : row ∈ leases) (hIds : ∀ lease ∈ leases, row.id = lease.id → row = lease) :
    row ∈ (leases.foldl applyReserved db).workLeases := by
  induction leases generalizing db with
  | nil => exact absurd h not_mem_nil
  | cons lease rest ih =>
    obtain ⟨_, hRest⟩ := forall_mem_cons.mp hIds
    rw [foldl_cons]
    rcases mem_cons.mp h with rfl | hLater
    · exact foldl_applyReserved_keeps (KeyedTable.mem_insertOrReplace.mpr (Or.inl rfl)) hRest
    · exact ih hLater hRest

theorem mem_releaseLeases {ids : List WorkLeaseId} (h : row ∈ (releaseLeases db agentId taskId ids).workLeases) :
    row ∈ db.workLeases := by
  induction ids generalizing db with
  | nil => exact h
  | cons id rest ih => exact (KeyedTable.mem_filter.mp (ih h)).1

theorem mem_applyEvent (h : row ∈ (applyEvent db envelope).workLeases) :
    row ∈ db.workLeases ∨ ∃ leases, envelope.payload = .lease (.filesReserved leases) ∧ row ∈ leases := by
  unfold applyEvent at h
  split at h
  · rename_i leases hPayload
    exact (mem_foldl_applyReserved h).imp_right fun hRow => ⟨leases, hPayload, hRow⟩
  · exact Or.inl (KeyedTable.mem_filter.mp h).1
  · exact Or.inl (mem_releaseLeases h)
  · exact Or.inl (KeyedTable.mem_filter.mp h).1
  · exact Or.inl h

/-- The identifiers tell granted leases apart, a reservation is of one agent,
and every row was granted. -/
structure LeaseInvariant (world : LeaseWorld) : Prop where
  holder : ∀ leases ∈ world.grants, ∀ a ∈ leases, ∀ b ∈ leases, a.agentId = b.agentId
  ids : ∀ leases ∈ world.grants, ∀ a ∈ leases, ∀ leases' ∈ world.grants, ∀ b ∈ leases',
    a.id = b.id → a = b
  granted : ∀ row ∈ world.db.workLeases, ∃ leases ∈ world.grants, row ∈ leases

theorem LeaseInvariant.initial (clock : Timestamp) : LeaseInvariant (.initial clock) :=
  ⟨fun _ h => absurd h not_mem_nil, fun _ h => absurd h not_mem_nil,
    fun _ h => absurd h (KeyedTable.not_mem_empty _)⟩

theorem LeaseInvariant.of_subset {clock : Timestamp}
    (h : LeaseInvariant world) (hSub : ∀ row ∈ db'.workLeases, row ∈ world.db.workLeases) :
    LeaseInvariant ⟨db', clock, world.grants⟩ :=
  ⟨h.holder, h.ids, fun row hRow => h.granted row (hSub row hRow)⟩

theorem LeaseInvariant.reserve {world : LeaseWorld} {db' : Database} {env : Env}
    {granted : List WorkLease} (h : LeaseInvariant world) (hFresh : Fresh env world.grants)
    (hReserves : Reserves world.db db' env granted) : LeaseInvariant ⟨db', world.clock, granted :: world.grants⟩ := by
  obtain ⟨count, hIds⟩ := hReserves.ids
  have hMinted : ∀ lease ∈ granted, ∃ n, lease.id = env.fresh n := by
    intro lease hLease
    have hMem : lease.id ∈ granted.map WorkLease.id := mem_map_of_mem hLease
    rw [hIds] at hMem
    obtain ⟨n, _, hId⟩ := mem_map.mp hMem
    exact ⟨n, hId.symm⟩
  have hNodup : (granted.map WorkLease.id).Nodup := by
    rw [hIds]
    exact List.Nodup.map (fun n m hSame => hFresh.1 (congrArg Id.uuid hSame)) nodup_range
  refine ⟨?_, ?_, ?_⟩
  · intro leases hLeases
    rcases mem_cons.mp hLeases with rfl | hOld
    · exact hReserves.holder
    · exact h.holder leases hOld
  · intro leases hLeases a hA leases' hLeases' b hB hSame
    rcases mem_cons.mp hLeases with rfl | hOld <;> rcases mem_cons.mp hLeases' with rfl | hOld'
    · exact inj_on_of_nodup_map hNodup hA hB hSame
    · obtain ⟨n, hId⟩ := hMinted a hA
      exact absurd (hSame.symm.trans hId) (hFresh.2 leases' hOld' b hB n)
    · obtain ⟨n, hId⟩ := hMinted b hB
      exact absurd (hSame.trans hId) (hFresh.2 leases hOld a hA n)
    · exact h.ids leases hOld a hA leases' hOld' b hB hSame
  · intro row hRow
    rcases hReserves.rows row hRow with hOld | hNew
    · obtain ⟨leases, hLeases, hMem⟩ := h.granted row hOld
      exact ⟨leases, mem_cons_of_mem _ hLeases, hMem⟩
    · exact ⟨granted, mem_cons_self, hNew⟩

theorem LeaseInvariant.preserved (allowed : LeaseWorld → Event → Prop) :
    Preserves (LeaseStep allowed) LeaseInvariant := by
  intro before after hStep h
  cases hStep with
  | reserve env agentId taskId projectId targets mode ttl hNow hFresh hOk =>
    exact h.reserve hFresh (tryReserveTargets_reserves hOk)
  | applied envelope hProduced =>
    refine ⟨h.holder, h.ids, fun row hRow => ?_⟩
    rcases mem_applyEvent hRow with hOld | ⟨leases, hPayload, hMem⟩
    · exact h.granted row hOld
    · rw [hPayload] at hProduced
      exact ⟨leases, hProduced, hMem⟩
  | sweep => exact h.of_subset fun row hRow => (KeyedTable.mem_filter.mp hRow).1
  | tick => exact h.of_subset fun row hRow => hRow
  | elsewhere hSame => exact h.of_subset fun row hRow => hSame ▸ hRow

/-- The scan against one lease rules out the rows that contend with it. -/
theorem admissible_iff : Admissible world (.lease (.filesReserved leases)) ↔
      ∀ a ∈ leases, ∀ b ∈ world.db.workLeases, ¬Contend world.clock a b := by
  simp only [Admissible, findConflict_eq_none_iff, mem_singleton, forall_eq, Contend]
  constructor
  · rintro h a hA b hB ⟨⟨hAgent, hProject⟩, ⟨hLiveA, hLiveB⟩, hOverlap, hModes⟩
    rw [h a hA hLiveA b hB hLiveB hAgent.symm hProject.symm hModes] at hOverlap
    cases hOverlap
  · intro h a hA hLiveA b hB hLiveB hAgent hProject hModes
    by_contra hOverlap
    exact h a hA b hB ⟨⟨hAgent.symm, hProject.symm⟩, ⟨hLiveA, hLiveB⟩, by simpa using hOverlap, hModes⟩

theorem exclusive_applied_iff (hInv : LeaseInvariant world) (h : Exclusive world.db.workLeases world.clock)
    (hProduced : Produced world.grants envelope.payload) :
    Exclusive (applyEvent world.db envelope).workLeases world.clock ↔
      Admissible world envelope.payload := by
  by_cases hPayload : ∃ leases, envelope.payload = .lease (.filesReserved leases)
  · obtain ⟨leases, hPayload⟩ := hPayload
    have hApplied : applyEvent world.db envelope = leases.foldl applyReserved world.db := by
      rw [applyEvent, hPayload]
    rw [hPayload] at hProduced
    rw [hPayload, hApplied, admissible_iff]
    constructor
    · intro hAfter a hA b hB hContend
      have hHas : a ∈ (leases.foldl applyReserved world.db).workLeases :=
        foldl_applyReserved_has hA fun lease hLease =>
          hInv.ids leases hProduced a hA leases hProduced lease hLease
      obtain ⟨origin, hOrigin, hGranted⟩ := hInv.granted b hB
      have hKept : b ∈ (leases.foldl applyReserved world.db).workLeases :=
        foldl_applyReserved_keeps hB fun lease hLease =>
          hInv.ids origin hOrigin b hGranted leases hProduced lease hLease
      exact hAfter a hHas b hKept hContend
    · intro hFree
      exact h.add (fun row hRow => mem_foldl_applyReserved hRow) (hInv.holder leases hProduced) hFree
  · have hAdmissible : Admissible world envelope.payload := by
      unfold Admissible
      split
      · rename_i leases hReserved
        exact absurd ⟨leases, hReserved⟩ hPayload
      · trivial
    refine iff_of_true (h.of_subset fun row hRow => ?_) hAdmissible
    rcases mem_applyEvent hRow with hOld | ⟨leases, hReserved, _⟩
    · exact hOld
    · exact absurd ⟨leases, hReserved⟩ hPayload

theorem exclusive_preserved : Preserves (LeaseStep Admissible)
    fun world => LeaseInvariant world ∧ Exclusive world.db.workLeases world.clock := by
  refine (LeaseInvariant.preserved Admissible).and_of fun before after hStep hInv h => ?_
  cases hStep with
  | reserve env agentId taskId projectId targets mode ttl hNow hFresh hOk =>
    have hReserves := tryReserveTargets_reserves hOk
    exact h.add hReserves.rows hReserves.holder fun a hA b hB hContend =>
      hReserves.free a hA b hB (hContend.earlier hNow)
  | applied envelope hProduced hAllowed => exact (exclusive_applied_iff hInv h hProduced).mpr hAllowed
  | sweep => exact h.of_subset fun row hRow => (KeyedTable.mem_filter.mp hRow).1
  | tick hLe => exact h.later hLe
  | elsewhere hSame => exact h.of_subset fun row hRow => hSame ▸ hRow

/-- Leases exclude each other in every state of a run whose events pass the
scan; and in each such state the next event of a reservation keeps them
exclusive only if it passes the scan. -/
theorem lease_exclusion {clock : Timestamp} {world : LeaseWorld}
    (run : Trace (LeaseStep Admissible) (.initial clock) world) : Exclusive world.db.workLeases world.clock ∧
      ∀ envelope : EventEnvelope, Produced world.grants envelope.payload →
        (Exclusive (applyEvent world.db envelope).workLeases world.clock ↔
          Admissible world envelope.payload) := by
  have hStart : Exclusive (LeaseWorld.initial clock).db.workLeases clock :=
    fun _ hA => absurd hA (KeyedTable.not_mem_empty _)
  obtain ⟨hInv, hExclusive⟩ := exclusive_preserved.trace run ⟨.initial clock, hStart⟩
  exact ⟨hExclusive, fun envelope hProduced => exclusive_applied_iff hInv hExclusive hProduced⟩

private def lateEnv (start : Nat) : Env := ⟨0, fun n => start + n⟩

private theorem lateEnv_fresh {start : Nat} {grants : List (List WorkLease)}
    (h : ∀ leases ∈ grants, ∀ lease ∈ leases, lease.id.uuid < start) : Fresh (lateEnv start) grants := by
  refine ⟨fun n m hSame => Nat.add_left_cancel hSame, fun leases hLeases lease hLease n hSame => ?_⟩
  have hLt := h leases hLeases lease hLease
  rw [hSame] at hLt
  exact absurd hLt (Nat.not_lt.mpr (Nat.le_add_right start n))

private def firstLease : WorkLease :=
  ⟨⟨10⟩, ⟨1⟩, ⟨5⟩, none, "src/a.rs", some "file://src/a.rs", .exclusive, some 1, 0, 60⟩

private def secondLease : WorkLease :=
  ⟨⟨20⟩, ⟨2⟩, ⟨6⟩, none, "src", some "file://src", .exclusive, some 1, 0, 60⟩

private def firstReserved : EventEnvelope :=
  .new ⟨30⟩ 0 .anyUser (.lease (.filesReserved [firstLease]))

private def firstReleased : EventEnvelope :=
  .new ⟨31⟩ 0 .anyUser (.lease (.filesReleased ⟨1⟩ ⟨5⟩ none))

private def firstWorld : LeaseWorld :=
  ⟨{ Database.empty with
      workLeases := Database.empty.workLeases.upsert firstLease
      leaseFencing := Database.empty.leaseFencing.upsert ⟨"file://src/a.rs", 1⟩ }, 0, [[firstLease]]⟩

private theorem first_step (allowed : LeaseWorld → Event → Prop) : LeaseStep allowed (.initial 0) firstWorld :=
  @LeaseStep.reserve _ (.initial 0) _ (.reserved [firstLease]) (lateEnv 10) ⟨1⟩ ⟨5⟩ none ["./src//a.rs"] .exclusive 60 (Int.le_refl 0)
    (lateEnv_fresh fun _ h => absurd h not_mem_nil) rfl

/-- Agent 1 reserves a file and the event is applied while the row is there. -/
theorem lease_exclusion_reserved : Exclusive firstWorld.db.workLeases 0 ∧
      ∀ envelope : EventEnvelope, Produced [[firstLease]] envelope.payload →
        (Exclusive (applyEvent firstWorld.db envelope).workLeases 0 ↔
          Admissible firstWorld envelope.payload) := by
  have hScan : Admissible firstWorld firstReserved.payload := by
    intro lease hLease _
    rw [mem_singleton.mp hLease]
    decide
  have run : Trace (LeaseStep Admissible) (.initial 0) firstWorld :=
    (Relation.ReflTransGen.single (first_step Admissible)).tail
      (.applied firstReserved mem_cons_self hScan)
  exact lease_exclusion run

private def contestedWorld : LeaseWorld :=
  ⟨{ Database.empty with
      workLeases := Database.empty.workLeases.upsert secondLease
      leaseFencing := firstWorld.db.leaseFencing.upsert ⟨"file://src", 1⟩ }, 0,
    [[secondLease], [firstLease]]⟩

/-- Agent 1 reserves a file and releases it, agent 2 reserves its directory, and
then the event of the first reservation is applied: both leases are live. -/
theorem released_lease_returns : ∃ world, Trace (LeaseStep fun _ _ => True) (.initial 0) world ∧
      ¬Exclusive world.db.workLeases world.clock := by
  have released := (Relation.ReflTransGen.single (first_step fun _ _ => True)).tail
    (.applied firstReleased trivial trivial)
  have granted : Trace (LeaseStep fun _ _ => True) (.initial 0) contestedWorld :=
    released.tail (@LeaseStep.reserve _ _ _ (.reserved [secondLease]) (lateEnv 20) ⟨2⟩ ⟨6⟩ none
      ["src/"] .exclusive 60 (Int.le_refl 0) (lateEnv_fresh (by decide)) rfl)
  have hProduced : Produced contestedWorld.grants firstReserved.payload :=
    mem_cons_of_mem _ mem_cons_self
  refine ⟨_, granted.tail (.applied firstReserved hProduced trivial), fun h => ?_⟩
  exact h firstLease (by decide) secondLease (by decide) (by decide)

end WorkLeaseRepo
end Daruma
