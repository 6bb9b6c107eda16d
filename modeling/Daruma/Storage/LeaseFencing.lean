import Daruma.Storage.LeaseExclusion
import Mathlib.Data.List.Dedup

/-! Fencing tokens. The counter of a resource moves with every grant on it, and
with nothing else, so tokens come out in the order of the grants and the newest
one is the only one that the check accepts. -/
namespace Daruma

open List KeyedTable
namespace WorkLeaseRepo

open Transition

def lastToken (db : Database) (key : String) : Int :=
  ((db.leaseFencing.find? key).map LeaseFencing.seq).getD 0

structure GrantedTarget (db db' : Database) (req : String) (lease : WorkLease) : Prop where
  target : lease.targetUri = some req
  token : lease.fencingToken = some (lastToken db req + 1)
  counter : db'.leaseFencing = db.leaseFencing.upsert ⟨req, lastToken db req + 1⟩
  row : lease ∈ db'.workLeases
  others : ∀ row ∈ db.workLeases, row.targetUri ≠ none → row.targetUri ≠ some req → row ∈ db'.workLeases

variable {db db' : Database} {agentId : AgentId} {taskId : TaskId} {projectId : Option ProjectId} {mode : LeaseMode}
  {now expiresAt : Timestamp} {lease row : WorkLease} {requested targets : List String} {env : Env} {n : Nat}
  {leases : List WorkLease} {ttl : Duration} {outcome : ReserveOutcome} {before after world : LeaseWorld}
  {action : LeaseAction} {token : Int} {key : String}

theorem grantTarget_fenced {id : WorkLeaseId} {req : String}
    (h : grantTarget db agentId taskId projectId mode now expiresAt id req = .ok (lease, db')) :
    GrantedTarget db db' req lease := by
  unfold grantTarget at h
  dsimp only at h
  split at h
  · rename_i hFree
    cases h
    refine ⟨rfl, rfl, rfl, (mem_append (h := hFree)).mpr (Or.inr rfl), ?_⟩
    intro row hRow hSome hOther
    exact (mem_append (h := hFree)).mpr
      (Or.inl (KeyedTable.mem_filter.mpr ⟨hRow, by simp [hSome, hOther]⟩))
  · cases h

structure GrantedTargets (db db' : Database) (requested : List String) (leases : List WorkLease) :
    Prop where
  targets : leases.map WorkLease.targetUri = requested.map some
  token : ∀ lease ∈ leases, ∀ key, lease.targetUri = some key →
    lease.fencingToken = some (lastToken db key + 1)
  granted : ∀ key ∈ requested, db'.leaseFencing.find? key = some ⟨key, lastToken db key + 1⟩
  quiet : ∀ key, key ∉ requested → db'.leaseFencing.find? key = db.leaseFencing.find? key
  rows : ∀ lease ∈ leases, lease ∈ db'.workLeases
  others : ∀ row ∈ db.workLeases, row.targetUri ≠ none →
    (∀ key ∈ requested, row.targetUri ≠ some key) → row ∈ db'.workLeases

theorem GrantedTargets.nil (db : Database) : GrantedTargets db db [] [] := by
  refine ⟨rfl, fun _ h => ?_, fun _ h => ?_, fun _ _ => rfl, fun _ h => ?_, fun _ h _ _ => h⟩ <;>
    exact absurd h not_mem_nil

theorem GrantedTargets.cons {db middle db' : Database} {req : String} {rest : List String}
    {lease : WorkLease} {leases : List WorkLease} (hNew : req ∉ rest)
    (hFirst : GrantedTarget db middle req lease) (hRest : GrantedTargets middle db' rest leases) :
    GrantedTargets db db' (req :: rest) (lease :: leases) := by
  have hCounter : ∀ key, key ≠ req → middle.leaseFencing.find? key = db.leaseFencing.find? key := by
    intro key hKey
    rw [hFirst.counter, find?_upsert, if_neg (Ne.symm hKey)]
  have hLast : ∀ key, key ≠ req → lastToken middle key = lastToken db key := by
    intro key hKey
    rw [lastToken, hCounter key hKey, lastToken]
  have hTargets : ∀ later ∈ leases, ∀ key, later.targetUri = some key → key ∈ rest := by
    intro later hLater key hKey
    have hMem : later.targetUri ∈ rest.map some := hRest.targets ▸ mem_map_of_mem hLater
    rw [hKey] at hMem
    obtain ⟨_, hIn, hSame⟩ := mem_map.mp hMem
    exact Option.some.inj hSame ▸ hIn
  refine ⟨by simp [hFirst.target, hRest.targets], ?_, ?_, ?_, ?_, ?_⟩
  · intro later hLater key hKey
    rcases mem_cons.mp hLater with rfl | hLater
    · rw [hFirst.target] at hKey
      rw [hFirst.token, Option.some.inj hKey]
    · have hNe : key ≠ req := fun hSame => hNew (hSame ▸ hTargets later hLater key hKey)
      rw [hRest.token later hLater key hKey, hLast key hNe]
  · intro key hKey
    rcases mem_cons.mp hKey with rfl | hKey
    · rw [hRest.quiet key hNew, hFirst.counter, find?_upsert, if_pos rfl]
    · have hNe : key ≠ req := fun hSame => hNew (hSame ▸ hKey)
      rw [hRest.granted key hKey, hLast key hNe]
  · intro key hKey
    rw [mem_cons, not_or] at hKey
    rw [hRest.quiet key hKey.2, hCounter key hKey.1]
  · intro later hLater
    rcases mem_cons.mp hLater with rfl | hLater
    · refine hRest.others later hFirst.row (by simp [hFirst.target]) fun key hKey hSame => ?_
      rw [hFirst.target] at hSame
      exact hNew (Option.some.inj hSame ▸ hKey)
    · exact hRest.rows later hLater
  · intro row hRow hSome hOther
    obtain ⟨hReq, hLater⟩ := forall_mem_cons.mp hOther
    exact hRest.others row (hFirst.others row hRow hSome hReq) hSome hLater

theorem grantTargets_fenced (hNodup : requested.Nodup)
    (h : grantTargets db env agentId taskId projectId mode expiresAt n requested = .ok (leases, db')) :
    GrantedTargets db db' requested leases := by
  induction requested generalizing db leases n with
  | nil =>
    cases h
    exact .nil _
  | cons req rest ih =>
    obtain ⟨hNew, hRestNodup⟩ := nodup_cons.mp hNodup
    unfold grantTargets at h
    split at h
    · cases h
    · rename_i lease middle hFirst
      split at h
      · cases h
      · rename_i later last hRest
        cases h
        exact .cons hNew (grantTarget_fenced hFirst) (ih hRestNodup hRest)

def LeasesOnly (before after : Database) : Prop :=
  ∃ workLeases leaseFencing, after = { before with workLeases := workLeases, leaseFencing := leaseFencing }

theorem grantTargets_leasesOnly
    (h : grantTargets db env agentId taskId projectId mode expiresAt n requested = .ok (leases, db')) :
    LeasesOnly db db' := by
  induction requested generalizing db leases n with
  | nil =>
    cases h
    exact ⟨_, _, rfl⟩
  | cons req rest ih =>
    unfold grantTargets at h
    split at h
    · cases h
    · rename_i lease middle hFirst
      split at h
      · cases h
      · rename_i later last hRest
        cases h
        obtain ⟨_, _, rfl⟩ := ih hRest
        unfold grantTarget at hFirst
        dsimp only at hFirst
        split at hFirst
        · cases hFirst
          exact ⟨_, _, rfl⟩
        · cases hFirst

theorem tryReserveTargets_leasesOnly
    (h : tryReserveTargets db env agentId taskId projectId targets mode ttl = .ok (outcome, db')) :
    LeasesOnly db db' := by
  unfold tryReserveTargets at h
  dsimp only at h
  split at h
  · cases h
    exact ⟨_, _, rfl⟩
  · split at h
    · cases h
    · rename_i hGranted
      cases h
      exact grantTargets_leasesOnly hGranted

theorem tryReserveTargets_fenced
    (h : tryReserveTargets db env agentId taskId projectId targets mode ttl = .ok (outcome, db')) :
    ∃ requested, requested.Nodup ∧ GrantedTargets db db' requested outcome.granted := by
  unfold tryReserveTargets at h
  dsimp only at h
  split at h
  · cases h
    exact ⟨[], nodup_nil, .nil db⟩
  · split at h
    · cases h
    · rename_i leases last hGrants
      cases h
      exact ⟨_, nodup_dedup _, grantTargets_fenced (nodup_dedup _) hGrants⟩

/-- What one step does. -/
inductive LeaseAction where
  | reserve (outcome : ReserveOutcome)
  | applied (event : Event)
  | sweep
  | tick
  | elsewhere

/-- A step of an interleaving of reservations, events, expiries and of work that
touches neither the leases nor the counters. -/
inductive ActionStep : LeaseWorld → LeaseAction → LeaseWorld → Prop where
  | reserve {world : LeaseWorld} {db' : Database} {outcome : ReserveOutcome} (env : Env)
      (agentId : AgentId) (taskId : TaskId) (projectId : Option ProjectId) (targets : List String)
      (mode : LeaseMode) (ttl : Duration) (hNow : env.now ≤ world.clock)
      (hFresh : Fresh env world.grants)
      (h : tryReserveTargets world.db env agentId taskId projectId targets mode ttl =
        .ok (outcome, db')) :
      ActionStep world (.reserve outcome) ⟨db', world.clock, outcome.granted :: world.grants⟩
  | applied {world : LeaseWorld} (envelope : EventEnvelope)
      (hProduced : Produced world.grants envelope.payload) :
      ActionStep world (.applied envelope.payload) { world with db := applyEvent world.db envelope }
  | sweep {world : LeaseWorld} (now : Timestamp) (hNow : now ≤ world.clock) :
      ActionStep world .sweep { world with db := (sweepExpired world.db now).2 }
  | tick {world : LeaseWorld} {later : Timestamp} (h : world.clock ≤ later) :
      ActionStep world .tick { world with clock := later }
  | elsewhere {world : LeaseWorld} {db' : Database} (hLeases : db'.workLeases = world.db.workLeases)
      (hFencing : db'.leaseFencing = world.db.leaseFencing) :
      ActionStep world .elsewhere { world with db := db' }

def SomeStep (before after : LeaseWorld) : Prop := ∃ action, ActionStep before action after

theorem ActionStep.leaseStep (h : ActionStep before action after) : LeaseStep (fun _ _ => True) before after := by
  cases h with
  | reserve env agentId taskId projectId targets mode ttl hNow hFresh hOk =>
    exact .reserve env agentId taskId projectId targets mode ttl hNow hFresh hOk
  | applied envelope hProduced => exact .applied envelope hProduced trivial
  | sweep now hNow => exact .sweep now hNow
  | tick hLater => exact .tick hLater
  | elsewhere hLeases hFencing => exact .elsewhere hLeases

theorem ActionStep.clock_le (h : ActionStep before action after) : before.clock ≤ after.clock := by
  cases h with
  | tick hLater => exact hLater
  | _ => exact Int.le_refl _

def Releases (lease : WorkLease) : Event → Prop
  | .lease (.filesReleased agentId taskId ids) =>
    lease.agentId = agentId ∧ lease.taskId = taskId ∧ ∀ named, ids = some named → lease.id ∈ named
  | .task (.taskClosed taskId _ _) => lease.taskId = taskId
  | _ => False

/-- The step ends a lease before it expires: it releases it, or it is a grant, to
anyone and in any mode, on the same resource. -/
def LeaseAction.Supersedes (lease : WorkLease) : LeaseAction → Prop
  | .reserve outcome => ∃ grant ∈ outcome.granted, grant.targetUri = lease.targetUri
  | .applied event => Releases lease event
  | _ => False

def LeaseWorld.issued (world : LeaseWorld) : List WorkLease := world.grants.reverse.flatten

/-- For each resource, every token is greater than the ones issued before it. -/
def TokensIncrease (leases : List WorkLease) : Prop :=
  leases.Pairwise fun earlier later => earlier.targetUri = later.targetUri →
    ∃ token token', earlier.fencingToken = some token ∧ later.fencingToken = some token' ∧ token < token'

/-- Tokens increase, and none issued is beyond its counter. -/
structure FencingInvariant (world : LeaseWorld) : Prop where
  increase : TokensIncrease world.issued
  counted : ∀ lease ∈ world.issued, ∃ key token, lease.targetUri = some key ∧
    lease.fencingToken = some token ∧ token ≤ lastToken world.db key

theorem FencingInvariant.initial (clock : Timestamp) : FencingInvariant (.initial clock) :=
  ⟨List.Pairwise.nil, fun _ h => absurd h not_mem_nil⟩

theorem FencingInvariant.of_counters (h : FencingInvariant world)
    (hGrants : after.grants = world.grants) (hSame : after.db.leaseFencing = world.db.leaseFencing) :
    FencingInvariant after := by
  have hIssued : after.issued = world.issued := by rw [LeaseWorld.issued, hGrants, LeaseWorld.issued]
  refine ⟨hIssued ▸ h.increase, fun lease hLease => ?_⟩
  obtain ⟨key, token, hKey, hToken, hLe⟩ := h.counted lease (hIssued ▸ hLease)
  exact ⟨key, token, hKey, hToken, by rwa [lastToken, hSame, ← lastToken]⟩

theorem GrantedTargets.targets_nodup (h : GrantedTargets db db' requested leases) (hNodup : requested.Nodup) :
    (leases.map WorkLease.targetUri).Nodup := by
  rw [h.targets]
  exact hNodup.map (Option.some_injective _)

theorem GrantedTargets.target_mem (h : GrantedTargets db db' requested leases) {lease : WorkLease}
    (hLease : lease ∈ leases) : ∃ key ∈ requested, lease.targetUri = some key := by
  have hMem : lease.targetUri ∈ requested.map some := h.targets ▸ mem_map_of_mem hLease
  obtain ⟨key, hKey, hSame⟩ := mem_map.mp hMem
  exact ⟨key, hKey, hSame.symm⟩

theorem GrantedTargets.lastToken_le (h : GrantedTargets db db' requested leases) (key : String) :
    lastToken db key ≤ lastToken db' key := by
  by_cases hKey : key ∈ requested
  · have hAfter : lastToken db' key = lastToken db key + 1 := by
      rw [lastToken, h.granted key hKey]
      rfl
    omega
  · rw [lastToken, lastToken, h.quiet key hKey]

theorem FencingInvariant.reserve {world : LeaseWorld} {db' : Database} {requested : List String}
    {granted : List WorkLease} (h : FencingInvariant world) (hNodup : requested.Nodup)
    (hGrants : GrantedTargets world.db db' requested granted) :
    FencingInvariant ⟨db', world.clock, granted :: world.grants⟩ := by
  have hIssued : LeaseWorld.issued ⟨db', world.clock, granted :: world.grants⟩ = world.issued ++ granted := by
    simp [LeaseWorld.issued]
  refine ⟨?_, ?_⟩
  · rw [hIssued]
    refine pairwise_append.mpr ⟨h.increase, ?_, ?_⟩
    · -- within one reservation no resource is granted twice
      have hDistinct := pairwise_map.mp (hGrants.targets_nodup hNodup)
      exact hDistinct.imp fun hNe hSame => absurd hSame hNe
    · intro earlier hEarlier later hLater hSame
      obtain ⟨key, token, hKey, hToken, hLe⟩ := h.counted earlier hEarlier
      have hNew := hGrants.token later hLater key (hSame ▸ hKey)
      exact ⟨token, _, hToken, hNew, by omega⟩
  · intro lease hLease
    rw [hIssued] at hLease
    rcases mem_append.mp hLease with hOld | hNew
    · obtain ⟨key, token, hKey, hToken, hLe⟩ := h.counted lease hOld
      exact ⟨key, token, hKey, hToken, Int.le_trans hLe (hGrants.lastToken_le key)⟩
    · obtain ⟨key, hKey, hTarget⟩ := hGrants.target_mem hNew
      refine ⟨key, _, hTarget, hGrants.token lease hNew key hTarget, ?_⟩
      have hAfter : lastToken db' key = lastToken world.db key + 1 := by
        rw [lastToken, hGrants.granted key hKey]
        rfl
      exact Int.le_of_eq hAfter.symm

theorem applyEvent_leaseFencing (db : Database) (envelope : EventEnvelope) :
    (applyEvent db envelope).leaseFencing = db.leaseFencing := by
  obtain ⟨workLeases, hFrame⟩ := applyEvent_frame db envelope
  rw [hFrame]

theorem FencingInvariant.preserved : Preserves SomeStep FencingInvariant := by
  rintro before after ⟨action, hStep⟩ h
  cases hStep with
  | reserve env agentId taskId projectId targets mode ttl hNow hFresh hOk =>
    obtain ⟨requested, hNodup, hGrants⟩ := tryReserveTargets_fenced hOk
    exact h.reserve hNodup hGrants
  | applied envelope => exact h.of_counters rfl (applyEvent_leaseFencing _ envelope)
  | sweep | tick => exact h.of_counters rfl rfl
  | elsewhere hLeases hFencing => exact h.of_counters rfl hFencing

structure Current (world : LeaseWorld) (lease : WorkLease) (key : String) (token : Int) : Prop where
  row : lease ∈ world.db.workLeases
  target : lease.targetUri = some key
  carries : lease.fencingToken = some token
  counter : (world.db.leaseFencing.find? key).map LeaseFencing.seq = some token

theorem checkFencingToken_iff {target : String} : checkFencingToken world.db now agentId target token = true ↔
      ∃ lease, Current world lease (canonicalTargetUri target) token ∧ lease.agentId = agentId ∧
        now ≤ lease.expiresAt := by
  unfold checkFencingToken
  dsimp only
  split
  · rename_i hCounter
    refine iff_of_false (by simp) ?_
    rintro ⟨_, hCurrent, _⟩
    exact hCounter hCurrent.counter
  · rename_i hCounter
    rw [not_not] at hCounter
    simp only [any_eq_true, Bool.and_eq_true, decide_eq_true_eq]
    constructor
    · rintro ⟨lease, hRow, ⟨⟨hAgent, hTarget⟩, hToken⟩, hLive⟩
      exact ⟨lease, ⟨hRow, hTarget, hToken, hCounter⟩, hAgent, hLive⟩
    · rintro ⟨lease, hCurrent, hAgent, hLive⟩
      exact ⟨lease, hCurrent.row, ⟨⟨hAgent, hCurrent.target⟩, hCurrent.carries⟩, hLive⟩

theorem mem_releaseLeases_of_ne {ids : List WorkLeaseId} (h : row ∈ db.workLeases)
    (hNot : ¬(row.agentId = agentId ∧ row.taskId = taskId ∧ row.id ∈ ids)) :
    row ∈ (releaseLeases db agentId taskId ids).workLeases := by
  induction ids generalizing db with
  | nil => exact h
  | cons id rest ih =>
    rw [releaseLeases]
    refine ih (KeyedTable.mem_filter.mpr ⟨h, ?_⟩) fun ⟨hAgent, hTask, hId⟩ =>
      hNot ⟨hAgent, hTask, mem_cons_of_mem _ hId⟩
    simp only [Bool.not_eq_true', Bool.and_eq_false_iff, decide_eq_false_iff_not]
    by_contra hAll
    push Not at hAll
    exact hNot ⟨hAll.1.2, hAll.2, hAll.1.1 ▸ mem_cons_self⟩

theorem mem_applyEvent_of_kept {envelope : EventEnvelope}
    (hInv : LeaseInvariant world) (hProduced : Produced world.grants envelope.payload)
    (h : row ∈ world.db.workLeases) (hKept : ¬Releases row envelope.payload) :
    row ∈ (applyEvent world.db envelope).workLeases := by
  unfold applyEvent
  split
  · rename_i leases hPayload
    rw [hPayload] at hProduced
    obtain ⟨origin, hOrigin, hGranted⟩ := hInv.granted row h
    exact foldl_applyReserved_keeps h fun lease hLease =>
      hInv.ids origin hOrigin row hGranted leases hProduced lease hLease
  · rename_i agentId taskId hPayload
    rw [hPayload] at hKept
    refine KeyedTable.mem_filter.mpr ⟨h, ?_⟩
    simp only [Bool.not_eq_true', Bool.and_eq_false_iff, decide_eq_false_iff_not]
    by_contra hAll
    push Not at hAll
    exact hKept ⟨hAll.1, hAll.2, fun _ hNone => by cases hNone⟩
  · rename_i agentId taskId ids hPayload
    rw [hPayload] at hKept
    refine mem_releaseLeases_of_ne h fun ⟨hAgent, hTask, hId⟩ => hKept ⟨hAgent, hTask, ?_⟩
    rintro named hNamed
    exact Option.some.inj hNamed ▸ hId
  · rename_i taskId _ _ hPayload
    rw [hPayload] at hKept
    exact KeyedTable.mem_filter.mpr ⟨h, by simpa [Releases] using hKept⟩
  · exact h

theorem Current.step {before after : LeaseWorld} {action : LeaseAction} {lease : WorkLease}
    {key : String} {token : Int} (hInv : LeaseInvariant before) (hStep : ActionStep before action after)
    (hKept : ¬action.Supersedes lease) (hLive : after.clock ≤ lease.expiresAt)
    (h : Current before lease key token) : Current after lease key token := by
  cases hStep with
  | reserve env agentId taskId projectId targets mode ttl hNow hFresh hOk =>
    obtain ⟨requested, _, hGrants⟩ := tryReserveTargets_fenced hOk
    have hNotRequested : key ∉ requested := by
      intro hKey
      have hMem : some key ∈ requested.map some := mem_map_of_mem hKey
      rw [← hGrants.targets] at hMem
      obtain ⟨grant, hGrant, hTarget⟩ := mem_map.mp hMem
      exact hKept ⟨grant, hGrant, hTarget.trans h.target.symm⟩
    refine ⟨hGrants.others lease h.row (by simp [h.target]) ?_, h.target, h.carries, ?_⟩
    · intro other hOther hSame
      rw [h.target] at hSame
      exact hNotRequested (Option.some.inj hSame ▸ hOther)
    · rw [hGrants.quiet key hNotRequested]
      exact h.counter
  | applied envelope hProduced =>
    refine ⟨mem_applyEvent_of_kept hInv hProduced h.row hKept, h.target, h.carries, ?_⟩
    rw [applyEvent_leaseFencing]
    exact h.counter
  | sweep now hNow =>
    refine ⟨KeyedTable.mem_filter.mpr ⟨h.row, ?_⟩, h.target, h.carries, h.counter⟩
    have hUnexpired : ¬lease.expiresAt < now := Int.not_lt.mpr (Int.le_trans hNow hLive)
    simp [hUnexpired]
  | tick => exact ⟨h.row, h.target, h.carries, h.counter⟩
  | elsewhere hLeases hFencing =>
    exact ⟨hLeases ▸ h.row, h.target, h.carries, hFencing ▸ h.counter⟩

def KeepingStep (lease : WorkLease) (before after : LeaseWorld) : Prop :=
  ∃ action, ActionStep before action after ∧ ¬action.Supersedes lease

theorem Current.trace {later : LeaseWorld} (hInv : LeaseInvariant world) (h : Current world lease key token)
    (steps : Trace (KeepingStep lease) world later) (hLive : later.clock ≤ lease.expiresAt) :
    Current later lease key token := by
  have hKeeps : Preserves (KeepingStep lease) LeaseInvariant := by
    rintro before after ⟨action, hStep, _⟩
    exact LeaseInvariant.preserved _ hStep.leaseStep
  have hStays : Preserves (KeepingStep lease) fun state => LeaseInvariant state ∧
      (state.clock ≤ lease.expiresAt → Current state lease key token) := by
    refine hKeeps.and_of fun before after ⟨action, hStep, hKept⟩ hBefore ih hAfter => ?_
    exact (ih (Int.le_trans hStep.clock_le hAfter)).step hBefore hStep hKept hAfter
  exact (hStays.trace steps ⟨hInv, fun _ => h⟩).2 hLive

theorem current_of_granted (hStep : ActionStep before (.reserve outcome) after) (hLease : lease ∈ outcome.granted)
    (hTarget : lease.targetUri = some key) : Current after lease key (lastToken before.db key + 1) := by
  cases hStep with
  | reserve env agentId taskId projectId targets mode ttl hNow hFresh hOk =>
    obtain ⟨requested, _, hGrants⟩ := tryReserveTargets_fenced hOk
    obtain ⟨key', hKey, hTarget'⟩ := hGrants.target_mem hLease
    have hSame : key' = key := Option.some.inj (hTarget'.symm.trans hTarget)
    refine ⟨hGrants.rows lease hLease, hTarget, hGrants.token lease hLease key hTarget, ?_⟩
    rw [hGrants.granted key (hSame ▸ hKey)]
    rfl

/-- The token of a lease is accepted in every later state that the lease reaches
unexpired, without a step that releases it or grants a lease on its resource. -/
def StaysAccepted (world : LeaseWorld) (lease : WorkLease) : Prop :=
  ∀ target token, lease.targetUri = some (canonicalTargetUri target) → lease.fencingToken = some token →
    ∀ later, Trace (KeepingStep lease) world later → later.clock ≤ lease.expiresAt →
      checkFencingToken later.db later.clock lease.agentId target token = true

theorem Current.staysAccepted
    (hInv : LeaseInvariant world) (h : Current world lease key token) : StaysAccepted world lease := by
  intro target token' hTarget hToken later steps hLive
  have hKey : canonicalTargetUri target = key := Option.some.inj (hTarget.symm.trans h.target)
  have hSame : token' = token := Option.some.inj (hToken.symm.trans h.carries)
  have hLater := h.trace hInv steps hLive
  rw [← hKey, ← hSame] at hLater
  exact checkFencingToken_iff.mpr ⟨lease, hLater, rfl, hLive⟩

theorem LeaseInvariant.of_run {clock : Timestamp}
    (run : Trace SomeStep (.initial clock) world) : LeaseInvariant world := by
  have hKeeps : Preserves SomeStep LeaseInvariant := by
    rintro before after ⟨action, hStep⟩
    exact LeaseInvariant.preserved _ hStep.leaseStep
  exact hKeeps.trace run (.initial clock)

/-- In every run tokens increase. A token is accepted from its grant on, and one
that the check accepts belongs to a lease of its holder; either stays accepted
until the lease expires, unless a step releases the lease or grants one on the
same resource. -/
theorem fencing_tokens {clock : Timestamp} {world : LeaseWorld} (run : Trace SomeStep (.initial clock) world) :
    TokensIncrease world.issued ∧
      (∀ outcome next, ActionStep world (.reserve outcome) next →
        ∀ lease ∈ outcome.granted, StaysAccepted next lease) ∧
      ∀ agentId target token, checkFencingToken world.db world.clock agentId target token = true →
        ∃ lease ∈ world.db.workLeases, lease.agentId = agentId ∧
          lease.targetUri = some (canonicalTargetUri target) ∧ lease.fencingToken = some token ∧
          StaysAccepted world lease := by
  have hInv := LeaseInvariant.of_run run
  refine ⟨(FencingInvariant.preserved.trace run (.initial clock)).increase, ?_, ?_⟩
  · intro outcome next hStep lease hLease
    have hNext := LeaseInvariant.preserved _ hStep.leaseStep hInv
    intro target token hTarget
    exact (current_of_granted hStep hLease hTarget).staysAccepted hNext target token hTarget
  · intro agentId target token hAccepted
    obtain ⟨lease, hCurrent, hAgent, _⟩ := checkFencingToken_iff.mp hAccepted
    exact ⟨lease, hCurrent.row, hAgent, hCurrent.target, hCurrent.carries, hCurrent.staysAccepted hInv⟩

private def exclusiveLease : WorkLease :=
  ⟨⟨10⟩, ⟨1⟩, ⟨5⟩, none, "src/a.rs", some "file://src/a.rs", .exclusive, some 1, 0, 60⟩

private def intentLease : WorkLease :=
  ⟨⟨20⟩, ⟨2⟩, ⟨6⟩, none, "src/a.rs", some "file://src/a.rs", .intent, some 2, 0, 60⟩

private def mintingFrom (start : Nat) : Env := ⟨0, fun n => start + n⟩

private theorem mintingFrom_fresh {start : Nat} {grants : List (List WorkLease)}
    (h : ∀ leases ∈ grants, ∀ lease ∈ leases, lease.id.uuid < start) : Fresh (mintingFrom start) grants := by
  refine ⟨fun n m hSame => Nat.add_left_cancel hSame, fun leases hLeases lease hLease n hSame => ?_⟩
  have hLt := h leases hLeases lease hLease
  rw [hSame] at hLt
  exact absurd hLt (Nat.not_lt.mpr (Nat.le_add_right start n))

private def writerWorld : LeaseWorld :=
  ⟨{ Database.empty with
      workLeases := Database.empty.workLeases.upsert exclusiveLease
      leaseFencing := Database.empty.leaseFencing.upsert ⟨"file://src/a.rs", 1⟩ }, 0, [[exclusiveLease]]⟩

private def fencedWorld : LeaseWorld :=
  ⟨{ writerWorld.db with
      workLeases := writerWorld.db.workLeases.upsert intentLease
      leaseFencing := Database.empty.leaseFencing.upsert ⟨"file://src/a.rs", 2⟩ }, 0,
    [[intentLease], [exclusiveLease]]⟩

private theorem writer_step : ActionStep (.initial 0) (.reserve (.reserved [exclusiveLease])) writerWorld :=
  @ActionStep.reserve (.initial 0) _ (.reserved [exclusiveLease]) (mintingFrom 10) ⟨1⟩ ⟨5⟩ none
    ["src/a.rs"] .exclusive 60 (Int.le_refl 0) (mintingFrom_fresh fun _ h => absurd h not_mem_nil) rfl

/-- Agent 1 reserves a file: its token is accepted until the lease runs out. -/
theorem fencing_tokens_writer : TokensIncrease [exclusiveLease] ∧
      (∀ outcome next, ActionStep writerWorld (.reserve outcome) next →
        ∀ lease ∈ outcome.granted, StaysAccepted next lease) ∧
      ∃ lease ∈ writerWorld.db.workLeases, lease.agentId = ⟨1⟩ ∧
        lease.targetUri = some "file://src/a.rs" ∧ lease.fencingToken = some 1 ∧
        StaysAccepted writerWorld lease := by
  have run : Trace SomeStep (.initial 0) writerWorld := Relation.ReflTransGen.single ⟨_, writer_step⟩
  obtain ⟨hIncrease, hGranted, hAccepted⟩ := fencing_tokens run
  exact ⟨hIncrease, hGranted, hAccepted ⟨1⟩ "src/a.rs" 1 (by decide)⟩

/-- Agent 1 holds a file exclusively and agent 2 announces an intent on it, which
conflicts with nothing: the writer's lease is live and in the table, and its
token is refused. -/
theorem intent_fences_off_writer : Trace SomeStep (.initial 0) writerWorld ∧
      ActionStep writerWorld (.reserve (.reserved [intentLease])) fencedWorld ∧
      exclusiveLease ∈ fencedWorld.db.workLeases ∧ fencedWorld.clock ≤ exclusiveLease.expiresAt ∧
      exclusiveLease.mode = .exclusive ∧ intentLease.agentId ≠ exclusiveLease.agentId ∧
      intentLease.mode.conflictsWith exclusiveLease.mode = false ∧
      checkFencingToken writerWorld.db writerWorld.clock ⟨1⟩ "src/a.rs" 1 = true ∧
      checkFencingToken fencedWorld.db fencedWorld.clock ⟨1⟩ "src/a.rs" 1 = false := by
  refine ⟨Relation.ReflTransGen.single ⟨_, writer_step⟩, ?_, by decide, by decide, by decide, by decide,
    by decide, by decide, by decide⟩
  exact @ActionStep.reserve writerWorld _ (.reserved [intentLease]) (mintingFrom 20) ⟨2⟩ ⟨6⟩ none
    ["src/a.rs"] .intent 60 (Int.le_refl 0) (mintingFrom_fresh (by decide)) rfl

end WorkLeaseRepo
end Daruma
