import Daruma.Storage.ClaimExclusion

/-! Generations of claims. A call that names a generation touches no other
generation, and an agent's claim on a task leaves the table only through a call
that names the generation it has then, except for the release that names none. -/
namespace Daruma

open KeyedTable

namespace AgentClaimRepo

open Transition

/-- The unguarded call mints its generation, which is then not in the table. -/
def ClaimCall.Minted (db : Database) : ClaimCall → Prop
  | .acquire _ _ _ claimId _ => ∀ row ∈ db.agentClaims, row.claimId ≠ claimId
  | _ => True

def ClaimCall.Names (row : AgentClaim) : ClaimCall → Prop
  | .releaseRecorded _ _ agentId taskId claimId => row.key = (agentId, taskId) ∧ row.claimId = claimId
  | .applyEvent _ envelope =>
    envelope.payload = .claim (.agentReleased row.agentId row.taskId (some row.claimId))
  | .sweepExpired now => row.expiresAt < now
  | .sweepExpiredRecorded env _ selected =>
    row.expiresAt < env.now ∧ ∃ picked ∈ selected, SameGeneration row picked
  | _ => False

/-- The terminations that record the release of this row's generation. -/
def ClaimCall.Terminates (db : Database) (row : AgentClaim) : ClaimCall → Prop
  | .recordRunTerminal env actor auth isAdmin envelopes =>
    ∃ stored db', AgentClaimRepo.recordRunTerminal db env actor auth isAdmin envelopes = .ok (stored, db') ∧
      RecordsRelease stored row
  | .recordPlanTerminal env actor auth isAdmin envelopes =>
    ∃ stored db', AgentClaimRepo.recordPlanTerminal db env actor auth isAdmin envelopes = .ok (stored, db') ∧
      RecordsRelease stored row
  | .recordTaskLifecycle env actor envelopes =>
    ∃ stored db', AgentClaimRepo.recordTaskLifecycle db env actor envelopes = .ok (stored, db') ∧
      RecordsRelease stored row
  | _ => False

def ClaimCall.NamesNoGeneration (row : AgentClaim) : ClaimCall → Prop
  | .release _ agentId taskId => row.key = (agentId, taskId)
  | .applyEvent _ envelope =>
    envelope.payload = .claim (.agentReleased row.agentId row.taskId none)
  | _ => False

def ClaimCall.Naming : ClaimCall → Prop
  | .releaseRecorded .. | .sweepExpired _ | .sweepExpiredRecorded .. => True
  | .applyEvent _ envelope => ∃ agentId taskId claimId,
      envelope.payload = .claim (.agentReleased agentId taskId (some claimId))
  | _ => False

def Held (claims : AgentClaims) (key : AgentId × TaskId) : Prop := ∃ row ∈ claims, row.key = key

variable {row : AgentClaim} {key : AgentId × TaskId} {now : Timestamp} {db db' : Database} {agentId : AgentId}
  {taskId : TaskId} {claimId : ClaimId} {env : Env} {actor : Actor} {envelope : EventEnvelope} {call : ClaimCall}

theorem Held.upsert {claims : AgentClaims} (h : Held claims key) : Held (claims.upsert row) key := by
  obtain ⟨held, hHeld, rfl⟩ := h
  by_cases hKey : held.key = row.key
  · exact ⟨row, mem_upsert.mpr (Or.inl rfl), hKey.symm⟩
  · exact ⟨held, mem_upsert.mpr (Or.inr ⟨hHeld, hKey⟩), rfl⟩

theorem GrantEffect.held {before after : AgentClaims}
    (h : GrantEffect now before after) (hHeld : Held before key) : Held after key := by
  cases h with
  | unchanged => exact hHeld
  | granted row _ => exact hHeld.upsert

theorem acquire_held {ttl : Duration}
    (hMinted : ∀ row ∈ db.agentClaims, row.claimId ≠ claimId) (hHeld : Held db.agentClaims key) :
    Held (acquire db now agentId taskId claimId ttl).2.agentClaims key := by
  have hOthers : (db.agentClaims.filter fun claim => claim.claimId ≠ claimId) = db.agentClaims :=
    filter_eq_self fun row hRow => by simpa using hMinted row hRow
  obtain ⟨held, hRow, rfl⟩ := hHeld
  simp only [acquire, hOthers]
  by_cases hKey : held.key = (agentId, taskId)
  · exact ⟨_, mem_insertOrReplace.mpr (Or.inl rfl), hKey.symm⟩
  · exact ⟨held, mem_insertOrReplace.mpr (Or.inr ⟨hRow, hKey⟩), rfl⟩

theorem releaseRecorded_keeps {stored : Option EventEnvelope}
    (h : releaseRecorded db env actor agentId taskId claimId = .ok (stored, db'))
    (hRow : row ∈ db.agentClaims) (hOther : ¬(row.key = (agentId, taskId) ∧ row.claimId = claimId)) :
    row ∈ db'.agentClaims := by
  unfold releaseRecorded at h
  dsimp only at h
  split at h
  · cases h
    exact hRow
  · split at h
    · cases h
    · rename_i event appended hAppend
      cases h
      rw [appendOn_agentClaims hAppend]
      exact mem_deleteExact.mpr ⟨hRow, hOther⟩

theorem sweepExpiredRecorded_keeps {selected : List AgentClaim} {stored : List EventEnvelope}
    (h : sweepExpiredRecorded db env actor selected = .ok (stored, db')) (hRow : row ∈ db.agentClaims)
    (hOther : ¬(row.expiresAt < env.now ∧ ∃ picked ∈ selected, SameGeneration row picked)) :
    row ∈ db'.agentClaims := by
  unfold sweepExpiredRecorded at h
  dsimp only at h
  rw [appendBatch_agentClaims h]
  exact mem_deleteExpired.mpr ⟨hRow, fun picked hPicked hHit => hOther ⟨hHit.2, picked, hPicked, hHit.1⟩⟩

theorem sweepExpired_keeps (hRow : row ∈ db.agentClaims) (hOther : ¬row.expiresAt < now) :
    row ∈ (sweepExpired db now).agentClaims :=
  mem_filter.mpr ⟨hRow, by simpa using hOther⟩

theorem applyEvent_released_keeps
    (hPayload : envelope.payload = .claim (.agentReleased agentId taskId (some claimId)))
    (h : applyEvent db now envelope = .ok db') (hRow : row ∈ db.agentClaims)
    (hOther : ¬(row.key = (agentId, taskId) ∧ row.claimId = claimId)) : row ∈ db'.agentClaims := by
  unfold applyEvent at h
  rw [hPayload] at h
  cases h
  exact mem_deleteExact.mpr ⟨hRow, hOther⟩

private theorem payload_names {claimId : Option ClaimId} (hKey : row.key = (agentId, taskId)) :
    Event.claim (.agentReleased agentId taskId claimId) =
      .claim (.agentReleased row.agentId row.taskId claimId) := by
  rw [show agentId = row.agentId from congrArg Prod.fst hKey.symm,
    show taskId = row.taskId from congrArg Prod.snd hKey.symm]

/-- A call that names generations leaves every row of another generation as it
is: it neither removes nor shortens it. -/
theorem ClaimCall.naming_keeps (hNaming : call.Naming) (h : call.perform db = .ok db') (hRow : row ∈ db.agentClaims)
    (hOther : ¬call.Names row) : row ∈ db'.agentClaims := by
  cases call with
  | releaseRecorded =>
    obtain ⟨_, hOk⟩ := map_snd_ok h
    exact releaseRecorded_keeps hOk hRow hOther
  | applyEvent now envelope =>
    obtain ⟨agentId, taskId, claimId, hPayload⟩ := hNaming
    refine applyEvent_released_keeps hPayload h hRow fun hSame => hOther ?_
    rw [ClaimCall.Names, hPayload, ← hSame.2]
    exact payload_names hSame.1
  | sweepExpired =>
    cases h
    exact sweepExpired_keeps hRow hOther
  | sweepExpiredRecorded =>
    obtain ⟨_, hOk⟩ := map_snd_ok h
    exact sweepExpiredRecorded_keeps hOk hRow hOther
  | acquire | tryAcquire | tryAcquireBoundRecorded | recordRunStarted | recordRunTerminal
  | recordPlanTerminal | recordTaskLifecycle | release => exact absurd hNaming (fun h => h)

theorem applyEvent_loses (h : applyEvent db now envelope = .ok db') (hRow : row ∈ db.agentClaims)
    (hLost : ¬Held db'.agentClaims row.key) :
    envelope.payload = .claim (.agentReleased row.agentId row.taskId (some row.claimId)) ∨
      envelope.payload = .claim (.agentReleased row.agentId row.taskId none) := by
  unfold applyEvent at h
  split at h
  · exact absurd ((acquireUntil_effect h).held ⟨row, hRow, rfl⟩) hLost
  · cases h
    exact absurd ⟨row, hRow, rfl⟩ hLost
  · rename_i agentId taskId claimId hPayload
    cases h
    have hSame : row.key = (agentId, taskId) ∧ row.claimId = claimId := by
      by_contra hOther
      exact hLost ⟨row, mem_deleteExact.mpr ⟨hRow, hOther⟩, rfl⟩
    left
    rw [hPayload, ← hSame.2]
    exact payload_names hSame.1
  · rename_i agentId taskId hPayload
    cases h
    have hSame : row.key = (agentId, taskId) := by
      by_contra hOther
      refine hLost ⟨row, mem_filter.mpr ⟨hRow, ?_⟩, rfl⟩
      simpa [AgentClaim.key, -not_and, not_and_or] using hOther
    right
    rw [hPayload]
    exact payload_names hSame
  · cases h
    exact absurd ⟨row, hRow, rfl⟩ hLost

theorem ClaimCall.loses (hMinted : call.Minted db) (h : call.perform db = .ok db') (hRow : row ∈ db.agentClaims)
    (hLost : ¬Held db'.agentClaims row.key) :
    call.Names row ∨ call.Terminates db row ∨ call.NamesNoGeneration row := by
  have hHeld : Held db.agentClaims row.key := ⟨row, hRow, rfl⟩
  have hGone : row ∉ db'.agentClaims := fun hKept => hLost ⟨row, hKept, rfl⟩
  cases call with
  | acquire =>
    cases h
    exact absurd (acquire_held hMinted hHeld) hLost
  | tryAcquire =>
    obtain ⟨_, hOk⟩ := map_snd_ok h
    exact absurd ((tryAcquire_effect hOk).held hHeld) hLost
  | tryAcquireBoundRecorded =>
    obtain ⟨_, hOk⟩ := map_snd_ok h
    exact absurd ((tryAcquireBoundRecorded_effect hOk).held hHeld) hLost
  | recordRunStarted now =>
    obtain ⟨_, hOk⟩ := map_snd_ok h
    have hEffect : GrantEffect now db.agentClaims db'.agentClaims := recordRunStarted_effect hOk
    exact absurd (hEffect.held hHeld) hLost
  | recordRunTerminal =>
    obtain ⟨stored, hOk⟩ := map_snd_ok h
    exact Or.inr (Or.inl ⟨stored, db', hOk, (recordRunTerminal_removal hOk).recorded row hRow hGone⟩)
  | recordPlanTerminal =>
    obtain ⟨stored, hOk⟩ := map_snd_ok h
    exact Or.inr (Or.inl ⟨stored, db', hOk, (recordPlanTerminal_removal hOk).recorded row hRow hGone⟩)
  | recordTaskLifecycle =>
    obtain ⟨stored, hOk⟩ := map_snd_ok h
    exact Or.inr (Or.inl ⟨stored, db', hOk, (recordTaskLifecycle_removal hOk).recorded row hRow hGone⟩)
  | release now agentId taskId =>
    cases h
    right
    right
    by_contra hOther
    refine hGone (mem_filter.mpr ⟨hRow, ?_⟩)
    simpa [ClaimCall.NamesNoGeneration, AgentClaim.key, -not_and, not_and_or] using hOther
  | applyEvent now envelope =>
    rcases applyEvent_loses h hRow hLost with hNames | hNone
    · exact Or.inl hNames
    · exact Or.inr (Or.inr hNone)
  | releaseRecorded env actor agentId taskId claimId =>
    left
    by_contra hOther
    have hNaming : (ClaimCall.releaseRecorded env actor agentId taskId claimId).Naming := trivial
    exact hGone (ClaimCall.naming_keeps hNaming h hRow hOther)
  | sweepExpired now =>
    left
    by_contra hOther
    have hNaming : (ClaimCall.sweepExpired now).Naming := trivial
    exact hGone (ClaimCall.naming_keeps hNaming h hRow hOther)
  | sweepExpiredRecorded env actor selected =>
    left
    by_contra hOther
    have hNaming : (ClaimCall.sweepExpiredRecorded env actor selected).Naming := trivial
    exact hGone (ClaimCall.naming_keeps hNaming h hRow hOther)

/-- What generations guarantee along a run: a naming call leaves the other
generations alone, and a claim that is gone at the end was taken away by a call
on the generation it had then. An expiry takes only a row that is no longer
live; the release without a generation is the one exception. -/
def GenerationsProtect (start finish : ClaimWorld) : Prop :=
  (∀ (call : ClaimCall) (db' : Database), call.Naming → call.perform finish.db = .ok db' →
    ∀ row ∈ finish.db.agentClaims, ¬call.Names row → row ∈ db'.agentClaims) ∧
  ∀ row ∈ start.db.agentClaims, ¬Held finish.db.agentClaims row.key →
    ∃ (db db' : Database) (clock : Timestamp) (call : ClaimCall),
      Trace (ClaimStep ClaimCall.Minted) start ⟨db, clock⟩ ∧ call.captured ≤ clock ∧
      call.perform db = .ok db' ∧ Trace (ClaimStep ClaimCall.Minted) ⟨db', clock⟩ finish ∧
      ∃ held ∈ db.agentClaims, held.key = row.key ∧
        (call.Names held ∨ call.Terminates db held ∨ call.NamesNoGeneration held)

/-- Generations protect claims in every interleaving of all the claim calls. -/
theorem claim_generations_protect {start finish : ClaimWorld}
    (steps : Trace (ClaimStep ClaimCall.Minted) start finish) : GenerationsProtect start finish := by
  refine ⟨fun call db' hNaming h row hRow hOther => call.naming_keeps hNaming h hRow hOther, ?_⟩
  intro row hRow hLost
  obtain ⟨before, after, hBefore, hStep, hAfter, hHeld, hGone⟩ :=
    exists_losing_step (fun world => Held world.db.agentClaims row.key) steps
      ⟨row, hRow, rfl⟩ hLost
  cases hStep with
  | tick => exact absurd hHeld hGone
  | elsewhere h =>
    dsimp only at hGone
    rw [h] at hGone
    exact absurd hHeld hGone
  | @call db db' clock call hMinted hNow h =>
    obtain ⟨held, hMem, hKey⟩ := hHeld
    rw [← hKey] at hGone
    exact ⟨db, db', clock, call, hBefore, hNow, h, hAfter, held, hMem, hKey,
      call.loses hMinted h hMem hGone⟩

private def renewedClaim : Database :=
  { Database.empty with agentClaims := Database.empty.agentClaims.upsert ⟨⟨1⟩, ⟨9⟩, 1, 61, none, ⟨6⟩⟩ }

private def staleRelease : EventEnvelope :=
  .new ⟨7⟩ 0 .anyUser (.claim (.agentReleased ⟨1⟩ ⟨9⟩ (some ⟨5⟩)))

/-- Replaying the release of generation 5 after a renewal under generation 6. -/
theorem claim_generations_protect_renewal : GenerationsProtect ⟨renewedClaim, 1⟩ ⟨renewedClaim, 1⟩ :=
  claim_generations_protect
    (.single (.call (.applyEvent 1 staleRelease) trivial (Int.le_refl 1) rfl))

/-- The claim of agent 1 is renewed under generation 6; a release that names no
generation then takes the renewed, live claim away. -/
theorem release_without_generation : ∃ (world : ClaimWorld) (call : ClaimCall) (db' : Database),
      Trace (ClaimStep ClaimCall.Minted) ⟨Database.empty, 0⟩ world ∧ call.captured ≤ world.clock ∧
      call.perform world.db = .ok db' ∧ ∃ held ∈ world.db.agentClaims, held.live world.clock ∧
        ¬Held db'.agentClaims held.key ∧ ¬call.Names held ∧ ¬call.Terminates world.db held := by
  have renewed : Trace (ClaimStep ClaimCall.Minted) ⟨Database.empty, 0⟩ ⟨renewedClaim, 1⟩ :=
    .tail (.tail (.single (.call (.tryAcquire 0 0 ⟨1⟩ ⟨9⟩ ⟨5⟩ 60) trivial (Int.le_refl 0) rfl))
      (.tick (by decide : (0 : Int) ≤ 1)))
      (.call (.tryAcquire 1 1 ⟨1⟩ ⟨9⟩ ⟨6⟩ 60) trivial (Int.le_refl 1) rfl)
  let unnamed : EventEnvelope := .new ⟨7⟩ 0 .anyUser (.claim (.agentReleased ⟨1⟩ ⟨9⟩ none))
  refine ⟨⟨renewedClaim, 1⟩, .applyEvent 1 unnamed, _, renewed, Int.le_refl 1, rfl,
    ⟨⟨1⟩, ⟨9⟩, 1, 61, none, ⟨6⟩⟩, by decide, by decide, ?_, ?_, fun h => h⟩
  · rintro ⟨row, hRow, _⟩
    exact absurd hRow (by decide +revert)
  · intro hNames
    cases hNames

end AgentClaimRepo
end Daruma
