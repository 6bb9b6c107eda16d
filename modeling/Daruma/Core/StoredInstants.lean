import Daruma.Core.Watchdogs
import Daruma.Shared.Timestamps
import Daruma.Storage.WorkUnitSteps

/-! The expiry tests, sweeps and candidate queries as the database runs them, on the text
of the stored instants, and that they find what a comparison of the instants finds. -/
namespace Daruma

open List

theorem any_congr_of_mem {Row : Type} {rows : List Row} {test other : Row → Bool} (h : ∀ row ∈ rows, test row = other row) :
    rows.any test = rows.any other := by
  rw [Bool.eq_iff_iff, any_eq_true, any_eq_true]
  exact exists_congr fun row => and_congr_right fun hRow => by rw [h row hRow]

section Queries

variable (text : Timestamp → List UInt8)

/-- `DELETE ... AND expires_at < ?` for each selected generation. -/
def AgentClaimRepo.deleteExpiredText (claims : AgentClaims) (now : Timestamp) :
    List AgentClaim → AgentClaims × List AgentClaim
  | [] => (claims, [])
  | selected :: rest =>
    let hit := fun (claim : AgentClaim) =>
      claim.key = selected.key && claim.claimId = selected.claimId && text claim.expiresAt < text now
    let later := deleteExpiredText (claims.filter fun claim => !hit claim) now rest
    if claims.rows.any hit then (later.1, selected :: later.2) else later

def WorkUnitRepo.dispatchableText (db : Database) (taskId : TaskId) (agentId : AgentId) (now : Timestamp)
    (unit : WorkUnit) : Bool :=
  unit.taskId = taskId && (unit.status = .todo || unit.status = .ready) &&
    (unit.ownerAgentId = none || unit.ownerAgentId = some agentId || unit.claimExpiresAt.all fun expiresAt =>
      text expiresAt < text now) &&
    !(db.handoffs.rows.any fun contract => contract.toWorkUnitId = unit.id && contract.status ≠ .accepted)

/-- `ORDER BY` the fit, then `created_at`, `LIMIT 1`. -/
def WorkUnitRepo.preferredText (fit : WorkUnit → Int) : List WorkUnit → Option WorkUnit
  | [] => none
  | unit :: rest =>
    match preferredText fit rest with
    | none => some unit
    | some other =>
      if fit unit < fit other || (fit unit = fit other && text other.createdAt < text unit.createdAt) then some other
      else some unit

/-- What each query finds by the text is what it finds by the instants. -/
structure DecidesByText (db : Database) (now : Timestamp) : Prop where
  live : ∀ claim ∈ db.agentClaims, claim.live now = decide (text now ≤ text claim.expiresAt)
  selectExpired : AgentClaimRepo.selectExpired db.agentClaims now =
    db.agentClaims.rows.filter fun claim => text claim.expiresAt < text now
  sweepExpired : AgentClaimRepo.sweepExpired db now =
    { db with agentClaims := db.agentClaims.filter fun claim => !decide (text claim.expiresAt < text now) }
  deleteExpired : ∀ selected, AgentClaimRepo.deleteExpired db.agentClaims now selected =
    AgentClaimRepo.deleteExpiredText text db.agentClaims now selected
  contenders : ∀ agentId projectId, WorkLeaseRepo.contenders db.workLeases now agentId projectId =
    db.workLeases.rows.filter fun row =>
      text now ≤ text row.expiresAt && row.agentId ≠ agentId && row.projectId = projectId
  sweepLeases : WorkLeaseRepo.sweepExpired db now =
    (WorkLeaseRepo.groupSwept ((db.workLeases.rows.filter fun row => text row.expiresAt < text now).insertionSort
      WorkLeaseRepo.readBefore),
      { db with workLeases := db.workLeases.filter fun row => !(text row.expiresAt < text now) })
  tryClaimNext : ∀ fit taskId agentId,
    WorkUnitRepo.preferred fit (db.workUnits.rows.filter (WorkUnitRepo.dispatchable db taskId agentId now)) =
      WorkUnitRepo.preferredText text fit
        (db.workUnits.rows.filter (WorkUnitRepo.dispatchableText text db taskId agentId now))
  listUnresponsive : ∀ threshold, (utc (now - threshold)).FourDigitYear →
    RunRepo.listUnresponsiveCandidates db threshold now =
      (db.runs.rows.filter fun run => run.status = .active && run.unresponsiveAt.isNone &&
        run.lastActivityAt.map text = some (text run.startedAt) && text run.startedAt ≤ text (now - threshold)).map Run.id
  listStale : ∀ threshold, (utc (now - threshold)).FourDigitYear →
    RunRepo.listStaleCandidates db threshold now =
      (db.runs.rows.filter fun run => run.status = .active && run.staleAt.isNone &&
        run.lastActivityAt.any (text · ≤ text (now - threshold))).map Run.id

end Queries

/-- The instants that these queries compare lie in four-digit years. -/
structure Database.FourDigitYears (db : Database) : Prop where
  claims : ∀ row ∈ db.agentClaims, (utc row.expiresAt).FourDigitYear
  leases : ∀ row ∈ db.workLeases, (utc row.expiresAt).FourDigitYear
  expiries : ∀ row ∈ db.workUnits, ∀ expiresAt, row.claimExpiresAt = some expiresAt → (utc expiresAt).FourDigitYear
  units : ∀ row ∈ db.workUnits, (utc row.createdAt).FourDigitYear
  started : ∀ row ∈ db.runs, (utc row.startedAt).FourDigitYear
  active : ∀ row ∈ db.runs, ∀ activeAt, row.lastActivityAt = some activeAt → (utc activeAt).FourDigitYear

def Orders (text : Timestamp → List UInt8) : Prop :=
  ∀ {a b : Timestamp}, (utc a).FourDigitYear → (utc b).FourDigitYear → (text a < text b ↔ a < b)

namespace Orders

variable {text : Timestamp → List UInt8} {db : Database} {now : Timestamp}

theorem le_iff (h : Orders text) {a b : Timestamp} (ha : (utc a).FourDigitYear) (hb : (utc b).FourDigitYear) :
    text a ≤ text b ↔ a ≤ b := by
  rw [← List.not_lt, h hb ha, Int.not_lt]

theorem eq_iff (h : Orders text) {a b : Timestamp} (ha : (utc a).FourDigitYear) (hb : (utc b).FourDigitYear) :
    text a = text b ↔ a = b := by
  refine ⟨fun hSame => ?_, congrArg text⟩
  have hLe := (h.le_iff ha hb).mp (hSame ▸ List.le_refl _)
  have hGe := (h.le_iff hb ha).mp (hSame ▸ List.le_refl _)
  exact Int.le_antisymm hLe hGe

theorem deleteExpired (h : Orders text) (hNow : (utc now).FourDigitYear) (selected : List AgentClaim) {claims : AgentClaims}
    (hClaims : ∀ row ∈ claims, (utc row.expiresAt).FourDigitYear) :
    AgentClaimRepo.deleteExpired claims now selected = AgentClaimRepo.deleteExpiredText text claims now selected := by
  induction selected generalizing claims with
  | nil => rfl
  | cons first rest ih =>
    have hHit : ∀ claim ∈ claims.rows,
        (claim.key = first.key && claim.claimId = first.claimId && claim.expiresAt < now : Bool) =
          (claim.key = first.key && claim.claimId = first.claimId && text claim.expiresAt < text now) := by
      intro claim hClaim
      simp only [h (hClaims claim hClaim) hNow]
    simp only [AgentClaimRepo.deleteExpired, AgentClaimRepo.deleteExpiredText]
    rw [KeyedTable.filter_congr fun claim hClaim => congrArg not (hHit claim hClaim), any_congr_of_mem hHit,
      ih fun row hRow => hClaims row (KeyedTable.mem_filter.mp hRow).1]

theorem preferred (h : Orders text) (fit : WorkUnit → Int) {units : List WorkUnit}
    (hUnits : ∀ row ∈ units, (utc row.createdAt).FourDigitYear) :
    WorkUnitRepo.preferred fit units = WorkUnitRepo.preferredText text fit units := by
  induction units with
  | nil => rfl
  | cons unit rest ih =>
    rw [WorkUnitRepo.preferred, WorkUnitRepo.preferredText, ← ih fun row hRow => hUnits row (mem_cons_of_mem _ hRow)]
    cases hRest : WorkUnitRepo.preferred fit rest with
    | none => rfl
    | some other =>
      have hOther := hUnits other (mem_cons_of_mem _ (WorkUnitRepo.mem_of_preferred hRest))
      simp only [h hOther (hUnits unit mem_cons_self)]

theorem decides (h : Orders text) (hDated : db.FourDigitYears) (hNow : (utc now).FourDigitYear) :
    DecidesByText text db now where
  live claim hClaim := by
    simp only [AgentClaim.live, h.le_iff hNow (hDated.claims claim hClaim)]
  selectExpired := filter_congr fun claim hClaim => by simp only [h (hDated.claims claim hClaim) hNow]
  sweepExpired := congrArg (fun claims => { db with agentClaims := claims }) <|
    KeyedTable.filter_congr fun claim hClaim => by simp only [h (hDated.claims claim hClaim) hNow]
  deleteExpired selected := h.deleteExpired hNow selected hDated.claims
  contenders agentId projectId := filter_congr fun row hRow => by simp only [h.le_iff hNow (hDated.leases row hRow)]
  sweepLeases := by
    have hBefore : ∀ row ∈ db.workLeases.rows, decide (row.expiresAt < now) = decide (text row.expiresAt < text now) := by
      intro row hRow
      simp only [h (hDated.leases row hRow) hNow]
    unfold WorkLeaseRepo.sweepExpired
    rw [filter_congr hBefore, KeyedTable.filter_congr fun row hRow => congrArg not (hBefore row hRow)]
  tryClaimNext fit taskId agentId := by
    have hWhere : ∀ unit ∈ db.workUnits.rows, WorkUnitRepo.dispatchable db taskId agentId now unit =
        WorkUnitRepo.dispatchableText text db taskId agentId now unit := by
      intro unit hUnit
      unfold WorkUnitRepo.dispatchable WorkUnitRepo.dispatchableText
      cases hExpiry : unit.claimExpiresAt with
      | none => rfl
      | some expiresAt => simp only [Option.all_some, h (hDated.expiries unit hUnit _ hExpiry) hNow]
    rw [← filter_congr hWhere]
    exact h.preferred fit fun row hRow => hDated.units row (mem_filter.mp hRow).1
  listUnresponsive threshold hCutoff := congrArg (map Run.id) <| filter_congr fun run hRun => by
    have hStarted := hDated.started run hRun
    cases hActive : run.lastActivityAt with
    | none => simp
    | some activeAt =>
      simp only [Option.map_some, Option.some.injEq, h.le_iff hStarted hCutoff,
        h.eq_iff (hDated.active run hRun _ hActive) hStarted]
  listStale threshold hCutoff := congrArg (map Run.id) <| filter_congr fun run hRun => by
    cases hActive : run.lastActivityAt with
    | none => rfl
    | some activeAt => simp only [Option.any_some, h.le_iff (hDated.active run hRun _ hActive) hCutoff]

end Orders

/-- The text that `to_rfc3339` writes has the order of the timestamps, so that the queries on
stored text decide as comparisons of the instants do. -/
theorem text_order {toRfc3339 : DateTime → List UInt8} (hWrites : DateTime.Writes toRfc3339) :
    (∀ a b : DateTime, a.FourDigitYear → b.FourDigitYear → (toRfc3339 a < toRfc3339 b ↔ a < b)) ∧
      ∀ db now, db.FourDigitYears → (utc now).FourDigitYear →
        DecidesByText (fun instant => toRfc3339 (utc instant)) db now :=
  ⟨fun _ _ ha hb => hWrites.lt_iff ha hb,
    fun _ _ hDated hNow => Orders.decides (fun ha hb => (hWrites.lt_iff ha hb).trans utc_lt_iff) hDated hNow⟩

/-- A claim that ran out half a second before the sweep, in 1970. -/
theorem text_order_of_half_second :
    (utc 500000000).rfc3339 (utc 500000000).secondsFormat < (utc 1000000000).rfc3339 (utc 1000000000).secondsFormat ∧
      DecidesByText (fun instant => (utc instant).rfc3339 (utc instant).secondsFormat)
        { Database.empty with agentClaims := KeyedTable.empty.upsert ⟨⟨1⟩, ⟨2⟩, 0, 500000000, none, ⟨3⟩⟩ } 1000000000 := by
  have hEarlier : (utc 500000000).FourDigitYear := ⟨by decide, by decide⟩
  have hNow : (utc 1000000000).FourDigitYear := ⟨by decide, by decide⟩
  obtain ⟨hOrder, hDecides⟩ := text_order DateTime.writes_secondsFormat
  refine ⟨(hOrder _ _ hEarlier hNow).mpr (utc_lt_iff.mpr (by decide)), hDecides _ _ ⟨?_, ?_, ?_, ?_, ?_, ?_⟩ hNow⟩
  · intro row hRow
    rcases KeyedTable.mem_upsert.mp hRow with rfl | ⟨hOld, _⟩
    · exact hEarlier
    · exact absurd hOld (KeyedTable.not_mem_empty row)
  all_goals exact fun row hRow => absurd hRow (KeyedTable.not_mem_empty row)

end Daruma
