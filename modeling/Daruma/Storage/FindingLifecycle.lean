import Daruma.Storage.AuditFindingRepo

/-! The life of an audit finding: one row a project, check and entity, a status that
sightings do not undo, and a resolution that is recorded where it holds. -/
namespace Daruma

open List

namespace AuditFindingRepo

variable {findings after : AuditFindings} {finding : AuditFinding} {env : Env} {new : NewFinding} {id : AuditFindingId}

variable {other : AuditFinding} {condition : AuditFinding → Bool} {change : FindingUpdate} {n : Nat}
  {ids : List AuditFindingId} {reported : List NewFinding} {projectId : Option ProjectId} {checkKey : String}
  {resolvedBy : ActorRef}

theorem eq_of_key (h : finding ∈ findings.rows) (hOther : other ∈ findings.rows)
    (hSame : finding.key = other.key) : finding = other :=
  inj_on_of_nodup_map findings.keys h hOther hSame

theorem eq_of_id (h : finding ∈ findings.rows) (hOther : other ∈ findings.rows)
    (hSame : finding.id = other.id) : finding = other :=
  inj_on_of_nodup_map findings.ids h hOther hSame

theorem mem_update : finding ∈ (update findings condition change).rows ↔
      ∃ old ∈ findings.rows, finding = if condition old then change.write old else old := by
  unfold update
  rw [mem_map]
  exact exists_congr fun old => and_congr_right fun _ => eq_comm

theorem insert_ok (h : insert findings finding = .ok after) : after.rows = findings.rows ++ [finding] := by
  unfold insert at h
  split at h
  · cases h
  · split at h
    · cases h
    · cases h
      rfl

theorem insert_new (hId : finding.id ∉ findings.rows.map AuditFinding.id)
    (hKey : finding.key ∉ findings.rows.map AuditFinding.key) : ∃ inserted, insert findings finding = .ok inserted := by
  unfold insert
  rw [dif_neg hId, dif_neg hKey]
  exact ⟨_, rfl⟩

/-- The two ways of a sighting. -/
theorem upsert_cases (h : upsert findings env new = .ok (id, after)) :
    (∃ existing ∈ findings.rows, existing.key = new.key ∧ existing.id = id ∧
      after = update findings (fun finding => finding.id = existing.id) (seenAgain new env.now)) ∨
    ((∀ finding ∈ findings.rows, finding.key ≠ new.key) ∧ id = ⟨env.uuid 0⟩ ∧
      after.rows = findings.rows ++ [firstSeen new id env.now]) := by
  unfold upsert at h
  split at h
  · rename_i existing hFound
    cases h
    have hKey := find?_some hFound
    rw [decide_eq_true_eq] at hKey
    exact .inl ⟨existing, mem_of_find?_eq_some hFound, hKey, rfl, rfl⟩
  · rename_i hNone
    cases hInsert : insert findings (firstSeen new ⟨env.uuid 0⟩ env.now) with
    | error e =>
      rw [hInsert] at h
      cases h
    | ok inserted =>
      rw [hInsert] at h
      cases h
      exact .inr ⟨fun finding hMem hSame => find?_eq_none.mp hNone finding hMem (decide_eq_true hSame), rfl,
        insert_ok hInsert⟩

/-- A sighting with a new id is recorded: the unique index refuses none that the lookup
did not find. -/
theorem upsert_new (hNew : ∀ finding ∈ findings.rows, finding.id ≠ ⟨env.uuid 0⟩) :
    ∃ answer, upsert findings env new = .ok answer := by
  unfold upsert
  split
  · exact ⟨_, rfl⟩
  · rename_i hNone
    have hId : (⟨env.uuid 0⟩ : AuditFindingId) ∉ findings.rows.map AuditFinding.id := fun hMem => by
      obtain ⟨finding, hFinding, hSame⟩ := mem_map.mp hMem
      exact hNew finding hFinding hSame
    have hKey : new.key ∉ findings.rows.map AuditFinding.key := fun hMem => by
      obtain ⟨finding, hFinding, hSame⟩ := mem_map.mp hMem
      exact find?_eq_none.mp hNone finding hFinding (decide_eq_true hSame)
    obtain ⟨inserted, hInserted⟩ := @insert_new findings (firstSeen new ⟨env.uuid 0⟩ env.now) hId hKey
    rw [hInserted]
    exact ⟨_, rfl⟩

/-- Findings stay, and those that are not resolved keep their status. -/
def Follows (findings after : AuditFindings) : Prop :=
  ∀ finding ∈ findings.rows, ∃ later ∈ after.rows, later.id = finding.id ∧ later.key = finding.key ∧
    (finding.status ≠ .resolved → later.status = finding.status)

theorem Follows.refl (findings : AuditFindings) : Follows findings findings :=
  fun finding hFinding => ⟨finding, hFinding, rfl, rfl, fun _ => rfl⟩

theorem Follows.trans {first second third : AuditFindings} (h : Follows first second) (h' : Follows second third) :
    Follows first third := by
  intro finding hFinding
  obtain ⟨later, hLater, hId, hKey, hStatus⟩ := h finding hFinding
  obtain ⟨last, hLast, hId', hKey', hStatus'⟩ := h' later hLater
  refine ⟨last, hLast, hId'.trans hId, hKey'.trans hKey, fun hOpen => ?_⟩
  have hSame := hStatus hOpen
  exact (hStatus' (hSame ▸ hOpen)).trans hSame

theorem upsert_follows (h : upsert findings env new = .ok (id, after)) : Follows findings after := by
  rcases upsert_cases h with ⟨existing, _, _, _, rfl⟩ | ⟨_, hIs, hRows⟩
  · intro finding hFinding
    refine ⟨_, mem_update.mpr ⟨finding, hFinding, rfl⟩, ?_, ?_, fun hOpen => ?_⟩
    · split <;> rfl
    · split <;> rfl
    · split
      · exact if_neg hOpen
      · rfl
  · intro finding hFinding
    exact ⟨finding, hRows ▸ mem_append_left _ hFinding, rfl, rfl, fun _ => rfl⟩

theorem upsert_row (h : upsert findings env new = .ok (id, after)) :
    ∃ row ∈ after.rows, row.id = id ∧ row.key = new.key ∧ row.status ≠ .resolved := by
  rcases upsert_cases h with ⟨existing, hExisting, hKey, hId, rfl⟩ | ⟨_, hIs, hRows⟩
  · refine ⟨_, mem_update.mpr ⟨existing, hExisting, rfl⟩, ?_⟩
    rw [if_pos (decide_eq_true rfl)]
    refine ⟨hId, hKey, ?_⟩
    dsimp only [seenAgain]
    split
    · simp
    · assumption
  · exact ⟨firstSeen new id env.now, hRows ▸ mem_append_right _ mem_cons_self, rfl, rfl, by simp [firstSeen]⟩

theorem upsertAll_cons {rest : List NewFinding} (h : upsertAll env n (new :: rest) findings = .ok (ids, after)) :
    ∃ id sighted later, upsert findings (env.part n) new = .ok (id, sighted) ∧
      upsertAll env (n + 1) rest sighted = .ok (later, after) ∧ ids = id :: later := by
  rw [upsertAll] at h
  cases hFirst : upsert findings (env.part n) new with
  | error e =>
    rw [hFirst] at h
    cases h
  | ok answer =>
    obtain ⟨id, sighted⟩ := answer
    rw [hFirst] at h
    cases hRest : upsertAll env (n + 1) rest sighted with
    | error e =>
      change (upsertAll env (n + 1) rest sighted >>= _) = _ at h
      rw [hRest] at h
      cases h
    | ok last =>
      change (upsertAll env (n + 1) rest sighted >>= _) = _ at h
      rw [hRest] at h
      cases h
      exact ⟨id, sighted, last.1, rfl, hRest, rfl⟩

theorem upsertAll_follows (h : upsertAll env n reported findings = .ok (ids, after)) : Follows findings after := by
  induction reported generalizing n findings ids with
  | nil =>
    cases h
    exact .refl _
  | cons new rest ih =>
    obtain ⟨id, sighted, later, hFirst, hRest, _⟩ := upsertAll_cons h
    exact (upsert_follows hFirst).trans (ih hRest)

theorem upsertAll_rows (h : upsertAll env n reported findings = .ok (ids, after)) :
    (∀ new ∈ reported, ∃ row ∈ after.rows, row.id ∈ ids ∧ row.key = new.key) ∧
      ∀ id ∈ ids, ∃ row ∈ after.rows, row.id = id ∧ row.status ≠ .resolved ∧ ∃ new ∈ reported, row.key = new.key := by
  induction reported generalizing n findings ids with
  | nil =>
    cases h
    exact ⟨fun new hNew => absurd hNew not_mem_nil, fun id hId => absurd hId not_mem_nil⟩
  | cons new rest ih =>
    obtain ⟨id, sighted, later, hFirst, hRest, rfl⟩ := upsertAll_cons h
    obtain ⟨hReported, hIds⟩ := ih hRest
    obtain ⟨row, hRow, hId, hKey, hOpen⟩ := upsert_row hFirst
    obtain ⟨last, hLast, hLastId, hLastKey, hLastStatus⟩ := upsertAll_follows hRest row hRow
    constructor
    · refine forall_mem_cons.mpr ⟨⟨last, hLast, ?_, hLastKey.trans hKey⟩, fun other hOther => ?_⟩
      · rw [hLastId, hId]
        exact mem_cons_self
      · obtain ⟨found, hFound, hMem, hSame⟩ := hReported other hOther
        exact ⟨found, hFound, mem_cons_of_mem _ hMem, hSame⟩
    · refine forall_mem_cons.mpr ⟨⟨last, hLast, hLastId.trans hId, ?_, new, mem_cons_self, hLastKey.trans hKey⟩,
        fun other hOther => ?_⟩
      · rw [hLastStatus hOpen]
        exact hOpen
      · obtain ⟨found, hFound, hSame, hStatus, reportedNew, hMem, hFoundKey⟩ := hIds other hOther
        exact ⟨found, hFound, hSame, hStatus, reportedNew, mem_cons_of_mem _ hMem, hFoundKey⟩

/-- The ids that a check may mint are new, and differ. -/
structure MintsFindings (env : Env) (findings : AuditFindings) : Prop where
  fresh : ∀ n, ∀ finding ∈ findings.rows, finding.id ≠ ⟨(env.part n).uuid 0⟩
  distinct : Function.Injective env.uuid

theorem upsertAll_new {n : Nat} {reported : List NewFinding}
    (hNew : ∀ m, n ≤ m → ∀ finding ∈ findings.rows, finding.id ≠ ⟨(env.part m).uuid 0⟩)
    (hDistinct : Function.Injective env.uuid) : ∃ answer, upsertAll env n reported findings = .ok answer := by
  induction reported generalizing n findings with
  | nil => exact ⟨_, rfl⟩
  | cons new rest ih =>
    obtain ⟨⟨id, sighted⟩, hFirst⟩ := @upsert_new findings (env.part n) new (hNew n (Nat.le_refl _))
    have hLater : ∀ m, n + 1 ≤ m → ∀ finding ∈ sighted.rows, finding.id ≠ ⟨(env.part m).uuid 0⟩ := by
      intro m hm finding hFinding
      rcases upsert_cases hFirst with ⟨existing, _, _, _, rfl⟩ | ⟨_, hIs, hRows⟩
      · obtain ⟨old, hOld, rfl⟩ := mem_update.mp hFinding
        have hSame := hNew m (Nat.le_of_succ_le hm) old hOld
        split
        · exact hSame
        · exact hSame
      · rw [hRows] at hFinding
        rcases mem_append.mp hFinding with hOld | hInserted
        · exact hNew m (Nat.le_of_succ_le hm) finding hOld
        · cases mem_singleton.mp hInserted
          intro hSame
          have hMinted := hDistinct (AuditFindingId.mk.inj (hIs.symm.trans hSame))
          have hPart := (Nat.pair_eq_pair.mp hMinted).1
          omega
    obtain ⟨answer, hRest⟩ := ih hLater
    rw [upsertAll, hFirst]
    change ∃ answer, (upsertAll env (n + 1) rest sighted >>= _) = Except.ok answer
    rw [hRest]
    exact ⟨_, rfl⟩

theorem missing_open {seen : List AuditFindingId} {now : Timestamp} (hProject : finding.projectId = projectId) (hCheck : finding.checkKey = checkKey) :
    (if finding.projectId = projectId && finding.checkKey = checkKey && finding.status ≠ .resolved && finding.id ∉ seen then
        (resolution .resolved (some resolvedBy.kind) (some now)).write finding else finding).status ≠ .resolved ↔
      finding.id ∈ seen ∧ finding.status ≠ .resolved := by
  by_cases hMem : finding.id ∈ seen
  · by_cases hStatus : finding.status = .resolved
    · simp [hMem, hStatus]
    · simp [hMem, hStatus]
  · by_cases hStatus : finding.status = .resolved
    · simp [hMem, hStatus]
    · simp [hMem, hStatus, hProject, hCheck, resolution]

theorem checkRun_leaves (hReported : ∀ new ∈ reported, new.projectId = projectId ∧ new.checkKey = checkKey)
    (h : checkRun env projectId checkKey reported resolvedBy findings = .ok after) :
    (∀ new ∈ reported, ∃ row ∈ after.rows, row.key = new.key) ∧
      ∀ row ∈ after.rows, row.projectId = projectId → row.checkKey = checkKey →
        (row.status ≠ .resolved ↔ ∃ new ∈ reported, row.key = new.key) := by
  unfold checkRun at h
  cases hSightings : upsertAll env 0 reported findings with
  | error e =>
    rw [hSightings] at h
    cases h
  | ok answer =>
    obtain ⟨seen, sighted⟩ := answer
    rw [hSightings] at h
    cases h
    obtain ⟨hRows, hSeen⟩ := upsertAll_rows hSightings
    have hKeys : ∀ row ∈ sighted.rows, row.id ∈ seen ↔ ∃ new ∈ reported, row.key = new.key := by
      intro row hRow
      constructor
      · intro hMem
        obtain ⟨found, hFound, hId, _, new, hNew, hKey⟩ := hSeen row.id hMem
        rw [eq_of_id hFound hRow hId] at hKey
        exact ⟨new, hNew, hKey⟩
      · rintro ⟨new, hNew, hKey⟩
        obtain ⟨found, hFound, hMem, hSame⟩ := hRows new hNew
        rwa [eq_of_key hFound hRow (hSame.trans hKey.symm)] at hMem
    have hOpen : ∀ row ∈ sighted.rows, row.id ∈ seen → row.status ≠ .resolved := by
      intro row hRow hMem
      obtain ⟨found, hFound, hId, hStatus, _⟩ := hSeen row.id hMem
      rwa [eq_of_id hFound hRow hId] at hStatus
    constructor
    · intro new hNew
      obtain ⟨row, hRow, _, hKey⟩ := hRows new hNew
      refine ⟨_, mem_update.mpr ⟨row, hRow, rfl⟩, ?_⟩
      split
      · exact hKey
      · exact hKey
    · intro row hRow hProject hCheck
      obtain ⟨old, hOld, rfl⟩ := mem_update.mp hRow
      have hOldProject : old.projectId = projectId := by
        rw [← hProject]
        split <;> rfl
      have hOldCheck : old.checkKey = checkKey := by
        rw [← hCheck]
        split <;> rfl
      have hKey : ∀ new : NewFinding, (if old.projectId = projectId && old.checkKey = checkKey && old.status ≠ .resolved &&
          old.id ∉ seen then (resolution .resolved (some resolvedBy.kind) (some env.now)).write old else old).key = new.key ↔
            old.key = new.key := by
        intro new
        split <;> rfl
      rw [missing_open hOldProject hOldCheck]
      simp only [hKey]
      rw [← hKeys old hOld]
      exact and_iff_left_of_imp (hOpen old hOld)

/-- Who resolved a finding, and when, is recorded while it is resolved. -/
def Stamped (finding : AuditFinding) : Prop :=
  (finding.resolvedBy.isSome = true ↔ finding.status = .resolved) ∧
    (finding.resolvedAt.isSome = true ↔ finding.status = .resolved)

theorem update_stamped
    (hChange : ∀ finding, Stamped finding → Stamped (change.write finding)) (h : ∀ finding ∈ findings.rows, Stamped finding) :
    ∀ finding ∈ (update findings condition change).rows, Stamped finding := by
  intro finding hFinding
  obtain ⟨old, hOld, rfl⟩ := mem_update.mp hFinding
  split
  · exact hChange old (h old hOld)
  · exact h old hOld

theorem seenAgain_stamped (new : NewFinding) (now : Timestamp) (finding : AuditFinding) (h : Stamped finding) :
    Stamped ((seenAgain new now).write finding) := by
  unfold Stamped seenAgain
  dsimp only
  by_cases hResolved : finding.status = .resolved
  · simp [hResolved]
  · rw [if_neg hResolved, if_neg hResolved, if_neg hResolved]
    exact h

theorem act_stamped (action : AuditAction) (h : ∀ finding ∈ findings.rows, Stamped finding) :
    ∀ finding ∈ (act findings action).rows, Stamped finding := by
  cases action with
  | sight env new =>
    unfold act
    dsimp only
    split
    · rename_i id sighted hSighted
      rcases upsert_cases hSighted with ⟨existing, _, _, _, rfl⟩ | ⟨_, _, hRows⟩
      · exact update_stamped (seenAgain_stamped new env.now) h
      · intro finding hFinding
        rw [hRows] at hFinding
        rcases mem_append.mp hFinding with hOld | hNew
        · exact h finding hOld
        · cases mem_singleton.mp hNew
          exact ⟨by simp [firstSeen], by simp [firstSeen]⟩
    · exact h
  | resolveMissing projectId checkKey seen resolvedBy now =>
    exact update_stamped (fun _ _ => ⟨by simp [resolution], by simp [resolution]⟩) h
  | setStatus id status actor now =>
    refine update_stamped (fun finding _ => ?_) h
    split
    · rename_i hResolved
      exact ⟨by simp [resolution, hResolved], by simp [resolution, hResolved]⟩
    · rename_i hOpen
      exact ⟨by simp [resolution, hOpen], by simp [resolution, hOpen]⟩

theorem run_stamped (actions : List AuditAction) : ∀ finding ∈ (run actions).rows, Stamped finding := by
  have hKeeps : ∀ (findings : AuditFindings), (∀ finding ∈ findings.rows, Stamped finding) →
      ∀ finding ∈ (actions.foldl act findings).rows, Stamped finding := by
    induction actions with
    | nil => exact fun _ h => h
    | cons action rest ih => exact fun findings h => ih _ (act_stamped action h)
  exact hKeeps empty fun finding hFinding => absurd hFinding not_mem_nil

def sightings (findings : AuditFindings) (sights : List (Env × NewFinding)) : AuditFindings :=
  (sights.map fun sight => AuditAction.sight sight.1 sight.2).foldl act findings

theorem sightings_follow (findings : AuditFindings) (sights : List (Env × NewFinding)) :
    Follows findings (sightings findings sights) := by
  unfold sightings
  induction sights generalizing findings with
  | nil => exact .refl findings
  | cons sight rest ih =>
    rw [map_cons, foldl_cons]
    refine Follows.trans ?_ (ih _)
    unfold act
    dsimp only
    split
    · rename_i id sighted hSighted
      exact upsert_follows hSighted
    · exact .refl findings

/-- After any sequence of checks and actions of operators: there is one finding a project,
check key and entity; a check leaves open, of its scope and key, what it reports; what was
acknowledged or muted stays so when it is seen again; and a resolution is recorded where
the finding is resolved. -/
theorem findings_lifecycle (actions : List AuditAction) :
    (∀ finding ∈ (run actions).rows, ∀ other ∈ (run actions).rows, finding.key = other.key → finding = other) ∧
      (∀ (env : Env) (projectId : Option ProjectId) (checkKey : String) (reported : List NewFinding) (resolvedBy : ActorRef),
        (∀ new ∈ reported, new.projectId = projectId ∧ new.checkKey = checkKey) →
          (MintsFindings env (run actions) →
            ∃ after, checkRun env projectId checkKey reported resolvedBy (run actions) = .ok after) ∧
          ∀ after, checkRun env projectId checkKey reported resolvedBy (run actions) = .ok after →
            (∀ new ∈ reported, ∃ row ∈ after.rows, row.key = new.key) ∧
              ∀ row ∈ after.rows, row.projectId = projectId → row.checkKey = checkKey →
                (row.status ≠ .resolved ↔ ∃ new ∈ reported, row.key = new.key)) ∧
      (∀ (sights : List (Env × NewFinding)), ∀ finding ∈ (run actions).rows,
        finding.status = .acknowledged ∨ finding.status = .muted →
          ∃ later ∈ (sightings (run actions) sights).rows, later.id = finding.id ∧ later.status = finding.status) ∧
      ∀ finding ∈ (run actions).rows, (finding.resolvedBy.isSome = true ↔ finding.status = .resolved) ∧
        (finding.resolvedAt.isSome = true ↔ finding.status = .resolved) := by
  refine ⟨fun finding hFinding other hOther => eq_of_key hFinding hOther, ?_, ?_, run_stamped actions⟩
  · intro env projectId checkKey reported resolvedBy hReported
    refine ⟨fun hMints => ?_, fun after hRun => checkRun_leaves hReported hRun⟩
    obtain ⟨⟨seen, sighted⟩, hSightings⟩ := @upsertAll_new (run actions) env 0 reported
      (fun n _ finding hFinding => hMints.fresh n finding hFinding) hMints.distinct
    unfold checkRun
    rw [hSightings]
    exact ⟨_, rfl⟩
  · intro sights finding hFinding hHeld
    obtain ⟨later, hLater, hId, _, hStatus⟩ := sightings_follow (run actions) sights finding hFinding
    refine ⟨later, hLater, hId, hStatus ?_⟩
    rcases hHeld with hIs | hIs
    · rw [hIs]
      simp
    · rw [hIs]
      simp

end AuditFindingRepo
end Daruma
