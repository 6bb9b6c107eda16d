import Daruma.Storage.ArtifactRepo

/-! The generations of role artifacts, and what events make of them. -/
namespace Daruma

open List

/-- The place of a role artifact and its status. -/
structure RoleRow where
  id : ArtifactId
  taskId : Option TaskId
  entry : RoleArtifact

def Artifact.roleRow (artifact : Artifact) : Option RoleRow :=
  artifact.roleArtifact.map fun entry => ⟨artifact.id, artifact.taskId, entry⟩

def Database.roleRows (db : Database) : List RoleRow := db.artifacts.rows.filterMap Artifact.roleRow

namespace RoleRow

def inSlot (taskId : TaskId) (role kind : String) (row : RoleRow) : Bool :=
  row.taskId = some taskId && row.entry.role = role && row.entry.kind = kind

def SameSlot (row other : RoleRow) : Prop :=
  row.taskId = other.taskId ∧ row.entry.role = other.entry.role ∧ row.entry.kind = other.entry.kind

def settle (id : ArtifactId) (toStatus : RoleArtifactStatus) (row : RoleRow) : RoleRow :=
  if row.id = id then { row with entry := { row.entry with status := toStatus } } else row

end RoleRow

def generations (taskId : TaskId) (role kind : String) (rows : List RoleRow) : List Int :=
  (rows.filter (RoleRow.inSlot taskId role kind)).map fun row => row.entry.generation

/-- The generations from 1 to `n`. -/
def oneTo (n : Nat) : List Int := (List.range n).map fun k : Nat => (k : Int) + 1

/-- The generations of every task, role and kind are `1..n`, without a gap or a repetition. -/
def Numbered (rows : List RoleRow) : Prop := ∀ taskId role kind, ∃ n, (generations taskId role kind rows).Perm (oneTo n)

def Succeeded (rows : List RoleRow) (relations : List ArtifactRelation) (row : RoleRow) : Prop :=
  ∃ relation ∈ relations, relation.kind = .supersedes ∧ relation.toId = row.id ∧ ∃ next ∈ rows, next.id = relation.fromId ∧
    next.SameSlot row ∧ row.entry.generation < next.entry.generation

def Linked (rows : List RoleRow) (relations : List ArtifactRelation) : Prop :=
  ∀ row ∈ rows, row.entry.status = .superseded → Succeeded rows relations row

def Database.roleStatus (db : Database) (id : ArtifactId) : Option RoleArtifactStatus :=
  (db.artifacts.find? id).bind fun artifact => artifact.roleArtifact.map RoleArtifact.status

/-- Role artifacts that have left `proposed` keep their status. -/
def Settled (before after : Database) : Prop :=
  ∀ id status, before.roleStatus id = some status → status ≠ .proposed → after.roleStatus id = some status

def Refers (db : Database) : Prop := ∀ relation ∈ db.artifactRelations,
  db.artifacts.contains relation.fromId = true ∧ db.artifacts.contains relation.toId = true

def Database.HasRole (db : Database) (id : ArtifactId) : Prop := ∃ row ∈ db.roleRows, row.id = id

/-- What calls keep of role artifacts. -/
structure Generated (db : Database) : Prop where
  numbered : Numbered db.roleRows
  linked : Linked db.roleRows db.artifactRelations.rows
  refers : Refers db

section

variable {taskId : TaskId} {role kind : String} {rows : List RoleRow} {row : RoleRow}

variable {n : Nat}

theorem mem_oneTo {generation : Int} : generation ∈ oneTo n ↔ 1 ≤ generation ∧ generation ≤ n := by
  unfold oneTo
  rw [mem_map]
  constructor
  · rintro ⟨k, hk, rfl⟩
    have hk := mem_range.mp hk
    omega
  · intro ⟨hLow, hHigh⟩
    refine ⟨(generation - 1).toNat, mem_range.mpr ?_, ?_⟩ <;> omega

theorem oneTo_succ (n : Nat) : oneTo (n + 1) = oneTo n ++ [(n : Int) + 1] := by
  unfold oneTo
  rw [range_succ, map_append]
  rfl

theorem max_of_perm {generations : List Int} (h : generations.Perm (oneTo n)) : generations.max?.getD 0 = n := by
  cases n with
  | zero =>
    rw [List.Perm.eq_nil h]
    rfl
  | succ n =>
    have hMax : generations.max? = some ((n + 1 : Nat) : Int) := by
      refine max?_eq_some_iff.mpr ⟨h.mem_iff.mpr (mem_oneTo.mpr ⟨by omega, by omega⟩), fun other hOther => ?_⟩
      exact (mem_oneTo.mp (h.mem_iff.mp hOther)).2
    rw [hMax]
    rfl

theorem generations_append {later : List RoleRow} :
    generations taskId role kind (rows ++ later) = generations taskId role kind rows ++ generations taskId role kind later := by
  unfold generations
  rw [filter_append, map_append]

theorem mem_generations (hRow : row ∈ rows) (hSlot : row.inSlot taskId role kind = true) :
    row.entry.generation ∈ generations taskId role kind rows :=
  mem_map_of_mem (mem_filter.mpr ⟨hRow, hSlot⟩)

variable {toStatus : RoleArtifactStatus}

theorem generations_settle {id : ArtifactId} :
    generations taskId role kind (rows.map (RoleRow.settle id toStatus)) = generations taskId role kind rows := by
  induction rows with
  | nil => rfl
  | cons row rest ih =>
    have hSame : (row.settle id toStatus).inSlot taskId role kind = row.inSlot taskId role kind ∧
        (row.settle id toStatus).entry.generation = row.entry.generation := by
      unfold RoleRow.settle
      split
      · exact ⟨rfl, rfl⟩
      · exact ⟨rfl, rfl⟩
    unfold generations at ih ⊢
    rw [map_cons, filter_cons, filter_cons, hSame.1]
    split
    · rw [map_cons, map_cons, ih, hSame.2]
    · exact ih

theorem Numbered.propose (h : Numbered rows) (hTask : row.taskId = some taskId) (hRole : row.entry.role = role)
    (hKind : row.entry.kind = kind)
    (hNext : row.entry.generation = (generations taskId role kind rows).max?.getD 0 + 1) : Numbered (rows ++ [row]) := by
  intro otherTask otherRole otherKind
  obtain ⟨n, hPerm⟩ := h otherTask otherRole otherKind
  rw [generations_append]
  by_cases hSlot : row.inSlot otherTask otherRole otherKind = true
  · have hIs : otherTask = taskId ∧ otherRole = role ∧ otherKind = kind := by
      simp only [RoleRow.inSlot, hTask, hRole, hKind, Bool.and_eq_true, decide_eq_true_eq, Option.some.injEq] at hSlot
      exact ⟨hSlot.1.1.symm, hSlot.1.2.symm, hSlot.2.symm⟩
    obtain ⟨rfl, rfl, rfl⟩ := hIs
    refine ⟨n + 1, ?_⟩
    have hOne : generations otherTask otherRole otherKind [row] = [(n : Int) + 1] := by
      unfold generations
      rw [filter_cons, if_pos hSlot, filter_nil, map_singleton, hNext, max_of_perm hPerm]
    rw [hOne, oneTo_succ]
    exact hPerm.append_right _
  · refine ⟨n, ?_⟩
    have hNone : generations otherTask otherRole otherKind [row] = [] := by
      unfold generations
      rw [filter_cons, if_neg hSlot]
      rfl
    rw [hNone, append_nil]
    exact hPerm

theorem Numbered.settle (h : Numbered rows) (id : ArtifactId) (toStatus : RoleArtifactStatus) :
    Numbered (rows.map (RoleRow.settle id toStatus)) := by
  intro taskId role kind
  rw [generations_settle]
  exact h taskId role kind

theorem Numbered.lt_next (h : Numbered rows) (hRow : row ∈ rows) (hSlot : row.inSlot taskId role kind = true) :
    row.entry.generation < (generations taskId role kind rows).max?.getD 0 + 1 := by
  obtain ⟨n, hPerm⟩ := h taskId role kind
  have hBound := (mem_oneTo.mp (hPerm.mem_iff.mp (mem_generations hRow hSlot))).2
  rw [max_of_perm hPerm]
  exact Int.lt_add_one_of_le hBound

end

section

variable {rows later : List RoleRow} {relations more : List ArtifactRelation} {row : RoleRow}

theorem Succeeded.mono (h : Succeeded rows relations row) (hRows : ∀ row ∈ rows, row ∈ later)
    (hRelations : ∀ relation ∈ relations, (∃ row ∈ rows, row.id = relation.fromId) → relation.toId = row.id →
      relation ∈ more) : Succeeded later more row := by
  obtain ⟨relation, hRelation, hKind, hTo, next, hNext, hFrom, hSlot, hLater⟩ := h
  exact ⟨relation, hRelations relation hRelation ⟨next, hNext, hFrom⟩ hTo, hKind, hTo, next, hRows next hNext, hFrom, hSlot,
    hLater⟩

theorem Succeeded.settle (h : Succeeded rows relations row) (id : ArtifactId) (toStatus : RoleArtifactStatus) :
    Succeeded (rows.map (RoleRow.settle id toStatus)) relations (row.settle id toStatus) := by
  have hSame : ∀ row : RoleRow, (row.settle id toStatus).id = row.id ∧ (row.settle id toStatus).taskId = row.taskId ∧
      (row.settle id toStatus).entry.role = row.entry.role ∧ (row.settle id toStatus).entry.kind = row.entry.kind ∧
      (row.settle id toStatus).entry.generation = row.entry.generation := by
    intro row
    unfold RoleRow.settle
    split
    · exact ⟨rfl, rfl, rfl, rfl, rfl⟩
    · exact ⟨rfl, rfl, rfl, rfl, rfl⟩
  obtain ⟨relation, hRelation, hKind, hTo, next, hNext, hFrom, ⟨hTask, hRole, hKindSame⟩, hLater⟩ := h
  obtain ⟨hId, hRowTask, hRowRole, hRowKind, hRowGeneration⟩ := hSame row
  obtain ⟨hNextId, hNextTask, hNextRole, hNextKind, hNextGeneration⟩ := hSame next
  refine ⟨relation, hRelation, hKind, hTo.trans hId.symm, _, mem_map_of_mem hNext, hNextId.trans hFrom,
    ⟨?_, ?_, ?_⟩, ?_⟩
  · rw [hNextTask, hTask, hRowTask]
  · rw [hNextRole, hRole, hRowRole]
  · rw [hNextKind, hKindSame, hRowKind]
  · rw [hNextGeneration, hRowGeneration]
    exact hLater

end

namespace ArtifactRepo

variable {db : Database} {id : ArtifactId} {artifact : Artifact}

theorem generations_roleRow {taskId : TaskId} {role kind : String} (artifacts : List Artifact) :
    (artifacts.filterMap fun artifact =>
      match artifact.roleArtifact with
      | some entry =>
        if artifact.taskId = some taskId && entry.role = role && entry.kind = kind then some entry.generation else none
      | none => none) = generations taskId role kind (artifacts.filterMap Artifact.roleRow) := by
  induction artifacts with
  | nil => rfl
  | cons artifact rest ih =>
    unfold generations at ih ⊢
    rw [filterMap_cons, filterMap_cons, ih]
    unfold Artifact.roleRow
    cases artifact.roleArtifact with
    | none => rfl
    | some entry =>
      have hSlot : RoleRow.inSlot taskId role kind ⟨artifact.id, artifact.taskId, entry⟩ =
          (artifact.taskId = some taskId && entry.role = role && entry.kind = kind) := rfl
      dsimp only [Option.map_some]
      rw [filter_cons, hSlot]
      by_cases hIn : (artifact.taskId = some taskId && entry.role = role && entry.kind = kind) = true
      · rw [if_pos hIn, if_pos hIn]
        rfl
      · rw [if_neg hIn, if_neg hIn]

theorem nextRoleGeneration_eq {taskId : TaskId} {role kind : String} :
    nextRoleGeneration db taskId role kind = (generations taskId role kind db.roleRows).max?.getD 0 + 1 :=
  congrArg (fun list : List Int => list.max?.getD 0 + 1) (generations_roleRow db.artifacts.rows)

variable {row : RoleRow}

theorem mem_roleRows : row ∈ db.roleRows ↔ ∃ artifact ∈ db.artifacts, artifact.roleRow = some row := by
  unfold Database.roleRows
  rw [mem_filterMap]
  rfl

theorem roleRow_id (h : artifact.roleRow = some row) : row.id = artifact.id := by
  obtain ⟨entry, _, rfl⟩ := Option.map_eq_some_iff.mp h
  rfl

theorem roleRows_unique {other : RoleRow} (hRow : row ∈ db.roleRows) (hOther : other ∈ db.roleRows)
    (hSame : row.id = other.id) : row = other := by
  obtain ⟨artifact, hArtifact, hIs⟩ := mem_roleRows.mp hRow
  obtain ⟨second, hSecond, hIsSecond⟩ := mem_roleRows.mp hOther
  have hKey : artifact.id = second.id := (roleRow_id hIs).symm.trans (hSame.trans (roleRow_id hIsSecond))
  rw [KeyedTable.eq_of_key_eq hArtifact hSecond hKey, hIsSecond] at hIs
  exact (Option.some.inj hIs).symm

theorem stored_of_role (h : db.HasRole id) : db.artifacts.contains id = true := by
  obtain ⟨row, hRow, rfl⟩ := h
  obtain ⟨artifact, hArtifact, hIs⟩ := mem_roleRows.mp hRow
  rw [roleRow_id hIs]
  exact KeyedTable.contains_iff.mpr ⟨artifact, hArtifact, rfl⟩

theorem roleStatus_eq_some {status : RoleArtifactStatus} :
    db.roleStatus id = some status ↔ ∃ row ∈ db.roleRows, row.id = id ∧ row.entry.status = status := by
  unfold Database.roleStatus
  constructor
  · intro h
    obtain ⟨artifact, hFound, hStatus⟩ := Option.bind_eq_some_iff.mp h
    obtain ⟨entry, hEntry, rfl⟩ := Option.map_eq_some_iff.mp hStatus
    have hRow : artifact.roleRow = some ⟨artifact.id, artifact.taskId, entry⟩ := by
      rw [Artifact.roleRow, hEntry]
      rfl
    have hId : artifact.id = id := KeyedTable.key_of_find? hFound
    exact ⟨_, mem_roleRows.mpr ⟨artifact, KeyedTable.mem_of_find? hFound, hRow⟩, hId, rfl⟩
  · rintro ⟨row, hRow, rfl, rfl⟩
    obtain ⟨artifact, hArtifact, hIs⟩ := mem_roleRows.mp hRow
    obtain ⟨entry, hEntry, rfl⟩ := Option.map_eq_some_iff.mp hIs
    rw [KeyedTable.find?_of_mem hArtifact, Option.bind_some, hEntry]
    rfl

variable {instant : Timestamp} {f : Artifact → Artifact} {target : ArtifactId}

theorem roleRows_updateArtifact
    (hRow : ∀ artifact, (f artifact).id = artifact.id ∧ (f artifact).roleRow = artifact.roleRow) :
    (updateArtifact db id instant f).roleRows = db.roleRows := by
  show List.filterMap Artifact.roleRow (db.artifacts.modify id _).rows = _
  rw [KeyedTable.rows_modify, filterMap_map]
  · apply filterMap_congr
    intro artifact _
    show Artifact.roleRow (if artifact.id = id then _ else artifact) = _
    split
    · exact (hRow artifact).2
    · rfl
  · exact fun artifact => (hRow artifact).1

def settle (db : Database) (id : ArtifactId) (instant : Timestamp) (toStatus : RoleArtifactStatus) : Database :=
  updateArtifact db id instant fun artifact =>
    { artifact with roleArtifact := artifact.roleArtifact.map fun entry => { entry with status := toStatus } }

theorem roleRows_settle {instant : Timestamp} :
    (settle db id instant toStatus).roleRows = db.roleRows.map (RoleRow.settle id toStatus) := by
  show List.filterMap Artifact.roleRow (db.artifacts.modify id _).rows = _
  rw [KeyedTable.rows_modify]
  · unfold Database.roleRows
    rw [filterMap_map, map_filterMap]
    apply filterMap_congr
    intro artifact _
    show Artifact.roleRow (if artifact.id = id then _ else artifact) = artifact.roleRow.map _
    obtain ⟨other, _, _, _, _, _, taskId, _, _, _, roleArtifact, _, _⟩ := artifact
    by_cases hIs : other = id
    · cases roleArtifact with
      | none =>
        rw [if_pos hIs]
        rfl
      | some entry =>
        rw [if_pos hIs]
        simp [Artifact.roleRow, RoleRow.settle, hIs]
    · cases roleArtifact with
      | none =>
        rw [if_neg hIs]
        rfl
      | some entry =>
        rw [if_neg hIs]
        simp [Artifact.roleRow, RoleRow.settle, hIs]
  · exact fun _ => rfl

def replacedBy (artifact other : Artifact) : Bool :=
  other.id = artifact.id || other.uri = artifact.uri || sameGeneration other artifact

theorem roleRows_upsert (hNone : ∀ other ∈ db.artifacts, replacedBy artifact other = true → other.roleArtifact = none) :
    (upsert db artifact).roleRows = db.roleRows ++ artifact.roleRow.toList := by
  have hKept : ∀ (artifacts : List Artifact) (keep : Artifact → Bool),
      (∀ other ∈ artifacts, keep other = false → other.roleRow = none) →
      (artifacts.filter keep).filterMap Artifact.roleRow = artifacts.filterMap Artifact.roleRow := by
    intro artifacts keep hOut
    rw [filterMap_filter]
    refine filterMap_congr fun other hOther => ?_
    split
    · rfl
    · rename_i hDropped
      exact (hOut other hOther (Bool.eq_false_iff.mpr hDropped)).symm
  show List.filterMap Artifact.roleRow
    ((db.artifacts.rows.filter fun other => !replacedBy artifact other).filter (fun other => decide (other.id ≠ artifact.id)) ++
      [artifact]) = _
  have hNoRow : ∀ other ∈ db.artifacts, replacedBy artifact other = true → other.roleRow = none := by
    intro other hOther hReplaced
    rw [Artifact.roleRow, hNone other hOther hReplaced]
    rfl
  rw [filterMap_append, hKept, hKept]
  · unfold Database.roleRows
    cases hRow : artifact.roleRow with
    | none | some => simp [hRow]
  · intro other hOther hDropped
    exact hNoRow other hOther (by simpa using hDropped)
  · intro other hOther hDropped
    refine hNoRow other (mem_filter.mp hOther).1 ?_
    have hSame : other.id = artifact.id := by simpa using hDropped
    simp [replacedBy, hSame]

theorem mem_upsert_relations {relation : ArtifactRelation} : relation ∈ (upsert db artifact).artifactRelations ↔
    relation ∈ db.artifactRelations ∧ ∀ other ∈ db.artifacts, replacedBy artifact other = true →
      relation.fromId ≠ other.id ∧ relation.toId ≠ other.id := by
  show relation ∈ db.artifactRelations.filter _ ↔ _
  rw [KeyedTable.mem_filter]
  refine and_congr_right fun _ => ?_
  simp only [Bool.and_eq_true, decide_eq_true_eq, mem_map, mem_filter, not_exists, not_and]
  constructor
  · intro hApart other hOther hReplaced
    exact ⟨fun hFrom => hApart.1 other ⟨hOther, hReplaced⟩ hFrom.symm, fun hTo => hApart.2 other ⟨hOther, hReplaced⟩ hTo.symm⟩
  · intro hApart
    refine ⟨fun other hOther hFrom => ?_, fun other hOther hTo => ?_⟩
    · exact (hApart other hOther.1 hOther.2).1 hFrom.symm
    · exact (hApart other hOther.1 hOther.2).2 hTo.symm

theorem contains_upsert : (upsert db artifact).artifacts.contains id = true ↔
    id = artifact.id ∨ ∃ other ∈ db.artifacts, other.id = id ∧ replacedBy artifact other = false := by
  rw [KeyedTable.contains_iff]
  show (∃ row ∈ (db.artifacts.filter fun other => !replacedBy artifact other).insertOrReplace artifact, row.id = id) ↔ _
  constructor
  · rintro ⟨row, hRow, rfl⟩
    rcases KeyedTable.mem_insertOrReplace.mp hRow with rfl | ⟨hRow, _⟩
    · exact .inl rfl
    · obtain ⟨hRow, hKept⟩ := KeyedTable.mem_filter.mp hRow
      exact .inr ⟨row, hRow, rfl, by simpa using hKept⟩
  · rintro (rfl | ⟨other, hOther, rfl, hKept⟩)
    · exact ⟨artifact, KeyedTable.mem_insertOrReplace.mpr (.inl rfl), rfl⟩
    · have hApart : other.id ≠ artifact.id := fun hSame => by simp [replacedBy, hSame] at hKept
      refine ⟨other, KeyedTable.mem_insertOrReplace.mpr (.inr ⟨?_, hApart⟩), rfl⟩
      exact KeyedTable.mem_filter.mpr ⟨hOther, by simpa using hKept⟩

theorem refers_upsert (h : Refers db) (artifact : Artifact) : Refers (upsert db artifact) := by
  intro relation hRelation
  obtain ⟨hOld, hApart⟩ := mem_upsert_relations.mp hRelation
  have hStays : ∀ {id : ArtifactId}, db.artifacts.contains id = true →
      (∀ other ∈ db.artifacts, replacedBy artifact other = true → id ≠ other.id) →
      (ArtifactRepo.upsert db artifact).artifacts.contains id = true := by
    intro id hStored hKept
    obtain ⟨other, hOther, rfl⟩ := KeyedTable.contains_iff.mp hStored
    refine contains_upsert.mpr (.inr ⟨other, hOther, rfl, ?_⟩)
    exact Bool.eq_false_iff.mpr fun hReplaced => hKept other hOther hReplaced rfl
  exact ⟨hStays (h relation hOld).1 fun other hOther hReplaced => (hApart other hOther hReplaced).1,
    hStays (h relation hOld).2 fun other hOther hReplaced => (hApart other hOther hReplaced).2⟩

theorem contains_updateArtifact (hId : ∀ artifact, (f artifact).id = artifact.id) :
    (updateArtifact db target instant f).artifacts.contains id = db.artifacts.contains id := by
  show ((db.artifacts.modify target _).find? id).isSome = (db.artifacts.find? id).isSome
  rw [KeyedTable.find?_modify]
  · split
    · exact Option.isSome_map
    · rfl
  · exact fun artifact => hId artifact

theorem refers_updateArtifact (h : Refers db)
    (hId : ∀ artifact, (f artifact).id = artifact.id) : Refers (updateArtifact db target instant f) := by
  intro relation hRelation
  rw [contains_updateArtifact hId, contains_updateArtifact hId]
  exact h relation hRelation

theorem contains_settle :
    (settle db target instant toStatus).artifacts.contains id = db.artifacts.contains id :=
  contains_updateArtifact fun _ => rfl

end ArtifactRepo

/-- A state in which role artifacts are kept as they were in another. -/
structure Carried (before after : Database) : Prop where
  generated : Generated after
  settled : Settled before after

namespace Carried

variable {db after : Database}

theorem of_same (h : Generated db) (hRows : after.roleRows = db.roleRows)
    (hRelations : ∀ relation ∈ db.artifactRelations, db.HasRole relation.fromId → db.HasRole relation.toId →
      relation ∈ after.artifactRelations)
    (hRefers : Refers after) : Carried db after := by
  refine ⟨⟨hRows ▸ h.numbered, fun row hRow hSuperseded => ?_, hRefers⟩, fun id status hStatus _ => ?_⟩
  · rw [hRows] at hRow ⊢
    refine (h.linked row hRow hSuperseded).mono (fun _ hMem => hMem) fun relation hRelation hFrom hTo => ?_
    exact hRelations relation hRelation hFrom ⟨row, hRow, hTo.symm⟩
  · rw [ArtifactRepo.roleStatus_eq_some, hRows]
    exact ArtifactRepo.roleStatus_eq_some.mp hStatus

theorem trans {last : Database} (h : Carried db after) (h' : Carried after last) : Carried db last :=
  ⟨h'.generated, fun id status hStatus hLeft => h'.settled id status (h.settled id status hStatus hLeft) hLeft⟩

theorem refl (h : Generated db) : Carried db db := of_same h rfl (fun _ hRelation _ _ => hRelation) h.refers

end Carried

end Daruma
