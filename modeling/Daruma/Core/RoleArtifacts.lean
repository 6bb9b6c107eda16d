import Daruma.Core.WorkHistory
import Daruma.Storage.RoleGenerations

/-! Role artifacts over the commands about artifacts: their generations, their statuses
and the links between them. -/
namespace Daruma

open Outcome List
open KeyedTable (mem_upsert find?_eq_none_iff key_of_find?)
open ArtifactRepo (settle)
open Stateful (lift_eq inTurn_append inTurn_total)
open ArtifactRepo (upsert replacedBy mem_roleRows roleRows_settle mem_upsert_relations applyEvent
  addRelation nextRoleGeneration_eq applyArtifactEvent sameGeneration refers_upsert roleRows_upsert
  refers_updateArtifact nextRoleGeneration roleRow_id roleStatus_eq_some contains_settle getByUri)
open EventEnvelope (payload)

namespace ArtifactCommand

def KeepsGenerations (db : Database) (env : Env) : ArtifactCommand → Prop
  | .registerArtifact new => ¬db.HasRole (new.id.getD (env.fresh 0))
  | .proposeRoleArtifact _ _ _ _ _ supersedes artifactId => ¬db.HasRole (artifactId.getD (env.fresh 0)) ∧
      (supersedes.isSome = true → db.artifactRelations.find? (env.fresh 1) = none)
  | .setRoleArtifactStatus id toStatus => toStatus = .superseded → ∀ row ∈ db.roleRows, row.id = id →
      Succeeded db.roleRows db.artifactRelations.rows row
  | .removeArtifactRelation source target kind => ∀ row ∈ db.roleRows, row.id = target → row.entry.status = .superseded →
      Succeeded db.roleRows (db.artifactRelations.rows.filter fun relation =>
        !(relation.fromId = source && relation.toId = target && relation.kind = kind)) row
  | _ => True

end ArtifactCommand

namespace ArtifactRepo

variable {db : Database} {post : Database → Prop} {events : List ArtifactEvent}

/-- The projection takes the events one after the other, whenever it does so, and ends
in such a state. -/
def Leads (post : Database → Prop) : List ArtifactEvent → Database → Prop
  | [], db => post db
  | event :: rest, db =>
    ∀ now instant, ∃ after, applyArtifactEvent db now instant event = .ok after ∧ Leads post rest after

theorem Leads.imp {other : Database → Prop} (hImp : ∀ after, post after → other after) (h : Leads post events db) :
    Leads other events db := by
  induction events generalizing db with
  | nil => exact hImp db h
  | cons event rest ih =>
    intro now instant
    obtain ⟨after, hTaken, hRest⟩ := h now instant
    exact ⟨after, hTaken, ih hRest⟩

theorem Leads.rewrites {id : ArtifactId} {event : ArtifactEvent} (h : Generated db)
    (hTaken : ∀ now instant, applyArtifactEvent db now instant event = .ok db ∨ ∃ f : Artifact → Artifact,
      (∀ artifact, (f artifact).id = artifact.id ∧ (f artifact).roleRow = artifact.roleRow) ∧
      applyArtifactEvent db now instant event = .ok (updateArtifact db id instant f)) :
    Leads (Carried db) [event] db := by
  intro now instant
  rcases hTaken now instant with hSame | ⟨f, hRow, hTaken⟩
  · exact ⟨db, hSame, .refl h⟩
  · exact ⟨_, hTaken, .of_same h (roleRows_updateArtifact hRow) (fun _ hRelation _ _ => hRelation)
      (refers_updateArtifact h.refers fun artifact => (hRow artifact).1)⟩

theorem applyArtifactEvent_settles {id : ArtifactId} {artifact : Artifact} {entry : RoleArtifact}
    (hFound : db.artifacts.find? id = some artifact) (hEntry : artifact.roleArtifact = some entry)
    (now instant changedAt : Timestamp) (fromStatus toStatus : RoleArtifactStatus) :
    applyArtifactEvent db now instant (.roleArtifactStatusChanged id fromStatus toStatus changedAt) =
      .ok (settle db id instant toStatus) := by
  obtain ⟨other, uri, title, description, status, owner, taskId, projectId, version, token, roleArtifact, created, updated⟩ :=
    artifact
  obtain rfl : roleArtifact = some entry := hEntry
  have hGet : get db id = some ⟨other, uri, title, description, status, owner, taskId, projectId, version, token, some entry,
      created, updated⟩ := hFound
  dsimp only [applyArtifactEvent]
  rw [hGet]
  dsimp only
  unfold settle updateArtifact
  rw [KeyedTable.modify_of_find?_eq_some _ hFound, KeyedTable.modify_of_find?_eq_some _ hFound]
  rfl

theorem settled_of_settle {after : Database} {id : ArtifactId} {toStatus : RoleArtifactStatus} {row : RoleRow}
    (hRow : row ∈ db.roleRows) (hId : row.id = id) (hProposed : row.entry.status = .proposed) {later : List RoleRow}
    (hRows : after.roleRows = (db.roleRows ++ later).map (RoleRow.settle id toStatus)) : Settled db after := by
  intro other status hStatus hLeft
  obtain ⟨kept, hKept, rfl, rfl⟩ := roleStatus_eq_some.mp hStatus
  have hApart : kept.id ≠ id := fun hSame =>
    hLeft (roleRows_unique hKept hRow (hSame.trans hId.symm) ▸ hProposed)
  refine roleStatus_eq_some.mpr ⟨kept, ?_, rfl, rfl⟩
  rw [hRows]
  refine mem_map.mpr ⟨kept, mem_append_left _ hKept, ?_⟩
  unfold RoleRow.settle
  rw [if_neg hApart]

end ArtifactRepo

namespace ArtifactCommands

open ArtifactRepo (Leads)

variable {db : Database} {env : Env} {events : List ArtifactEvent}

theorem ensureUriFree_ok {uri : String} (h : ensureUriFree db uri = .ok ()) : ∀ other ∈ db.artifacts, other.uri ≠ uri := by
  intro other hOther hSame
  have hNone : getByUri db uri = none := Option.isNone_iff_eq_none.mp (ensure_eq_ok.mp h)
  exact find?_eq_none.mp hNone other hOther (decide_eq_true hSame)

/-- A registration replaces no role artifact. -/
theorem registerArtifact_carried {new : NewArtifact} (h : Generated db)
    (hKeeps : ArtifactCommand.KeepsGenerations db env (.registerArtifact new))
    (hBuilt : registerArtifact db env new = .ok events) : Leads (Carried db) events db := by
  obtain ⟨_, _, hBuilt⟩ := bind_eq_ok.mp hBuilt
  obtain ⟨_, _, hBuilt⟩ := bind_eq_ok.mp hBuilt
  obtain ⟨_, hFree, hBuilt⟩ := bind_eq_ok.mp hBuilt
  cases pure_eq_ok.mp hBuilt
  have hReplaced : ∀ other ∈ db.artifacts,
      replacedBy (new.intoArtifact (env.fresh 0) env.now) other = true →
        other.id = new.id.getD (env.fresh 0) := by
    intro other hOther hIs
    rcases Bool.or_eq_true_iff.mp hIs with hIs | hGeneration
    · rcases Bool.or_eq_true_iff.mp hIs with hId | hUri
      · exact of_decide_eq_true hId
      · exact absurd (of_decide_eq_true hUri) (ensureUriFree_ok hFree other hOther)
    · unfold sameGeneration NewArtifact.intoArtifact at hGeneration
      cases hRole : other.roleArtifact with
      | none | some => simp [hRole] at hGeneration
  have hNone : ∀ other ∈ db.artifacts,
      replacedBy (new.intoArtifact (env.fresh 0) env.now) other = true → other.roleArtifact = none := by
    intro other hOther hIs
    by_contra hRole
    obtain ⟨entry, hEntry⟩ := Option.ne_none_iff_exists'.mp hRole
    have hRow : other.roleRow = some ⟨other.id, other.taskId, entry⟩ := by
      rw [Artifact.roleRow, hEntry]
      rfl
    exact hKeeps ⟨_, mem_roleRows.mpr ⟨other, hOther, hRow⟩, hReplaced other hOther hIs⟩
  intro now instant
  refine ⟨_, rfl, .of_same h ?_ ?_ (refers_upsert h.refers _)⟩
  · rw [roleRows_upsert hNone]
    exact append_nil _
  · intro relation hRelation hFrom hTo
    refine mem_upsert_relations.mpr ⟨hRelation, fun other hOther hIs => ⟨fun hSame => ?_, fun hSame => ?_⟩⟩
    · exact hKeeps (hReplaced other hOther hIs ▸ hSame ▸ hFrom)
    · exact hKeeps (hReplaced other hOther hIs ▸ hSame ▸ hTo)

variable {id source target : ArtifactId} {toStatus : RoleArtifactStatus}

theorem requireArtifact_ok {artifact : Artifact} (h : requireArtifact db id = .ok artifact) :
    db.artifacts.find? id = some artifact := okOr_eq_ok.mp h

theorem canTransitionTo_proposed {status : RoleArtifactStatus} (h : status.canTransitionTo toStatus = true) :
    status = .proposed := of_decide_eq_true (Bool.and_eq_true_iff.mp h).1

theorem setRoleArtifactStatus_carried (h : Generated db)
    (hKeeps : ArtifactCommand.KeepsGenerations db env (.setRoleArtifactStatus id toStatus))
    (hBuilt : setRoleArtifactStatus db env.now id toStatus = .ok events) : Leads (Carried db) events db := by
  obtain ⟨artifact, hArtifact, hBuilt⟩ := bind_eq_ok.mp hBuilt
  obtain ⟨entry, hEntry, hBuilt⟩ := bind_eq_ok.mp hBuilt
  have hFound := requireArtifact_ok hArtifact
  have hEntry : artifact.roleArtifact = some entry := okOr_eq_ok.mp hEntry
  have hId : artifact.id = id := key_of_find? hFound
  split at hBuilt
  · cases pure_eq_ok.mp hBuilt
    exact .refl h
  obtain ⟨_, hAllowed, hBuilt⟩ := bind_eq_ok.mp hBuilt
  cases pure_eq_ok.mp hBuilt
  have hProposed := canTransitionTo_proposed (ensure_eq_ok.mp hAllowed)
  have hRow : (⟨artifact.id, artifact.taskId, entry⟩ : RoleRow) ∈ db.roleRows := by
    refine mem_roleRows.mpr ⟨artifact, KeyedTable.mem_of_find? hFound, ?_⟩
    rw [Artifact.roleRow, hEntry]
    rfl
  intro now instant
  refine ⟨_, ArtifactRepo.applyArtifactEvent_settles hFound hEntry now instant _ _ _, ⟨?_, ?_, ?_⟩, ?_⟩
  · rw [roleRows_settle]
    exact h.numbered.settle id toStatus
  · rw [roleRows_settle]
    refine forall_mem_map.mpr fun row hMem hSuperseded => ?_
    have hSucceeded : Succeeded db.roleRows db.artifactRelations.rows row := by
      unfold RoleRow.settle at hSuperseded
      split at hSuperseded
      · rename_i hSame
        exact hKeeps hSuperseded row hMem hSame
      · exact h.linked row hMem hSuperseded
    exact hSucceeded.settle id toStatus
  · exact refers_updateArtifact h.refers fun _ => rfl
  · apply @ArtifactRepo.settled_of_settle db _ id toStatus _ hRow hId hProposed []
    rw [roleRows_settle, append_nil]

theorem addRelation_carried {relation : ArtifactRelation} (h : Generated db)
    (hFrom : db.artifacts.contains relation.fromId = true) (hTo : db.artifacts.contains relation.toId = true) :
    ∃ after, addRelation db relation = .ok after ∧ Carried db after ∧ after.artifacts = db.artifacts := by
  unfold addRelation
  dsimp only
  split
  · exact ⟨db, rfl, .refl h, rfl⟩
  · rename_i hNew
    rw [hFrom, hTo, Bool.and_true, if_pos rfl]
    have hNotStored : db.artifactRelations.find? relation.id = none := by
      refine find?_eq_none_iff.mpr fun other hOther hSame => hNew ?_
      exact any_eq_true.mpr ⟨other, hOther, by simp [hSame]⟩
    refine ⟨_, rfl, .of_same h rfl (fun other hOther _ _ => ?_) fun other hOther => ?_, rfl⟩
    · refine mem_upsert.mpr (.inr ⟨hOther, ?_⟩)
      exact find?_eq_none_iff.mp hNotStored other hOther
    · rcases mem_upsert.mp hOther with rfl | ⟨hOther, _⟩
      · exact ⟨hFrom, hTo⟩
      · exact h.refers other hOther

theorem addArtifactRelation_carried {kind : ArtifactRelationKind} (h : Generated db)
    (hBuilt : addArtifactRelation db env source target kind = .ok events) : Leads (Carried db) events db := by
  obtain ⟨_, _, hBuilt⟩ := bind_eq_ok.mp hBuilt
  obtain ⟨sourceArtifact, hSource, hBuilt⟩ := bind_eq_ok.mp hBuilt
  obtain ⟨targetArtifact, hTarget, hBuilt⟩ := bind_eq_ok.mp hBuilt
  obtain ⟨_, _, hBuilt⟩ := bind_eq_ok.mp hBuilt
  obtain ⟨_, _, hBuilt⟩ := bind_eq_ok.mp hBuilt
  cases pure_eq_ok.mp hBuilt
  have hStored : ∀ {id : ArtifactId} {artifact : Artifact}, requireArtifact db id = .ok artifact →
      db.artifacts.contains id = true := by
    intro id artifact hFound
    rw [KeyedTable.contains, requireArtifact_ok hFound]
    rfl
  intro now instant
  obtain ⟨after, hAdded, hCarried, hArtifacts⟩ :=
    @addRelation_carried db ⟨env.fresh 0, source, target, kind, env.now⟩ h (hStored hSource) (hStored hTarget)
  refine ⟨after, hAdded, ?_⟩
  split
  · have hDeprecated : Leads (Carried after)
        [.artifactDeprecated target (some s!"superseded by {sourceArtifact.uri}") env.now] after :=
      .rewrites hCarried.generated fun _ _ =>
        .inr ⟨fun artifact => { artifact with status := .deprecated }, fun _ => ⟨rfl, rfl⟩, rfl⟩
    exact hDeprecated.imp fun _ => hCarried.trans
  · exact hCarried

theorem removeArtifactRelation_carried {kind : ArtifactRelationKind} (h : Generated db)
    (hKeeps : ArtifactCommand.KeepsGenerations db env (.removeArtifactRelation source target kind))
    (hBuilt : removeArtifactRelation db env.now source target kind = .ok events) : Leads (Carried db) events db := by
  obtain ⟨relation, _, hBuilt⟩ := bind_eq_ok.mp hBuilt
  cases pure_eq_ok.mp hBuilt
  intro now instant
  refine ⟨_, rfl, ⟨h.numbered, fun row hRow hSuperseded => ?_, fun other hOther => ?_⟩, fun _ _ hStatus _ => hStatus⟩
  · by_cases hTarget : row.id = target
    · exact hKeeps row hRow hTarget hSuperseded
    · refine (h.linked row hRow hSuperseded).mono (fun _ hMem => hMem) fun other hOther _ hTo => ?_
      exact mem_filter.mpr ⟨hOther, by simp [hTo, hTarget]⟩
  · exact h.refers other (KeyedTable.mem_filter.mp hOther).1

structure Proposal (db : Database) (record : Artifact) (row : RoleRow) (taskId : TaskId) (role kind : String) : Prop where
  registers : record.roleRow = some row
  slot : row.inSlot taskId role kind = true
  next : row.entry.generation = nextRoleGeneration db taskId role kind
  proposed : row.entry.status = .proposed
  new : ¬db.HasRole record.id
  free : ∀ other ∈ db.artifacts, other.uri ≠ record.uri

namespace Proposal

variable {record : Artifact} {row : RoleRow} {taskId : TaskId} {role kind : String}

theorem inSlot_iff {row : RoleRow} : row.inSlot taskId role kind = true ↔
    row.taskId = some taskId ∧ row.entry.role = role ∧ row.entry.kind = kind := by
  simp [RoleRow.inSlot, and_assoc]

variable (h : Proposal db record row taskId role kind)

include h in
theorem replaces_none (hGenerated : Generated db) :
    ∀ other ∈ db.artifacts, replacedBy record other = true → other.roleArtifact = none := by
  intro other hOther hIs
  by_contra hRole
  obtain ⟨entry, hEntry⟩ := Option.ne_none_iff_exists'.mp hRole
  have hRow : (⟨other.id, other.taskId, entry⟩ : RoleRow) ∈ db.roleRows := by
    refine mem_roleRows.mpr ⟨other, hOther, ?_⟩
    rw [Artifact.roleRow, hEntry]
    rfl
  rcases Bool.or_eq_true_iff.mp hIs with hIs | hSame
  · rcases Bool.or_eq_true_iff.mp hIs with hId | hUri
    · exact h.new ⟨_, hRow, of_decide_eq_true hId⟩
    · exact h.free other hOther (of_decide_eq_true hUri)
  · obtain ⟨own, hOwn, hIsRow⟩ := Option.map_eq_some_iff.mp h.registers
    subst hIsRow
    unfold sameGeneration at hSame
    rw [hEntry, hOwn] at hSame
    simp only [Bool.and_eq_true, decide_eq_true_eq] at hSame
    obtain ⟨⟨⟨⟨_, hTask⟩, hRoleSame⟩, hKindSame⟩, hGeneration⟩ := hSame
    obtain ⟨hSlotTask, hSlotRole, hSlotKind⟩ := inSlot_iff.mp h.slot
    have hBelow := hGenerated.numbered.lt_next hRow
      (inSlot_iff.mpr ⟨hTask.trans hSlotTask, hRoleSame.trans hSlotRole, hKindSame.trans hSlotKind⟩)
    rw [← nextRoleGeneration_eq, ← h.next] at hBelow
    exact absurd hBelow (by dsimp only; omega)

include h in
theorem roleRows_eq (hGenerated : Generated db) : (upsert db record).roleRows = db.roleRows ++ [row] := by
  rw [roleRows_upsert (h.replaces_none hGenerated), h.registers]
  rfl

include h in
theorem relations_stay (hGenerated : Generated db)
    {relation : ArtifactRelation} (hRelation : relation ∈ db.artifactRelations) (hFrom : db.HasRole relation.fromId)
    (hTo : db.HasRole relation.toId) : relation ∈ (upsert db record).artifactRelations := by
  have hPlain : ∀ {id : ArtifactId}, db.HasRole id → ∀ other ∈ db.artifacts,
      replacedBy record other = true → id ≠ other.id := by
    rintro id ⟨row, hRow, rfl⟩ other hOther hIs hSame
    obtain ⟨artifact, hArtifact, hArtifactRow⟩ := mem_roleRows.mp hRow
    have hKey : artifact.id = other.id := (roleRow_id hArtifactRow).symm.trans hSame
    rw [KeyedTable.eq_of_key_eq hArtifact hOther hKey, Artifact.roleRow, h.replaces_none hGenerated other hOther hIs]
      at hArtifactRow
    cases hArtifactRow
  exact mem_upsert_relations.mpr ⟨hRelation, fun other hOther hIs =>
    ⟨hPlain hFrom other hOther hIs, hPlain hTo other hOther hIs⟩⟩

include h in
/-- A proposal is registered. -/
theorem carried (hGenerated : Generated db) : Carried db (upsert db record) := by
  obtain ⟨hTask, hRole, hKind⟩ := inSlot_iff.mp h.slot
  refine ⟨⟨?_, fun other hOther hSuperseded => ?_, refers_upsert hGenerated.refers record⟩,
    fun id status hStatus _ => ?_⟩
  · rw [h.roleRows_eq hGenerated]
    exact hGenerated.numbered.propose hTask hRole hKind (h.next.trans nextRoleGeneration_eq)
  · rw [h.roleRows_eq hGenerated] at hOther ⊢
    rcases mem_append.mp hOther with hOld | hNew
    · refine (hGenerated.linked other hOld hSuperseded).mono (fun _ hMem => mem_append_left _ hMem) ?_
      intro relation hRelation hFrom hTo
      exact h.relations_stay hGenerated hRelation hFrom ⟨other, hOld, hTo.symm⟩
    · rw [mem_singleton.mp hNew, h.proposed] at hSuperseded
      cases hSuperseded
  · obtain ⟨kept, hKept, hIs⟩ := roleStatus_eq_some.mp hStatus
    refine roleStatus_eq_some.mpr ⟨kept, ?_, hIs⟩
    rw [h.roleRows_eq hGenerated]
    exact mem_append_left _ hKept

theorem unrelated (hGenerated : Generated db) {relation : ArtifactRelation}
    (hRelation : relation ∈ (upsert db record).artifactRelations) : relation.fromId ≠ record.id := by
  obtain ⟨hOld, hApart⟩ := mem_upsert_relations.mp hRelation
  intro hSame
  obtain ⟨other, hOther, hIs⟩ := KeyedTable.contains_iff.mp (hGenerated.refers relation hOld).1
  have hReplaced : replacedBy record other = true := by
    simp [replacedBy, hIs, hSame]
  exact (hApart other hOther hReplaced).1 hIs.symm

end Proposal

theorem Proposal.superseding {record : Artifact} {row previous : RoleRow} {taskId : TaskId} {role kind : String}
    (h : Proposal db record row taskId role kind) (hGenerated : Generated db) (hPrevious : previous ∈ db.roleRows)
    (hSlot : previous.inSlot taskId role kind = true) (hProposed : previous.entry.status = .proposed)
    {relationId : ArtifactRelationId} (hNew : db.artifactRelations.find? relationId = none) (fromStatus : RoleArtifactStatus)
    (at1 at2 : Timestamp) : Leads (Carried db)
      [.artifactRegistered record, .roleArtifactStatusChanged previous.id fromStatus .superseded at1,
        .artifactRelationAdded ⟨relationId, record.id, previous.id, .supersedes, at2⟩] db := by
  have hOwn : row.id = record.id := roleRow_id h.registers
  have hApart : record.id ≠ previous.id := fun hSame => h.new ⟨previous, hPrevious, hSame.symm⟩
  have hRegistered := h.carried hGenerated
  have hIn : previous ∈ (upsert db record).roleRows := by
    rw [h.roleRows_eq hGenerated]
    exact mem_append_left _ hPrevious
  obtain ⟨artifact, hArtifact, hRow⟩ := mem_roleRows.mp hIn
  obtain ⟨entry, hEntry, rfl⟩ := Option.map_eq_some_iff.mp hRow
  intro now instant
  refine ⟨_, rfl, fun now instant => ⟨_, ArtifactRepo.applyArtifactEvent_settles (KeyedTable.find?_of_mem hArtifact) hEntry
    now instant _ _ _, ?_⟩⟩
  have hRows := @roleRows_settle (upsert db record) artifact.id .superseded instant
  rw [h.roleRows_eq hGenerated] at hRows
  have hRefers : Refers (settle (upsert db record) artifact.id instant .superseded) :=
    refers_updateArtifact hRegistered.generated.refers fun _ => rfl
  have hFrom : (settle (upsert db record) artifact.id instant .superseded).artifacts.contains
      record.id = true := contains_settle.trans (ArtifactRepo.contains_upsert.mpr (.inl rfl))
  have hTo : (settle (upsert db record) artifact.id instant .superseded).artifacts.contains
      artifact.id = true := contains_settle.trans (ArtifactRepo.stored_of_role ⟨_, hIn, rfl⟩)
  have hOthers : ∀ other ∈ (upsert db record).artifactRelations, other.id ≠ relationId :=
    fun other hOther => find?_eq_none_iff.mp hNew other (mem_upsert_relations.mp hOther).1
  have hDuplicate : ¬(settle (upsert db record) artifact.id instant
      .superseded).artifactRelations.rows.any (fun other => other.id = relationId || (other.fromId = record.id &&
        other.toId = artifact.id && other.kind = .supersedes)) = true := by
    rw [any_eq_true]
    rintro ⟨other, hOther, hIs⟩
    have hFromOther := @Proposal.unrelated db record hGenerated other hOther
    simp [hOthers other hOther, hFromOther] at hIs
  intro now later
  refine ⟨{ settle (upsert db record) artifact.id instant .superseded with
    artifactRelations := (upsert db record).artifactRelations.upsert
      ⟨relationId, record.id, artifact.id, .supersedes, at2⟩ }, ?_, ⟨?_, ?_, ?_⟩, ?_⟩
  · dsimp only [applyArtifactEvent, addRelation]
    rw [if_neg hDuplicate, hFrom, hTo]
    rfl
  · show Numbered (settle (upsert db record) artifact.id instant .superseded).roleRows
    rw [roleRows_settle]
    exact hRegistered.generated.numbered.settle _ _
  · show Linked (settle (upsert db record) artifact.id instant .superseded).roleRows _
    rw [roleRows_settle]
    refine forall_mem_map.mpr fun other hOther hSuperseded => ?_
    by_cases hIs : other.id = artifact.id
    · have hSame := ArtifactRepo.roleRows_unique hOther hIn hIs
      subst hSame
      have hNext : row ∈ (upsert db record).roleRows := by
        rw [h.roleRows_eq hGenerated]
        exact mem_append_right _ (mem_singleton_self row)
      have hLast : row.settle artifact.id .superseded = row := if_neg (hOwn ▸ hApart)
      have hRetired : RoleRow.settle artifact.id .superseded ⟨artifact.id, artifact.taskId, entry⟩ =
          ⟨artifact.id, artifact.taskId, { entry with status := .superseded }⟩ := if_pos rfl
      obtain ⟨hTask, hRole, hKind⟩ := Proposal.inSlot_iff.mp h.slot
      obtain ⟨hOldTask, hOldRole, hOldKind⟩ := Proposal.inSlot_iff.mp hSlot
      rw [hRetired]
      refine ⟨_, mem_upsert.mpr (.inl rfl), rfl, rfl, row, ?_, hOwn, ⟨hTask.trans hOldTask.symm,
        hRole.trans hOldRole.symm, hKind.trans hOldKind.symm⟩, ?_⟩
      · exact mem_map.mpr ⟨row, hNext, hLast⟩
      · rw [h.next, nextRoleGeneration_eq]
        have hBelow := hGenerated.numbered.lt_next hPrevious hSlot
        exact hBelow
    · have hUnsettled : other.settle artifact.id .superseded = other := if_neg hIs
      have hSucceeded := (hRegistered.generated.linked other hOther (hUnsettled ▸ hSuperseded)).settle artifact.id .superseded
      refine hSucceeded.mono (fun _ hMem => hMem) fun relation hRelation _ _ => ?_
      exact mem_upsert.mpr (.inr ⟨hRelation, hOthers relation hRelation⟩)
  · intro relation hRelation
    rcases mem_upsert.mp hRelation with rfl | ⟨hRelation, _⟩
    · exact ⟨hFrom, hTo⟩
    · exact hRefers relation hRelation
  · exact ArtifactRepo.settled_of_settle hPrevious rfl hProposed hRows

theorem ensureSupersedable_ok {taskId : TaskId} {role kind : String}
    (h : ensureSupersedable db taskId role kind id = .ok ()) :
    ∃ previous ∈ db.roleRows, previous.id = id ∧ previous.inSlot taskId role kind = true ∧
      previous.entry.status = .proposed := by
  obtain ⟨artifact, hArtifact, h⟩ := bind_eq_ok.mp h
  have hFound := requireArtifact_ok hArtifact
  split at h
  · rename_i entry hEntry
    obtain ⟨_, hSlot, h⟩ := bind_eq_ok.mp h
    have hTask : artifact.taskId = some taskId := by
      by_contra hOther
      rw [if_neg hOther] at hEntry
      cases hEntry
    rw [if_pos hTask] at hEntry
    have hSlot := Bool.and_eq_true_iff.mp (ensure_eq_ok.mp hSlot)
    have hId : artifact.id = id := key_of_find? hFound
    refine ⟨⟨artifact.id, artifact.taskId, entry⟩, ?_, hId, ?_,
      canTransitionTo_proposed (ensure_eq_ok.mp h)⟩
    · refine mem_roleRows.mpr ⟨artifact, KeyedTable.mem_of_find? hFound, ?_⟩
      rw [Artifact.roleRow, hEntry]
      rfl
    · exact Proposal.inSlot_iff.mpr ⟨hTask, of_decide_eq_true hSlot.1, of_decide_eq_true hSlot.2⟩
  · cases h

theorem proposeRoleArtifact_carried {taskId : TaskId} {role kind : String} {payload : JsonValue} {title : Option String}
    {supersedes artifactId : Option ArtifactId} (h : Generated db) (hKeeps : ArtifactCommand.KeepsGenerations db env
      (.proposeRoleArtifact taskId role kind payload title supersedes artifactId))
    (hBuilt : proposeRoleArtifact db env taskId role kind payload title supersedes artifactId = .ok events) :
    Leads (Carried db) events db := by
  obtain ⟨hNew, hRelation⟩ := hKeeps
  obtain ⟨_, _, hBuilt⟩ := bind_eq_ok.mp hBuilt
  obtain ⟨_, _, hBuilt⟩ := bind_eq_ok.mp hBuilt
  obtain ⟨task, _, hBuilt⟩ := bind_eq_ok.mp hBuilt
  have hProposal : ∀ {generation : Int} {shown : String},
      generation = nextRoleGeneration db taskId (trim role) (trim kind) →
      ensureUriFree db (RoleArtifact.uri taskId (trim role) (trim kind) generation) = .ok () →
      Proposal db ⟨artifactId.getD (env.fresh 0), RoleArtifact.uri taskId (trim role) (trim kind) generation, shown, "",
          .committed, none, some taskId, task.projectId, none, none,
          some ⟨trim role, trim kind, generation, .proposed, payload⟩, env.now, env.now⟩
        ⟨artifactId.getD (env.fresh 0), some taskId, ⟨trim role, trim kind, generation, .proposed, payload⟩⟩
        taskId (trim role) (trim kind) := by
    intro generation shown hNext hFree
    exact ⟨rfl, Proposal.inSlot_iff.mpr ⟨rfl, rfl, rfl⟩, hNext, rfl, hNew, ensureUriFree_ok hFree⟩
  cases supersedes with
  | none =>
    obtain ⟨_, hFree, hBuilt⟩ := bind_eq_ok.mp hBuilt
    cases pure_eq_ok.mp hBuilt
    intro now instant
    exact ⟨_, rfl, (hProposal rfl hFree).carried h⟩
  | some previous =>
    obtain ⟨_, hSupersedable, hBuilt⟩ := bind_eq_ok.mp hBuilt
    obtain ⟨_, hFree, hBuilt⟩ := bind_eq_ok.mp hBuilt
    cases pure_eq_ok.mp hBuilt
    obtain ⟨row, hRow, rfl, hSlot, hProposed⟩ := ensureSupersedable_ok hSupersedable
    exact (hProposal rfl hFree).superseding h hRow hSlot hProposed (hRelation rfl) _ _ _

theorem buildEvents_carried {command : ArtifactCommand} (h : Generated db)
    (hKeeps : command.KeepsGenerations db env) (hBuilt : buildEvents db env command = .ok events) :
    Leads (Carried db) events db := by
  cases command with
  | registerArtifact new => exact registerArtifact_carried h hKeeps hBuilt
  | addArtifactRelation source target kind => exact addArtifactRelation_carried h hBuilt
  | removeArtifactRelation source target kind => exact removeArtifactRelation_carried h hKeeps hBuilt
  | proposeRoleArtifact taskId role kind payload title supersedes artifactId =>
    exact proposeRoleArtifact_carried h hKeeps hBuilt
  | setRoleArtifactStatus id toStatus => exact setRoleArtifactStatus_carried h hKeeps hBuilt
  | updateArtifact id title description =>
    obtain ⟨_, _, hBuilt⟩ := bind_eq_ok.mp hBuilt
    obtain ⟨_, _, hBuilt⟩ := bind_eq_ok.mp hBuilt
    obtain ⟨_, _, hBuilt⟩ := bind_eq_ok.mp hBuilt
    cases pure_eq_ok.mp hBuilt
    refine @Leads.rewrites db id _ h fun _ _ => ?_
    dsimp only [applyArtifactEvent]
    split
    · exact .inl rfl
    · exact .inr ⟨fun artifact => { artifact with
        title := title.getD artifact.title
        description := description.getD artifact.description }, fun _ => ⟨rfl, rfl⟩, rfl⟩
  | commitArtifactWrite id agentId fencingToken version =>
    obtain ⟨_, _, hBuilt⟩ := bind_eq_ok.mp hBuilt
    obtain ⟨_, _, hBuilt⟩ := bind_eq_ok.mp hBuilt
    cases pure_eq_ok.mp hBuilt
    refine @Leads.rewrites db id _ h fun _ _ => ?_
    dsimp only [applyArtifactEvent]
    split
    · exact .inr ⟨fun artifact => { artifact with
        lastWriteToken := some fencingToken, version := version, status := .committed }, fun _ => ⟨rfl, rfl⟩, rfl⟩
    · exact .inl rfl
  | deprecateArtifact id reason =>
    have hDeprecates : ∀ reason, Leads (Carried db) [.artifactDeprecated id reason env.now] db := fun reason =>
      @Leads.rewrites db id _ h fun _ _ =>
        .inr ⟨fun artifact => { artifact with status := .deprecated }, fun _ => ⟨rfl, rfl⟩, rfl⟩
    obtain ⟨current, _, hBuilt⟩ := bind_eq_ok.mp hBuilt
    split at hBuilt
    · cases pure_eq_ok.mp hBuilt
      exact .refl h
    · dsimp only at hBuilt
      split at hBuilt
      · obtain ⟨_, _, hBuilt⟩ := bind_eq_ok.mp hBuilt
        cases pure_eq_ok.mp hBuilt
        exact hDeprecates _
      · cases pure_eq_ok.mp hBuilt
        exact hDeprecates _
  | assignArtifactOwner id ownerAgentId =>
    obtain ⟨_, _, hBuilt⟩ := bind_eq_ok.mp hBuilt
    cases pure_eq_ok.mp hBuilt
    exact @Leads.rewrites db id _ h fun _ _ =>
      .inr ⟨fun artifact => { artifact with ownerAgentId := some ownerAgentId }, fun _ => ⟨rfl, rfl⟩, rfl⟩
  | changeArtifactStatus id toStatus =>
    have hMoves : ∀ fromStatus, Leads (Carried db) [.artifactStatusChanged id fromStatus toStatus env.now] db :=
      fun fromStatus => @Leads.rewrites db id _ h fun _ _ =>
        .inr ⟨fun artifact => { artifact with status := toStatus }, fun _ => ⟨rfl, rfl⟩, rfl⟩
    obtain ⟨current, _, hBuilt⟩ := bind_eq_ok.mp hBuilt
    split at hBuilt
    · cases pure_eq_ok.mp hBuilt
      exact .refl h
    · dsimp only at hBuilt
      split at hBuilt
      · obtain ⟨_, _, hBuilt⟩ := bind_eq_ok.mp hBuilt
        cases pure_eq_ok.mp hBuilt
        exact hMoves _
      · cases pure_eq_ok.mp hBuilt
        exact hMoves _

end ArtifactCommands

def Event.isArtifact : Event → Bool
  | .artifact _ => true
  | _ => false

def SameArtifacts (before after : Database) : Prop :=
  after.artifacts = before.artifacts ∧ after.artifactRelations = before.artifactRelations

theorem SameArtifacts.refl (db : Database) : SameArtifacts db db := ⟨rfl, rfl⟩

theorem SameArtifacts.trans {first second third : Database} (h : SameArtifacts first second)
    (h' : SameArtifacts second third) : SameArtifacts first third :=
  ⟨h'.1.trans h.1, h'.2.trans h.2⟩

theorem Carried.after {start before after : Database} (h : Carried start before) (hSame : SameArtifacts before after) :
    Carried start after := by
  have hRows : after.roleRows = before.roleRows := by
    unfold Database.roleRows
    rw [hSame.1]
  refine h.trans (.of_same h.generated hRows (fun relation hRelation _ _ => ?_) fun relation hRelation => ?_)
  · rw [hSame.2]
    exact hRelation
  · rw [hSame.2] at hRelation
    rw [hSame.1]
    exact h.generated.refers relation hRelation

namespace ArtifactRepo

variable {db other : Database} {start : Database} {events : List ArtifactEvent}

/-- What the events about artifacts read and write. -/
def core (db : Database) : Database :=
  { Database.empty with
    artifacts := db.artifacts
    artifactRelations := db.artifactRelations
    workLeases := db.workLeases
    leaseFencing := db.leaseFencing }

variable {now instant : Timestamp} {event : ArtifactEvent}

theorem applyArtifactEvent_core :
    applyArtifactEvent (core db) now instant event = (applyArtifactEvent db now instant event).map core := by
  cases event with
  | roleArtifactStatusChanged artifactId fromStatus toStatus changedAt =>
    have hRead : get (core db) artifactId = get db artifactId := rfl
    dsimp only [applyArtifactEvent]
    rw [hRead]
    generalize get db artifactId = found
    rcases found with _ | ⟨_, _, _, _, _, _, _, _, _, _, roleArtifact, _, _⟩
    · rfl
    · cases roleArtifact with
      | none => rfl
      | some entry => rfl
  | artifactChanged artifactId title description changedAt =>
    dsimp only [applyArtifactEvent]
    split
    · rfl
    · rfl
  | artifactWriteCommitted artifactId agentId fencingToken version committedAt =>
    dsimp only [applyArtifactEvent]
    show (if writeFencingTokenIsLive db now artifactId agentId fencingToken then _ else _) = _
    split
    · rfl
    · rfl
  | artifactRelationAdded relation =>
    show addRelation (core db) relation = (addRelation db relation).map core
    unfold addRelation
    dsimp only
    show (if db.artifactRelations.rows.any _ = true then _ else if
      (db.artifacts.contains relation.fromId && db.artifacts.contains relation.toId) = true then _ else _) = _
    split
    · rfl
    · split
      · rfl
      · rfl
  | _ => rfl

theorem applyArtifactEvent_alike {after : Database}
    (hSame : core other = core db) (h : applyArtifactEvent db now instant event = .ok after) :
    ∃ taken, applyArtifactEvent other now instant event = .ok taken ∧ core taken = core after := by
  have hCore : (applyArtifactEvent other now instant event).map core = .ok (core after) := by
    rw [← applyArtifactEvent_core, hSame, applyArtifactEvent_core, h]
    rfl
  exact map_eq_ok.mp hCore

theorem sameArtifacts_of_core (h : core other = core db) : SameArtifacts db other := by
  have hArtifacts := congrArg Database.artifacts h
  have hRelations := congrArg Database.artifactRelations h
  exact ⟨hArtifacts, hRelations⟩

theorem Leads.alike {post : Database → Prop} (hPost : ∀ {before after}, post before → SameArtifacts before after → post after)
    (h : Leads post events db) (hSame : core other = core db) : Leads post events other := by
  induction events generalizing db other with
  | nil =>
    have hHolds : post db := h
    exact hPost hHolds (sameArtifacts_of_core hSame)
  | cons event rest ih =>
    intro now instant
    obtain ⟨after, hTaken, hRest⟩ := h now instant
    obtain ⟨taken, hAlike, hSameAfter⟩ := applyArtifactEvent_alike hSame hTaken
    exact ⟨taken, hAlike, ih hRest hSameAfter⟩

end ArtifactRepo

namespace Projections

open ArtifactRepo (core Leads)

variable {env : Env} {envelope : EventEnvelope} {envelopes : List EventEnvelope} {db db' start : Database}
  {outcome : Except CoreError Unit}

variable {step : Database → Result Database}

theorem projectors_audit {event : AuditEvent} (hPayload : envelope.payload = .audit event)
    (hStep : step ∈ projectors env envelope) (db : Database) : ∃ db', step db = .ok db' ∧ core db' = core db := by
  obtain ⟨id, seq, occurredAt, actor, originDeviceId, originSeq, payload⟩ := envelope
  obtain rfl : payload = .audit event := hPayload
  simp only [projectors, mem_cons, not_mem_nil, or_false] at hStep
  rcases hStep with rfl | rfl | rfl | rfl | rfl | rfl | rfl | rfl | rfl | rfl | rfl | rfl | rfl <;> exact ⟨_, rfl, rfl⟩

theorem projectors_artifact {event : ArtifactEvent} (hPayload : envelope.payload = .artifact event) (hStep : step ∈ (projectors env envelope).take 12) (db : Database) :
    ∃ db', step db = .ok db' ∧ core db' = core db := by
  obtain ⟨id, seq, occurredAt, actor, originDeviceId, originSeq, payload⟩ := envelope
  obtain rfl : payload = .artifact event := hPayload
  simp only [projectors, take_succ_cons, take_zero, mem_cons, not_mem_nil, or_false] at hStep
  rcases hStep with rfl | rfl | rfl | rfl | rfl | rfl | rfl | rfl | rfl | rfl | rfl | rfl <;> exact ⟨_, rfl, rfl⟩

theorem projectors_sameArtifacts (hOther : envelope.payload.isArtifact = false)
    (hStep : step ∈ projectors env envelope) (h : step db = .ok db') : SameArtifacts db db' := by
  obtain ⟨_, hWrote⟩ := exists_wrote hStep h
  cases hWrote with
  | artifacts hApplied =>
    unfold applyEvent at hApplied
    split at hApplied
    · rename_i event hPayload
      rw [hPayload] at hOther
      cases hOther
    · exact Except.ok.inj hApplied ▸ .refl db
  | _ => exact ⟨rfl, rfl⟩

theorem applyEvents_sameArtifacts (hOther : ∀ event ∈ envelopes.map payload, event.isArtifact = false)
    (h : applyEvents env envelopes db = (outcome, db')) : SameArtifacts db db' := by
  refine Stateful.inTurn_rel .refl (fun _ _ _ => .trans) ?_ h
  intro step hStep before after hRun
  obtain ⟨envelope, hMem, hProjector⟩ := mem_flatMap.mp hStep
  exact projectors_sameArtifacts (hOther _ (mem_map_of_mem hMem)) hProjector hRun

theorem applyEvents_append {later : List EventEnvelope} {middle : Database}
    (h : applyEvents env envelopes db = (.ok (), middle)) :
    applyEvents env (envelopes ++ later) db = applyEvents env later middle := by
  unfold applyEvents batchProjectors at h ⊢
  rw [flatMap_append, inTurn_append, h]

theorem applyEvents_audit (hAudit : ∀ event ∈ envelopes.map payload, event.isAudit = true) :
    ∃ db', applyEvents env envelopes db = (.ok (), db') ∧ core db' = core db := by
  have hSteps : ∀ step ∈ batchProjectors env envelopes, ∀ before, core before = core db →
      ∃ after, step before = .ok after ∧ core after = core db := by
    intro step hStep before hSame
    obtain ⟨envelope, hEnvelope, hProjector⟩ := mem_flatMap.mp hStep
    have hIsAudit := hAudit _ (mem_map_of_mem hEnvelope)
    cases hPayload : envelope.payload with
    | audit event =>
      obtain ⟨after, hApplied, hAfter⟩ := projectors_audit hPayload hProjector before
      exact ⟨after, hApplied, hAfter.trans hSame⟩
    | _ =>
      rw [hPayload] at hIsAudit
      cases hIsAudit
  exact inTurn_total hSteps rfl

theorem applyEvents_leads {events : List ArtifactEvent} {post : Database → Prop}
    (hPost : ∀ {before after}, post before → SameArtifacts before after → post after)
    (hPayloads : envelopes.map payload = events.map .artifact) (h : Leads post events db) :
    ∃ db', applyEvents env envelopes db = (.ok (), db') ∧ post db' := by
  induction events generalizing envelopes db with
  | nil =>
    obtain rfl := map_eq_nil_iff.mp hPayloads
    exact ⟨db, rfl, h⟩
  | cons event rest ih =>
    obtain ⟨envelope, later, rfl, hPayload, hLater⟩ := map_eq_cons_iff.mp hPayloads
    have hSteps : ∀ step ∈ (projectors (env.part envelope.seq) envelope).take 12, ∀ before, core before = core db →
        ∃ after, step before = .ok after ∧ core after = core db := by
      intro step hStep before hSame
      obtain ⟨after, hApplied, hAfter⟩ := projectors_artifact hPayload hStep before
      exact ⟨after, hApplied, hAfter.trans hSame⟩
    obtain ⟨middle, hFirst, hMiddle⟩ := inTurn_total hSteps rfl
    obtain ⟨after, hTaken, hRest⟩ := h.alike hPost hMiddle (env.part envelope.seq).now envelope.occurredAt
    obtain ⟨last, hApplied, hLast⟩ := ih hLater hRest
    refine ⟨last, ?_, hLast⟩
    have hLastProjector : Stateful.inTurn [fun db => applyEvent db (env.part envelope.seq) envelope] middle =
        (.ok (), after) := by
      unfold Stateful.inTurn applyEvent
      rw [hPayload]
      dsimp only
      rw [hTaken]
      rfl
    have hOne : Stateful.inTurn (projectors (env.part envelope.seq) envelope) db = (.ok (), after) := by
      have hSplit : projectors (env.part envelope.seq) envelope = (projectors (env.part envelope.seq) envelope).take 12 ++
          [fun db => applyEvent db (env.part envelope.seq) envelope] := rfl
      rw [hSplit, inTurn_append, hFirst]
      exact hLastProjector
    show Stateful.inTurn (projectors (env.part envelope.seq) envelope ++ batchProjectors env later) db = _
    rw [inTurn_append, hOne]
    exact hApplied

end Projections

namespace Handler

variable {config : Config} {env : Env} {caller : Caller} {command : Command} {claimed : Actor} {db : Database}
  {batch : List Event} {relations : Relations} {trail : GateStage.Trail} {persisted : List EventEnvelope}
  {appended applied : Database} {outcome : Except CoreError Unit}

theorem authenticated_isArtifact (event : Event) : (authenticated caller event).isArtifact = event.isArtifact := by
  unfold authenticated
  split
  · rfl
  · rfl

theorem Accepted.noArtifact (h : Accepted config env caller command claimed db batch relations trail persisted appended)
    (hOther : ∀ artifact, command ≠ .artifact artifact) : ∀ event ∈ batch, event.isArtifact = false := by
  intro event hMem
  by_contra hIs
  rw [Bool.not_eq_false] at hIs
  have hSanctioned := h.sanctioned event hMem
  obtain ⟨warnings, hDraft⟩ := h.built
  have hBuilt : ∀ {built : List Event}, batch = built.map (authenticated caller) ++
      (Reconciliation.planReconciliations db (built.map (authenticated caller))).map .plan →
      ¬∀ event ∈ built, event.isArtifact = false := by
    rintro built rfl hNone
    rcases mem_append.mp hMem with hMem | hPlan
    · obtain ⟨origin, hOrigin, rfl⟩ := mem_map.mp hMem
      rw [authenticated_isArtifact, hNone origin hOrigin] at hIs
      cases hIs
    · obtain ⟨plan, _, rfl⟩ := mem_map.mp hPlan
      cases hIs
  cases event with
  | artifact event =>
    have hQuiet : command.isQuiet = true := hSanctioned
    cases command with
    | artifact command => exact hOther command rfl
    | claim command =>
      obtain ⟨built, hRecorded, hBatch⟩ := draft_ok (fun plan hIs => by cases hIs) hDraft
      cases (lift_eq.mp hRecorded).1
      exact hBuilt hBatch (forall_mem_singleton.mpr rfl)
    | handoff command =>
      obtain ⟨built, hRecorded, hBatch⟩ := draft_ok (fun plan hIs => by cases hIs) hDraft
      obtain ⟨events, _, rfl⟩ := map_eq_ok.mp (lift_eq.mp hRecorded).1
      exact hBuilt hBatch (forall_mem_map.mpr fun _ _ => rfl)
    | rule command =>
      obtain ⟨built, hRecorded, hBatch⟩ := draft_ok (fun plan hIs => by cases hIs) hDraft
      obtain ⟨events, _, rfl⟩ := map_eq_ok.mp (lift_eq.mp hRecorded).1
      exact hBuilt hBatch (forall_mem_map.mpr fun _ _ => rfl)
    | run command =>
      obtain ⟨built, hRecorded, hBatch⟩ := draft_ok (fun plan hIs => by cases hIs) hDraft
      obtain ⟨events, _, rfl⟩ := map_eq_ok.mp (lift_eq.mp hRecorded).1
      exact hBuilt hBatch (forall_mem_map.mpr fun _ _ => rfl)
    | _ => cases hQuiet
  | _ => cases hIs

theorem Accepted.sameArtifacts (h : Accepted config env caller command claimed db batch relations trail persisted appended)
    (hOther : ∀ artifact, command ≠ .artifact artifact)
    (hApplied : Projections.applyEvents (env.part 4) persisted appended = (outcome, applied)) : SameArtifacts db applied := by
  have hNone := h.noArtifact hOther
  have hStored : SameArtifacts db appended := by
    obtain ⟨_, _, _, _, _, rfl⟩ := h.frame
    exact ⟨rfl, rfl⟩
  refine hStored.trans (Projections.applyEvents_sameArtifacts
    (h.payload_rule (fun hRelinking hEvent => ?_) (fun _ => rfl) fun _ _ _ => rfl) hApplied)
  rw [← hNone _ hEvent]
  exact hRelinking.reads _ (fun _ _ => rfl) _

theorem Accepted.led {command : ArtifactCommand} {post : List ArtifactEvent → Database → Prop}
    (hPost : ∀ {events before after}, post events before → SameArtifacts before after → post events after)
    (h : Accepted config env caller (.artifact command) claimed db batch relations trail persisted appended)
    (hBuilt : ∀ events, ArtifactCommands.buildEvents db (builderEnv env) command = .ok events →
      ArtifactRepo.Leads (post events) events db)
    (hApplied : Projections.applyEvents (env.part 4) persisted appended = (outcome, applied)) :
    ∃ events, (∀ event ∈ events, Event.artifact event ∈ persisted.map payload) ∧ post events applied := by
  obtain ⟨warnings, hDraft⟩ := h.built
  obtain ⟨built, hRecorded, hBatch⟩ := draft_ok (fun plan hIs => by cases hIs) hDraft
  obtain ⟨events, hEvents, rfl⟩ := map_eq_ok.mp (lift_eq.mp hRecorded).1
  have hLeads := hBuilt events hEvents
  have hUnauthenticated : (events.map Event.artifact).map (authenticated caller) = events.map .artifact := by
    rw [map_map]
    exact map_congr_left fun _ _ => rfl
  obtain ⟨first, last, hPayloads, hFirst, hLast⟩ := h.surrounded rfl
  rw [hBatch, hUnauthenticated] at hPayloads
  refine ⟨events, fun event hMem => ?_, ?_⟩
  · rw [hPayloads]
    exact mem_append_left _ (mem_append_right _ (mem_append_left _ (mem_map_of_mem hMem)))
  rw [← append_assoc, append_assoc, map_eq_append_iff] at hPayloads
  obtain ⟨surrounding, after, rfl, hSurrounding, hAfter⟩ := hPayloads
  obtain ⟨audit, artifacts, rfl, hAudit, hArtifacts⟩ := map_eq_append_iff.mp hSurrounding
  obtain ⟨started, hStarted, hSame⟩ := @Projections.applyEvents_audit (env.part 4) audit appended (hAudit ▸ hFirst)
  have hCore : ArtifactRepo.core started = ArtifactRepo.core db := by
    obtain ⟨_, _, _, _, _, rfl⟩ := h.frame
    exact hSame
  obtain ⟨led, hLed, hHolds⟩ := @Projections.applyEvents_leads (env.part 4) artifacts started events (post events)
    hPost hArtifacts (hLeads.alike hPost hCore)
  rw [append_assoc, Projections.applyEvents_append hStarted, Projections.applyEvents_append hLed] at hApplied
  refine hPost hHolds (Projections.applyEvents_sameArtifacts (fun event hMem => ?_) hApplied)
  rw [hAfter] at hMem
  rcases mem_append.mp hMem with hPlan | hOther
  · obtain ⟨plan, _, rfl⟩ := mem_map.mp hPlan
    rfl
  · rcases hLast event hOther with hIsAudit | ⟨_, _, _, rfl⟩
    · cases event with
      | artifact event => cases hIsAudit
      | _ => rfl
    · rfl

theorem Accepted.carried {command : ArtifactCommand}
    (h : Accepted config env caller (.artifact command) claimed db batch relations trail persisted appended)
    (hGenerated : Generated db) (hKeeps : command.KeepsGenerations db (builderEnv env))
    (hApplied : Projections.applyEvents (env.part 4) persisted appended = (outcome, applied)) : Carried db applied := by
  have hLed := @Accepted.led config env caller claimed db batch relations trail persisted appended applied outcome command
    (fun _ => Carried db) (fun hCarried hSame => hCarried.after hSame) h
    (fun events hEvents => ArtifactCommands.buildEvents_carried hGenerated hKeeps hEvents) hApplied
  obtain ⟨_, _, hCarried⟩ := hLed
  exact hCarried

def KeepsGenerations (db : Database) (env : Env) : Command → Prop
  | .artifact command => command.KeepsGenerations db env
  | _ => True

theorem handle_carried (hGenerated : Generated db) (hKeeps : KeepsGenerations db (builderEnv env) command) :
    Carried db (handleWithRunOwner config env caller command claimed db).2 := by
  refine handle_rule (fun hAudited => ?_) (fun hAccepted hApplied => ?_)
    fun ⟨_, _, _, _, _, _, hLines, _⟩ hApplied => hApplied.after (hLines ▸ ⟨rfl, rfl⟩)
  · obtain ⟨_, _, _, _, _, _, rfl⟩ := hAudited
    exact (Carried.refl hGenerated).after ⟨rfl, rfl⟩
  · cases command with
    | artifact command => exact hAccepted.carried hGenerated hKeeps hApplied
    | _ => exact (Carried.refl hGenerated).after (hAccepted.sameArtifacts (fun _ hIs => by cases hIs) hApplied)

end Handler

namespace Server

open Handler (builderEnv)

variable {config : Config} {db : Database} {call : Call}

def KeepsGenerations (db : Database) : Call → Prop
  | .command env _ command _ => Handler.KeepsGenerations db (builderEnv env) command
  | _ => True

theorem serve_sameArtifacts (hCall : Call.isCommand call = false) : SameArtifacts db (serve config db call) := by
  refine serve_rule hCall fun ⟨_, _, _, _, _, _, hFrame, _⟩ => ?_
  rw [hFrame]
  exact ⟨rfl, rfl⟩

theorem serve_carried (hGenerated : Generated db) (hKeeps : KeepsGenerations db call) :
    Carried db (serve config db call) := by
  cases call with
  | command env caller command claimed => exact Handler.handle_carried hGenerated hKeeps
  | _ => exact (Carried.refl hGenerated).after (serve_sameArtifacts rfl)

theorem generated_empty : Generated Database.empty :=
  ⟨fun _ _ _ => ⟨0, .refl _⟩, fun _ hRow => absurd hRow not_mem_nil, fun _ hRelation => absurd hRelation not_mem_nil⟩

theorem foldl_carried {calls : List Call} (hGenerated : Generated db) (hMeets : Meets config KeepsGenerations db calls) :
    Carried db (calls.foldl (serve config) db) := by
  induction calls generalizing db with
  | nil => exact .refl hGenerated
  | cons call rest ih =>
    have hCall := @serve_carried config db call hGenerated hMeets.1
    exact hCall.trans (ih hCall.generated hMeets.2)

/-- In a run of calls that keep them, the generations of a task, role and kind are
`1..n`, a status that has left `proposed` stays, and a superseded artifact has a
later generation linked to it. -/
theorem role_generations {earlier later : List Call} (h : Meets config KeepsGenerations Database.empty (earlier ++ later)) :
    Numbered (run config (earlier ++ later)).roleRows ∧
      Settled (run config earlier) (run config (earlier ++ later)) ∧
      Linked (run config (earlier ++ later)).roleRows (run config (earlier ++ later)).artifactRelations.rows := by
  obtain ⟨hEarlier, hLater⟩ := h.split
  have hFirst : Carried Database.empty (run config earlier) := foldl_carried generated_empty hEarlier
  have hSecond : Carried (run config earlier) (run config (earlier ++ later)) := by
    have hRun : run config (earlier ++ later) = later.foldl (serve config) (run config earlier) := foldl_append
    rw [hRun]
    exact foldl_carried hFirst.generated hLater
  exact ⟨hSecond.generated.numbered, hSecond.settled, hSecond.generated.linked⟩

private theorem not_hasRole {id : ArtifactId} (h : db.roleRows.all (fun row => row.id ≠ id) = true) : ¬db.HasRole id := by
  rintro ⟨row, hRow, hId⟩
  exact of_decide_eq_true (all_eq_true.mp h row hRow) hId

/-- A planner offers a plan of a task under an id, in the place of another or of none. -/
private def offer (supersedes : Option ArtifactId) (id : ArtifactId) : Command :=
  .artifact (.proposeRoleArtifact ⟨7⟩ "planner" "plan" .null none supersedes (some id))

private def offeredOnce : List Command := [.task (.createTask { NewTask.new "task" with id := some ⟨7⟩ }), offer none ⟨11⟩]

private def offeredTwice : List Command := offeredOnce ++ [offer (some ⟨11⟩) ⟨12⟩]

theorem role_generations_offered : Numbered (run engineConfig (commands offeredTwice ++ [])).roleRows ∧
      Settled (run engineConfig (commands offeredTwice)) (run engineConfig (commands offeredTwice ++ [])) ∧
      Linked (run engineConfig (commands offeredTwice ++ [])).roleRows
        (run engineConfig (commands offeredTwice ++ [])).artifactRelations.rows :=
  role_generations ⟨trivial, ⟨not_hasRole (by decide +kernel), nofun⟩,
    ⟨not_hasRole (by decide +kernel), fun _ => by decide +kernel⟩, trivial⟩

/-- An artifact is registered under the id of a role artifact. -/
private def replacing : Command :=
  .artifact (.registerArtifact ⟨some ⟨11⟩, "artifact://other", "other", none, none, none⟩)

private def settled (status : RoleArtifactStatus) : Command := .artifact (.setRoleArtifactStatus ⟨11⟩ status)

/-- A registration takes a generation out of the others and out of its final status,
and an artifact is superseded with no successor. -/
theorem role_artifact_replaced :
    ¬Numbered (run engineConfig (commands (offeredOnce ++ [offer none ⟨12⟩, replacing]))).roleRows ∧
      ¬Settled (run engineConfig (commands (offeredOnce ++ [settled .applied])))
        (run engineConfig (commands (offeredOnce ++ [settled .applied, replacing]))) ∧
      ¬Linked (run engineConfig (commands (offeredOnce ++ [settled .superseded]))).roleRows
        (run engineConfig (commands (offeredOnce ++ [settled .superseded]))).artifactRelations.rows := by
  refine ⟨fun hNumbered => ?_, fun hSettled => ?_, fun hLinked => ?_⟩
  · obtain ⟨n, hPerm⟩ := hNumbered ⟨7⟩ "planner" "plan"
    have hLeft : generations ⟨7⟩ "planner" "plan"
        (run engineConfig (commands (offeredOnce ++ [offer none ⟨12⟩, replacing]))).roleRows = [2] := by decide +kernel
    rw [hLeft] at hPerm
    have hSecond := (mem_oneTo.mp (hPerm.mem_iff.mp (mem_singleton_self 2))).2
    have hFirst : (1 : Int) ∈ oneTo n := mem_oneTo.mpr ⟨Int.le_refl 1, by omega⟩
    exact absurd (mem_singleton.mp (hPerm.mem_iff.mpr hFirst)) (by decide)
  · have hGone := hSettled ⟨11⟩ .applied (by decide +kernel) (by decide)
    exact absurd hGone (by decide +kernel)
  · obtain ⟨row, hRow, _, hSuperseded⟩ := ArtifactRepo.roleStatus_eq_some.mp (show
      (run engineConfig (commands (offeredOnce ++ [settled .superseded]))).roleStatus ⟨11⟩ = some .superseded by decide +kernel)
    obtain ⟨relation, hRelation, _⟩ := hLinked row hRow hSuperseded
    have hNone : (run engineConfig (commands (offeredOnce ++ [settled .superseded]))).artifactRelations.rows.isEmpty = true := by
      decide +kernel
    exact absurd (isEmpty_iff.mp hNone ▸ hRelation) not_mem_nil

end Server
end Daruma
