import Daruma.Core.RoleArtifacts
import Daruma.Core.VersionHistory
import Daruma.Library.Ancestry

/-! Artifacts that are deprecated: a reason for it is on record or another artifact
supersedes them, and no artifact supersedes itself over others. Commands keep this unless
they take away a relation that was the only justification, or close a cycle. -/
namespace Daruma

open Outcome DirectedGraph List KeyedTable
open ArtifactRepo (upsert replacedBy nextRoleGeneration mem_upsert_relations sameGeneration contains_upsert)

def Database.Supersedes (db : Database) (source target : ArtifactId) : Prop :=
  ∃ relation ∈ db.artifactRelations, relation.kind = .supersedes ∧ relation.fromId = source ∧ relation.toId = target

def Database.ReasonRecorded (db : Database) (id : ArtifactId) : Prop :=
  ∃ reason instant, Event.artifact (.artifactDeprecated id (some reason) instant) ∈ db.events.rows.map EventEnvelope.payload

/-- A deprecated artifact keeps its justification when an artifact supersedes no more. -/
def Database.StandsWithout (db : Database) (source : ArtifactId) (artifact : Artifact) : Prop :=
  artifact.status = .deprecated → db.ReasonRecorded artifact.id ∨ ∃ other, other ≠ source ∧ db.Supersedes other artifact.id

/-- What makes a command keep the retirement of artifacts: what loses a relation does not
need it, and what is superseded does not supersede in turn. -/
def ArtifactCommand.KeepsRetired (db : Database) (env : Env) : ArtifactCommand → Prop
  | .registerArtifact new => ∀ artifact ∈ db.artifacts, artifact.id ≠ new.id.getD (env.fresh 0) →
      db.StandsWithout (new.id.getD (env.fresh 0)) artifact
  | .proposeRoleArtifact _ _ _ _ _ supersedes artifactId => supersedes ≠ some (artifactId.getD (env.fresh 0)) ∧
      ∀ artifact ∈ db.artifacts, artifact.id ≠ artifactId.getD (env.fresh 0) →
        db.StandsWithout (artifactId.getD (env.fresh 0)) artifact
  | .addArtifactRelation source target kind => kind = .supersedes → ¬Reaches db.Supersedes target source
  | .removeArtifactRelation source target kind => kind = .supersedes → ∀ artifact ∈ db.artifacts, artifact.id = target →
      db.StandsWithout source artifact
  | _ => True

/-- Deprecated artifacts are justified, and no artifact supersedes itself over others. -/
structure Retired (reasoned : ArtifactId → Prop) (db : Database) : Prop where
  justified : ∀ artifact ∈ db.artifacts, artifact.status = .deprecated →
    reasoned artifact.id ∨ ∃ source, db.Supersedes source artifact.id
  acyclic : Acyclic db.Supersedes
  refers : Refers db

namespace Retired

variable {reasoned wider : ArtifactId → Prop} {db after : Database} {id : ArtifactId}

theorem mono (h : Retired reasoned db) (hWider : ∀ id, reasoned id → wider id) : Retired wider db :=
  ⟨fun artifact hMem hDeprecated => (h.justified artifact hMem hDeprecated).imp_left (hWider _), h.acyclic, h.refers⟩

theorem sameArtifacts (h : Retired reasoned db) (hSame : SameArtifacts db after) : Retired reasoned after := by
  have hSupersedes : after.Supersedes = db.Supersedes := by
    unfold Database.Supersedes
    rw [hSame.2]
  refine ⟨?_, ?_, ?_⟩
  · rw [hSame.1, hSupersedes]
    exact h.justified
  · rw [hSupersedes]
    exact h.acyclic
  · unfold Refers
    rw [hSame.1, hSame.2]
    exact h.refers

theorem rewrite (h : Retired reasoned db) {instant : Timestamp} {f : Artifact → Artifact}
    (hId : ∀ artifact, (f artifact).id = artifact.id) (hStatus : ∀ artifact, (f artifact).status = .deprecated →
      artifact.status = .deprecated ∨ reasoned id ∨ ∃ source, db.Supersedes source id) :
    Retired reasoned (ArtifactRepo.updateArtifact db id instant f) := by
  refine ⟨fun artifact hMem hDeprecated => ?_, h.acyclic, ArtifactRepo.refers_updateArtifact h.refers hId⟩
  have hRewritten := rows_modify db.artifacts id (fun artifact => { f artifact with updatedAt := instant })
    fun artifact => hId artifact
  have hRows : artifact ∈ (db.artifacts.modify id fun artifact => { f artifact with updatedAt := instant }).rows := hMem
  rw [hRewritten, mem_map] at hRows
  obtain ⟨old, hOld, rfl⟩ := hRows
  split at hDeprecated
  · rename_i hSame
    have hKey : (if old.id = id then { f old with updatedAt := instant } else old).id = old.id := by
      rw [if_pos hSame]
      exact hId old
    rw [hKey]
    rcases hStatus old hDeprecated with hHad | hJustified
    · exact h.justified old hOld hHad
    · rw [hSame]
      exact hJustified
  · rename_i hOther
    rw [if_neg hOther]
    exact h.justified old hOld hDeprecated

theorem upsert (h : Retired reasoned db) {artifact : Artifact} (hLive : artifact.status ≠ .deprecated)
    (hReplaced : ∀ other ∈ db.artifacts, replacedBy artifact other = true → other.id = artifact.id)
    (hStands : ∀ other ∈ db.artifacts, other.id ≠ artifact.id → other.status = .deprecated →
      reasoned other.id ∨ ∃ source, source ≠ artifact.id ∧ db.Supersedes source other.id) :
    Retired reasoned (ArtifactRepo.upsert db artifact) := by
  refine ⟨fun other hMem hDeprecated => ?_, ?_, ArtifactRepo.refers_upsert h.refers artifact⟩
  · rcases mem_insertOrReplace.mp hMem with rfl | ⟨hKept, hOther⟩
    · exact absurd hDeprecated hLive
    · obtain ⟨hOld, _⟩ := KeyedTable.mem_filter.mp hKept
      refine (hStands other hOld hOther hDeprecated).imp_right ?_
      rintro ⟨source, hSource, relation, hRelation, hKind, hFrom, hTo⟩
      refine ⟨source, relation, mem_upsert_relations.mpr ⟨hRelation, fun gone hGone hIs => ?_⟩, hKind, hFrom, hTo⟩
      rw [hReplaced gone hGone hIs, hFrom, hTo]
      exact ⟨hSource, hOther⟩
  · refine h.acyclic.mono fun source target => ?_
    rintro ⟨relation, hRelation, hIs⟩
    exact ⟨relation, (mem_upsert_relations.mp hRelation).1, hIs⟩

end Retired

namespace ArtifactRepo

variable {reasoned : ArtifactId → Prop} {db after : Database} {relation : ArtifactRelation}

theorem addRelation_stored (hFrom : db.artifacts.contains relation.fromId = true)
    (hTo : db.artifacts.contains relation.toId = true) :
    ∃ after, addRelation db relation = .ok after ∧ after.artifacts = db.artifacts ∧
      (∀ other ∈ after.artifactRelations, other ∈ db.artifactRelations ∨ other = relation) ∧
      ∀ other ∈ db.artifactRelations, other ∈ after.artifactRelations := by
  unfold addRelation
  dsimp only
  split
  · exact ⟨db, rfl, rfl, fun _ hOther => .inl hOther, fun _ hOther => hOther⟩
  · rename_i hNew
    rw [hFrom, hTo, Bool.and_true, if_pos rfl]
    refine ⟨_, rfl, rfl, fun other hOther => ?_, fun other hOther => ?_⟩
    · rcases mem_upsert.mp hOther with hSame | ⟨hOld, _⟩
      · exact .inr hSame
      · exact .inl hOld
    · refine mem_upsert.mpr (.inr ⟨hOther, fun hSame => hNew ?_⟩)
      exact any_eq_true.mpr ⟨other, hOther, by simp [hSame]⟩

theorem addRelation_retired (h : Retired reasoned db) (hFrom : db.artifacts.contains relation.fromId = true)
    (hTo : db.artifacts.contains relation.toId = true)
    (hOpen : relation.kind = .supersedes → ¬Reaches db.Supersedes relation.toId relation.fromId) :
    ∃ after, addRelation db relation = .ok after ∧ after.artifacts = db.artifacts ∧ Retired reasoned after := by
  obtain ⟨after, hAdded, hArtifacts, hOld, hKept⟩ := addRelation_stored hFrom hTo
  have hSupersedes : ∀ source target, after.Supersedes source target →
      db.Supersedes source target ∨ (relation.kind = .supersedes ∧ source = relation.fromId ∧ target = relation.toId) := by
    rintro source target ⟨other, hOther, hKind, rfl, rfl⟩
    rcases hOld other hOther with hMem | rfl
    · exact .inl ⟨other, hMem, hKind, rfl, rfl⟩
    · exact .inr ⟨hKind, rfl, rfl⟩
  refine ⟨after, hAdded, hArtifacts, fun artifact hMem hDeprecated => ?_, ?_, fun other hOther => ?_⟩
  · rw [hArtifacts] at hMem
    refine (h.justified artifact hMem hDeprecated).imp_right ?_
    rintro ⟨source, other, hOther, hIs⟩
    exact ⟨source, other, hKept other hOther, hIs⟩
  · by_cases hKind : relation.kind = .supersedes
    · refine Acyclic.mono (h.acyclic.addEdge_iff.mpr (hOpen hKind)) fun source target hEdge => ?_
      exact (hSupersedes source target hEdge).imp_right fun hNew => hNew.2
    · refine h.acyclic.mono fun source target hEdge => ?_
      exact (hSupersedes source target hEdge).resolve_right fun hNew => hKind hNew.1
  · rw [hArtifacts]
    rcases hOld other hOther with hMem | rfl
    · exact h.refers other hMem
    · exact ⟨hFrom, hTo⟩

end ArtifactRepo

namespace ArtifactCommands

open ArtifactRepo (Leads applyArtifactEvent)

variable {db : Database} {env : Env} {events : List ArtifactEvent} {reasoned : ArtifactId → Prop}

def Reasoned (db : Database) (events : List ArtifactEvent) (id : ArtifactId) : Prop :=
  db.ReasonRecorded id ∨ ∃ reason instant, ArtifactEvent.artifactDeprecated id (some reason) instant ∈ events

theorem reasoned_of_recorded {id : ArtifactId} (h : db.ReasonRecorded id) : Reasoned db events id := .inl h

theorem leads_rewrite {id : ArtifactId} {event : ArtifactEvent} (h : Retired reasoned db)
    (hTaken : ∀ now instant, applyArtifactEvent db now instant event = .ok db ∨ ∃ f : Artifact → Artifact,
      (∀ artifact, (f artifact).id = artifact.id ∧ ((f artifact).status = .deprecated →
        artifact.status = .deprecated ∨ reasoned id ∨ ∃ source, db.Supersedes source id)) ∧
      applyArtifactEvent db now instant event = .ok (ArtifactRepo.updateArtifact db id instant f)) :
    Leads (Retired reasoned) [event] db := by
  intro now instant
  rcases hTaken now instant with hSame | ⟨f, hRewrites, hTaken⟩
  · exact ⟨db, hSame, h⟩
  · exact ⟨_, hTaken, h.rewrite (fun artifact => (hRewrites artifact).1) fun artifact => (hRewrites artifact).2⟩

theorem leads_deprecated {id : ArtifactId} {reason : Option String} {at_ : Timestamp} (h : Retired reasoned db)
    (hJustified : reasoned id ∨ ∃ source, db.Supersedes source id) :
    Leads (Retired reasoned) [.artifactDeprecated id reason at_] db :=
  @leads_rewrite db reasoned id _ h fun _ _ => .inr ⟨fun artifact => { artifact with status := .deprecated },
    fun _ => ⟨rfl, fun _ => .inr hJustified⟩, rfl⟩

theorem replacement_of_required {id : ArtifactId} (h : requireArtifactReplacement db id = .ok ()) :
    ∃ source, db.Supersedes source id := by
  obtain ⟨relation, hRelation, hIs⟩ := any_eq_true.mp (ensure_eq_ok.mp h)
  have hStored : relation ∈ db.artifactRelations :=
    KeyedTable.mem_rows.mp (List.mem_filter.mp (mem_orderBy.mp hRelation)).1
  obtain ⟨hTo, hKind⟩ := Bool.and_eq_true_iff.mp hIs
  exact ⟨relation.fromId, relation, hStored, of_decide_eq_true hKind, rfl, of_decide_eq_true hTo⟩

variable {taskId : TaskId} {role kind : String} {source target previous : ArtifactId} {record : Artifact}

theorem generation_lt_next {other : Artifact} {entry : RoleArtifact}
    (hOther : other ∈ db.artifacts) (hEntry : other.roleArtifact = some entry) (hTask : other.taskId = some taskId)
    (hRole : entry.role = role) (hKind : entry.kind = kind) :
    entry.generation < nextRoleGeneration db taskId role kind := by
  unfold nextRoleGeneration
  dsimp only
  generalize hAll : db.artifacts.rows.filterMap _ = generations
  have hIn : entry.generation ∈ generations := by
    rw [← hAll, mem_filterMap]
    exact ⟨other, hOther, by simp [hEntry, hTask, hRole, hKind]⟩
  obtain ⟨highest, hHighest⟩ := Option.isSome_iff_exists.mp (isSome_max?_of_mem hIn)
  have hLe := (max?_eq_some_iff.mp hHighest).2 _ hIn
  rw [hHighest, Option.getD_some]
  omega

theorem requireArtifact_contains {id : ArtifactId} {artifact : Artifact} (h : requireArtifact db id = .ok artifact) :
    db.artifacts.contains id = true := by
  rw [KeyedTable.contains, requireArtifact_ok h]
  rfl

theorem registerArtifact_retired {new : NewArtifact} (h : Retired db.ReasonRecorded db)
    (hKeeps : ArtifactCommand.KeepsRetired db env (.registerArtifact new))
    (hBuilt : registerArtifact db env new = .ok events) : Leads (Retired (Reasoned db events)) events db := by
  obtain ⟨_, _, hBuilt⟩ := bind_eq_ok.mp hBuilt
  obtain ⟨_, _, hBuilt⟩ := bind_eq_ok.mp hBuilt
  obtain ⟨_, hFree, hBuilt⟩ := bind_eq_ok.mp hBuilt
  cases pure_eq_ok.mp hBuilt
  intro now instant
  refine ⟨_, rfl, (h.mono fun _ => reasoned_of_recorded).upsert nofun (fun other hOther hIs => ?_)
    fun other hOther hApart hDeprecated => (hKeeps other hOther hApart hDeprecated).imp_left reasoned_of_recorded⟩
  rcases Bool.or_eq_true_iff.mp hIs with hIs | hGeneration
  · rcases Bool.or_eq_true_iff.mp hIs with hId | hUri
    · exact of_decide_eq_true hId
    · exact absurd (of_decide_eq_true hUri) (ensureUriFree_ok hFree other hOther)
  · unfold sameGeneration NewArtifact.intoArtifact at hGeneration
    cases hRole : other.roleArtifact with
    | none | some => simp [hRole] at hGeneration

theorem addArtifactRelation_retired {kind : ArtifactRelationKind} (h : Retired db.ReasonRecorded db)
    (hKeeps : ArtifactCommand.KeepsRetired db env (.addArtifactRelation source target kind))
    (hBuilt : addArtifactRelation db env source target kind = .ok events) :
    Leads (Retired (Reasoned db events)) events db := by
  obtain ⟨_, _, hBuilt⟩ := bind_eq_ok.mp hBuilt
  obtain ⟨sourceArtifact, hSource, hBuilt⟩ := bind_eq_ok.mp hBuilt
  obtain ⟨targetArtifact, hTarget, hBuilt⟩ := bind_eq_ok.mp hBuilt
  obtain ⟨_, _, hBuilt⟩ := bind_eq_ok.mp hBuilt
  obtain ⟨_, _, hBuilt⟩ := bind_eq_ok.mp hBuilt
  cases pure_eq_ok.mp hBuilt
  intro now instant
  obtain ⟨after, hAdded, _, hRetired⟩ := @ArtifactRepo.addRelation_retired _ db
    ⟨env.fresh 0, source, target, kind, env.now⟩ h (requireArtifact_contains hSource) (requireArtifact_contains hTarget) hKeeps
  refine ⟨after, hAdded, ?_⟩
  split
  · exact leads_deprecated (hRetired.mono fun _ => reasoned_of_recorded)
      (.inl (.inr ⟨_, _, mem_cons_of_mem _ (mem_singleton_self _)⟩))
  · exact hRetired.mono fun _ => reasoned_of_recorded

theorem removeArtifactRelation_retired {kind : ArtifactRelationKind} (h : Retired db.ReasonRecorded db)
    (hKeeps : ArtifactCommand.KeepsRetired db env (.removeArtifactRelation source target kind))
    (hBuilt : removeArtifactRelation db env.now source target kind = .ok events) :
    Leads (Retired (Reasoned db events)) events db := by
  obtain ⟨relation, _, hBuilt⟩ := bind_eq_ok.mp hBuilt
  cases pure_eq_ok.mp hBuilt
  intro now instant
  have hStays : ∀ {other : ArtifactRelation}, other ∈ db.artifactRelations →
      ¬(other.fromId = source ∧ other.toId = target ∧ other.kind = kind) →
      other ∈ db.artifactRelations.filter fun relation =>
        !(relation.fromId = source && relation.toId = target && relation.kind = kind) := fun hOther hApart =>
    KeyedTable.mem_filter.mpr ⟨hOther, by
      simp only [Bool.not_eq_true', Bool.and_eq_false_iff, decide_eq_false_iff_not]
      tauto⟩
  refine ⟨_, rfl, fun artifact hMem hDeprecated => ?_, h.acyclic.mono ?_, fun other hOther => ?_⟩
  · have hOf : ∀ {other : ArtifactId}, db.Supersedes other artifact.id →
        (kind = .supersedes → artifact.id = target → other ≠ source) →
        ∃ upper, Database.Supersedes { db with artifactRelations := db.artifactRelations.filter fun relation =>
          !(relation.fromId = source && relation.toId = target && relation.kind = kind) } upper artifact.id := by
      rintro other ⟨relation, hRelation, hKind, hFrom, hTo⟩ hApart
      refine ⟨other, relation, hStays hRelation ?_, hKind, hFrom, hTo⟩
      rintro ⟨hSource, hTarget, hSame⟩
      exact hApart (hSame.symm.trans hKind) (hTo.symm.trans hTarget) (hFrom.symm.trans hSource)
    by_cases hLoses : kind = .supersedes ∧ artifact.id = target
    · rcases hKeeps hLoses.1 artifact hMem hLoses.2 hDeprecated with hReason | ⟨other, hOther, hSupersedes⟩
      · exact .inl (.inl hReason)
      · exact .inr (hOf hSupersedes fun _ _ => hOther)
    · rcases h.justified artifact hMem hDeprecated with hReason | ⟨other, hSupersedes⟩
      · exact .inl (.inl hReason)
      · exact .inr (hOf hSupersedes fun hKind hTarget => absurd ⟨hKind, hTarget⟩ hLoses)
  · rintro upper lower ⟨relation, hRelation, hIs⟩
    exact ⟨relation, (KeyedTable.mem_filter.mp hRelation).1, hIs⟩
  · exact h.refers other (KeyedTable.mem_filter.mp hOther).1

theorem replaces_own_id {record : Artifact} {entry : RoleArtifact} {taskId : TaskId}
    (hEntry : record.roleArtifact = some entry) (hTask : record.taskId = some taskId)
    (hNext : entry.generation = nextRoleGeneration db taskId entry.role entry.kind)
    (hFree : ∀ other ∈ db.artifacts, other.uri ≠ record.uri) :
    ∀ other ∈ db.artifacts, replacedBy record other = true → other.id = record.id := by
  intro other hOther hIs
  rcases Bool.or_eq_true_iff.mp hIs with hIs | hSame
  · rcases Bool.or_eq_true_iff.mp hIs with hId | hUri
    · exact of_decide_eq_true hId
    · exact absurd (of_decide_eq_true hUri) (hFree other hOther)
  · unfold sameGeneration at hSame
    cases hRole : other.roleArtifact with
    | none => simp [hRole] at hSame
    | some left =>
      rw [hRole, hEntry] at hSame
      simp only [Bool.and_eq_true, decide_eq_true_eq] at hSame
      obtain ⟨⟨⟨⟨_, hSameTask⟩, hSameRole⟩, hSameKind⟩, hGeneration⟩ := hSame
      have hBelow := generation_lt_next hOther hRole (hSameTask.trans hTask) hSameRole hSameKind
      rw [hGeneration, hNext] at hBelow
      exact absurd hBelow (Int.lt_irrefl _)

theorem not_reaches_registered (hRefers : Refers db) (hOther : previous ≠ record.id) :
    ¬Reaches (upsert db record).Supersedes previous record.id := by
  intro hPath
  rcases Relation.ReflTransGen.cases_tail hPath with hSame | ⟨source, _, relation, hRelation, _, _, hTo⟩
  · exact hOther hSame.symm
  · obtain ⟨hOld, hApart⟩ := mem_upsert_relations.mp hRelation
    obtain ⟨stored, hStored, hId⟩ := contains_iff.mp (hRefers relation hOld).2
    exact (hApart stored hStored (by simp [replacedBy, hId, hTo])).2 hId.symm

theorem roleStatus_taken (db : Database) (now instant changedAt : Timestamp) (id : ArtifactId)
    (fromStatus toStatus : RoleArtifactStatus) :
    ∃ after, applyArtifactEvent db now instant (.roleArtifactStatusChanged id fromStatus toStatus changedAt) = .ok after ∧
      after.artifactRelations = db.artifactRelations ∧
      (∀ other, after.artifacts.contains other = db.artifacts.contains other) ∧
      (Retired reasoned db → Retired reasoned after) := by
  dsimp only [applyArtifactEvent]
  split
  · exact ⟨_, rfl, rfl, fun _ => ArtifactRepo.contains_updateArtifact fun _ => rfl,
      fun hRetired => hRetired.rewrite (fun _ => rfl) fun _ hDeprecated => .inl hDeprecated⟩
  · exact ⟨db, rfl, rfl, fun _ => rfl, fun hRetired => hRetired⟩

theorem leads_superseding {relationId : ArtifactRelationId} {fromStatus toStatus : RoleArtifactStatus} {addedAt : Timestamp} (hRefers : Refers db)
    (hOwn : ∀ other ∈ db.artifacts, replacedBy record other = true → other.id = record.id)
    (h : Retired reasoned (upsert db record)) (hPrevious : previous ≠ record.id)
    (hStored : db.artifacts.contains previous = true) :
    Leads (Retired reasoned) [.roleArtifactStatusChanged previous fromStatus toStatus addedAt,
      .artifactRelationAdded ⟨relationId, record.id, previous, .supersedes, addedAt⟩] (upsert db record) := by
  intro now instant
  obtain ⟨settled, hSettled, hRelations, hContains, hStays⟩ :=
    @roleStatus_taken reasoned (upsert db record) now instant addedAt previous fromStatus toStatus
  have hSupersedes : settled.Supersedes = (upsert db record).Supersedes := by
    unfold Database.Supersedes
    rw [hRelations]
  have hNew : settled.artifacts.contains record.id = true := by
    rw [hContains]
    exact contains_upsert.mpr (.inl rfl)
  have hOld : settled.artifacts.contains previous = true := by
    obtain ⟨stored, hMem, hId⟩ := contains_iff.mp hStored
    rw [hContains]
    refine contains_upsert.mpr (.inr ⟨stored, hMem, hId, Bool.eq_false_iff.mpr fun hIs => ?_⟩)
    exact hPrevious (hId.symm.trans (hOwn stored hMem hIs))
  refine ⟨settled, hSettled, fun later stored => ?_⟩
  obtain ⟨after, hAdded, _, hRetired⟩ := @ArtifactRepo.addRelation_retired _ settled
    ⟨relationId, record.id, previous, .supersedes, addedAt⟩ (hStays h) hNew hOld fun _ => by
      rw [hSupersedes]
      exact not_reaches_registered hRefers hPrevious
  exact ⟨after, hAdded, hRetired⟩

theorem proposeRoleArtifact_retired {payload : JsonValue} {title : Option String} {supersedes artifactId : Option ArtifactId} (h : Retired db.ReasonRecorded db)
    (hKeeps : ArtifactCommand.KeepsRetired db env (.proposeRoleArtifact taskId role kind payload title supersedes artifactId))
    (hBuilt : proposeRoleArtifact db env taskId role kind payload title supersedes artifactId = .ok events) :
    Leads (Retired (Reasoned db events)) events db := by
  obtain ⟨hApart, hStands⟩ := hKeeps
  obtain ⟨_, _, hBuilt⟩ := bind_eq_ok.mp hBuilt
  obtain ⟨_, _, hBuilt⟩ := bind_eq_ok.mp hBuilt
  obtain ⟨task, _, hBuilt⟩ := bind_eq_ok.mp hBuilt
  have hRegistered : ∀ {generation : Int} {shown : String},
      generation = nextRoleGeneration db taskId (trim role) (trim kind) →
      ensureUriFree db (RoleArtifact.uri taskId (trim role) (trim kind) generation) = .ok () →
      let record : Artifact := ⟨artifactId.getD (env.fresh 0), RoleArtifact.uri taskId (trim role) (trim kind) generation,
        shown, "", .committed, none, some taskId, task.projectId, none, none,
        some ⟨trim role, trim kind, generation, .proposed, payload⟩, env.now, env.now⟩
      (∀ other ∈ db.artifacts, replacedBy record other = true → other.id = record.id) ∧
        Retired db.ReasonRecorded (upsert db record) := by
    intro generation shown hNext hFree record
    have hOwn := @replaces_own_id db record _ taskId rfl rfl hNext (ensureUriFree_ok hFree)
    exact ⟨hOwn, h.upsert nofun hOwn hStands⟩
  cases supersedes with
  | none =>
    obtain ⟨_, hFree, hBuilt⟩ := bind_eq_ok.mp hBuilt
    cases pure_eq_ok.mp hBuilt
    intro now instant
    exact ⟨_, rfl, (hRegistered rfl hFree).2.mono fun _ => reasoned_of_recorded⟩
  | some previous =>
    obtain ⟨_, hSupersedable, hBuilt⟩ := bind_eq_ok.mp hBuilt
    obtain ⟨_, hFree, hBuilt⟩ := bind_eq_ok.mp hBuilt
    cases pure_eq_ok.mp hBuilt
    obtain ⟨old, hOld, _⟩ := bind_eq_ok.mp hSupersedable
    have hPrevious : previous ≠ artifactId.getD (env.fresh 0) := fun hSame => hApart (congrArg some hSame)
    intro now instant
    refine ⟨_, rfl, Leads.imp (fun _ hRetired => hRetired.mono fun _ => reasoned_of_recorded)
      (leads_superseding h.refers ?_ ?_ hPrevious (requireArtifact_contains hOld))⟩
    · exact (hRegistered rfl hFree).1
    · exact (hRegistered rfl hFree).2

theorem buildEvents_retired {command : ArtifactCommand} (h : Retired db.ReasonRecorded db)
    (hKeeps : command.KeepsRetired db env) (hBuilt : buildEvents db env command = .ok events) :
    Leads (Retired (Reasoned db events)) events db := by
  have hRetired : Retired (Reasoned db events) db := h.mono fun _ => reasoned_of_recorded
  cases command with
  | registerArtifact new => exact registerArtifact_retired h hKeeps hBuilt
  | addArtifactRelation source target kind => exact addArtifactRelation_retired h hKeeps hBuilt
  | removeArtifactRelation source target kind => exact removeArtifactRelation_retired h hKeeps hBuilt
  | proposeRoleArtifact taskId role kind payload title supersedes artifactId =>
    exact proposeRoleArtifact_retired h hKeeps hBuilt
  | setRoleArtifactStatus id toStatus =>
    obtain ⟨_, _, hBuilt⟩ := bind_eq_ok.mp hBuilt
    obtain ⟨_, _, hBuilt⟩ := bind_eq_ok.mp hBuilt
    split at hBuilt
    · cases pure_eq_ok.mp hBuilt
      exact hRetired
    obtain ⟨_, _, hBuilt⟩ := bind_eq_ok.mp hBuilt
    cases pure_eq_ok.mp hBuilt
    intro now instant
    obtain ⟨settled, hSettled, _, _, hStays⟩ := @roleStatus_taken _ db now instant env.now id _ toStatus
    exact ⟨settled, hSettled, hStays hRetired⟩
  | updateArtifact id title description =>
    obtain ⟨_, _, hBuilt⟩ := bind_eq_ok.mp hBuilt
    obtain ⟨_, _, hBuilt⟩ := bind_eq_ok.mp hBuilt
    obtain ⟨_, _, hBuilt⟩ := bind_eq_ok.mp hBuilt
    cases pure_eq_ok.mp hBuilt
    refine @leads_rewrite db _ id _ hRetired fun _ _ => ?_
    dsimp only [applyArtifactEvent]
    split
    · exact .inl rfl
    · exact .inr ⟨fun artifact => { artifact with
        title := title.getD artifact.title
        description := description.getD artifact.description }, fun _ => ⟨rfl, .inl⟩, rfl⟩
  | commitArtifactWrite id agentId fencingToken version =>
    obtain ⟨_, _, hBuilt⟩ := bind_eq_ok.mp hBuilt
    obtain ⟨_, _, hBuilt⟩ := bind_eq_ok.mp hBuilt
    cases pure_eq_ok.mp hBuilt
    refine @leads_rewrite db _ id _ hRetired fun _ _ => ?_
    dsimp only [applyArtifactEvent]
    split
    · exact .inr ⟨fun artifact => { artifact with
        lastWriteToken := some fencingToken, version := version, status := .committed }, fun _ => ⟨rfl, nofun⟩, rfl⟩
    · exact .inl rfl
  | deprecateArtifact id reason =>
    obtain ⟨current, _, hBuilt⟩ := bind_eq_ok.mp hBuilt
    split at hBuilt
    · cases pure_eq_ok.mp hBuilt
      exact hRetired
    · dsimp only at hBuilt
      split at hBuilt
      · obtain ⟨_, hReplaced, hBuilt⟩ := bind_eq_ok.mp hBuilt
        cases pure_eq_ok.mp hBuilt
        exact leads_deprecated hRetired (.inr (replacement_of_required hReplaced))
      · rename_i hSome
        cases pure_eq_ok.mp hBuilt
        cases hReason : (reason.map trim).filter fun text => text ≠ "" with
        | none =>
          rw [hReason] at hSome
          exact absurd rfl hSome
        | some given =>
          rw [hReason] at hRetired
          exact leads_deprecated hRetired (.inl (.inr ⟨given, env.now, mem_singleton_self _⟩))
  | assignArtifactOwner id ownerAgentId =>
    obtain ⟨_, _, hBuilt⟩ := bind_eq_ok.mp hBuilt
    cases pure_eq_ok.mp hBuilt
    exact @leads_rewrite db _ id _ hRetired fun _ _ =>
      .inr ⟨fun artifact => { artifact with ownerAgentId := some ownerAgentId }, fun _ => ⟨rfl, .inl⟩, rfl⟩
  | changeArtifactStatus id toStatus =>
    obtain ⟨current, _, hBuilt⟩ := bind_eq_ok.mp hBuilt
    split at hBuilt
    · cases pure_eq_ok.mp hBuilt
      exact hRetired
    · dsimp only at hBuilt
      have hMoves : ∀ fromStatus, (toStatus = .deprecated → ∃ source, db.Supersedes source id) →
          Leads (Retired (Reasoned db [.artifactStatusChanged id fromStatus toStatus env.now]))
            [.artifactStatusChanged id fromStatus toStatus env.now] db := fun fromStatus hJustified =>
        @leads_rewrite db _ id _ (h.mono fun _ => reasoned_of_recorded) fun _ _ =>
          .inr ⟨fun artifact => { artifact with status := toStatus },
            fun _ => ⟨rfl, fun hDeprecated => .inr (.inr (hJustified hDeprecated))⟩, rfl⟩
      split at hBuilt
      · obtain ⟨_, hReplaced, hBuilt⟩ := bind_eq_ok.mp hBuilt
        cases pure_eq_ok.mp hBuilt
        exact hMoves _ fun _ => replacement_of_required hReplaced
      · rename_i hLive
        cases pure_eq_ok.mp hBuilt
        exact hMoves _ fun hDeprecated => absurd hDeprecated hLive

end ArtifactCommands
namespace Handler

variable {config : Config} {env : Env} {caller : Caller} {command : Command} {claimed : Actor} {db after : Database}

theorem reasonRecorded_grows {id : ArtifactId} (hLog : AutoAppend.LogGrows db after) (h : db.ReasonRecorded id) :
    after.ReasonRecorded id := by
  obtain ⟨later, hLater⟩ := hLog
  obtain ⟨reason, instant, hMem⟩ := h
  refine ⟨reason, instant, ?_⟩
  rw [hLater, map_append]
  exact mem_append_left _ hMem

/-- What makes a command keep the retirement of artifacts. -/
def KeepsRetired (db : Database) (env : Env) : Command → Prop
  | .artifact command => command.KeepsRetired db env
  | _ => True

theorem handle_retired (h : Retired db.ReasonRecorded db) (hKeeps : KeepsRetired db (builderEnv env) command) :
    Retired (handleWithRunOwner config env caller command claimed db).2.ReasonRecorded
      (handleWithRunOwner config env caller command claimed db).2 := by
  refine @handle_rule config env caller command claimed db (fun after => Retired after.ReasonRecorded after)
    (fun hAudited => ?_) (fun {batch relations trail persisted appended outcome applied} hAccepted hApplied => ?_)
    fun hLines hApplied => ?_
  · obtain ⟨audit, _, hLog, _, _, _, rfl⟩ := hAudited
    exact (h.mono fun _ => reasonRecorded_grows ⟨audit, hLog⟩).sameArtifacts ⟨rfl, rfl⟩
  · have hLog : applied.events.rows = db.events.rows ++ persisted := by
      rw [(Projections.applyEvents_sameLog hApplied).1]
      exact hAccepted.log
    have hGrows : AutoAppend.LogGrows db applied := ⟨persisted, hLog⟩
    cases command with
    | artifact command =>
      have hLed := @Accepted.led config env caller claimed db batch relations trail persisted appended applied outcome
        command (fun events => Retired (ArtifactCommands.Reasoned db events)) (fun hRetired hSame => hRetired.sameArtifacts hSame)
        hAccepted (fun events hBuilt => ArtifactCommands.buildEvents_retired h hKeeps hBuilt) hApplied
      obtain ⟨events, hPersisted, hRetired⟩ := hLed
      refine hRetired.mono fun id hReasoned => ?_
      rcases hReasoned with hRecorded | ⟨reason, instant, hMem⟩
      · exact reasonRecorded_grows hGrows hRecorded
      · refine ⟨reason, instant, ?_⟩
        rw [hLog, map_append]
        exact mem_append_right _ (hPersisted _ hMem)
    | _ => exact (h.mono fun _ => reasonRecorded_grows hGrows).sameArtifacts
            (hAccepted.sameArtifacts (fun _ hIs => by cases hIs) hApplied)
  · have hGrown := hApplied.mono fun _ => reasonRecorded_grows hLines.grows
    obtain ⟨_, _, _, _, _, _, rfl, _⟩ := hLines
    exact hGrown.sameArtifacts ⟨rfl, rfl⟩

end Handler

namespace Server

open Handler (builderEnv)

variable {config : Config} {db : Database} {call : Call}

def KeepsRetired (db : Database) : Call → Prop
  | .command env _ command _ => Handler.KeepsRetired db (builderEnv env) command
  | _ => True

theorem serve_retired (h : Retired db.ReasonRecorded db) (hKeeps : KeepsRetired db call) :
    Retired (serve config db call).ReasonRecorded (serve config db call) := by
  cases call with
  | command env caller command claimed => exact Handler.handle_retired h hKeeps
  | _ =>
    exact (h.mono fun _ => Handler.reasonRecorded_grows (serve_log rfl)).sameArtifacts (serve_sameArtifacts rfl)

theorem retired_empty : Retired Database.empty.ReasonRecorded Database.empty :=
  ⟨fun _ hMem => absurd hMem not_mem_nil, acyclic_of_no_edge fun _ _ ⟨_, hMem, _⟩ => absurd hMem not_mem_nil,
    fun _ hMem => absurd hMem not_mem_nil⟩

/-- In a run of calls that keep it, a deprecated artifact has a reason on record or is
superseded by another, and no artifact supersedes itself over others. -/
theorem artifact_retirement {calls : List Call} (h : Meets config KeepsRetired Database.empty calls) :
    (∀ artifact ∈ (run config calls).artifacts, artifact.status = .deprecated →
      (run config calls).ReasonRecorded artifact.id ∨ ∃ source, (run config calls).Supersedes source artifact.id) ∧
      Acyclic (run config calls).Supersedes := by
  have hRetired : Retired (run config calls).ReasonRecorded (run config calls) :=
    @run_induction config KeepsRetired (fun db => Retired db.ReasonRecorded db) retired_empty
      (fun _ _ hDb hCall => serve_retired hDb hCall) calls h
  exact ⟨hRetired.justified, hRetired.acyclic⟩

private def serviceArtifact (id : Nat) (uri : String) : Command :=
  .artifact (.registerArtifact ⟨some ⟨id⟩, uri, "service", none, none, none⟩)

private def supersede (source target : Nat) : Command := .artifact (.addArtifactRelation ⟨source⟩ ⟨target⟩ .supersedes)

private def setStatus (id : Nat) (status : ArtifactStatus) : Command := .artifact (.changeArtifactStatus ⟨id⟩ status)

private def replacedOnce : List Command :=
  [serviceArtifact 11 "artifact://v2", serviceArtifact 12 "artifact://v1", supersede 11 12]

variable {source target : ArtifactId}

private theorem stands_of_live {db : Database} {artifact : Artifact}
    (h : db.artifacts.rows.all (fun artifact => artifact.status ≠ .deprecated) = true) (hMem : artifact ∈ db.artifacts) :
    db.StandsWithout source artifact := fun hDeprecated =>
  absurd hDeprecated (of_decide_eq_true (all_eq_true.mp h artifact hMem))

private theorem not_reaches_of_none {db : Database}
    (h : db.artifactRelations.rows.isEmpty = true) (hOther : source ≠ target) : ¬Reaches db.Supersedes source target := by
  intro hPath
  rcases Relation.ReflTransGen.cases_head hPath with hSame | ⟨_, ⟨relation, hRelation, _⟩, _⟩
  · exact hOther hSame
  · have hRow : relation ∈ db.artifactRelations.rows := hRelation
    rw [isEmpty_iff.mp h] at hRow
    cases hRow

theorem artifact_retirement_replaced :
    (∀ artifact ∈ (run engineConfig (commands replacedOnce)).artifacts, artifact.status = .deprecated →
      (run engineConfig (commands replacedOnce)).ReasonRecorded artifact.id ∨
        ∃ source, (run engineConfig (commands replacedOnce)).Supersedes source artifact.id) ∧
      Acyclic (run engineConfig (commands replacedOnce)).Supersedes :=
  artifact_retirement ⟨fun _ hMem _ => stands_of_live (by decide +kernel) hMem,
    fun _ hMem _ => stands_of_live (by decide +kernel) hMem,
    fun _ => not_reaches_of_none (by decide +kernel) (by decide), trivial⟩

/-- The replaced artifact is revived and replaces its own replacement. -/
private def replacedBack : List Command := replacedOnce ++ [setStatus 12 .active, supersede 12 11]

private def proposal (supersedes : Option ArtifactId) (id : Nat) : Command :=
  .artifact (.proposeRoleArtifact ⟨7⟩ "planner" "plan" .null none supersedes (some ⟨id⟩))

/-- A proposal is deprecated because another takes its place, and the relation is removed. -/
private def unjustified : List Command :=
  [.task (.createTask { NewTask.new "task" with id := some ⟨7⟩ }), proposal none 11, proposal (some ⟨11⟩) 12,
    setStatus 11 .deprecated, .artifact (.removeArtifactRelation ⟨12⟩ ⟨11⟩ .supersedes)]

private def givesReason (id : ArtifactId) : Event → Bool
  | .artifact (.artifactDeprecated other (some _) _) => other = id
  | _ => false

private theorem reason_given {db : Database} {id : ArtifactId} (h : db.ReasonRecorded id) :
    db.events.rows.any (fun envelope => givesReason id envelope.payload) = true := by
  obtain ⟨reason, instant, hMem⟩ := h
  obtain ⟨envelope, hEnvelope, hPayload⟩ := mem_map.mp hMem
  refine any_eq_true.mpr ⟨envelope, hEnvelope, ?_⟩
  rw [hPayload]
  exact decide_eq_true rfl

private theorem supersedes_of_any {db : Database}
    (h : db.artifactRelations.rows.any (fun relation => relation.kind = .supersedes && relation.fromId = source &&
      relation.toId = target) = true) : db.Supersedes source target := by
  obtain ⟨relation, hRelation, hIs⟩ := any_eq_true.mp h
  simp only [Bool.and_eq_true, decide_eq_true_eq] at hIs
  exact ⟨relation, hRelation, hIs.1.1, hIs.1.2, hIs.2⟩

/-- Two artifacts supersede each other, and an artifact is deprecated with no reason and
nothing that supersedes it. -/
theorem artifact_unjustified : ¬Acyclic (run engineConfig (commands replacedBack)).Supersedes ∧
      ∃ artifact ∈ (run engineConfig (commands unjustified)).artifacts, artifact.status = .deprecated ∧
        ¬(run engineConfig (commands unjustified)).ReasonRecorded artifact.id ∧
        ¬∃ source, (run engineConfig (commands unjustified)).Supersedes source artifact.id := by
  refine ⟨fun hAcyclic => ?_, ?_⟩
  · have hForth : (run engineConfig (commands replacedBack)).Supersedes ⟨11⟩ ⟨12⟩ := supersedes_of_any (by decide +kernel)
    have hBack : (run engineConfig (commands replacedBack)).Supersedes ⟨12⟩ ⟨11⟩ := supersedes_of_any (by decide +kernel)
    exact hAcyclic ⟨11⟩ (.tail (.single hForth) hBack)
  · have hDeprecated : (run engineConfig (commands unjustified)).artifacts.rows.any (fun artifact =>
        artifact.status = .deprecated && artifact.id = ⟨11⟩) = true := by decide +kernel
    obtain ⟨artifact, hArtifact, hIs⟩ := any_eq_true.mp hDeprecated
    simp only [Bool.and_eq_true, decide_eq_true_eq] at hIs
    refine ⟨artifact, hArtifact, hIs.1, fun hReason => ?_, ?_⟩
    · rw [hIs.2] at hReason
      have hNone : (run engineConfig (commands unjustified)).events.rows.any
          (fun envelope => givesReason ⟨11⟩ envelope.payload) = false := by decide +kernel
      rw [reason_given hReason] at hNone
      cases hNone
    · rintro ⟨source, relation, hRelation, _⟩
      have hRow : relation ∈ (run engineConfig (commands unjustified)).artifactRelations.rows := hRelation
      have hNone : (run engineConfig (commands unjustified)).artifactRelations.rows.isEmpty = true := by decide +kernel
      rw [isEmpty_iff.mp hNone] at hRow
      cases hRow

end Server
end Daruma
