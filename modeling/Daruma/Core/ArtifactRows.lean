import Daruma.Core.LeaseEnds

/-! Rows of artifacts by what no event changes in them, so that the rows of a replay are
those of the live projection as far as a write asks. -/
namespace Daruma

open List KeyedTable
namespace ArtifactRepo

open WorkLeaseRepo

def generationKey (artifact : Artifact) : Option (TaskId × String × String × Int) :=
  artifact.taskId.bind fun taskId =>
    artifact.roleArtifact.map fun entry => (taskId, entry.role, entry.kind, entry.generation)

/-- A row's identifier, URI and generation. -/
abbrev RowKey := ArtifactId × String × Option (TaskId × String × String × Int)

def rowKey (artifact : Artifact) : RowKey := (artifact.id, artifact.uri, generationKey artifact)

def RowKey.Clash (left right : RowKey) : Prop :=
  left.1 = right.1 ∨ left.2.1 = right.2.1 ∨ (left.2.2 ≠ none ∧ left.2.2 = right.2.2)

def rowKeys (db : Database) : List RowKey := db.artifacts.rows.map rowKey

def newKeys (envelope : EventEnvelope) : List RowKey :=
  match envelope.payload with
  | .artifact (.artifactRegistered artifact) => [rowKey artifact]
  | _ => []

theorem sameGeneration_iff {a b : Artifact} :
    sameGeneration a b = true ↔ generationKey a ≠ none ∧ generationKey a = generationKey b := by
  unfold sameGeneration generationKey
  cases a.roleArtifact with
  | none => simp
  | some left =>
    cases b.roleArtifact with
    | none =>
      cases a.taskId <;> cases b.taskId <;> simp
    | some right =>
      cases a.taskId <;> cases b.taskId <;> simp [and_assoc]

variable {artifact : Artifact} {id : ArtifactId} {db db' : Database} {env : Env} {envelope : EventEnvelope}
  {now : Timestamp} {after : List Artifact} {leases : LeaseWorld}

theorem replaces_iff {other : Artifact} :
    Replaces other artifact ↔ RowKey.Clash (rowKey other) (rowKey artifact) := by
  rw [Replaces, RowKey.Clash, sameGeneration_iff]
  rfl

theorem map_modify {artifacts : KeyedTable ArtifactId Artifact Artifact.id}
    {f : Artifact → Artifact} (hf : ∀ artifact, rowKey (f artifact) = rowKey artifact) :
    (artifacts.modify id f).rows.map rowKey = artifacts.rows.map rowKey := by
  cases hFound : artifacts.find? id with
  | none => rw [modify_of_find?_eq_none f hFound]
  | some found =>
    rw [modify_of_find?_eq_some f hFound, KeyedTable.replace, KeyedTable.mapRows]
    rw [map_map]
    apply map_congr_left
    intro old hOld
    show rowKey (if old.id = (f found).id then f found else old) = rowKey old
    split
    · rename_i hSame
      have hId : (f found).id = found.id := congrArg Prod.fst (hf found)
      have hEq : old = found := eq_of_key_eq hOld (mem_of_find? hFound) (hSame.trans hId)
      rw [hf, hEq]
    · rfl

def ReplacesNone (db : Database) (envelope : EventEnvelope) : Prop :=
  ∀ artifact, envelope.payload = .artifact (.artifactRegistered artifact) →
    ∀ other ∈ db.artifacts, ¬Replaces other artifact

theorem upsert_artifacts (hNone : ∀ other ∈ db.artifacts, ¬Replaces other artifact) :
    (upsert db artifact).artifacts.rows = db.artifacts.rows ++ [artifact] := by
  have hKeep : (db.artifacts.filter fun other =>
      !(other.id = artifact.id || other.uri = artifact.uri || sameGeneration other artifact)) = db.artifacts := by
    apply KeyedTable.filter_eq_self
    intro other hOther
    have hNot := hNone other hOther
    simp only [Replaces, not_or] at hNot
    simp [hNot.1, hNot.2.1, hNot.2.2]
  have hErase : db.artifacts.erase artifact.id = db.artifacts := by
    apply KeyedTable.filter_eq_self
    intro other hOther
    have hNot : other.id ≠ artifact.id := fun hSame => hNone other hOther (Or.inl hSame)
    simp [hNot]
  show ((KeyedTable.filter _ _).insertOrReplace artifact).rows = _
  rw [hKeep]
  show (db.artifacts.erase artifact.id).rows ++ [artifact] = _
  rw [hErase]

theorem applied_frame (db : Database) (env : Env) (envelope : EventEnvelope) : ∃ artifacts relations,
      applied db env envelope = { db with artifacts := artifacts, artifactRelations := relations } := by
  unfold applied
  split
  · rename_i hOk
    exact applyEvent_frame hOk
  · exact ⟨_, _, rfl⟩

@[simp] theorem applied_workLeases (db : Database) (env : Env) (envelope : EventEnvelope) :
    (applied db env envelope).workLeases = db.workLeases := by
  obtain ⟨_, _, hFrame⟩ := applied_frame db env envelope
  rw [hFrame]

@[simp] theorem applied_leaseFencing (db : Database) (env : Env) (envelope : EventEnvelope) :
    (applied db env envelope).leaseFencing = db.leaseFencing := by
  obtain ⟨_, _, hFrame⟩ := applied_frame db env envelope
  rw [hFrame]

/-- What an event that replaces no row does to the rows: nothing, it adds one, it
rewrites columns of one that no write depends on, or it commits a write. -/
inductive Effect (db : Database) (now : Timestamp) (envelope : EventEnvelope) (after : List Artifact) : Prop where
  | nothing (hNew : newKeys envelope = []) (hSame : after = db.artifacts.rows)
  | added (artifact : Artifact) (hPayload : envelope.payload = .artifact (.artifactRegistered artifact))
      (hRows : after = db.artifacts.rows ++ [artifact])
  | rewritten (id : ArtifactId) (f : Artifact → Artifact) (hRows : after = (db.artifacts.modify id f).rows)
      (hNew : newKeys envelope = []) (hKey : ∀ artifact, rowKey (f artifact) = rowKey artifact)
      (hToken : ∀ artifact, (f artifact).lastWriteToken = artifact.lastWriteToken)
  | written (id : ArtifactId) (f : Artifact → Artifact) (agentId : AgentId) (token : Int)
      (hRows : after = (db.artifacts.modify id f).rows) (hNew : newKeys envelope = [])
      (hKey : ∀ artifact, rowKey (f artifact) = rowKey artifact)
      (hToken : ∀ artifact, (f artifact).lastWriteToken = some token)
      (hLive : writeFencingTokenIsLive db now id agentId token = true)

theorem roleStatus_effect
    {fromStatus toStatus : RoleArtifactStatus} {instant : Timestamp} (hNew : newKeys envelope = [])
    (hApplied : applyArtifactEvent db env.now envelope.occurredAt
      (.roleArtifactStatusChanged id fromStatus toStatus instant) = .ok (applied db env envelope)) :
    Effect db env.now envelope (applied db env envelope).artifacts.rows := by
  simp only [applyArtifactEvent] at hApplied
  cases hGet : get db id with
  | none =>
    rw [hGet] at hApplied
    exact .nothing hNew (by rw [← Except.ok.inj hApplied])
  | some artifact =>
    rw [hGet] at hApplied
    obtain ⟨_, _, _, _, _, _, _, _, _, _, roleArtifact, _, _⟩ := artifact
    cases roleArtifact with
    | none => exact .nothing hNew (by rw [← Except.ok.inj hApplied])
    | some entry =>
      let status : Artifact → Artifact := fun artifact => { artifact with
        roleArtifact := artifact.roleArtifact.map fun entry => { entry with status := toStatus }
        updatedAt := envelope.occurredAt }
      apply Effect.rewritten id status
      · rw [← Except.ok.inj hApplied]
        show (db.artifacts.modify id _).rows = (db.artifacts.modify id status).rows
        rw [modify_of_find?_eq_some _ hGet, modify_of_find?_eq_some _ hGet]
        rfl
      · exact hNew
      · intro artifact
        show (artifact.id, artifact.uri, _) = (artifact.id, artifact.uri, _)
        simp only [generationKey, status]
        cases artifact.taskId <;> cases artifact.roleArtifact <;> rfl
      · intro artifact
        rfl

theorem applied_effect {db : Database} {env : Env} {envelope : EventEnvelope} (hNone : ReplacesNone db envelope) :
    Effect db env.now envelope (applied db env envelope).artifacts.rows := by
  by_cases hArtifact : ∃ event, envelope.payload = .artifact event
  · obtain ⟨event, hPayload⟩ := hArtifact
    have hApplied {db' : Database} (hOk : applyArtifactEvent db env.now envelope.occurredAt event = .ok db') :
        applied db env envelope = db' := by
      rw [applied, applyEvent, hPayload]
      dsimp only
      rw [hOk]
    cases event with
    | artifactRegistered artifact =>
      rw [hApplied rfl]
      exact .added artifact hPayload (upsert_artifacts (hNone artifact hPayload))
    | artifactWriteCommitted id agentId token version instant =>
      cases hLive : writeFencingTokenIsLive db env.now id agentId token with
      | true =>
        rw [hApplied (by rw [applyArtifactEvent, hLive]; rfl)]
        exact .written id _ agentId token rfl (by simp [newKeys, hPayload]) (fun _ => rfl) (fun _ => rfl) hLive
      | false =>
        rw [hApplied (by rw [applyArtifactEvent, hLive]; rfl)]
        exact .nothing (by simp [newKeys, hPayload]) rfl
    | artifactChanged id title description instant =>
      cases hEmpty : title.isNone && description.isNone with
      | true =>
        rw [hApplied (by rw [applyArtifactEvent, hEmpty]; rfl)]
        exact .nothing (by simp [newKeys, hPayload]) rfl
      | false =>
        rw [hApplied (by rw [applyArtifactEvent, hEmpty]; rfl)]
        exact .rewritten id _ rfl (by simp [newKeys, hPayload]) (fun _ => rfl) (fun _ => rfl)
    | roleArtifactStatusChanged id fromStatus toStatus instant =>
      apply roleStatus_effect (by simp [newKeys, hPayload])
      cases hOk : applyArtifactEvent db env.now envelope.occurredAt
          (.roleArtifactStatusChanged id fromStatus toStatus instant) with
      | ok db' => rw [hApplied hOk]
      | error =>
        simp only [applyArtifactEvent] at hOk
        split at hOk <;> cases hOk
    | artifactRelationAdded relation =>
      cases hOk : applyArtifactEvent db env.now envelope.occurredAt (.artifactRelationAdded relation) with
      | ok db' =>
        rw [hApplied hOk]
        obtain ⟨_, rfl⟩ := addRelation_frame hOk
        exact .nothing (by simp [newKeys, hPayload]) rfl
      | error =>
        have hSame : applied db env envelope = db := by
          rw [applied, applyEvent, hPayload]
          simp only [hOk]
        rw [hSame]
        exact .nothing (by simp [newKeys, hPayload]) rfl
    | artifactRelationRemoved =>
      rw [hApplied rfl]
      exact .nothing (by simp [newKeys, hPayload]) rfl
    | artifactOwnerAssigned id =>
      rw [hApplied rfl]
      exact .rewritten id _ rfl (by simp [newKeys, hPayload]) (fun _ => rfl) (fun _ => rfl)
    | artifactStatusChanged id =>
      rw [hApplied rfl]
      exact .rewritten id _ rfl (by simp [newKeys, hPayload]) (fun _ => rfl) (fun _ => rfl)
    | artifactDeprecated id =>
      rw [hApplied rfl]
      exact .rewritten id _ rfl (by simp [newKeys, hPayload]) (fun _ => rfl) (fun _ => rfl)
  · apply Effect.nothing
    · cases hPayload : envelope.payload <;> simp_all [newKeys]
    · cases hPayload : envelope.payload <;> simp_all [applied, applyEvent]

theorem Effect.keys (h : Effect db now envelope after) : after.map rowKey = rowKeys db ++ newKeys envelope := by
  cases h with
  | nothing hNew hSame => rw [hNew, hSame, append_nil, rowKeys]
  | added artifact hPayload hRows =>
    have hNew : newKeys envelope = [rowKey artifact] := by rw [newKeys, hPayload]
    rw [hRows, hNew, map_append, rowKeys, map_singleton]
  | rewritten id f hRows hNew hKey => rw [hRows, hNew, append_nil, map_modify hKey, rowKeys]
  | written id f agentId token hRows hNew hKey => rw [hRows, hNew, append_nil, map_modify hKey, rowKeys]

theorem applied_rowKeys {db : Database} {env : Env} {envelope : EventEnvelope} (hNone : ReplacesNone db envelope) :
    rowKeys (applied db env envelope) = rowKeys db ++ newKeys envelope :=
  (applied_effect hNone).keys

theorem key_of_get (h : get db id = some artifact) : artifact.id = id ∧ rowKey artifact ∈ rowKeys db :=
  ⟨key_of_find? h, mem_map_of_mem (mem_of_find? h)⟩

theorem get_of_key {key : RowKey} (h : key ∈ rowKeys db) :
    ∃ artifact, get db key.1 = some artifact ∧ rowKey artifact = key := by
  obtain ⟨artifact, hMem, rfl⟩ := mem_map.mp h
  exact ⟨artifact, find?_of_mem hMem, rfl⟩

theorem replacesNone_iff :
    ReplacesNone db envelope ↔ ∀ old ∈ rowKeys db, ∀ new ∈ newKeys envelope, ¬old.Clash new := by
  constructor
  · intro h old hOld new hNew
    obtain ⟨other, hOther, rfl⟩ := mem_map.mp hOld
    unfold newKeys at hNew
    split at hNew
    · rename_i artifact hPayload
      rw [mem_singleton.mp hNew]
      exact fun hClash => h artifact hPayload other hOther (replaces_iff.mpr hClash)
    · exact absurd hNew not_mem_nil
  · intro h artifact hPayload other hOther hReplaces
    have hNew : rowKey artifact ∈ newKeys envelope := by
      rw [newKeys, hPayload]
      exact mem_singleton_self _
    exact h _ (mem_map_of_mem hOther) _ hNew (replaces_iff.mp hReplaces)

theorem checkFencingToken_congr (hLeases : db'.workLeases = db.workLeases)
    (hCounters : db'.leaseFencing = db.leaseFencing) (now : Timestamp) (agentId : AgentId) (target : String)
    (token : Int) :
    checkFencingToken db' now agentId target token = checkFencingToken db now agentId target token := by
  simp only [checkFencingToken, hLeases, hCounters]

theorem StillLive.transfer (hLeases : db'.workLeases = db.workLeases) (hCounters : db'.leaseFencing = db.leaseFencing)
    (hUri : ∀ id agentId token version instant,
      envelope.payload = .artifact (.artifactWriteCommitted id agentId token version instant) →
        ∀ artifact, get db id = some artifact → ∃ found, get db' id = some found ∧ found.uri = artifact.uri)
    (h : StillLive db now envelope) : StillLive db' now envelope := by
  unfold StillLive at h ⊢
  split
  · rename_i id agentId token version instant hPayload
    rw [hPayload] at h
    dsimp only at h
    cases hGet : get db id with
    | none =>
      rw [writeFencingTokenIsLive, hGet] at h
      cases h
    | some artifact =>
      obtain ⟨found, hFound, hSame⟩ := hUri id agentId token version instant hPayload artifact hGet
      rw [writeFencingTokenIsLive, hGet] at h
      rw [writeFencingTokenIsLive, hFound]
      show checkFencingToken db' now agentId found.uri token = true
      rw [hSame, checkFencingToken_congr hLeases hCounters]
      exact h
  · trivial

theorem StillLive.applied {event : EventEnvelope} (hNone : ReplacesNone db event) (h : StillLive db now envelope) :
    StillLive (applied db env event) now envelope := by
  apply h.transfer (applied_workLeases db env event) (applied_leaseFencing db env event)
  intro id _ _ _ _ _ artifact hGet
  obtain ⟨hId, hKey⟩ := key_of_get hGet
  have hAfter : rowKey artifact ∈ rowKeys (ArtifactRepo.applied db env event) := by
    rw [applied_rowKeys hNone]
    exact mem_append_left _ hKey
  obtain ⟨found, hFound, hSame⟩ := get_of_key hAfter
  exact ⟨found, hId ▸ hFound, congrArg (fun key => key.2.1) hSame⟩

theorem tookEffect_of_live
    (h : StillLive db env.now envelope) : tookEffect (applied db env envelope) envelope = true := by
  unfold tookEffect
  split
  · rename_i id agentId token version instant hPayload
    unfold StillLive at h
    rw [hPayload] at h
    dsimp only at h
    have hApplied : applied db env envelope = updateArtifact db id envelope.occurredAt fun artifact =>
        { artifact with lastWriteToken := some token, version := version, status := .committed } := by
      rw [applied, applyEvent, hPayload]
      simp only [applyArtifactEvent, h, if_true]
    rw [hApplied]
    cases hGet : get db id with
    | none =>
      rw [writeFencingTokenIsLive, hGet] at h
      cases h
    | some artifact =>
      have hAfter := find?_modify db.artifacts id id (fun artifact =>
        { artifact with lastWriteToken := some token, version := version, status := .committed,
                        updatedAt := envelope.occurredAt }) fun _ => rfl
      rw [if_pos rfl, show db.artifacts.find? id = some artifact from hGet] at hAfter
      show Option.any _ ((db.artifacts.modify id _).find? id) = true
      rw [hAfter]
      simp
  · rfl

/-- No row carries a token beyond the last one issued for its resource. -/
def Counted (db : Database) (rows : List Artifact) : Prop :=
  ∀ row ∈ rows, ∀ token, row.lastWriteToken = some token → token ≤ lastToken db (canonicalTargetUri row.uri)

theorem Effect.rises (h : Effect leases.db now envelope after) (hCounted : Counted leases.db leases.db.artifacts.rows)
    {row : Artifact} {token : Int} (hRow : row ∈ leases.db.artifacts) (hToken : row.lastWriteToken = some token) :
    ∃ later ∈ after, later.id = row.id ∧ ∃ token', later.lastWriteToken = some token' ∧ token ≤ token' := by
  cases h with
  | nothing _ hSame => exact ⟨row, hSame ▸ hRow, rfl, token, hToken, Int.le_refl _⟩
  | added artifact _ hRows =>
    exact ⟨row, hRows ▸ mem_append_left _ hRow, rfl, token, hToken, Int.le_refl _⟩
  | rewritten id f hRows _ hKey hSame =>
    have hId : ∀ artifact, (f artifact).id = artifact.id := fun artifact => congrArg Prod.fst (hKey artifact)
    by_cases hHere : row.id = id
    · have hMem : f row ∈ leases.db.artifacts.modify id f :=
        (mem_modify hId).mpr (Or.inl ⟨row, hRow, hHere, rfl⟩)
      exact ⟨f row, hRows ▸ hMem, hId row, token, by rw [hSame, hToken], Int.le_refl _⟩
    · have hMem : row ∈ leases.db.artifacts.modify id f :=
        (mem_modify hId).mpr (Or.inr ⟨hRow, hHere⟩)
      exact ⟨row, hRows ▸ hMem, rfl, token, hToken, Int.le_refl _⟩
  | written id f agentId newToken hRows _ hKey hSame hLive =>
    have hId : ∀ artifact, (f artifact).id = artifact.id := fun artifact => congrArg Prod.fst (hKey artifact)
    by_cases hHere : row.id = id
    · have hMem : f row ∈ leases.db.artifacts.modify id f :=
        (mem_modify hId).mpr (Or.inl ⟨row, hRow, hHere, rfl⟩)
      obtain ⟨artifact, lease, hGet, hCurrent, _⟩ := live_iff.mp hLive
      have hArtifact : row = artifact :=
        eq_of_key_eq hRow (mem_of_find? hGet) (hHere.trans (key_of_get hGet).1.symm)
      have hLe := hCounted row hRow token hToken
      rw [hArtifact, lastToken_of_current hCurrent] at hLe
      exact ⟨f row, hRows ▸ hMem, hId row, newToken, hSame row, hLe⟩
    · have hMem : row ∈ leases.db.artifacts.modify id f :=
        (mem_modify hId).mpr (Or.inr ⟨hRow, hHere⟩)
      exact ⟨row, hRows ▸ hMem, rfl, token, hToken, Int.le_refl _⟩

theorem Effect.counted
    (h : Effect leases.db now envelope after) (hCounted : Counted leases.db leases.db.artifacts.rows)
    (hBlank : ∀ artifact, envelope.payload = .artifact (.artifactRegistered artifact) →
      artifact.lastWriteToken = none) :
    Counted leases.db after := by
  intro later hLater token hToken
  cases h with
  | nothing _ hSame => exact hCounted later (hSame ▸ hLater) token hToken
  | added artifact hPayload hRows =>
    rw [hRows] at hLater
    rcases List.mem_append.mp hLater with hOld | hNew
    · exact hCounted later hOld token hToken
    · rw [mem_singleton.mp hNew, hBlank artifact hPayload] at hToken
      cases hToken
  | rewritten id f hRows _ hKey hSame =>
    have hId : ∀ artifact, (f artifact).id = artifact.id := fun artifact => congrArg Prod.fst (hKey artifact)
    rw [hRows] at hLater
    rcases (mem_modify hId).mp hLater with ⟨old, hOld, _, rfl⟩ | ⟨hOld, _⟩
    · have hUri : (f old).uri = old.uri := congrArg (fun key => key.2.1) (hKey old)
      rw [hSame] at hToken
      rw [hUri]
      exact hCounted old hOld token hToken
    · exact hCounted later hOld token hToken
  | written id f agentId newToken hRows _ hKey hSame hLive =>
    have hId : ∀ artifact, (f artifact).id = artifact.id := fun artifact => congrArg Prod.fst (hKey artifact)
    rw [hRows] at hLater
    rcases (mem_modify hId).mp hLater with ⟨old, hOld, hHere, rfl⟩ | ⟨hOld, _⟩
    · have hUri : (f old).uri = old.uri := congrArg (fun key => key.2.1) (hKey old)
      obtain ⟨artifact, lease, hGet, hCurrent, _⟩ := live_iff.mp hLive
      have hArtifact : old = artifact :=
        eq_of_key_eq hOld (mem_of_find? hGet) (hHere.trans (key_of_get hGet).1.symm)
      rw [hSame] at hToken
      rw [hUri, hArtifact, lastToken_of_current hCurrent]
      exact Int.le_of_eq (Option.some.inj hToken).symm
    · exact hCounted later hOld token hToken

/-- Every write in a log comes after the registration of its artifact. -/
def Grounded : List RowKey → List EventEnvelope → Prop
  | _, [] => True
  | keys, envelope :: rest =>
    (∀ id agentId token version instant,
      envelope.payload = .artifact (.artifactWriteCommitted id agentId token version instant) →
        ∃ key ∈ keys, key.1 = id) ∧
    Grounded (keys ++ newKeys envelope) rest

theorem Grounded.append {keys : List RowKey} {first second : List EventEnvelope} (hFirst : Grounded keys first)
    (hSecond : Grounded (keys ++ first.flatMap newKeys) second) : Grounded keys (first ++ second) := by
  induction first generalizing keys with
  | nil => simpa using hSecond
  | cons envelope rest ih =>
    refine ⟨hFirst.1, ih hFirst.2 ?_⟩
    rw [append_assoc]
    exact hSecond

theorem Grounded.of_known {keys : List RowKey} {envelopes : List EventEnvelope}
    (h : ∀ envelope ∈ envelopes, ∀ id agentId token version instant,
      envelope.payload = .artifact (.artifactWriteCommitted id agentId token version instant) →
        ∃ key ∈ keys, key.1 = id) : Grounded keys envelopes := by
  induction envelopes generalizing keys with
  | nil => trivial
  | cons envelope rest ih =>
    obtain ⟨hFirst, hRest⟩ := forall_mem_cons.mp h
    refine ⟨hFirst, ih fun later hLater id agentId token version instant hPayload => ?_⟩
    obtain ⟨key, hKey, hId⟩ := hRest later hLater id agentId token version instant hPayload
    exact ⟨key, mem_append_left _ hKey, hId⟩

theorem replay_effective {db state : Database} {env : Env} {log : List EventEnvelope}
    (hLeases : state.workLeases = db.workLeases) (hCounters : state.leaseFencing = db.leaseFencing)
    (hGrounded : Grounded (rowKeys state) log) (hRows : rowKeys state ++ log.flatMap newKeys = rowKeys db)
    (hDistinct : (rowKeys db).Pairwise fun left right => ¬left.Clash right)
    (hLive : ∀ envelope ∈ log, StillLive db env.now envelope) :
    ∀ effect ∈ replayEffects state env log, effect = true := by
  induction log generalizing state with
  | nil =>
    intro effect hEffect
    exact absurd hEffect not_mem_nil
  | cons envelope rest ih =>
    rw [flatMap_cons, ← append_assoc] at hRows
    have hNone : ReplacesNone state envelope := by
      rw [replacesNone_iff]
      rw [← hRows] at hDistinct
      exact (pairwise_append.mp (pairwise_append.mp hDistinct).1).2.2
    have hHere : StillLive state env.now envelope := by
      apply (hLive envelope mem_cons_self).transfer hLeases hCounters
      intro id agentId token version instant hPayload artifact hGet
      obtain ⟨key, hKey, hId⟩ := hGrounded.1 id agentId token version instant hPayload
      have hIn : key ∈ rowKeys db := by
        rw [← hRows]
        exact mem_append_left _ (mem_append_left _ hKey)
      obtain ⟨found, hFound, hSame⟩ := get_of_key hKey
      obtain ⟨current, hCurrent, hCurrentKey⟩ := get_of_key hIn
      rw [hId, hGet] at hCurrent
      cases hCurrent
      refine ⟨found, hId ▸ hFound, ?_⟩
      exact congrArg (fun key => key.2.1) (hSame.trans hCurrentKey.symm)
    intro effect hEffect
    rcases mem_cons.mp hEffect with rfl | hLater
    · exact tookEffect_of_live hHere
    · have hKeys := @applied_rowKeys _ env _ hNone
      apply ih ((applied_workLeases state env envelope).trans hLeases)
        ((applied_leaseFencing state env envelope).trans hCounters) ?_ ?_ ?_ effect hLater
      · rw [hKeys]
        exact hGrounded.2
      · rw [hKeys]
        exact hRows
      · exact fun later hIn => hLive later (mem_cons_of_mem _ hIn)

end ArtifactRepo
end Daruma
