import Daruma.Core.ArtifactRows

/-! Fenced writes over whole runs. -/
namespace Daruma

open List

namespace ArtifactRepo

open Transition WorkLeaseRepo Outcome

def Checked (db : Database) (now : Timestamp) (event : ArtifactEvent) : Prop :=
  match event with
  | .artifactWriteCommitted id agentId token _ _ => writeFencingTokenIsLive db now id agentId token = true
  | .artifactRegistered artifact => artifact.lastWriteToken = none
  | _ => True

variable {db : Database} {now : Timestamp} {leases : LeaseWorld} {world : WriteWorld} {env : Env}

theorem checked_singleton {event : ArtifactEvent} (h : Checked db now event) :
    ∀ emitted ∈ [event], Checked db now emitted := by
  intro emitted hEmitted
  rw [mem_singleton.mp hEmitted]
  exact h

theorem checked_nil : ∀ emitted ∈ ([] : List ArtifactEvent), Checked db now emitted :=
  fun _ h => absurd h not_mem_nil

theorem proposeRoleArtifact_checked (db : Database) (env : Env) (taskId : TaskId) (role kind : String)
    (payload : JsonValue) (title : Option String) (supersedes artifactId : Option ArtifactId) :
    Yields (ArtifactCommands.proposeRoleArtifact db env taskId role kind payload title supersedes artifactId)
      fun events => ∀ event ∈ events, Checked db env.now event := by
  unfold ArtifactCommands.proposeRoleArtifact
  refine Yields.andThen fun _ _ => Yields.andThen fun _ _ => Yields.andThen fun task _ => ?_
  cases supersedes with
  | none => exact Yields.andThen fun _ _ => Yields.pure (checked_singleton rfl)
  | some previous =>
    refine Yields.andThen fun _ _ => Yields.andThen fun _ _ => Yields.pure ?_
    intro event hEvent
    rcases mem_cons.mp hEvent with rfl | hRetired
    · rfl
    · rcases mem_cons.mp hRetired with rfl | hRelation
      · trivial
      · rw [mem_singleton.mp hRelation]
        trivial

theorem buildEvents_checked (db : Database) (env : Env) (command : ArtifactCommand) :
    Yields (ArtifactCommands.buildEvents db env command) fun events => ∀ event ∈ events, Checked db env.now event := by
  cases command with
  | registerArtifact artifact =>
    exact Yields.andThen fun _ _ => Yields.andThen fun _ _ => Yields.andThen fun _ _ =>
      Yields.pure (checked_singleton rfl)
  | updateArtifact id title description =>
    exact Yields.andThen fun _ _ => Yields.andThen fun _ _ => Yields.andThen fun _ _ =>
      Yields.pure (checked_singleton trivial)
  | commitArtifactWrite id agentId token version =>
    exact Yields.andThen fun _ _ => Yields.andThen fun _ hLive =>
      Yields.pure (checked_singleton (ensure_eq_ok.mp hLive))
  | deprecateArtifact | changeArtifactStatus =>
    refine Yields.andThen fun current _ => Yields.ite (fun _ => Yields.pure checked_nil) fun _ => ?_
    dsimp only
    split
    · exact Yields.andThen fun _ _ => Yields.pure (checked_singleton trivial)
    · exact Yields.pure (checked_singleton trivial)
  | addArtifactRelation source target kind =>
    refine Yields.andThen fun _ _ => Yields.andThen fun _ _ => Yields.andThen fun _ _ =>
      Yields.andThen fun _ _ => Yields.andThen fun _ _ => Yields.pure ?_
    intro event hEvent
    rcases mem_cons.mp hEvent with rfl | hRetired
    · trivial
    · split at hRetired
      · exact checked_singleton (by trivial) event hRetired
      · exact absurd hRetired not_mem_nil
  | removeArtifactRelation | assignArtifactOwner =>
    exact Yields.andThen fun _ _ => Yields.pure (checked_singleton trivial)
  | proposeRoleArtifact taskId role kind payload title supersedes artifactId =>
    exact proposeRoleArtifact_checked db env taskId role kind payload title supersedes artifactId
  | setRoleArtifactStatus id toStatus =>
    refine Yields.andThen fun current _ => Yields.andThen fun entry _ =>
      Yields.ite (fun _ => Yields.pure checked_nil) fun _ => ?_
    exact Yields.andThen fun _ _ => Yields.pure (checked_singleton trivial)

theorem lastToken_mono {after : LeaseWorld} {action : LeaseAction} (hStep : ActionStep leases action after)
    (key : String) : lastToken leases.db key ≤ lastToken after.db key := by
  cases hStep with
  | reserve env agentId taskId projectId targets mode ttl hNow hFresh hOk =>
    obtain ⟨_, _, hGrants⟩ := tryReserveTargets_fenced hOk
    exact hGrants.lastToken_le key
  | applied envelope => exact Int.le_of_eq (by rw [lastToken, lastToken, applyEvent_leaseFencing])
  | sweep | tick => exact Int.le_refl _
  | elsewhere hLeases hFencing => exact Int.le_of_eq (by rw [lastToken, lastToken, hFencing])

theorem mem_writeTokens {value : ArtifactId × Int} :
    value ∈ writeTokens db ↔ ∃ row ∈ db.artifacts, row.id = value.1 ∧ row.lastWriteToken = some value.2 := by
  simp only [writeTokens, mem_filterMap, Option.map_eq_some_iff, KeyedTable.mem_rows]
  constructor
  · rintro ⟨row, hRow, token, hToken, rfl⟩
    exact ⟨row, hRow, rfl, hToken⟩
  · rintro ⟨row, hRow, hId, hToken⟩
    exact ⟨row, hRow, value.2, hToken, by rw [hId]⟩

/-- The log up to the events that wait made the rows, and no two rows clash. -/
structure Mirrors (world : WriteWorld) : Prop where
  rows : ∃ done, world.log = done ++ world.pending ∧ rowKeys world.db = done.flatMap newKeys
  distinct : (rowKeys world.db).Pairwise fun left right => ¬left.Clash right
  grounded : Grounded [] world.log

/-- The invariant of careful runs. -/
structure Sound (world : WriteWorld) : Prop where
  history : LeaseHistory world.leases world.ended
  mirrors : Mirrors world
  waiting : ∀ envelope ∈ world.pending, StillLive world.db world.leases.clock envelope
  unwritten : ∀ envelope ∈ world.pending, ∀ artifact,
    envelope.payload = .artifact (.artifactRegistered artifact) → artifact.lastWriteToken = none
  counted : Counted world.db world.db.artifacts.rows
  shown : ∀ value ∈ world.values, ∃ row ∈ world.db.artifacts, row.id = value.1 ∧
    ∃ token, row.lastWriteToken = some token ∧ value.2 ≤ token
  fenced : FencedWrites world

theorem Sound.initial (clock : Timestamp) : Sound (.initial clock) where
  history := .initial clock
  mirrors := ⟨⟨[], rfl, rfl⟩, List.Pairwise.nil, True.intro⟩
  waiting := fun _ h => absurd h not_mem_nil
  unwritten := fun _ h => absurd h not_mem_nil
  counted := fun _ h => absurd h not_mem_nil
  shown := fun _ h => absurd h not_mem_nil
  fenced := ⟨fun _ h => absurd h not_mem_nil, fun _ h => absurd h not_mem_nil, List.Pairwise.nil⟩

theorem Sound.lease {world : WriteWorld} {action : LeaseAction} {after : LeaseWorld} (h : Sound world)
    (hStep : ActionStep world.leases action after) (hArtifacts : after.db.artifacts = world.db.artifacts)
    (hKept : ∀ envelope ∈ world.pending, ∀ lease ∈ world.db.workLeases, Covers world.db lease envelope →
      ¬action.Supersedes lease ∧ after.clock ≤ lease.expiresAt)
    (hBack : ∀ returned, action = .applied (.lease (.filesReserved returned)) →
      ∀ lease ∈ returned, lease ∉ world.ended) :
    Sound { world with leases := after, ended := world.ended ++ departed world.db after.db } := by
  have hKeys : rowKeys after.db = rowKeys world.db := by rw [rowKeys, hArtifacts, rowKeys]
  refine { h with history := ?_, mirrors := ?_, waiting := ?_, counted := ?_, shown := ?_, fenced := ?_ }
  · exact h.history.step hStep hBack
  · obtain ⟨done, hLog, hRows⟩ := h.mirrors.rows
    exact ⟨⟨done, hLog, hKeys.trans hRows⟩, (congrArg (List.Pairwise _) hKeys).mpr h.mirrors.distinct,
      h.mirrors.grounded⟩
  · intro envelope hEnvelope
    exact (h.waiting envelope hEnvelope).lease h.history.table hStep hArtifacts (hKept envelope hEnvelope)
  · intro row hRow token hToken
    have hOld : row ∈ world.db.artifacts.rows := hArtifacts ▸ hRow
    exact Int.le_trans (h.counted row hOld token hToken) (lastToken_mono hStep _)
  · intro value hValue
    obtain ⟨row, hRow, hToken⟩ := h.shown value hValue
    exact ⟨row, hArtifacts.symm ▸ hRow, hToken⟩
  · exact ⟨h.fenced.effective, h.fenced.covered, h.fenced.rising⟩

theorem Sound.command {command : ArtifactCommand} {events : List ArtifactEvent} {envelopes : List EventEnvelope} (h : Sound world) (hNow : env.now = world.leases.clock)
    (hOk : ArtifactCommands.buildEvents world.db env command = .ok events)
    (hPayloads : envelopes.map EventEnvelope.payload = events.map .artifact) : Sound { world with
      log := world.log ++ envelopes
      pending := world.pending ++ envelopes
      commits := world.commits ++ world.committed envelopes } := by
  have hChecked : ∀ envelope ∈ envelopes, ∃ event, envelope.payload = .artifact event ∧
      Checked world.db world.leases.clock event := by
    intro envelope hEnvelope
    have hMem : envelope.payload ∈ events.map Event.artifact := hPayloads ▸ mem_map_of_mem hEnvelope
    obtain ⟨event, hEvent, hSame⟩ := mem_map.mp hMem
    exact ⟨event, hSame.symm, hNow ▸ buildEvents_checked world.db env command events hOk event hEvent⟩
  have hWrite : ∀ envelope ∈ envelopes, ∀ id agentId token version instant,
      envelope.payload = .artifact (.artifactWriteCommitted id agentId token version instant) →
        writeFencingTokenIsLive world.db world.leases.clock id agentId token = true := by
    intro envelope hEnvelope id agentId token version instant hPayload
    obtain ⟨event, hEvent, hCheck⟩ := hChecked envelope hEnvelope
    rw [hPayload] at hEvent
    cases hEvent
    exact hCheck
  refine { h with mirrors := ?_, waiting := ?_, unwritten := ?_, fenced := ?_ }
  · obtain ⟨done, hLog, hRows⟩ := h.mirrors.rows
    refine ⟨⟨done, by rw [hLog, append_assoc], hRows⟩, h.mirrors.distinct, ?_⟩
    apply h.mirrors.grounded.append
    apply Grounded.of_known
    intro envelope hEnvelope id agentId token version instant hPayload
    have hLive := hWrite envelope hEnvelope id agentId token version instant hPayload
    obtain ⟨artifact, _, hGet, _⟩ := live_iff.mp hLive
    obtain ⟨hId, hKey⟩ := key_of_get hGet
    rw [show rowKeys world.leases.db = done.flatMap newKeys from hRows] at hKey
    refine ⟨rowKey artifact, ?_, hId⟩
    rw [hLog, nil_append, flatMap_append]
    exact mem_append_left _ hKey
  · intro envelope hEnvelope
    rcases mem_append.mp hEnvelope with hOld | hNew
    · exact h.waiting envelope hOld
    · show StillLive world.db world.leases.clock envelope
      unfold StillLive
      split
      · rename_i id agentId token version instant hPayload
        exact hWrite envelope hNew id agentId token version instant hPayload
      · trivial
  · intro envelope hEnvelope artifact hPayload
    rcases mem_append.mp hEnvelope with hOld | hNew
    · exact h.unwritten envelope hOld artifact hPayload
    · obtain ⟨event, hEvent, hCheck⟩ := hChecked envelope hNew
      rw [hPayload] at hEvent
      cases hEvent
      exact hCheck
  · refine ⟨h.fenced.effective, ?_, h.fenced.rising⟩
    intro commit hCommit
    rcases mem_append.mp hCommit with hOld | hNew
    · exact h.fenced.covered commit hOld
    · obtain ⟨envelope, hEnvelope, hMade⟩ := mem_filterMap.mp hNew
      split at hMade
      · rename_i id agentId token version instant hPayload
        obtain ⟨artifact, hGet, rfl⟩ := Option.map_eq_some_iff.mp hMade
        exact h.history.covered hGet (hWrite envelope hEnvelope id agentId token version instant hPayload)
      · cases hMade

theorem LeaseHistory.applied {ended : List WorkLease} (h : LeaseHistory leases ended)
    (env : Env) (envelope : EventEnvelope) :
    LeaseHistory { leases with db := ArtifactRepo.applied leases.db env envelope } ended := by
  have hSame := applied_workLeases leases.db env envelope
  have hStep : ActionStep leases .elsewhere { leases with db := ArtifactRepo.applied leases.db env envelope } :=
    .elsewhere hSame (applied_leaseFencing leases.db env envelope)
  have hDeparted : departed leases.db (ArtifactRepo.applied leases.db env envelope) = [] := by
    simp [departed]
  have hAfter := h.step hStep fun _ hIs => by cases hIs
  rw [hDeparted, append_nil] at hAfter
  exact hAfter

theorem Sound.project {envelope : EventEnvelope} {rest : List EventEnvelope}
    (h : Sound world) (hNow : env.now = world.leases.clock) (hPending : world.pending = envelope :: rest)
    (hNone : ReplacesNone world.db envelope) : Sound { world with
      leases := { world.leases with db := applied world.db env envelope }
      pending := rest
      effects := world.effects ++ [tookEffect (applied world.db env envelope) envelope]
      values := world.values ++ writeTokens (applied world.db env envelope) } := by
  have hEffect := @applied_effect _ env _ hNone
  have hKeys := @applied_rowKeys _ env _ hNone
  have hFirst : envelope ∈ world.pending := hPending ▸ mem_cons_self
  have hLater : ∀ other ∈ rest, other ∈ world.pending :=
    fun other hOther => hPending ▸ mem_cons_of_mem _ hOther
  have hCounters : ∀ key, lastToken (applied world.db env envelope) key = lastToken world.db key := by
    intro key
    rw [lastToken, applied_leaseFencing, lastToken]
  -- every token shown so far is still reached by the row of its artifact
  have hShown : ∀ value ∈ world.values, ∃ row ∈ (applied world.db env envelope).artifacts, row.id = value.1 ∧
      ∃ token, row.lastWriteToken = some token ∧ value.2 ≤ token := by
    intro value hValue
    obtain ⟨row, hRow, hId, token, hToken, hLe⟩ := h.shown value hValue
    obtain ⟨later, hLaterRow, hSame, token', hToken', hRise⟩ := hEffect.rises h.counted hRow hToken
    exact ⟨later, hLaterRow, hSame.trans hId, token', hToken', Int.le_trans hLe hRise⟩
  refine { h with
    history := ?_, mirrors := ?_, waiting := ?_, unwritten := ?_, counted := ?_, shown := ?_, fenced := ?_ }
  · exact h.history.applied env envelope
  · obtain ⟨done, hLog, hRows⟩ := h.mirrors.rows
    refine ⟨⟨done ++ [envelope], ?_, ?_⟩, ?_, h.mirrors.grounded⟩
    · rw [hLog, hPending, append_assoc, singleton_append]
    · rw [flatMap_append, flatMap_singleton, ← hRows]
      exact hKeys
    · show (rowKeys (applied world.db env envelope)).Pairwise _
      rw [hKeys]
      refine pairwise_append.mpr ⟨h.mirrors.distinct, ?_, replacesNone_iff.mp hNone⟩
      unfold newKeys
      split
      · exact pairwise_singleton _ _
      · exact List.Pairwise.nil
  · intro other hOther
    exact (h.waiting other (hLater other hOther)).applied hNone
  · exact fun other hOther => h.unwritten other (hLater other hOther)
  · intro row hRow token hToken
    show token ≤ lastToken (applied world.db env envelope) _
    rw [hCounters]
    exact hEffect.counted h.counted (h.unwritten envelope hFirst) row hRow token hToken
  · intro value hValue
    rcases mem_append.mp hValue with hOld | hNew
    · exact hShown value hOld
    · obtain ⟨row, hRow, hId, hToken⟩ := mem_writeTokens.mp hNew
      exact ⟨row, hRow, hId, value.2, hToken, Int.le_refl _⟩
  · refine ⟨?_, h.fenced.covered, ?_⟩
    · intro effect hTook
      rcases mem_append.mp hTook with hOld | hNew
      · exact h.fenced.effective effect hOld
      · rw [mem_singleton.mp hNew]
        apply tookEffect_of_live
        rw [hNow]
        exact h.waiting envelope hFirst
    · refine pairwise_append.mpr ⟨h.fenced.rising, ?_, ?_⟩
      · apply pairwise_of_forall_mem_list
        intro first hFirstValue second hSecondValue hSame
        obtain ⟨row, hRow, hId, hToken⟩ := mem_writeTokens.mp hFirstValue
        obtain ⟨row', hRow', hId', hToken'⟩ := mem_writeTokens.mp hSecondValue
        have hRows : row = row' := KeyedTable.eq_of_key_eq hRow hRow' (hId.trans (hSame.trans hId'.symm))
        rw [hRows, hToken'] at hToken
        exact Int.le_of_eq (Option.some.inj hToken).symm
      · intro value hValue new hNew hSame
        obtain ⟨row, hRow, hId, token, hToken, hLe⟩ := hShown value hValue
        obtain ⟨row', hRow', hId', hToken'⟩ := mem_writeTokens.mp hNew
        have hRows : row = row' := KeyedTable.eq_of_key_eq hRow hRow' (hId.trans (hSame.trans hId'.symm))
        rw [hRows, hToken'] at hToken
        exact Option.some.inj hToken ▸ hLe

theorem Sound.replay {world : WriteWorld} {env : Env} (h : Sound world) (hNow : env.now = world.leases.clock)
    (hPending : world.pending = []) (hLive : ∀ envelope ∈ world.log, StillLive world.db world.leases.clock envelope) :
    Sound { world with effects := world.effects ++ replayEffects (blank world.db) env world.log } := by
  refine { h with mirrors := ?_, fenced := ?_ }
  · exact ⟨h.mirrors.rows, h.mirrors.distinct, h.mirrors.grounded⟩
  · refine ⟨?_, h.fenced.covered, h.fenced.rising⟩
    intro effect hEffect
    rcases mem_append.mp hEffect with hOld | hNew
    · exact h.fenced.effective effect hOld
    · obtain ⟨done, hLog, hRows⟩ := h.mirrors.rows
      rw [hPending, append_nil] at hLog
      have hKeys : rowKeys (blank world.db) ++ world.log.flatMap newKeys = rowKeys world.db := by
        rw [hRows, hLog]
        rfl
      have hNowLive : ∀ envelope ∈ world.log, StillLive world.db env.now envelope := hNow ▸ hLive
      exact @replay_effective world.db (blank world.db) env world.log rfl rfl h.mirrors.grounded hKeys
        h.mirrors.distinct hNowLive effect hNew

theorem Sound.preserved : Preserves CarefulStep Sound := by
  rintro before after ⟨action, hStep, hCareful⟩ h
  cases hStep with
  | lease hAction hArtifacts => exact h.lease hAction hArtifacts hCareful.1 hCareful.2
  | command hNow hOk hPayloads => exact h.command hNow hOk hPayloads
  | project hNow hPending => exact h.project hNow hPending hCareful
  | replay hNow => exact h.replay hNow hCareful.1 hCareful.2

/-- In every run of careful steps the accepted writes take effect, live and in replays,
they are covered by leases of their writers, and no write token decreases. -/
theorem careful_writes_are_fenced {clock : Timestamp} {world : WriteWorld}
    (run : Trace CarefulStep (.initial clock) world) : FencedWrites world :=
  (Sound.preserved.trace run (.initial clock)).fenced

private def writerLease : WorkLease :=
  ⟨⟨10⟩, ⟨1⟩, ⟨5⟩, none, "src/a.rs", some "file://src/a.rs", .exclusive, some 1, 0, 60⟩

private def writerEnv : Env := ⟨0, fun n => 10 + n⟩

private def heldLeases : LeaseWorld :=
  ⟨{ Database.empty with
      workLeases := Database.empty.workLeases.upsert writerLease
      leaseFencing := Database.empty.leaseFencing.upsert ⟨"file://src/a.rs", 1⟩ }, 0, [[writerLease]]⟩

private theorem held_step : ActionStep (.initial 0) (.reserve (.reserved [writerLease])) heldLeases :=
  @ActionStep.reserve (.initial 0) _ (.reserved [writerLease]) writerEnv ⟨1⟩ ⟨5⟩ none ["src/a.rs"] .exclusive 60
    (Int.le_refl 0) ⟨fun _ _ hSame => Nat.add_left_cancel hSame, fun _ h => absurd h not_mem_nil⟩ rfl

private def heldWorld : WriteWorld := { WriteWorld.initial 0 with leases := heldLeases }

private def sourceFile : NewArtifact := ⟨some ⟨30⟩, "file://src/a.rs", "a", none, none, none⟩

private def fileRegistered : EventEnvelope :=
  .new ⟨40⟩ 0 .anyUser (.artifact (.artifactRegistered (sourceFile.intoArtifact ⟨10⟩ 0)))

private def fileWritten : EventEnvelope :=
  .new ⟨41⟩ 0 .anyUser (.artifact (.artifactWriteCommitted ⟨30⟩ ⟨1⟩ 1 (some "v1") 0))

private theorem fileWritten_registers_none (artifact : Artifact) :
    fileWritten.payload ≠ .artifact (.artifactRegistered artifact) := by
  simp [fileWritten, EventEnvelope.new]

private def accepting (world : WriteWorld) (envelope : EventEnvelope) : WriteWorld := { world with
  log := world.log ++ [envelope]
  pending := world.pending ++ [envelope]
  commits := world.commits ++ world.committed [envelope] }

private def projecting (world : WriteWorld) (envelope : EventEnvelope) : WriteWorld := { world with
  leases := { world.leases with db := applied world.db writerEnv envelope }
  pending := []
  effects := world.effects ++ [tookEffect (applied world.db writerEnv envelope) envelope]
  values := world.values ++ writeTokens (applied world.db writerEnv envelope) }

private theorem accepting_step {world : WriteWorld} {command : ArtifactCommand} {event : ArtifactEvent}
    {envelope : EventEnvelope} (hNow : writerEnv.now = world.leases.clock)
    (hOk : ArtifactCommands.buildEvents world.db writerEnv command = .ok [event])
    (hPayload : envelope.payload = .artifact event) : CarefulStep world (accepting world envelope) :=
  ⟨_, .command hNow hOk (by rw [map_singleton, map_singleton, hPayload]), trivial⟩

private theorem projecting_step {world : WriteWorld} {envelope : EventEnvelope}
    (hNow : writerEnv.now = world.leases.clock) (hPending : world.pending = [envelope]) :
    WriteStep world (.project envelope) (projecting world envelope) :=
  .project hNow hPending

private theorem projecting_careful {world : WriteWorld} {envelope : EventEnvelope}
    (hNow : writerEnv.now = world.leases.clock) (hPending : world.pending = [envelope])
    (hNoRow : ∀ artifact, envelope.payload ≠ .artifact (.artifactRegistered artifact)) :
    CarefulStep world (projecting world envelope) :=
  ⟨_, projecting_step hNow hPending, fun artifact hPayload => absurd hPayload (hNoRow artifact)⟩

private def registeredWorld : WriteWorld := projecting (accepting heldWorld fileRegistered) fileRegistered

private def writingWorld : WriteWorld := accepting registeredWorld fileWritten

private theorem commitArtifactWrite_ok {id : ArtifactId} {agentId : AgentId} {token : Int} (version : Option String) (hLive : writeFencingTokenIsLive db now id agentId token = true) :
    ArtifactCommands.commitArtifactWrite db now id agentId token version =
      .ok [.artifactWriteCommitted id agentId token version now] := by
  cases hGet : get db id with
  | none =>
    rw [writeFencingTokenIsLive, hGet] at hLive
    cases hLive
  | some artifact =>
    rw [ArtifactCommands.commitArtifactWrite, ArtifactCommands.requireArtifact, hGet, hLive]
    rfl

private theorem writing_run : Trace CarefulStep (.initial 0) writingWorld := by
  have held : Trace CarefulStep (.initial 0) heldWorld := by
    refine Relation.ReflTransGen.single ⟨_, @WriteStep.lease (.initial 0) _ heldLeases held_step rfl, ?_, ?_⟩
    · exact fun _ h => absurd h not_mem_nil
    · exact nofun
  have accepted : Trace CarefulStep (.initial 0) (accepting heldWorld fileRegistered) :=
    held.tail (@accepting_step heldWorld (.registerArtifact sourceFile)
      (.artifactRegistered (sourceFile.intoArtifact ⟨10⟩ 0)) fileRegistered rfl rfl rfl)
  have registered : Trace CarefulStep (.initial 0) registeredWorld :=
    accepted.tail ⟨_, projecting_step rfl rfl, fun _ _ _ h => absurd h not_mem_nil⟩
  have hLive : writeFencingTokenIsLive registeredWorld.db 0 ⟨30⟩ ⟨1⟩ 1 = true := by decide +kernel
  exact registered.tail (@accepting_step registeredWorld (.commitArtifactWrite ⟨30⟩ ⟨1⟩ 1 (some "v1"))
    (.artifactWriteCommitted ⟨30⟩ ⟨1⟩ 1 (some "v1") 0) fileWritten rfl (commitArtifactWrite_ok _ hLive) rfl)

private def writtenWorld : WriteWorld := projecting writingWorld fileWritten

/-- An agent reserves a file, registers it and writes it; the log is replayed. -/
theorem careful_writes_are_fenced_of_writer : FencedWrites { writtenWorld with
      effects := writtenWorld.effects ++ replayEffects (blank writtenWorld.db) writerEnv writtenWorld.log } := by
  have written : Trace CarefulStep (.initial 0) writtenWorld :=
    writing_run.tail (@projecting_careful writingWorld fileWritten rfl rfl fileWritten_registers_none)
  have hLive : ∀ envelope ∈ writtenWorld.log, StillLive writtenWorld.db writtenWorld.leases.clock envelope := by
    intro envelope hEnvelope
    rcases mem_cons.mp hEnvelope with rfl | hLater
    · trivial
    · rw [mem_singleton.mp hLater]
      show writeFencingTokenIsLive _ _ _ _ _ = true
      decide +kernel
  exact careful_writes_are_fenced (written.tail ⟨_, @WriteStep.replay writtenWorld writerEnv rfl, rfl, hLive⟩)

private def leaseReleased : EventEnvelope := .new ⟨42⟩ 0 .anyUser (.lease (.filesReleased ⟨1⟩ ⟨5⟩ none))

private def releasing (world : WriteWorld) : WriteWorld := { world with
  leases := { world.leases with db := WorkLeaseRepo.applyEvent world.db leaseReleased }
  ended := world.ended ++ departed world.db (WorkLeaseRepo.applyEvent world.db leaseReleased) }

private theorem releasing_step (world : WriteWorld) :
    WriteStep world (.lease (.applied leaseReleased.payload)) (releasing world) :=
  .lease (.applied leaseReleased trivial) rfl

def AnyWriteStep (before after : WriteWorld) : Prop := ∃ action, WriteStep before action after

theorem run_of_careful {start : WriteWorld} (run : Trace CarefulStep start world) :
    Trace AnyWriteStep start world := by
  induction run with
  | refl => exact Relation.ReflTransGen.refl
  | tail _ last ih =>
    obtain ⟨action, hStep, _⟩ := last
    exact ih.tail ⟨action, hStep⟩

/-- A write is accepted, its lease is released, and then the event of the write is
applied: the row does not carry the write. -/
theorem accepted_write_is_lost :
    ¬∀ (clock : Timestamp) (world : WriteWorld), Trace AnyWriteStep (.initial clock) world → FencedWrites world := by
  intro h
  have released := (run_of_careful writing_run).tail ⟨_, releasing_step writingWorld⟩
  have projected := released.tail ⟨_, @projecting_step (releasing writingWorld) fileWritten rfl rfl⟩
  have hLost : false ∈ (projecting (releasing writingWorld) fileWritten).effects := by decide +kernel
  exact absurd ((h 0 _ projected).effective false hLost) Bool.false_ne_true

end ArtifactRepo
end Daruma
