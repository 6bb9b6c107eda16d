import Daruma.Core.GovernanceCommands
import Daruma.Storage.LeaseFencing

/-! Writes of artifacts between lease operations. A lease leaves the table once, and while it is
there and has not expired it covers the writes that carry its token. -/
namespace Daruma
namespace ArtifactRepo

open WorkLeaseRepo

/-- A projection error leaves the tables as they are. -/
def applied (db : Database) (env : Env) (envelope : EventEnvelope) : Database :=
  match applyEvent db env envelope with
  | .ok db' => db'
  | .error _ => db

/-- The row carries what a committed write says; other events say nothing here. -/
def tookEffect (db : Database) (envelope : EventEnvelope) : Bool :=
  match envelope.payload with
  | .artifact (.artifactWriteCommitted artifactId _ fencingToken version _) =>
    (get db artifactId).any fun artifact =>
      artifact.lastWriteToken = some fencingToken && artifact.version = version && artifact.status = .committed
  | _ => true

/-- Whether each event of a log takes effect when the log is replayed. -/
def replayEffects (db : Database) (env : Env) : List EventEnvelope → List Bool
  | [] => []
  | envelope :: rest =>
    let db' := applied db env envelope
    tookEffect db' envelope :: replayEffects db' env rest

def blank (db : Database) : Database := { db with artifacts := .empty, artifactRelations := .empty }

/-- An accepted commit: the resource and the instant it was checked for, the leases
granted by then in the order of their grants, and those that had ended. -/
structure Commit where
  agentId : AgentId
  fencingToken : Int
  uri : String
  instant : Timestamp
  issued : List WorkLease
  ended : List WorkLease

/-- The leases, the log of the artifact events, and those of them that wait for the
projector. `ended` are the leases that left the table, `effects` tells of each applied
event whether it took effect, and `values` are the write tokens that the rows showed. -/
structure WriteWorld where
  leases : LeaseWorld
  log : List EventEnvelope
  pending : List EventEnvelope
  ended : List WorkLease
  commits : List Commit
  effects : List Bool
  values : List (ArtifactId × Int)

namespace WriteWorld

def db (world : WriteWorld) : Database := world.leases.db

def initial (clock : Timestamp) : WriteWorld := ⟨.initial clock, [], [], [], [], [], []⟩

def committed (world : WriteWorld) (envelopes : List EventEnvelope) : List Commit :=
  envelopes.filterMap fun envelope => match envelope.payload with
    | .artifact (.artifactWriteCommitted artifactId agentId fencingToken _ _) =>
      (get world.db artifactId).map fun artifact =>
        ⟨agentId, fencingToken, artifact.uri, world.leases.clock, world.leases.issued, world.ended⟩
    | _ => none

end WriteWorld

def writeTokens (db : Database) : List (ArtifactId × Int) :=
  db.artifacts.rows.filterMap fun artifact => artifact.lastWriteToken.map (artifact.id, ·)

inductive WriteAction where
  | lease (action : LeaseAction)
  | command (command : ArtifactCommand)
  | project (envelope : EventEnvelope)
  | replay

/-- One step: a lease operation, an accepted artifact command, the projection of the next
event, or a replay of the log. -/
inductive WriteStep : WriteWorld → WriteAction → WriteWorld → Prop where
  | lease {world : WriteWorld} {action : LeaseAction} {after : LeaseWorld} (h : ActionStep world.leases action after)
      (hArtifacts : after.db.artifacts = world.db.artifacts) :
      WriteStep world (.lease action) { world with
        leases := after
        ended := world.ended ++ world.db.workLeases.rows.filter fun row => row ∉ after.db.workLeases.rows }
  | command {world : WriteWorld} {env : Env} {command : ArtifactCommand} {events : List ArtifactEvent}
      {envelopes : List EventEnvelope} (hNow : env.now = world.leases.clock)
      (h : ArtifactCommands.buildEvents world.db env command = .ok events)
      (hPayloads : envelopes.map EventEnvelope.payload = events.map .artifact) :
      WriteStep world (.command command) { world with
        log := world.log ++ envelopes
        pending := world.pending ++ envelopes
        commits := world.commits ++ world.committed envelopes }
  | project {world : WriteWorld} {env : Env} {envelope : EventEnvelope} {rest : List EventEnvelope}
      (hNow : env.now = world.leases.clock) (hPending : world.pending = envelope :: rest) :
      WriteStep world (.project envelope) { world with
        leases := { world.leases with db := applied world.db env envelope }
        pending := rest
        effects := world.effects ++ [tookEffect (applied world.db env envelope) envelope]
        values := world.values ++ writeTokens (applied world.db env envelope) }
  | replay {world : WriteWorld} {env : Env} (hNow : env.now = world.leases.clock) :
      WriteStep world .replay { world with
        effects := world.effects ++ replayEffects (blank world.db) env world.log }

/-- Two leases of different agents that the conflict scan keeps apart. -/
def Conflicts (a b : WorkLease) : Prop :=
  (a.agentId ≠ b.agentId ∧ a.projectId = b.projectId) ∧
    targetsOverlap a.resourceKey b.resourceKey = true ∧ a.mode.conflictsWith b.mode = true

/-- The commit is covered by an unexpired lease of the writer that has not ended, and
since it was granted nobody got one on the resource, and nobody else one in its way. -/
def Commit.Covered (commit : Commit) : Prop :=
  ∃ earlier lease later, commit.issued = earlier ++ lease :: later ∧ lease.agentId = commit.agentId ∧
    lease.targetUri = some (canonicalTargetUri commit.uri) ∧ lease.fencingToken = some commit.fencingToken ∧
    commit.instant ≤ lease.expiresAt ∧ lease ∉ commit.ended ∧
    ∀ grant ∈ later, grant.targetUri ≠ lease.targetUri ∧ ¬Conflicts lease grant

/-- Accepted writes take effect, live and in every replay; they are covered by leases;
and the write tokens of an artifact never decrease. -/
structure FencedWrites (world : WriteWorld) : Prop where
  effective : ∀ effect ∈ world.effects, effect = true
  covered : ∀ commit ∈ world.commits, commit.Covered
  rising : world.values.Pairwise fun earlier later => earlier.1 = later.1 → earlier.2 ≤ later.2

def Covers (db : Database) (lease : WorkLease) (envelope : EventEnvelope) : Prop :=
  match envelope.payload with
  | .artifact (.artifactWriteCommitted artifactId agentId fencingToken _ _) =>
    lease.agentId = agentId ∧ lease.fencingToken = some fencingToken ∧
      ∃ artifact, get db artifactId = some artifact ∧ lease.targetUri = some (canonicalTargetUri artifact.uri)
  | _ => False

/-- The two rows share an identifier, a URI or a generation. -/
def Replaces (other artifact : Artifact) : Prop :=
  other.id = artifact.id ∨ other.uri = artifact.uri ∨ sameGeneration other artifact = true

def StillLive (db : Database) (now : Timestamp) (envelope : EventEnvelope) : Prop :=
  match envelope.payload with
  | .artifact (.artifactWriteCommitted artifactId agentId fencingToken _ _) =>
    writeFencingTokenIsLive db now artifactId agentId fencingToken = true
  | _ => True

/-- No lease that covers a waiting write is superseded or expires; the event of a
reservation brings back no lease that has ended; a registered artifact replaces none; and
the log is replayed when no event waits and every write in it is still live. -/
def Careful (world : WriteWorld) (action : WriteAction) (after : WriteWorld) : Prop :=
  match action with
  | .lease action =>
    (∀ envelope ∈ world.pending, ∀ lease ∈ world.db.workLeases, Covers world.db lease envelope →
      ¬action.Supersedes lease ∧ after.leases.clock ≤ lease.expiresAt) ∧
    ∀ leases, action = .applied (.lease (.filesReserved leases)) → ∀ lease ∈ leases, lease ∉ world.ended
  | .project envelope => ∀ artifact, envelope.payload = .artifact (.artifactRegistered artifact) →
      ∀ other ∈ world.db.artifacts, ¬Replaces other artifact
  | .replay => world.pending = [] ∧ ∀ envelope ∈ world.log, StillLive world.db world.leases.clock envelope
  | .command _ => True

def CarefulStep (before after : WriteWorld) : Prop :=
  ∃ action, WriteStep before action after ∧ Careful before action after

end ArtifactRepo

open List

namespace ArtifactRepo

open Transition WorkLeaseRepo

variable {agentId : AgentId} {row : WorkLease} {leases : LeaseWorld} {ended : List WorkLease} {id : ArtifactId}
  {token : Int}

/-- A reservation grants nothing in the way of a lease that it finds unexpired. -/
theorem granted_free {db db' : Database} {env : Env} {taskId : TaskId}
    {projectId : Option ProjectId} {targets : List String} {mode : LeaseMode} {ttl : Duration}
    {outcome : ReserveOutcome} (h : tryReserveTargets db env agentId taskId projectId targets mode ttl =
      .ok (outcome, db')) {grant : WorkLease} (hRow : row ∈ db.workLeases) (hLive : env.now ≤ row.expiresAt)
    (hGrant : grant ∈ outcome.granted) : ¬Conflicts row grant := by
  unfold tryReserveTargets at h
  dsimp only at h
  cases hScan : findConflict (contenders db.workLeases env.now agentId projectId) (requestedTargets targets) mode with
  | some found =>
    rw [hScan] at h
    cases h
    exact absurd hGrant not_mem_nil
  | none =>
    rw [hScan] at h
    cases hGrants : grantTargets db env agentId taskId projectId mode (env.now + ttl) 0
        (requestedTargets targets) with
    | error e =>
      rw [hGrants] at h
      cases h
    | ok granted =>
      rw [hGrants] at h
      cases h
      have hTo := (grantTargets_ok hGrants).1 grant hGrant
      rintro ⟨⟨hAgent, hProject⟩, hOverlap, hModes⟩
      rw [hTo.agentId] at hAgent
      rw [hTo.projectId] at hProject
      rw [LeaseMode.conflictsWith_comm, hTo.mode] at hModes
      rw [targetsOverlap_comm] at hOverlap
      have hNone := findConflict_eq_none_iff.mp hScan row hRow hLive hAgent hProject hModes _ hTo.resourceKey
      rw [hNone] at hOverlap
      cases hOverlap

/-- The leases that have left the table since a step began. -/
def departed (before after : Database) : List WorkLease :=
  before.workLeases.rows.filter fun row => row ∉ after.workLeases.rows

theorem mem_departed {before after : Database} :
    row ∈ departed before after ↔ row ∈ before.workLeases ∧ row ∉ after.workLeases := by
  simp [departed]

/-- Every lease issued is in the table or has ended, never both; and an unexpired one
in the table conflicts with none issued after it. -/
structure LeaseHistory (leases : LeaseWorld) (ended : List WorkLease) : Prop where
  table : LeaseInvariant leases
  fencing : FencingInvariant leases
  present : ∀ lease ∈ leases.issued, lease ∈ leases.db.workLeases ∨ lease ∈ ended
  alive : ∀ lease ∈ leases.db.workLeases, lease ∉ ended
  ended : ∀ lease ∈ ended, lease ∈ leases.issued
  free : leases.issued.Pairwise fun lease grant =>
    lease ∈ leases.db.workLeases → leases.clock ≤ lease.expiresAt → ¬Conflicts lease grant

theorem LeaseHistory.initial (clock : Timestamp) : LeaseHistory (.initial clock) [] :=
  ⟨.initial clock, .initial clock, fun _ h => absurd h not_mem_nil, fun _ _ h => absurd h not_mem_nil,
    fun _ h => absurd h not_mem_nil, List.Pairwise.nil⟩

theorem mem_issued {lease : WorkLease} : lease ∈ leases.issued ↔ ∃ granted ∈ leases.grants, lease ∈ granted := by
  simp [LeaseWorld.issued]

theorem LeaseHistory.issued_of_mem (h : LeaseHistory leases ended)
    {lease : WorkLease} (hRow : lease ∈ leases.db.workLeases) : lease ∈ leases.issued :=
  mem_issued.mpr (h.table.granted lease hRow)

theorem LeaseHistory.quiet {after : LeaseWorld} (h : LeaseHistory leases ended)
    (hTable : LeaseInvariant after) (hFencing : FencingInvariant after) (hGrants : after.grants = leases.grants)
    (hClock : leases.clock ≤ after.clock) (hRows : ∀ row ∈ after.db.workLeases, row ∈ leases.db.workLeases) :
    LeaseHistory after (ended ++ departed leases.db after.db) := by
  have hIssued : after.issued = leases.issued := by rw [LeaseWorld.issued, hGrants, LeaseWorld.issued]
  refine ⟨hTable, hFencing, ?_, ?_, ?_, ?_⟩
  · intro lease hLease
    rw [hIssued] at hLease
    by_cases hAfter : lease ∈ after.db.workLeases
    · exact Or.inl hAfter
    · rcases h.present lease hLease with hRow | hEnded
      · exact Or.inr (mem_append_right _ (mem_departed.mpr ⟨hRow, hAfter⟩))
      · exact Or.inr (mem_append_left _ hEnded)
  · intro lease hRow hEnded
    rcases mem_append.mp hEnded with hOld | hNew
    · exact h.alive lease (hRows lease hRow) hOld
    · exact (mem_departed.mp hNew).2 hRow
  · intro lease hEnded
    rw [hIssued]
    rcases mem_append.mp hEnded with hOld | hNew
    · exact h.ended lease hOld
    · exact h.issued_of_mem (mem_departed.mp hNew).1
  · rw [hIssued]
    apply h.free.imp
    intro lease grant hFree hRow hLive
    exact hFree (hRows lease hRow) (Int.le_trans hClock hLive)

theorem LeaseHistory.reserve {leases : LeaseWorld} {ended : List WorkLease} {db' : Database} {env : Env}
    {agentId : AgentId} {taskId : TaskId} {projectId : Option ProjectId} {targets : List String} {mode : LeaseMode}
    {ttl : Duration} {outcome : ReserveOutcome} (h : LeaseHistory leases ended) (hNow : env.now ≤ leases.clock)
    (hFresh : Fresh env leases.grants)
    (hOk : tryReserveTargets leases.db env agentId taskId projectId targets mode ttl = .ok (outcome, db')) :
    LeaseHistory ⟨db', leases.clock, outcome.granted :: leases.grants⟩ (ended ++ departed leases.db db') := by
  have hStep := ActionStep.reserve env agentId taskId projectId targets mode ttl hNow hFresh hOk
  have hReserves := tryReserveTargets_reserves hOk
  obtain ⟨requested, _, hGrants⟩ := tryReserveTargets_fenced hOk
  have hIssued : LeaseWorld.issued ⟨db', leases.clock, outcome.granted :: leases.grants⟩ =
      leases.issued ++ outcome.granted := by
    simp [LeaseWorld.issued]
  -- identifiers are minted once, so no granted lease was issued before
  have hNew : ∀ lease ∈ outcome.granted, lease ∉ leases.issued := by
    intro lease hLease hOld
    obtain ⟨count, hIds⟩ := hReserves.ids
    have hMem : lease.id ∈ outcome.granted.map WorkLease.id := mem_map_of_mem hLease
    rw [hIds] at hMem
    obtain ⟨n, _, hId⟩ := mem_map.mp hMem
    obtain ⟨granted, hGranted, hIn⟩ := mem_issued.mp hOld
    exact hFresh.2 granted hGranted lease hIn n hId.symm
  have hBefore : ∀ lease ∈ leases.issued, lease ∈ db'.workLeases → lease ∈ leases.db.workLeases := by
    intro lease hOld hRow
    rcases hReserves.rows lease hRow with hRow | hGranted
    · exact hRow
    · exact absurd hOld (hNew lease hGranted)
  refine ⟨LeaseInvariant.preserved _ hStep.leaseStep h.table, FencingInvariant.preserved ⟨_, hStep⟩ h.fencing,
    ?_, ?_, ?_, ?_⟩
  · intro lease hLease
    rw [hIssued] at hLease
    by_cases hAfter : lease ∈ db'.workLeases
    · exact Or.inl hAfter
    · rcases mem_append.mp hLease with hOld | hGranted
      · rcases h.present lease hOld with hRow | hEnded
        · exact Or.inr (mem_append_right _ (mem_departed.mpr ⟨hRow, hAfter⟩))
        · exact Or.inr (mem_append_left _ hEnded)
      · exact absurd (hGrants.rows lease hGranted) hAfter
  · intro lease hRow hEnded
    rcases mem_append.mp hEnded with hOld | hGone
    · have hIn := h.ended lease hOld
      exact h.alive lease (hBefore lease hIn hRow) hOld
    · exact (mem_departed.mp hGone).2 hRow
  · intro lease hEnded
    rw [hIssued]
    rcases mem_append.mp hEnded with hOld | hGone
    · exact mem_append_left _ (h.ended lease hOld)
    · exact mem_append_left _ (h.issued_of_mem (mem_departed.mp hGone).1)
  · rw [hIssued]
    refine pairwise_append.mpr ⟨?_, ?_, ?_⟩
    · apply List.Pairwise.imp_of_mem _ h.free
      intro lease grant hLease _ hFree hRow hLive
      exact hFree (hBefore lease hLease hRow) hLive
    · apply pairwise_of_forall_mem_list
      intro lease hLease grant hGrant _ _ hConflicts
      exact hConflicts.1.1 (hReserves.holder lease hLease grant hGrant)
    · intro lease hLease grant hGrant hRow hLive
      exact granted_free hOk (hBefore lease hLease hRow) (Int.le_trans hNow hLive) hGrant

theorem LeaseHistory.step {leases after : LeaseWorld} {action : LeaseAction} {ended : List WorkLease}
    (h : LeaseHistory leases ended) (hStep : ActionStep leases action after)
    (hBack : ∀ returned, action = .applied (.lease (.filesReserved returned)) →
      ∀ lease ∈ returned, lease ∉ ended) :
    LeaseHistory after (ended ++ departed leases.db after.db) := by
  have hTable := LeaseInvariant.preserved _ hStep.leaseStep h.table
  have hFencing := FencingInvariant.preserved ⟨_, hStep⟩ h.fencing
  cases hStep with
  | reserve env agentId taskId projectId targets mode ttl hNow hFresh hOk => exact h.reserve hNow hFresh hOk
  | applied envelope hProduced =>
    apply h.quiet hTable hFencing rfl (Int.le_refl _)
    intro row hRow
    rcases mem_applyEvent hRow with hOld | ⟨returned, hPayload, hReturned⟩
    · exact hOld
    · rw [hPayload] at hProduced
      have hIssued : row ∈ leases.issued := mem_issued.mpr ⟨returned, hProduced, hReturned⟩
      have hNotEnded := hBack returned (by rw [hPayload]) row hReturned
      exact (h.present row hIssued).resolve_right hNotEnded
  | sweep now hNow =>
    exact h.quiet hTable hFencing rfl (Int.le_refl _) fun row hRow => (KeyedTable.mem_filter.mp hRow).1
  | tick hLater => exact h.quiet hTable hFencing rfl hLater fun row hRow => hRow
  | elsewhere hLeases hCounters =>
    exact h.quiet hTable hFencing rfl (Int.le_refl _) fun row hRow => hLeases ▸ hRow

theorem live_iff {now : Timestamp} : writeFencingTokenIsLive leases.db now id agentId token = true ↔
      ∃ artifact lease, get leases.db id = some artifact ∧
        Current leases lease (canonicalTargetUri artifact.uri) token ∧ lease.agentId = agentId ∧
        now ≤ lease.expiresAt := by
  unfold writeFencingTokenIsLive
  cases get leases.db id with
  | none =>
    constructor
    · intro h
      cases h
    · rintro ⟨_, _, h, _⟩
      cases h
  | some artifact =>
    show checkFencingToken _ _ _ _ _ = true ↔ _
    rw [checkFencingToken_iff]
    constructor
    · rintro ⟨lease, h⟩
      exact ⟨artifact, lease, rfl, h⟩
    · rintro ⟨_, lease, hSame, h⟩
      cases hSame
      exact ⟨lease, h⟩

theorem lastToken_of_current {lease : WorkLease} {key : String}
    (h : Current leases lease key token) : lastToken leases.db key = token := by
  rw [lastToken, h.counter]
  rfl

theorem LeaseHistory.covered (h : LeaseHistory leases ended) {artifact : Artifact}
    (hGet : get leases.db id = some artifact)
    (hLive : writeFencingTokenIsLive leases.db leases.clock id agentId token = true) :
    Commit.Covered ⟨agentId, token, artifact.uri, leases.clock, leases.issued, ended⟩ := by
  obtain ⟨found, lease, hFound, hCurrent, hAgent, hUnexpired⟩ := live_iff.mp hLive
  rw [hGet] at hFound
  cases hFound
  obtain ⟨earlier, later, hSplit⟩ := append_of_mem (h.issued_of_mem hCurrent.row)
  refine ⟨earlier, lease, later, hSplit, hAgent, hCurrent.target, hCurrent.carries, hUnexpired,
    h.alive lease hCurrent.row, ?_⟩
  intro grant hGrant
  constructor
  · -- a later grant on the resource would have moved the counter past the token
    intro hTarget
    have hTokens : TokensIncrease (earlier ++ lease :: later) := hSplit ▸ h.fencing.increase
    have hAfter := rel_of_pairwise_cons (pairwise_append.mp hTokens).2.1 hGrant
    obtain ⟨first, second, hFirst, hSecond, hLess⟩ := hAfter hTarget.symm
    have hIssued : grant ∈ leases.issued := by
      rw [hSplit]
      exact mem_append_right _ (mem_cons_of_mem _ hGrant)
    obtain ⟨key, counted, hKey, hCounted, hLe⟩ := h.fencing.counted grant hIssued
    rw [hTarget, hCurrent.target] at hKey
    rw [← Option.some.inj hKey, lastToken_of_current hCurrent] at hLe
    rw [hCurrent.carries] at hFirst
    rw [hSecond] at hCounted
    have hToken := Option.some.inj hFirst
    have hGrantToken := Option.some.inj hCounted
    omega
  · have hFree := h.free
    rw [hSplit] at hFree
    exact rel_of_pairwise_cons (pairwise_append.mp hFree).2.1 hGrant hCurrent.row hUnexpired

theorem StillLive.lease {leases after : LeaseWorld} {action : LeaseAction} {envelope : EventEnvelope}
    (hInv : LeaseInvariant leases) (hStep : ActionStep leases action after)
    (hArtifacts : after.db.artifacts = leases.db.artifacts)
    (hCareful : ∀ lease ∈ leases.db.workLeases, Covers leases.db lease envelope →
      ¬action.Supersedes lease ∧ after.clock ≤ lease.expiresAt)
    (h : StillLive leases.db leases.clock envelope) : StillLive after.db after.clock envelope := by
  unfold StillLive at h ⊢
  split
  · rename_i id agentId token version instant hPayload
    rw [hPayload] at h
    obtain ⟨artifact, lease, hGet, hCurrent, hAgent, _⟩ := live_iff.mp h
    have hCovers : Covers leases.db lease envelope := by
      unfold Covers
      rw [hPayload]
      exact ⟨hAgent, hCurrent.carries, artifact, hGet, hCurrent.target⟩
    obtain ⟨hKept, hUnexpired⟩ := hCareful lease hCurrent.row hCovers
    have hGetAfter : get after.db id = some artifact := by
      rw [get, hArtifacts]
      exact hGet
    exact live_iff.mpr ⟨artifact, lease, hGetAfter, hCurrent.step hInv hStep hKept hUnexpired, hAgent, hUnexpired⟩
  · trivial

end ArtifactRepo
end Daruma
