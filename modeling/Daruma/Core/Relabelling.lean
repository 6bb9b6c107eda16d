import Daruma.Core.BlockGraph

/-! The relabelling of the edges out of a task that moves to done. The unique
index refuses it exactly when an edge has a twin that was relabelled before. -/
namespace Daruma

open KeyedTable Stateful
open RelationRepo (updateKind listBlocksTargets mem_listBlocksTargets edgeTaken)

open Transition (Trace Preserves)

/-- No two edges agree in their endpoints and their kind. -/
def UniqueEdges (relations : Relations) : Prop :=
  ∀ a ∈ relations, ∀ b ∈ relations, a.source = b.source → a.target = b.target → a.kind = b.kind → a = b

namespace RelationRepo

variable {relations relations' : Relations}

variable {relation : Relation}

theorem edgeTaken_iff : edgeTaken relations relation = true ↔ ∃ other ∈ relations, other.source = relation.source ∧
      other.target = relation.target ∧ other.kind = relation.kind ∧ other.id ≠ relation.id := by
  simp [edgeTaken, and_assoc]

theorem updateKind_free {id : RelationId} {kind : RelationKind}
    (h : updateKind relations id kind = .ok relations') (hFound : relations.find? id = some relation) :
    edgeTaken relations { relation with kind := kind } = false := by
  unfold updateKind at h
  rw [hFound] at h
  dsimp only at h
  split at h
  · cases h
  · rename_i hFree
    simpa using hFree

end RelationRepo

open RelationRepo (edgeTaken_iff updateKind_free mem_updateKind insert_ok updateKind_ok)

theorem uniqueEdges_step : Preserves RelationWrite UniqueEdges := by
  intro before after hWrite hUnique
  cases hWrite with
  | linked relation hFree h =>
    obtain ⟨hTaken, hNew, hRows⟩ := insert_ok h
    have hOther : ∀ row ∈ before, ¬(row.source = relation.source ∧ row.target = relation.target ∧
        row.kind = relation.kind) := by
      rintro row hRow ⟨hSource, hTarget, hKind⟩
      have hId : row.id ≠ relation.id := find?_eq_none_iff.mp hNew row hRow
      rw [edgeTaken_iff.mpr ⟨row, hRow, hSource, hTarget, hKind, hId⟩] at hTaken
      cases hTaken
    intro a hA b hB hSource hTarget hKind
    rcases (hRows a).mp hA with hA | rfl <;> rcases (hRows b).mp hB with hB | rfl
    · exact hUnique a hA b hB hSource hTarget hKind
    · exact absurd ⟨hSource, hTarget, hKind⟩ (hOther a hA)
    · exact absurd ⟨hSource.symm, hTarget.symm, hKind.symm⟩ (hOther b hB)
    · rfl
  | relabelled id h =>
    intro a hA b hB hSource hTarget hKind
    have hFresh : ∀ old ∈ before, old.id = id → ∀ row ∈ before, row.id ≠ id →
        ¬(row.source = old.source ∧ row.target = old.target ∧ row.kind = .wasBlocking) := by
      rintro old hOld hId row hRow hOther ⟨hSource, hTarget, hKind⟩
      have hTaken := updateKind_free h (hId ▸ find?_of_mem hOld)
      have hNe : row.id ≠ old.id := hId ▸ hOther
      have hIs : edgeTaken before { old with kind := .wasBlocking } = true :=
        edgeTaken_iff.mpr ⟨row, hRow, hSource, hTarget, hKind, hNe⟩
      rw [hIs] at hTaken
      cases hTaken
    rcases (mem_updateKind h).mp hA with ⟨oldA, hOldA, hIdA, rfl⟩ | ⟨hA, hIdA⟩ <;>
      rcases (mem_updateKind h).mp hB with ⟨oldB, hOldB, hIdB, rfl⟩ | ⟨hB, hIdB⟩
    · rw [eq_of_key_eq hOldA hOldB (hIdA.trans hIdB.symm)]
    · exact absurd ⟨hSource.symm, hTarget.symm, hKind.symm⟩ (hFresh oldA hOldA hIdA b hB hIdB)
    · exact absurd ⟨hSource, hTarget, hKind⟩ (hFresh oldB hOldB hIdB a hA hIdA)
    · exact hUnique a hA b hB hSource hTarget hKind
  | deleted id =>
    intro a hA b hB
    exact hUnique a (mem_erase.mp hA).1 b (mem_erase.mp hB).1

/-- An edge of the same endpoints was blocking once and is on record as such. -/
def Twinned (relations : Relations) (edge : Relation) : Prop :=
  ∃ twin ∈ relations, twin.source = edge.source ∧ twin.target = edge.target ∧ twin.kind = .wasBlocking

variable {edge : Relation}

theorem updateKind_iff {relations : Relations} (hEdge : edge ∈ relations) (hKind : edge.kind = .blocks) :
    (∃ relations', updateKind relations edge.id .wasBlocking = .ok relations') ↔
      ¬Twinned relations edge := by
  have hFound := find?_of_mem hEdge
  constructor
  · rintro ⟨relations', h⟩ ⟨twin, hTwin, hSource, hTarget, hWas⟩
    have hTaken := updateKind_free h hFound
    have hId : twin.id ≠ edge.id := by
      intro hSame
      rw [eq_of_key_eq hTwin hEdge hSame, hKind] at hWas
      cases hWas
    have hIs : edgeTaken relations { edge with kind := .wasBlocking } = true :=
      edgeTaken_iff.mpr ⟨twin, hTwin, hSource, hTarget, hWas, hId⟩
    rw [hIs] at hTaken
    cases hTaken
  · intro hFree
    have hTaken : edgeTaken relations { edge with kind := .wasBlocking } = false := by
      by_contra hTaken
      rw [Bool.not_eq_false, edgeTaken_iff] at hTaken
      obtain ⟨twin, hTwin, hSource, hTarget, hWas, _⟩ := hTaken
      exact hFree ⟨twin, hTwin, hSource, hTarget, hWas⟩
    refine ⟨relations.modify edge.id fun row => { row with kind := .wasBlocking }, ?_⟩
    simp [updateKind, hFound, hTaken]

theorem twinned_updateKind {relations relations' : Relations} {other : Relation}
    (hEdge : edge ∈ relations) (hDistinct : ¬(edge.source = other.source ∧ edge.target = other.target))
    (h : updateKind relations edge.id .wasBlocking = .ok relations') :
    Twinned relations' other ↔ Twinned relations other := by
  constructor
  · rintro ⟨twin, hTwin, hSource, hTarget, hWas⟩
    rcases (mem_updateKind h).mp hTwin with ⟨old, hOld, hId, rfl⟩ | ⟨hOld, _⟩
    · have hSame := eq_of_key_eq hOld hEdge hId
      exact absurd ⟨hSame ▸ hSource, hSame ▸ hTarget⟩ hDistinct
    · exact ⟨twin, hOld, hSource, hTarget, hWas⟩
  · rintro ⟨twin, hTwin, hSource, hTarget, hWas⟩
    have hId : twin.id ≠ edge.id := by
      intro hSame
      have hEq := eq_of_key_eq hTwin hEdge hSame
      exact hDistinct ⟨hEq ▸ hSource, hEq ▸ hTarget⟩
    exact ⟨twin, (mem_updateKind h).mpr (.inr ⟨hTwin, hId⟩), hSource, hTarget, hWas⟩

def Succeeds {α : Type} (builder : Building α) (relations : Relations) : Prop :=
  ∃ a relations', builder relations = (.ok a, relations')

namespace TaskCommands

variable {db : Database} {relations : Relations} {actor : Actor} {now : Timestamp}

variable {edge : Relation} {task : Task}

theorem relabelBlocks_eq {relations' : Relations}
    (h : updateKind relations edge.id .wasBlocking = .ok relations') : relabelBlocks now edge relations =
      (.ok [.relation (.taskRelationKindChanged edge.id edge.source edge.target .blocks .wasBlocking now)],
        relations') := by
  unfold relabelBlocks
  rw [bind_eq, show get relations = (.ok relations, relations) from rfl]
  dsimp only
  rw [bind_eq, h]
  rfl

theorem relabelBlocks_ok {events : List Event} {relations' : Relations}
    (h : relabelBlocks now edge relations = (.ok events, relations')) :
    updateKind relations edge.id .wasBlocking = .ok relations' := by
  replace h := get_bind.mp h
  obtain ⟨relabelled, hWritten, h⟩ := lift_bind_ok.mp h
  replace h := set_bind.mp h
  obtain ⟨_, rfl⟩ := pure_eq.mp h
  exact hWritten

theorem collect_relabelBlocks_iff {edges : List Relation}
    (hEdges : ∀ edge ∈ edges, edge ∈ relations ∧ edge.kind = .blocks)
    (hDistinct : edges.Pairwise fun a b => ¬(a.source = b.source ∧ a.target = b.target)) :
    Succeeds (Stateful.collect (relabelBlocks now) edges) relations ↔ ∀ edge ∈ edges, ¬Twinned relations edge := by
  induction edges generalizing relations with
  | nil => exact iff_of_true ⟨[], relations, rfl⟩ fun _ hMem => absurd hMem List.not_mem_nil
  | cons edge rest ih =>
    obtain ⟨hFirst, hRest⟩ := List.pairwise_cons.mp hDistinct
    obtain ⟨⟨hEdge, hKind⟩, hOthers⟩ := List.forall_mem_cons.mp hEdges
    -- the later edges are untouched by the first relabelling
    have hKept : ∀ relations', updateKind relations edge.id .wasBlocking = .ok relations' →
        ∀ later ∈ rest, later ∈ relations' ∧ later.kind = .blocks := by
      intro relations' h later hLater
      obtain ⟨hMem, hBlocks⟩ := hOthers later hLater
      have hId : later.id ≠ edge.id := fun hSame =>
        hFirst later hLater (eq_of_key_eq hMem hEdge hSame ▸ ⟨rfl, rfl⟩)
      exact ⟨(mem_updateKind h).mpr (.inr ⟨hMem, hId⟩), hBlocks⟩
    rw [List.forall_mem_cons]
    constructor
    · rintro ⟨events, last, h⟩
      obtain ⟨first, middle, later, hRelabel, hLater, _⟩ := collect_cons.mp h
      have hUpdate := relabelBlocks_ok hRelabel
      refine ⟨(updateKind_iff hEdge hKind).mp ⟨middle, hUpdate⟩, fun other hOther => ?_⟩
      have hNone := (ih (hKept middle hUpdate) hRest).mp ⟨later, last, hLater⟩ other hOther
      exact fun hTwin => hNone ((twinned_updateKind hEdge (hFirst other hOther) hUpdate).mpr hTwin)
    · rintro ⟨hFree, hLater⟩
      obtain ⟨middle, hUpdate⟩ := (updateKind_iff hEdge hKind).mpr hFree
      obtain ⟨events, last, hCollected⟩ := (ih (hKept middle hUpdate) hRest).mpr fun other hOther hTwin =>
        hLater other hOther ((twinned_updateKind hEdge (hFirst other hOther) hUpdate).mp hTwin)
      exact ⟨_, last, collect_cons.mpr
        ⟨_, middle, events, relabelBlocks_eq hUpdate, hCollected, rfl⟩⟩

theorem listBlocksTargets_distinct (hUnique : UniqueEdges relations) (id : TaskId) :
    (listBlocksTargets relations id).Pairwise
      fun a b => ¬(a.source = b.source ∧ a.target = b.target) := by
  have hNodup : (listBlocksTargets relations id).Nodup :=
    (List.perm_insertionSort _ _).nodup_iff.mpr (relations.nodup.of_map.filter _)
  refine List.Pairwise.imp_of_mem (fun {a b} hA hB hNe hSame => ?_) hNodup
  obtain ⟨hMemA, _, hKindA⟩ := mem_listBlocksTargets.mp hA
  obtain ⟨hMemB, _, hKindB⟩ := mem_listBlocksTargets.mp hB
  exact hNe (hUnique a hMemA b hMemB hSame.1 hSame.2 (hKindA.trans hKindB.symm))

def Relabellable (relations : Relations) (id : TaskId) : Prop :=
  ∀ edge ∈ relations, edge.source = id → edge.kind = .blocks → ¬Twinned relations edge

theorem releaseDownstream_iff (hUnique : UniqueEdges relations) (id : TaskId) :
    Succeeds (releaseDownstream db id now) relations ↔ Relabellable relations id := by
  have hEdges : ∀ edge ∈ listBlocksTargets relations id, edge ∈ relations ∧ edge.kind = .blocks :=
    fun edge hMem => ⟨(mem_listBlocksTargets.mp hMem).1, (mem_listBlocksTargets.mp hMem).2.2⟩
  have hCollect : Succeeds (collect (relabelBlocks now) (listBlocksTargets relations id))
      relations ↔ ∀ edge ∈ listBlocksTargets relations id, ¬Twinned relations edge :=
    collect_relabelBlocks_iff hEdges (listBlocksTargets_distinct hUnique id)
  have hCondition : (∀ edge ∈ listBlocksTargets relations id, ¬Twinned relations edge) ↔
      Relabellable relations id := by
    constructor
    · intro h edge hMem hSource hKind
      exact h edge (mem_listBlocksTargets.mpr ⟨hMem, hSource, hKind⟩)
    · intro h edge hMem
      obtain ⟨hEdge, hSource, hKind⟩ := mem_listBlocksTargets.mp hMem
      exact h edge hEdge hSource hKind
  rw [← hCondition, ← hCollect]
  constructor
  · rintro ⟨events, last, h⟩
    replace h := get_bind.mp h
    obtain ⟨relabelled, middle, hCollected, _⟩ := bind_eq_ok.mp h
    exact ⟨relabelled, middle, hCollected⟩
  · rintro ⟨relabelled, last, h⟩
    exact ⟨_, last, bind_eq_ok.mpr ⟨relations, relations, rfl,
      bind_eq_ok.mpr ⟨relabelled, last, h, rfl⟩⟩⟩

theorem statusTransitionEvents_iff (hUnique : UniqueEdges relations) (hOpen : task.status ≠ .done)
    (hUnblocked : RelationEnforcement.listActiveBlockers relations db.tasks task.id = []) :
    Succeeds (statusTransitionEvents db task .done actor now) relations ↔ Relabellable relations task.id := by
  have hRelease : Succeeds (releaseDownstream db task.id now) relations ↔ Relabellable relations task.id :=
    releaseDownstream_iff hUnique task.id
  rw [← hRelease]
  unfold statusTransitionEvents
  rw [if_neg hOpen, if_pos rfl]
  constructor
  · rintro ⟨events, last, h⟩
    replace h := get_bind.mp h
    obtain ⟨_, _, h⟩ := lift_bind_ok.mp h
    obtain ⟨released, middle, hReleased, _⟩ := bind_eq_ok.mp h
    exact ⟨released, middle, hReleased⟩
  · rintro ⟨released, last, h⟩
    refine ⟨_, last, bind_eq_ok.mpr ⟨relations, relations, rfl,
      bind_eq_ok.mpr ⟨(), relations, lift_eq.mpr ⟨?_, rfl⟩,
      bind_eq_ok.mpr ⟨released, last, h, rfl⟩⟩⟩⟩
    simp [Outcome.ensure, hUnblocked]

theorem completeTask_iff {env : Env} {note : Option CompletionNote}
    (hUnique : UniqueEdges relations) (hTask : task ∈ db.tasks) (hOpen : task.status ≠ .done)
    (hUnblocked : RelationEnforcement.listActiveBlockers relations db.tasks task.id = [])
    (hDirect : ensureDirectStatusWrite db task.id .done = .ok ()) :
    Succeeds (completeTask db env actor task.id note) relations ↔ Relabellable relations task.id := by
  have hRelease : Succeeds (releaseDownstream db task.id env.now) relations ↔ Relabellable relations task.id :=
    releaseDownstream_iff hUnique task.id
  rw [← hRelease]
  have hFound : requireTask db task.id = .ok task := by
    rw [requireTask, find?_of_mem hTask]
    rfl
  unfold completeTask
  constructor
  · rintro ⟨events, last, h⟩
    obtain ⟨_, _, h⟩ := lift_bind_ok.mp h
    obtain ⟨_, _, h⟩ := lift_bind_ok.mp h
    obtain ⟨_, _, h⟩ := lift_bind_ok.mp h
    replace h := get_bind.mp h
    obtain ⟨_, _, h⟩ := lift_bind_ok.mp h
    obtain ⟨released, middle, hReleased, _⟩ := bind_eq_ok.mp h
    exact ⟨released, middle, hReleased⟩
  · rintro ⟨released, last, h⟩
    refine ⟨_, last, bind_eq_ok.mpr ⟨task, relations, lift_eq.mpr ⟨hFound, rfl⟩,
      bind_eq_ok.mpr ⟨(), relations, lift_eq.mpr ⟨?_, rfl⟩,
      bind_eq_ok.mpr ⟨(), relations, lift_eq.mpr ⟨hDirect, rfl⟩,
      bind_eq_ok.mpr ⟨relations, relations, rfl,
      bind_eq_ok.mpr ⟨(), relations, lift_eq.mpr ⟨?_, rfl⟩,
      bind_eq_ok.mpr ⟨released, last, h, rfl⟩⟩⟩⟩⟩⟩⟩
    · simp [Outcome.ensure, hOpen]
    · simp [Outcome.ensure, hUnblocked]

end TaskCommands

namespace Server

open TaskCommands (statusTransitionEvents completeTask Relabellable)

/-- In every state of a run, and in every state of the relations that a command
takes them through, moving an open and unblocked task to done succeeds exactly
when no edge that it blocks by has a relabelled twin. -/
theorem unblocked_completion_iff (config : Config) (calls : List Call) (relations : Relations)
    (hReached : Trace RelationWrite (run config calls).relations relations) (env : Env) (actor : Actor)
    (task : Task) (hTask : task ∈ (run config calls).tasks) (hOpen : task.status ≠ .done)
    (hUnblocked : RelationEnforcement.listActiveBlockers relations (run config calls).tasks task.id = []) :
    (Succeeds (statusTransitionEvents (run config calls) task .done actor env.now) relations ↔
        Relabellable relations task.id) ∧
      (TaskCommands.ensureDirectStatusWrite (run config calls) task.id .done = .ok () → ∀ note,
        (Succeeds (completeTask (run config calls) env actor task.id note) relations ↔
          Relabellable relations task.id)) := by
  have hUnique : UniqueEdges relations :=
    uniqueEdges_step.trace ((run_relations calls).trans hReached) fun a hA => absurd hA (not_mem_empty a)
  exact ⟨TaskCommands.statusTransitionEvents_iff hUnique hOpen hUnblocked,
    fun hDirect note => TaskCommands.completeTask_iff hUnique hTask hOpen hUnblocked hDirect⟩

private def openPair : List Command := [
  .task (.createTask { NewTask.new "first" with id := some ⟨7⟩ }),
  .task (.createTask { NewTask.new "second" with id := some ⟨8⟩ }),
  .relation (.linkTasks ⟨7⟩ ⟨8⟩ .blocks)]

/-- A task that blocks another for the first time can be completed. -/
theorem unblocked_completion_first : ∃ task ∈ (run engineConfig (commands openPair)).tasks, task.id = ⟨7⟩ ∧
      Succeeds (statusTransitionEvents (run engineConfig (commands openPair)) task .done .anyUser 0)
        (run engineConfig (commands openPair)).relations := by
  have hFound : (run engineConfig (commands openPair)).tasks.rows.any (fun task => task.id = ⟨7⟩ ∧
      task.status ≠ .done) = true := by decide +kernel
  have hUnblocked : RelationEnforcement.listActiveBlockers (run engineConfig (commands openPair)).relations
      (run engineConfig (commands openPair)).tasks ⟨7⟩ = [] := by decide +kernel
  have hNoTwin : (run engineConfig (commands openPair)).relations.rows.all
      (fun edge => edge.kind ≠ .wasBlocking) = true := by decide +kernel
  obtain ⟨task, hTask, hIs⟩ := List.any_eq_true.mp hFound
  obtain ⟨hId, hOpen⟩ := of_decide_eq_true hIs
  have hIff := unblocked_completion_iff engineConfig (commands openPair) _ .refl (nthEnv 0) .anyUser task hTask
    hOpen (hId ▸ hUnblocked)
  refine ⟨task, hTask, hId, hIff.1.mpr fun edge _ _ _ => ?_⟩
  rintro ⟨twin, hTwin, _, _, hWas⟩
  exact of_decide_eq_true (List.all_eq_true.mp hNoTwin twin hTwin) hWas

/-- Complete, reopen and link again. -/
private def relinkedPair : List Command := openPair ++ [
  .task (.completeTask ⟨7⟩ none),
  .task (.setStatus ⟨7⟩ .todo false none none),
  .relation (.linkTasks ⟨7⟩ ⟨8⟩ .blocks)]

def secondCompletion : Except CoreError (List Event) × Relations :=
  completeTask (run engineConfig (commands relinkedPair)) (nthEnv 6) .anyUser ⟨7⟩ none
    (run engineConfig (commands relinkedPair)).relations

/-- The second completion of an unblocked task is refused by the index. -/
theorem second_completion_refused : (run engineConfig (commands relinkedPair)).statusOf ⟨7⟩ = some .todo ∧
      RelationEnforcement.listActiveBlockers (run engineConfig (commands relinkedPair)).relations
        (run engineConfig (commands relinkedPair)).tasks ⟨7⟩ = [] ∧
      secondCompletion.1 = .error (.storage
        "UNIQUE constraint failed: task_relations.from_task, task_relations.to_task, task_relations.kind") := by
  refine ⟨by decide +kernel, by decide +kernel, ?_⟩
  have hRefused : (match secondCompletion.1 with
      | .error (.storage message) => decide (message =
        "UNIQUE constraint failed: task_relations.from_task, task_relations.to_task, task_relations.kind")
      | _ => false) = true := by decide +kernel
  cases hOutcome : secondCompletion.1 with
  | ok events =>
    rw [hOutcome] at hRefused
    cases hRefused
  | error e =>
    rw [hOutcome] at hRefused
    cases e with
    | storage message => rw [of_decide_eq_true hRefused]
    | _ => cases hRefused

end Server
end Daruma
