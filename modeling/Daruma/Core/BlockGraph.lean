import Daruma.Core.CallFrames
import Daruma.Library.Ancestry

/-! What happens to the relations between tasks over a run, and that their `blocks` edges have no
cycle. The search that a link makes is exact as long as it ends within its budget. -/
namespace Daruma

open Stateful

open Transition (Trace)
open Stateful (ReadsOnly Moves)

inductive RelationWrite : Relations → Relations → Prop where
  /-- A new edge, which closes no cycle if it blocks. -/
  | linked {relations relations' : Relations} (relation : Relation)
      (hFree : RelationEnforcement.detectCycle relations relation.source relation.target relation.kind = .ok ())
      (h : RelationRepo.insert relations relation = .ok relations') : RelationWrite relations relations'
  /-- An edge that no longer blocks. -/
  | relabelled {relations relations' : Relations} (id : RelationId)
      (h : RelationRepo.updateKind relations id .wasBlocking = .ok relations') :
      RelationWrite relations relations'
  | deleted {relations : Relations} (id : RelationId) :
      RelationWrite relations (RelationRepo.delete relations id)

namespace TaskCommands

variable {config : Config} {db : Database} {env : Env} {actor : Actor} {now : Timestamp}

theorem relabelBlocks_relations (relation : Relation) : Moves RelationWrite (relabelBlocks now relation) :=
  .write fun _ _ h => .relabelled relation.id h

theorem releaseDownstream_relations (id : TaskId) : Moves RelationWrite (releaseDownstream db id now) := by
  refine .afterReading .get fun relations => .bind (.collect fun relation _ => ?_) fun _ => .of_readsOnly .pure
  exact relabelBlocks_relations relation

theorem statusTransitionEvents_relations (task : Task) (toStatus : Status) :
    Moves RelationWrite (statusTransitionEvents db task toStatus actor now) := by
  refine .ite (fun _ => .of_readsOnly .pure) fun _ => .afterReading .get fun relations =>
    .afterReading .lift fun _ => .ite (fun _ => .bind ?_ fun _ => .of_readsOnly .pure) fun _ =>
      .afterReading .pure fun _ => .of_readsOnly .pure
  exact releaseDownstream_relations task.id

theorem emitStatusTransitionEvents_relations (task : Task) (toStatus : Status) :
    Moves RelationWrite (emitStatusTransitionEvents db task toStatus actor now) :=
  .afterReading .lift fun _ => statusTransitionEvents_relations task toStatus

theorem completeTask_relations (id : TaskId) (note : Option CompletionNote) :
    Moves RelationWrite (completeTask db env actor id note) := by
  refine .afterReading .lift fun task => .afterReading .lift fun _ => .afterReading .lift fun _ =>
    .afterReading .get fun relations => .afterReading .lift fun _ => .bind ?_ fun _ => .of_readsOnly .pure
  exact releaseDownstream_relations id

theorem unlink_relations (relation : Relation) : Moves RelationWrite (unlink now relation) :=
  fun _ => .single (.deleted relation.id)

theorem deleteTask_relations (id : TaskId) : Moves RelationWrite (deleteTask db env id) := by
  refine .afterReading .lift fun _ => .afterReading .lift fun _ => .afterReading .get fun relations =>
    .bind (.collect fun relation _ => ?_) fun _ => .of_readsOnly .pure
  exact unlink_relations relation

theorem setStatus_relations (id : TaskId) (status : Status) (comment : Option TransitionComment) :
    Moves RelationWrite (setStatus db env actor id status comment) := by
  refine .afterReading .lift fun task => .afterReading .lift fun note =>
    .bind (emitStatusTransitionEvents_relations task status) fun events => .of_readsOnly ?_
  cases note with
  | none => exact .pure
  | some body => exact .ite (fun _ => .pure) fun _ => .pure

theorem bulkSetStatus_relations (ids : List TaskId) (status : Status) :
    Moves RelationWrite (bulkSetStatus db env actor ids status) :=
  .afterReading .lift fun _ => .afterReading .lift fun _ => .collect fun task _ =>
    emitStatusTransitionEvents_relations task status

theorem advancePipelineEvents_relations (task : Task) (position : PipelinePosition) :
    Moves RelationWrite (advancePipelineEvents db env actor task position) :=
  .afterReading .lift fun _ =>
    .bind (statusTransitionEvents_relations task (canonicalStatus position)) fun _ => .of_readsOnly .pure

theorem advancePipeline_relations (id : TaskId) (position : PipelinePosition) :
    Moves RelationWrite (advancePipeline db env actor id position) := by
  refine .afterReading .lift fun _ => .afterReading .lift fun task =>
    .ite (fun _ => .of_readsOnly .pure) fun _ => ?_
  split
  · exact .of_readsOnly .lift
  · exact advancePipelineEvents_relations task position

theorem closePipelineStage_relations (id : TaskId) (stageIndex : Nat) (instanceName : String)
    (next : Option PipelinePosition) :
    Moves RelationWrite (closePipelineStage db env actor id stageIndex instanceName next) := by
  refine .afterReading .lift fun task => .afterReading .lift fun position => .afterReading .lift fun _ =>
    .afterReading .lift fun _ => .afterReading .lift fun closed => ?_
  obtain ⟨fanIn, closed⟩ := closed
  cases fanIn with
  | repeated | pending => exact .of_readsOnly .pure
  | closed =>
    cases next with
    | none => exact .of_readsOnly .pure
    | some target =>
      exact .bind (advancePipelineEvents_relations task target) fun _ => .of_readsOnly .pure

theorem buildEvents_relations (command : TaskCommand) :
    Moves RelationWrite (buildEvents config db env actor command) := by
  cases command with
  | completeTask id note => exact completeTask_relations id note
  | deleteTask id => exact deleteTask_relations id
  | setStatus id status force reason comment => exact setStatus_relations id status comment
  | advancePipeline id position => exact advancePipeline_relations id position
  | closePipelineStage id stageIndex instanceName next =>
    exact closePipelineStage_relations id stageIndex instanceName next
  | bulkSetStatus ids status => exact bulkSetStatus_relations ids status
  | createTask | updateTask | setPriority | splitTask => exact .of_readsOnly .lift

end TaskCommands

namespace RelationCommands

variable {db : Database} {env : Env} {actor : Actor}

theorem linkTasks_relations (source target : TaskId) (kind : RelationKind) :
    Moves RelationWrite (linkTasks env actor source target kind) := by
  intro relations
  unfold linkTasks
  rw [bind_eq, show get relations = (.ok relations, relations) from rfl]
  dsimp only
  rw [bind_eq]
  cases hFree : RelationEnforcement.detectCycle relations source target kind with
  | error e => exact .refl
  | ok _ =>
    dsimp only [lift]
    rw [bind_eq]
    cases hLinked : RelationRepo.insert relations ⟨env.fresh 0, source, target, kind, env.now, actor⟩ with
    | error e => exact .refl
    | ok linked => exact .single (.linked _ hFree hLinked)

theorem unlinkTasks_relations (id : RelationId) : Moves RelationWrite (unlinkTasks db env.now id) := by
  intro relations
  unfold unlinkTasks
  rw [bind_eq, show get relations = (.ok relations, relations) from rfl]
  dsimp only
  rw [bind_eq]
  cases relations.find? id with
  | none => exact .refl
  | some relation => exact .single (.deleted id)

theorem buildEvents_relations (command : RelationCommand) :
    Moves RelationWrite (buildEvents db env actor command) := by
  cases command with
  | linkTasks source target kind => exact .bind (linkTasks_relations source target kind) fun _ => .of_readsOnly .pure
  | unlinkTasks id => exact unlinkTasks_relations id

end RelationCommands

theorem buildEvents_relations {config : Config} {db : Database} {env : Env} {actor : Actor} (command : Command) :
    Moves RelationWrite (buildEvents config db env actor command) := by
  cases command with
  | task command => exact TaskCommands.buildEvents_relations command
  | relation command => exact RelationCommands.buildEvents_relations command
  | _ => exact .of_readsOnly .lift

namespace Handler

variable {config : Config} {env : Env} {caller : Caller} {command : Command} {claimed : Actor} {db : Database}

theorem draft_relations (actor : Actor) : Moves RelationWrite (draft config db env caller actor command) := by
  refine .afterReading .lift fun sourced => .bind (buildEvents_relations sourced.command) fun _ => ?_
  exact .of_readsOnly .pure

theorem handle_relations :
    Trace RelationWrite db.relations (handleWithRunOwner config env caller command claimed db).2.relations := by
  have hDraft : ∀ {drafted relations}, draft config db (env.part 0) caller
      (attributedActor caller command claimed) command db.relations = (drafted, relations) →
      Trace RelationWrite db.relations relations := by
    intro drafted relations h
    have hMoves : Moves RelationWrite (draft config db (env.part 0) caller
      (attributedActor caller command claimed) command) := draft_relations _
    have hTrace := hMoves db.relations
    rwa [h] at hTrace
  cases hRun : handleWithRunOwner config env caller command claimed db with
  | mk outcome db' =>
  cases handled hRun with
  | unlogged _ hRelations hAudited =>
    obtain ⟨_, _, _, _, _, _, rfl⟩ := hAudited
    rcases hRelations with rfl | ⟨drafted, hDrafted, _⟩
    · exact .refl
    · exact hDraft hDrafted
  | stranded hAccepted hApplied =>
    obtain ⟨_, _, _, _, _, rfl⟩ := hAccepted.frame
    obtain ⟨warnings, hBuilt⟩ := hAccepted.built
    rw [(Projections.applyEvents_sameLog hApplied).2.2]
    exact hDraft hBuilt
  | projected hAccepted hApplied _ =>
    obtain ⟨_, _, _, _, _, rfl⟩ := hAccepted.frame
    obtain ⟨warnings, hBuilt⟩ := hAccepted.built
    obtain ⟨_, _, _, _, _, _, hLines, _⟩ := AutoAppend.autoAppendLogs_lines _ _
    rw [hLines, (Projections.applyEvents_sameLog hApplied).2.2]
    exact hDraft hBuilt

end Handler

namespace Server

variable {config : Config}

/-- The relations went through some writes. -/
def RelationsWritten (before after : Database) : Prop :=
  Trace RelationWrite before.relations after.relations

theorem serve_relations (db : Database) (call : Call) : RelationsWritten db (serve config db call) := by
  cases call with
  | command env caller command actor => exact Handler.handle_relations
  | _ =>
    refine serve_rule rfl fun ⟨_, _, _, _, _, _, hFrame, _⟩ => ?_
    rw [hFrame]
    exact .refl

theorem run_relations (calls : List Call) : RelationsWritten Database.empty (run config calls) := by
  refine run_induction .refl ?_ (Meets.of_forall fun _ _ => trivial)
  intro db call hBefore _
  exact hBefore.trans (serve_relations db call)

end Server

open List

open DirectedGraph (Acyclic AddEdge Reaches)
open Transition (Trace Preserves)

def Blocks (relations : Relations) (source target : TaskId) : Prop :=
  ∃ relation ∈ relations, relation.source = source ∧ relation.target = target ∧ relation.kind = .blocks

namespace RelationEnforcement

variable {relations : Relations} {source target : TaskId} {visited stack : List TaskId}

theorem mem_targets_iff {current next : TaskId} :
    next ∈ (RelationRepo.listBlocksTargets relations current).map Relation.target ↔
      Blocks relations current next := by
  simp only [mem_map, RelationRepo.mem_listBlocksTargets]
  constructor
  · rintro ⟨relation, ⟨hMem, hSource, hKind⟩, hTarget⟩
    exact ⟨relation, hMem, hSource, hTarget, hKind⟩
  · rintro ⟨relation, hMem, hSource, hTarget, hKind⟩
    exact ⟨relation, ⟨hMem, hSource, hKind⟩, hTarget⟩

/-- A search so far: what it visited is not its goal, and leads only to what it
visited or has yet to visit. -/
def Explored (relations : Relations) (source : TaskId) (visited stack : List TaskId) : Prop :=
  ∀ node ∈ visited, node ≠ source ∧ ∀ next, Blocks relations node next → next ∈ visited ∨ next ∈ stack

theorem Explored.closed (h : Explored relations source visited []) :
    ∃ closed : Set TaskId, source ∉ closed ∧ (∀ node ∈ ([] : List TaskId), node ∈ closed) ∧
      (∀ node ∈ visited, node ∈ closed) ∧ ∀ a b, a ∈ closed → Blocks relations a b → b ∈ closed := by
  refine ⟨{node | node ∈ visited}, fun hMem => (h source hMem).1 rfl,
    fun _ hMem => absurd hMem not_mem_nil, fun _ hMem => hMem, fun a b hMem hEdge => ?_⟩
  exact ((h a hMem).2 b hEdge).resolve_right not_mem_nil

variable {steps : Nat}

theorem searchCycle_ok (hExplored : Explored relations source visited stack)
    (h : searchCycle relations source steps visited stack = .ok ()) :
    ∃ closed : Set TaskId, source ∉ closed ∧ (∀ node ∈ stack, node ∈ closed) ∧
      (∀ node ∈ visited, node ∈ closed) ∧ ∀ a b, a ∈ closed → Blocks relations a b → b ∈ closed := by
  induction steps generalizing visited stack with
  | zero =>
    cases stack with
    | nil => exact hExplored.closed
    | cons current stack => cases h
  | succ steps ih =>
    cases stack with
    | nil => exact hExplored.closed
    | cons current stack =>
      unfold searchCycle at h
      split at h
      · cases h
      rename_i hGoal
      split at h
      · -- popped before: nothing new leads on from it
        rename_i hSeen
        have hNext : Explored relations source visited stack := by
          intro node hMem
          refine ⟨(hExplored node hMem).1, fun next hEdge => ?_⟩
          rcases (hExplored node hMem).2 next hEdge with hVisited | hStack
          · exact .inl hVisited
          · rcases mem_cons.mp hStack with rfl | hStack
            · exact .inl hSeen
            · exact .inr hStack
        obtain ⟨closed, hSource, hStack, hVisited, hClosed⟩ := ih hNext h
        exact ⟨closed, hSource, forall_mem_cons.mpr ⟨hVisited current hSeen, hStack⟩, hVisited, hClosed⟩
      · dsimp only at h
        have hNext : Explored relations source (current :: visited)
            (((RelationRepo.listBlocksTargets relations current).map Relation.target).reverse ++ stack) := by
          intro node hMem
          rcases mem_cons.mp hMem with rfl | hMem
          · refine ⟨hGoal, fun next hEdge => .inr (mem_append_left _ ?_)⟩
            exact mem_reverse.mpr (mem_targets_iff.mpr hEdge)
          · refine ⟨(hExplored node hMem).1, fun next hEdge => ?_⟩
            rcases (hExplored node hMem).2 next hEdge with hVisited | hStack
            · exact .inl (mem_cons_of_mem _ hVisited)
            · rcases mem_cons.mp hStack with rfl | hStack
              · exact .inl mem_cons_self
              · exact .inr (mem_append_right _ hStack)
        obtain ⟨closed, hSource, hStack, hVisited, hClosed⟩ := ih hNext h
        obtain ⟨hCurrent, hRest⟩ := forall_mem_cons.mp hVisited
        refine ⟨closed, hSource, forall_mem_cons.mpr ⟨hCurrent, fun node hMem => ?_⟩, hRest, hClosed⟩
        exact hStack node (mem_append_right _ hMem)

theorem searchCycle_found
    (h : searchCycle relations source steps visited stack = .error (.validation "cycle_detected")) :
    ∃ node ∈ stack, Reaches (Blocks relations) node source := by
  induction steps generalizing visited stack with
  | zero =>
    cases stack with
    | nil => cases h
    | cons current stack => simp [searchCycle] at h
  | succ steps ih =>
    cases stack with
    | nil => cases h
    | cons current stack =>
      unfold searchCycle at h
      split at h
      · rename_i hGoal
        exact ⟨current, mem_cons_self, hGoal ▸ .refl⟩
      split at h
      · obtain ⟨node, hMem, hPath⟩ := ih h
        exact ⟨node, mem_cons_of_mem _ hMem, hPath⟩
      · dsimp only at h
        obtain ⟨node, hMem, hPath⟩ := ih h
        rcases mem_append.mp hMem with hTarget | hStack
        · have hEdge := mem_targets_iff.mp (mem_reverse.mp hTarget)
          exact ⟨current, mem_cons_self, .head hEdge hPath⟩
        · exact ⟨node, mem_cons_of_mem _ hStack, hPath⟩

theorem searchCycle_cases (relations : Relations) (source : TaskId) (steps : Nat) (visited stack : List TaskId) :
    searchCycle relations source steps visited stack = .ok () ∨
      searchCycle relations source steps visited stack = .error (.validation "cycle_detected") ∨
      searchCycle relations source steps visited stack = .error (.validation "relation_graph_too_deep") := by
  induction steps generalizing visited stack with
  | zero =>
    cases stack with
    | nil => exact .inl rfl
    | cons current stack => exact .inr (.inr rfl)
  | succ steps ih =>
    cases stack with
    | nil => exact .inl rfl
    | cons current stack =>
      unfold searchCycle
      split
      · exact .inr (.inl rfl)
      split
      · exact ih _ _
      · exact ih _ _

theorem not_reaches_of_detectCycle (h : detectCycle relations source target .blocks = .ok ()) :
    ¬Reaches (Blocks relations) target source := by
  unfold detectCycle at h
  rw [if_neg (by simp)] at h
  split at h
  · cases h
  obtain ⟨closed, hSource, hStack, _, hClosed⟩ :=
    searchCycle_ok (fun _ hMem => absurd hMem not_mem_nil) h
  intro hPath
  exact hSource (DirectedGraph.mem_of_closed (hStack target mem_cons_self) hClosed hPath)

theorem detectCycle_iff
    (hBudget : detectCycle relations source target .blocks ≠ .error (.validation "relation_graph_too_deep")) :
    detectCycle relations source target .blocks ≠ .ok () ↔ Reaches (Blocks relations) target source := by
  refine ⟨fun hRefused => ?_, fun hPath hFree => not_reaches_of_detectCycle hFree hPath⟩
  unfold detectCycle at hBudget hRefused
  rw [if_neg (by simp)] at hBudget hRefused
  split at hRefused
  · rename_i hSame
    exact hSame ▸ .refl
  · rename_i hDistinct
    rw [if_neg hDistinct] at hBudget
    rcases searchCycle_cases relations source maxDepth [] [target] with hFree | hFound | hDeep
    · exact absurd hFree hRefused
    · obtain ⟨node, hMem, hPath⟩ := searchCycle_found hFound
      exact mem_singleton.mp hMem ▸ hPath
    · exact absurd hDeep hBudget

end RelationEnforcement

namespace RelationRepo

variable {relations relations' : Relations}

theorem insert_ok {relation : Relation} (h : insert relations relation = .ok relations') :
    edgeTaken relations relation = false ∧ relations.find? relation.id = none ∧
      ∀ row, row ∈ relations' ↔ row ∈ relations ∨ row = relation := by
  unfold insert at h
  dsimp only at h
  split at h
  · cases h
  rename_i hFree
  split at h
  · rename_i hNew
    cases h
    exact ⟨by simpa using hFree, hNew, fun row => KeyedTable.mem_append (h := hNew)⟩
  · cases h

theorem mem_updateKind {id : RelationId} {kind : RelationKind}
    (h : updateKind relations id kind = .ok relations') {row : Relation} :
    row ∈ relations' ↔ (∃ old ∈ relations, old.id = id ∧ row = { old with kind := kind }) ∨
      (row ∈ relations ∧ row.id ≠ id) := by
  rw [updateKind_ok h, KeyedTable.mem_modify]
  intro row
  rfl

end RelationRepo

theorem blocks_acyclic_step : Preserves RelationWrite fun relations => Acyclic (Blocks relations) := by
  intro before after hWrite hAcyclic
  cases hWrite with
  | linked relation hFree h =>
    have hRows := (RelationRepo.insert_ok h).2.2
    by_cases hKind : relation.kind = .blocks
    · rw [hKind] at hFree
      have hNoPath := RelationEnforcement.not_reaches_of_detectCycle hFree
      refine (hAcyclic.addEdge_iff.mpr hNoPath).mono fun a b hEdge => ?_
      obtain ⟨row, hMem, rfl, rfl, hBlocks⟩ := hEdge
      rcases (hRows row).mp hMem with hOld | rfl
      · exact .inl ⟨row, hOld, rfl, rfl, hBlocks⟩
      · exact .inr ⟨rfl, rfl⟩
    · refine hAcyclic.mono fun a b hEdge => ?_
      obtain ⟨row, hMem, rfl, rfl, hBlocks⟩ := hEdge
      rcases (hRows row).mp hMem with hOld | rfl
      · exact ⟨row, hOld, rfl, rfl, hBlocks⟩
      · exact absurd hBlocks hKind
  | relabelled id h =>
    refine hAcyclic.mono fun a b hEdge => ?_
    obtain ⟨row, hMem, rfl, rfl, hBlocks⟩ := hEdge
    rcases (RelationRepo.mem_updateKind h).mp hMem with ⟨old, _, _, rfl⟩ | ⟨hOld, _⟩
    · cases hBlocks
    · exact ⟨row, hOld, rfl, rfl, hBlocks⟩
  | deleted id =>
    refine hAcyclic.mono fun a b hEdge => ?_
    obtain ⟨row, hMem, hRow⟩ := hEdge
    exact ⟨row, (KeyedTable.mem_filter.mp hMem).1, hRow⟩

namespace Server

/-- The `blocks` graph of every reachable state is acyclic; and where the search
stays within its budget, over any relations, a link is refused exactly when the
target of the edge reaches its source: in a reachable state, when the edge would
close a cycle. -/
theorem blocks_acyclic (config : Config) (calls : List Call) : Acyclic (Blocks (run config calls).relations) ∧
      (∀ relations source target, RelationEnforcement.detectCycle relations source target .blocks ≠
          .error (.validation "relation_graph_too_deep") →
        (RelationEnforcement.detectCycle relations source target .blocks ≠ .ok () ↔
          Reaches (Blocks relations) target source)) ∧
      ∀ source target,
        RelationEnforcement.detectCycle (run config calls).relations source target .blocks ≠
          .error (.validation "relation_graph_too_deep") →
        (RelationEnforcement.detectCycle (run config calls).relations source target .blocks ≠ .ok () ↔
          ¬Acyclic (AddEdge (Blocks (run config calls).relations) source target)) := by
  have hAcyclic : Acyclic (Blocks (run config calls).relations) := by
    refine blocks_acyclic_step.trace (run_relations calls) (DirectedGraph.acyclic_of_no_edge ?_)
    rintro a b ⟨row, hMem, _⟩
    exact KeyedTable.not_mem_empty row hMem
  refine ⟨hAcyclic, fun relations source target => RelationEnforcement.detectCycle_iff, ?_⟩
  intro source target hBudget
  rw [RelationEnforcement.detectCycle_iff hBudget, hAcyclic.addEdge_iff, not_not]

private def chainRun : List Call := commands [
  .task (.createTask { NewTask.new "first" with id := some ⟨7⟩ }),
  .task (.createTask { NewTask.new "second" with id := some ⟨8⟩ }),
  .relation (.linkTasks ⟨7⟩ ⟨8⟩ .blocks)]

/-- One task blocks another: the opposite edge would close a cycle. -/
theorem blocks_acyclic_chain :
    RelationEnforcement.detectCycle (run engineConfig chainRun).relations ⟨8⟩ ⟨7⟩ .blocks ≠ .ok () ∧
      ¬Acyclic (AddEdge (Blocks (run engineConfig chainRun).relations) ⟨8⟩ ⟨7⟩) := by
  have hFound : RelationEnforcement.detectCycle (run engineConfig chainRun).relations ⟨8⟩ ⟨7⟩ .blocks =
      .error (.validation "cycle_detected") := by decide +kernel
  have hRefused : RelationEnforcement.detectCycle (run engineConfig chainRun).relations ⟨8⟩ ⟨7⟩ .blocks ≠
      .ok () := by simp [hFound]
  exact ⟨hRefused, ((blocks_acyclic engineConfig chainRun).2.2 ⟨8⟩ ⟨7⟩ (by simp [hFound])).mp hRefused⟩

end Server
end Daruma
