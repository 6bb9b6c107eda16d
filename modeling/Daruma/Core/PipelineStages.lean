import Daruma.Core.PipelineBatches
import Mathlib.Data.List.Chain

/-! The positions that a task takes in turn: stages that are entered with no instance
closed, and in between the reports of distinct instances. -/
namespace Daruma

open KeyedTable List

/-- A task has an instant of completion exactly while its status is terminal. -/
def AllSettled (db : Database) : Prop :=
  ∀ task ∈ db.tasks, task.completedAt.isSome = true ↔ task.status.isTerminal = true

theorem allSettled_iff {db : Database} : AllSettled db ↔ ∀ id row, db.lifecycleOf id = some row → row.Settled := by
  constructor
  · intro h id row hRow
    obtain ⟨task, hFound, rfl⟩ := Option.map_eq_some_iff.mp hRow
    exact Bool.eq_iff_iff.mpr (h task (mem_of_find? hFound))
  · intro h task hTask
    have hRow : db.lifecycleOf task.id = some task.lifecycle := by
      rw [Database.lifecycleOf, TaskRepo.lifecycleOf, find?_of_mem hTask]
      rfl
    exact Bool.eq_iff_iff.mp (h task.id task.lifecycle hRow)

namespace Server

open Handler (builderEnv LifecycleStep)

variable {config : Config}

def KeepsTerminality (db : Database) : Call → Prop
  | .command env _ command _ =>
    (∀ id status, command.patchesStatus id (some status) →
      ∀ task ∈ db.tasks, task.id = id → status.isTerminal = task.status.isTerminal) ∧
    ∀ intake ∈ command.intakes (builderEnv env), intake.isNew db = true → intake.status.isTerminal = false
  | _ => True

theorem serve_settled {db : Database} {call : Call} (hKeys : TaskRepo.KeysDistinct db.tasks)
    (hSettled : AllSettled db) (h : KeepsTerminality db call) : AllSettled (serve config db call) := by
  rw [allSettled_iff] at hSettled ⊢
  intro id row hRow
  cases call with
  | command env caller command actor =>
    obtain ⟨hPatch, hIntakes⟩ := h
    have hStep : LifecycleStep command env db (serve config db (.command env caller command actor)) id :=
      Handler.handle_lifecycleStep hKeys rfl id
    cases hStep with
    | kept hKept => exact hSettled id row (hKept ▸ hRow)
    | moved task toStatus closed hFound _ hAfter hMoved =>
      have hBefore : db.lifecycleOf id = some task.lifecycle := by
        rw [Database.lifecycleOf, TaskRepo.lifecycleOf, hFound]
        rfl
      have hSame : row = (toStatus, closed) := Option.some.inj (hRow.symm.trans hAfter)
      exact hSame ▸ hMoved (hSettled id _ hBefore)
    | deleted _ hAfter => cases hRow.symm.trans hAfter
    | patched status hCommand hAfter =>
      rw [hAfter] at hRow
      obtain ⟨before, hBefore, rfl⟩ := Option.map_eq_some_iff.mp hRow
      obtain ⟨task, hFound, rfl⟩ := Option.map_eq_some_iff.mp hBefore
      have hSame := hPatch id status hCommand task (mem_of_find? hFound)
        (key_of_find? hFound)
      exact (hSettled id _ hBefore).trans hSame.symm
    | brought intake hIntake hNew _ hAfter =>
      have hSame : row = (intake.status, false) := Option.some.inj (hRow.symm.trans hAfter)
      rw [hSame]
      exact (hIntakes intake hIntake hNew).symm
  | acquireClaim | releaseClaim | sweepClaims | signal =>
    refine hSettled id row (Eq.trans (Eq.symm ?_) hRow)
    exact serve_lifecycles rfl db id

/-- What the calls of such a run preserve. -/
def Tidy (db : Database) : Prop := TaskRepo.KeysDistinct db.tasks ∧ AllSettled db

theorem Tidy.empty : Tidy Database.empty :=
  ⟨TaskRepo.KeysDistinct.empty, fun task hTask => absurd hTask (not_mem_empty task)⟩

/-- In a run whose commands write no status across the terminal ones except by a
transition, every task is settled. -/
theorem run_settled {calls : List Call} (hMeets : Meets config KeepsTerminality Database.empty calls) :
    AllSettled (run config calls) := by
  have hTidy : Tidy (run config calls) := by
    refine run_induction Tidy.empty ?_ hMeets
    rintro db call ⟨hKeys, hSettled⟩ hKeeps
    exact ⟨serve_keepKeys db call hKeys, serve_settled hKeys hSettled hKeeps⟩
  exact hTidy.2

private def reopenedRun : List Call := commands [
  .task (.createTask { NewTask.new "task" with id := some ⟨7⟩ }),
  .task (.completeTask ⟨7⟩ none),
  .task (.setStatus ⟨7⟩ .todo false none none)]

theorem run_settled_reopened : AllSettled (run engineConfig reopenedRun) := by
  refine run_settled ⟨⟨fun _ _ hPatches => absurd hPatches not_false, fun intake hMem _ => ?_⟩,
    ⟨fun _ _ hPatches => absurd hPatches not_false, fun _ hMem => absurd hMem not_mem_nil⟩,
    ⟨fun _ _ hPatches => absurd hPatches not_false, fun _ hMem => absurd hMem not_mem_nil⟩, trivial⟩
  rw [mem_singleton.mp hMem]
  rfl

private def patchedRun : List Call := commands [
  .task (.createTask { NewTask.new "task" with id := some ⟨7⟩ }),
  .task (.updateTask ⟨7⟩ { TaskPatch.none with status := some .done })]

/-- The patched task is done and has no instant of completion. -/
theorem patched_task_unsettled : ¬AllSettled (run engineConfig patchedRun) := by
  have hRow : (run engineConfig patchedRun).lifecycleOf ⟨7⟩ = some (.done, false) := by decide +kernel
  rw [allSettled_iff]
  intro h
  cases h ⟨7⟩ _ hRow

end Server

namespace PipelinePosition

/-- The instances that closed are distinct, and no more than the stage has. -/
structure Counted (position : PipelinePosition) : Prop where
  distinct : position.closed.Nodup
  within : position.closed.length ≤ position.fanout
  room : 1 ≤ position.fanout

end PipelinePosition

structure StagesInOrder (history : List (Option PipelinePosition)) : Prop where
  counted : ∀ position, some position ∈ history → position.Counted
  /-- A required stage of several instances is left when all of them have closed. -/
  barrier : ∀ before current next after, history = before ++ some current :: some next :: after →
    next.closed = [] → current.required = true → current.complete = false → 1 < current.fanout →
    current.closed.length = current.fanout
  /-- From one entry of a stage on, the stage is reported closed once, when it is. -/
  once : ∀ before entry reports after, history = before ++ some entry :: (reports.map some ++ after) →
    entry.closed = [] → (∀ report ∈ reports, report.closed ≠ []) →
    (entry :: reports).countP PipelinePosition.fanInClosed = if (reports.getLastD entry).fanInClosed then 1 else 0

section

variable {position current next : PipelinePosition} {before : Option PipelinePosition}
  {history : List (Option PipelinePosition)}

theorem Follows.counted (h : Follows before (some next)) (hBefore : ∀ current, before = some current → current.Counted) :
    next.Counted := by
  cases h with
  | entered hEmpty hFanout hLeaves =>
    refine ⟨?_, ?_, hFanout⟩
    · rw [hEmpty]
      exact nodup_nil
    · rw [hEmpty]
      exact Nat.zero_le _
  | @reported current name hOpen hNew hRoom =>
    have hCounted := hBefore current rfl
    refine ⟨?_, ?_, hCounted.room⟩
    · exact nodup_append.mpr ⟨hCounted.distinct, nodup_singleton name,
        fun a hIn b hIs hSame => hNew ((mem_singleton.mp hIs) ▸ hSame ▸ hIn)⟩
    · change (current.closed ++ [name]).length ≤ current.fanout
      rw [length_append, length_singleton]
      exact hRoom

theorem counted_of_chain (h : List.IsChain Follows (before :: history))
    (hBefore : ∀ current, before = some current → current.Counted) :
    ∀ position, some position ∈ history → position.Counted := by
  induction history generalizing before with
  | nil => exact fun _ hMem => absurd hMem not_mem_nil
  | cons first rest ih =>
    obtain ⟨hFirst, hRest⟩ := isChain_cons_cons.mp h
    have hCounted : ∀ current, first = some current → current.Counted := by
      rintro current rfl
      exact hFirst.counted hBefore
    intro position hMem
    rcases mem_cons.mp hMem with hIs | hLater
    · exact hCounted position hIs.symm
    · exact ih hRest hCounted position hLater

/-- A report goes on where the stage is. -/
theorem Follows.report (h : Follows (some current) (some next)) (hReport : next.closed ≠ []) :
    current.fanInClosed = false := by
  cases h with
  | entered hEmpty => exact absurd hEmpty hReport
  | reported hOpen hNew hRoom => exact decide_eq_false (Nat.not_le.mpr hRoom)

theorem Follows.leaves (h : Follows (some current) (some next)) (hEntry : next.closed = []) :
    fanInBlocks current = none := by
  cases h with
  | entered hEmpty hFanout hLeaves => exact hLeaves
  | reported => exact absurd hEntry (append_ne_nil_of_right_ne_nil _ (cons_ne_nil _ _))

theorem closed_of_fanInBlocks (h : fanInBlocks current = none) (hRequired : current.required = true)
    (hOpen : current.complete = false) (hMany : 1 < current.fanout) : current.fanout ≤ current.closed.length := by
  unfold fanInBlocks at h
  split at h
  · rename_i hBlocks
    simp only [hRequired, hOpen, Bool.not_true, Bool.or_false, Bool.false_or, Bool.or_eq_true, decide_eq_true_eq,
      PipelinePosition.fanInClosed] at hBlocks
    omega
  · cases h

theorem countP_reports {reports : List PipelinePosition} (h : List.IsChain Follows (some position :: reports.map some))
    (hOpen : position.fanInClosed = false) (hReports : ∀ report ∈ reports, report.closed ≠ []) :
    reports.countP PipelinePosition.fanInClosed = if (reports.getLastD position).fanInClosed then 1 else 0 := by
  induction reports generalizing position with
  | nil =>
    rw [getLastD_nil, hOpen]
    rfl
  | cons first rest ih =>
    obtain ⟨hFirst, hRest⟩ := isChain_cons_cons.mp h
    obtain ⟨_, hLater⟩ := forall_mem_cons.mp hReports
    rw [countP_cons, getLastD_cons]
    cases hFull : first.fanInClosed with
    | false =>
      rw [ih hRest hFull hLater]
      rfl
    | true =>
      -- nothing is reported of a stage that is closed
      cases rest with
      | nil =>
        rw [getLastD_nil, hFull]
        rfl
      | cons second rest =>
        have hSecond := (isChain_cons_cons.mp hRest).1.report (hLater second mem_cons_self)
        cases hFull.symm.trans hSecond

theorem stagesInOrder (h : List.IsChain Follows (none :: history)) : StagesInOrder history := by
  have hCounted := counted_of_chain h fun _ hNone => by cases hNone
  refine ⟨hCounted, ?_, ?_⟩
  · rintro before current next after rfl hEntry hRequired hOpen hMany
    have hStep : Follows (some current) (some next) :=
      (isChain_append_cons_cons.mp (h.tail : List.IsChain Follows (before ++ some current :: some next :: after))).2.1
    have hAll := closed_of_fanInBlocks (hStep.leaves hEntry) hRequired hOpen hMany
    have hWithin := (hCounted current (by simp)).within
    omega
  · rintro before entry reports after rfl hEntry hReports
    have hChain : List.IsChain Follows (some entry :: (reports.map some ++ after)) :=
      (h.tail : List.IsChain Follows (before ++ some entry :: (reports.map some ++ after))).right_of_append
    have hStage : List.IsChain Follows (some entry :: reports.map some) :=
      (hChain : List.IsChain Follows ((some entry :: reports.map some) ++ after)).left_of_append
    have hRoom := (hCounted entry (by simp)).room
    have hOpen : entry.fanInClosed = false := by
      refine decide_eq_false ?_
      rw [hEntry, length_nil]
      omega
    rw [countP_cons, hOpen, countP_reports hStage hOpen hReports]
    rfl

/-- Histories that go on from each other are one. -/
theorem isChain_append_last {Item : Type} {rel : Item → Item → Prop} {start : Item} {first second : List Item}
    (h : List.IsChain rel (start :: first)) (h' : List.IsChain rel (first.getLastD start :: second)) :
    List.IsChain rel (start :: (first ++ second)) := by
  induction first generalizing start with
  | nil => exact h'
  | cons item rest ih =>
    obtain ⟨hFirst, hRest⟩ := isChain_cons_cons.mp h
    rw [getLastD_cons] at h'
    exact .cons_cons hFirst (ih hRest h')

end
end Daruma
