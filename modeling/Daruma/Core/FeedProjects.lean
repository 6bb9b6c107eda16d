import Daruma.Core.Runs
import Daruma.Storage.FeedBackfill

/-! The projects of the rows: a feed is right about the project of a task while no event
moves the task. -/
namespace Daruma

open List
namespace ActivityFeed

variable {db : Database} {feed : Feed} {log earlier rest : List EventEnvelope} {envelope : EventEnvelope}
  {tables : Nat → Database} {n : Nat} {id : TaskId}

def Ordered (feed : Feed) : Prop := feed.Pairwise fun first second => first.seq < second.seq

theorem Ordered.inherit (h : Ordered feed) (id : TaskId) : inheritProjectId feed id =
    (feed.filter fun row => row.taskId = some id).getLast?.bind Row.projectId := by
  have hSorted : (feed.filter fun row => row.taskId = some id).Pairwise fun a b => a.seq ≤ b.seq :=
    (h.imp Nat.le_of_lt).filter _
  unfold inheritProjectId orderBy
  rw [hSorted.insertionSort_eq]

theorem Ordered.apply (h : Ordered feed) (hRows : RowsOf earlier feed) (hBehind : ∀ other ∈ earlier, other.seq < envelope.seq) :
    Ordered (applyEvent db feed envelope) := by
  generalize hAfter : applyEvent db feed envelope = after
  have hApplied := applied db feed envelope
  rw [hAfter] at hApplied
  cases hApplied with
  | merges taskId f hMerge =>
    refine pairwise_map.mpr (h.imp fun hLt => ?_)
    rw [(updating_same (mergeOf_merges hMerge)).seq, (updating_same (mergeOf_merges hMerge)).seq]
    exact hLt
  | silent | known => exact h
  | adds hNot entry hEntry hNew =>
    refine pairwise_append.mpr ⟨h, pairwise_singleton _ _, fun row hRow other hOther => ?_⟩
    obtain ⟨event, hEvent, _, hSeq, _⟩ := hRows.event row hRow
    rw [mem_singleton.mp hOther, hSeq]
    exact hBehind event hEvent

def Tells (envelope : EventEnvelope) (id : TaskId) (db : Database) (projectId : Option ProjectId) : Prop :=
  ∃ entry, entryOf envelope.payload = some entry ∧ entry.taskId = some id ∧ (∀ other, entry.project ≠ .ofTask other) ∧
    entry.project.lookup db = projectId

theorem inherit_apply (hOrdered : Ordered feed) (hRows : RowsOf earlier feed)
    (hBehind : ∀ other ∈ earlier, other.seq < envelope.seq) (hNew : ∀ other ∈ earlier, other.id ≠ envelope.id) (id : TaskId) :
    Tells envelope id db (inheritProjectId (applyEvent db feed envelope) id) ∨
      ((∀ projectId, ¬Tells envelope id db projectId) ∧
        inheritProjectId (applyEvent db feed envelope) id = inheritProjectId feed id) := by
  have hAfterOrdered : Ordered (applyEvent db feed envelope) := hOrdered.apply hRows hBehind
  rw [hAfterOrdered.inherit, hOrdered.inherit]
  generalize hAfter : applyEvent db feed envelope = after
  have hApplied := applied db feed envelope
  rw [hAfter] at hApplied
  cases hApplied with
  | merges taskId f hMerge =>
    have hMerges := mergeOf_merges hMerge
    refine .inr ⟨?_, ?_⟩
    · rintro projectId ⟨entry, hEntry, _, hNot, _⟩
      obtain ⟨other, hOther, hSource⟩ := mergeOf_entry hMerge
      cases hEntry.symm.trans hOther
      exact hNot taskId hSource
    · have hFilter : ((feed.map (updating taskId (envelope.seq - 1) f)).filter fun row => row.taskId = some id) =
          (feed.filter fun row => row.taskId = some id).map (updating taskId (envelope.seq - 1) f) := by
        rw [filter_map]
        congr 1
        refine filter_congr fun row _ => ?_
        dsimp only [Function.comp]
        rw [(updating_same hMerges).taskId]
      rw [hFilter, getLast?_map]
      cases (feed.filter fun row => row.taskId = some id).getLast? with
      | none => rfl
      | some row => exact (updating_same hMerges).projectId
  | silent hNone =>
    refine .inr ⟨?_, rfl⟩
    rintro projectId ⟨entry, hEntry, _⟩
    cases hNone.symm.trans hEntry
  | known hNot row hRow hKnown =>
    obtain ⟨other, hOther, hId, _⟩ := hRows.event row hRow
    exact absurd (hId.symm.trans hKnown) (hNew other hOther)
  | adds hNot entry hEntry =>
    rw [filter_append]
    by_cases hTask : entry.taskId = some id
    · have hLast : ([entry.row (entry.project.resolve db feed) envelope].filter fun row => row.taskId = some id) =
          [entry.row (entry.project.resolve db feed) envelope] := by
        refine filter_eq_self.mpr fun row hRow => ?_
        rw [mem_singleton.mp hRow]
        exact decide_eq_true hTask
      rw [hLast, getLast?_concat]
      change Tells envelope id db (entry.project.resolve db feed) ∨ (_ ∧ entry.project.resolve db feed = _)
      cases hSource : entry.project with
      | ofTask other =>
        have hSame : other = id := by
          have hIs := entryOf_ofTask hEntry hSource
          exact Option.some.inj (hIs.symm.trans hTask)
        subst hSame
        refine .inr ⟨?_, hOrdered.inherit _⟩
        rintro projectId ⟨told, hTold, _, hNotTask, _⟩
        cases hEntry.symm.trans hTold
        exact hNotTask _ hSource
      | _ =>
        refine .inl ⟨entry, hEntry, hTask, fun other hIs => ?_, ?_⟩
        · cases hSource.symm.trans hIs
        · rw [hSource]
          rfl
    · have hNone : ([entry.row (entry.project.resolve db feed) envelope].filter fun row => row.taskId = some id) = [] := by
        refine filter_eq_nil_iff.mpr fun row hRow => ?_
        rw [mem_singleton.mp hRow]
        exact fun hIs => hTask (of_decide_eq_true hIs)
      rw [hNone, append_nil]
      refine .inr ⟨?_, rfl⟩
      rintro projectId ⟨told, hTold, hIs, _⟩
      cases hEntry.symm.trans hTold
      exact hTask hIs

/-- An event leaves the projects as the rows have them: it moves no task, what it says of
a project is so, and a task that it brings into being is either named with its project
or has none, and was not named before. -/
structure KeepsProjects (earlier : List EventEnvelope) (before after : Database) (envelope : EventEnvelope) : Prop where
  moves : ∀ id old task, before.tasks.find? id = some old → after.tasks.find? id = some task → task.projectId = old.projectId
  tells : ∀ id task projectId, after.tasks.find? id = some task → Tells envelope id before projectId → projectId = task.projectId
  bears : ∀ id task, before.tasks.find? id = none → after.tasks.find? id = some task →
    (∃ projectId, Tells envelope id before projectId) ∨
      (task.projectId = none ∧ ∀ other ∈ earlier, ∀ entry, entryOf other.payload = some entry → entry.taskId ≠ some id)

/-- The latest row of each task has its project. -/
def Current (db : Database) (feed : Feed) : Prop :=
  ∀ id task, db.tasks.find? id = some task → inheritProjectId feed id = task.projectId

def ProjectsRight (tables : Nat → Database) (log : List EventEnvelope) (feed : Feed) : Prop :=
  ∀ k envelope, log[k]? = some envelope → ∀ row ∈ feed, row.eventId = envelope.id → ∀ id task, row.taskId = some id →
    (tables (k + 1)).tasks.find? id = some task → row.projectId = task.projectId

theorem inherit_unnamed (hOrdered : Ordered feed) (hRows : RowsOf earlier feed)
    (hUnnamed : ∀ other ∈ earlier, ∀ entry, entryOf other.payload = some entry → entry.taskId ≠ some id) :
    inheritProjectId feed id = none := by
  have hNone : (feed.filter fun row => row.taskId = some id) = [] := by
    refine filter_eq_nil_iff.mpr fun row hRow hIs => ?_
    obtain ⟨event, hEvent, _, _, entry, hEntry, hTask⟩ := hRows.event row hRow
    exact hUnnamed event hEvent entry hEntry (hTask.symm.trans (of_decide_eq_true hIs))
  rw [hOrdered.inherit, hNone]
  rfl

variable {after : Database} {task : Task}

theorem KeepsProjects.inherits (h : KeepsProjects earlier db after envelope)
    (hOrdered : Ordered feed) (hRows : RowsOf earlier feed) (hCurrent : Current db feed)
    (hSilent : ∀ projectId, ¬Tells envelope id db projectId) (hTask : after.tasks.find? id = some task) :
    inheritProjectId feed id = task.projectId := by
  cases hBefore : db.tasks.find? id with
  | some old => exact (hCurrent id old hBefore).trans (h.moves id old task hBefore hTask).symm
  | none =>
    rcases h.bears id task hBefore hTask with ⟨projectId, hTells⟩ | ⟨hNone, hUnnamed⟩
    · exact absurd hTells (hSilent projectId)
    · rw [hNone]
      exact inherit_unnamed hOrdered hRows hUnnamed

theorem KeepsProjects.current (h : KeepsProjects earlier db after envelope) (hOrdered : Ordered feed)
    (hRows : RowsOf earlier feed) (hBehind : ∀ other ∈ earlier, other.seq < envelope.seq)
    (hNew : ∀ other ∈ earlier, other.id ≠ envelope.id) (hCurrent : Current db feed) :
    Current after (applyEvent db feed envelope) := by
  intro id task hTask
  rcases @inherit_apply db _ _ _ hOrdered hRows hBehind hNew id with hTells | ⟨hSilent, hSame⟩
  · exact h.tells id task _ hTask hTells
  · rw [hSame]
    exact h.inherits hOrdered hRows hCurrent hSilent hTask

theorem KeepsProjects.added {entry : Entry} (h : KeepsProjects earlier db after envelope)
    (hOrdered : Ordered feed) (hRows : RowsOf earlier feed) (hCurrent : Current db feed)
    (hEntry : entryOf envelope.payload = some entry) (hIs : entry.taskId = some id)
    (hTask : after.tasks.find? id = some task) : entry.project.resolve db feed = task.projectId := by
  cases hSource : entry.project with
  | ofTask other =>
    have hSame : other = id := Option.some.inj ((entryOf_ofTask hEntry hSource).symm.trans hIs)
    subst hSame
    refine h.inherits hOrdered hRows hCurrent ?_ hTask
    rintro projectId ⟨told, hTold, _, hNotTask, _⟩
    cases hEntry.symm.trans hTold
    exact hNotTask _ hSource
  | _ =>
    refine h.tells id task _ hTask ⟨entry, hEntry, hIs, fun other hTaskSource => ?_, ?_⟩
    · cases hSource.symm.trans hTaskSource
    · rw [hSource]
      rfl

/-- What the rows and the tables keep up, one event after the other. -/
structure InStep (tables : Nat → Database) (earlier : List EventEnvelope) (feed : Feed) : Prop where
  rows : RowsOf earlier feed
  ordered : Ordered feed
  current : Current (tables earlier.length) feed
  right : ProjectsRight tables earlier feed

theorem InStep.apply (h : InStep tables earlier feed)
    (hKeeps : KeepsProjects earlier (tables earlier.length) (tables (earlier.length + 1)) envelope)
    (hBehind : ∀ other ∈ earlier, other.seq < envelope.seq) (hNew : ∀ other ∈ earlier, other.id ≠ envelope.id) :
    InStep tables (earlier ++ [envelope]) (applyEvent (tables earlier.length) feed envelope) := by
  refine ⟨h.rows.apply, h.ordered.apply h.rows hBehind, ?_, ?_⟩
  · rw [length_append, length_singleton]
    exact hKeeps.current h.ordered h.rows hBehind hNew h.current
  · intro k event hEvent row hRow hId id task hTask hFound
    rcases of_mem_applyEvent hRow with ⟨old, hOld, hSame, _⟩ | ⟨entry, hEntry, rfl⟩
    · obtain ⟨origin, hOrigin, hOriginId, _⟩ := h.rows.event old hOld
      have hNotLast : event.id ≠ envelope.id := by
        rw [← hId, hSame.eventId, hOriginId]
        exact hNew origin hOrigin
      have hEarlier : earlier[k]? = some event := by
        by_cases hk : k < earlier.length
        · rwa [getElem?_append_left hk] at hEvent
        · rw [getElem?_append_right (Nat.le_of_not_lt hk)] at hEvent
          have hIn := mem_of_getElem? hEvent
          exact absurd (congrArg EventEnvelope.id (mem_singleton.mp hIn)) hNotLast
      rw [hSame.projectId]
      exact h.right k event hEarlier old hOld (hSame.eventId.symm.trans hId) id task (hSame.taskId.symm.trans hTask) hFound
    · have hLast : k = earlier.length := by
        by_cases hk : k < earlier.length
        · rw [getElem?_append_left hk] at hEvent
          exact absurd hId.symm (hNew event (mem_of_getElem? hEvent))
        · have hBound : k < (earlier ++ [envelope]).length := (List.getElem?_eq_some_iff.mp hEvent).1
          rw [length_append, length_singleton] at hBound
          omega
      rw [hLast] at hFound
      exact hKeeps.added h.ordered h.rows h.current hEntry hTask hFound

theorem InStep.feedFrom (h : InStep tables earlier feed) (hStored : StoredLog (earlier ++ rest))
    (hKeeps : ∀ k envelope, rest[k]? = some envelope →
      KeepsProjects (earlier ++ rest.take k) (tables (earlier.length + k)) (tables (earlier.length + k + 1)) envelope) :
    InStep tables (earlier ++ rest) (feedFrom tables earlier.length feed rest) := by
  induction rest generalizing earlier feed with
  | nil =>
    rw [append_nil]
    exact h
  | cons next rest ih =>
    have hSplit : earlier ++ next :: rest = (earlier ++ [next]) ++ rest := by simp
    rw [hSplit] at hStored ⊢
    have hLast : next ∈ [next] := mem_singleton_self _
    have hBehind : ∀ other ∈ earlier, other.seq < next.seq := fun other hOther =>
      (pairwise_append.mp (pairwise_append.mp hStored.ascending).1).2.2 other hOther next hLast
    have hNew : ∀ other ∈ earlier, other.id ≠ next.id := fun other hOther =>
      (pairwise_append.mp (pairwise_append.mp hStored.ids).1).2.2 other hOther next hLast
    have hFirst := hKeeps 0 next rfl
    rw [take_zero, append_nil, Nat.add_zero] at hFirst
    have hStep := h.apply hFirst hBehind hNew
    have hRun := ih hStep hStored fun k envelope hk => by
      have hLater := hKeeps (k + 1) envelope hk
      rw [take_succ_cons] at hLater
      have hLength : (earlier ++ [next]).length = earlier.length + 1 := by simp
      have hSum : earlier.length + 1 + k = earlier.length + (k + 1) := by omega
      rw [hLength, hSum, append_assoc]
      exact hLater
    have hLength : (earlier ++ [next]).length = earlier.length + 1 := by simp
    rw [hLength] at hRun
    exact hRun

def tablesAfter (mint : EventEnvelope → Env) (log : List EventEnvelope) (n : Nat) : Database :=
  (log.take n).foldl (fun db envelope => (Projections.applyEvents (mint envelope) [envelope] db).2) .empty

def feedAfter (mint : EventEnvelope → Env) (log : List EventEnvelope) (n : Nat) : Feed :=
  feedFrom (tablesAfter mint log) 0 [] (log.take n)

theorem feedAfter_split (mint : EventEnvelope → Env) (log : List EventEnvelope) (k : Nat) :
    feedAfter mint log log.length =
      feedFrom (tablesAfter mint log) (log.take k).length (feedAfter mint log k) (log.drop k) := by
  have hAppend := @feedFrom_append [] (log.take k) (log.drop k) (tablesAfter mint log) 0
  rw [take_append_drop, Nat.zero_add] at hAppend
  unfold feedAfter
  rw [take_length]
  exact hAppend

/-- The places of the events after a cut, counted from the start. -/
theorem forall_drop_iff {log : List EventEnvelope} {k : Nat} (holds : Nat → EventEnvelope → Prop) :
    (∀ j envelope, (log.drop k)[j]? = some envelope → holds ((log.take k).length + j) envelope) ↔
      ∀ n envelope, k ≤ n → log[n]? = some envelope → holds n envelope := by
  have hPlace : ∀ j envelope, log[k + j]? = some envelope → (log.take k).length + j = k + j := by
    intro j envelope hj
    have hBound : k + j < log.length := (List.getElem?_eq_some_iff.mp hj).1
    rw [length_take]
    omega
  constructor
  · intro hDropped n envelope hk hn
    obtain ⟨j, rfl⟩ := Nat.exists_eq_add_of_le hk
    have hLater := hDropped j envelope (by rw [getElem?_drop]; exact hn)
    rwa [hPlace j envelope hn] at hLater
  · intro hWhole j envelope hj
    rw [getElem?_drop] at hj
    rw [hPlace j envelope hj]
    exact hWhole (k + j) envelope (Nat.le_add_right _ _) hj

/-- A stop after some events, and the start that repairs the feed with the tables that
the stop left: the rows are those of the whole log exactly when the tables say of the
projects of the other events what they would have said. And while no event moves a task,
the rows of the whole log are right about the projects of the tasks. -/
theorem feed_repaired_iff (mint : EventEnvelope → Env) (log : List EventEnvelope) (hStored : StoredLog log) (k : Nat)
    (left : Database) : (backfillFromEvents left log (feedAfter mint log k) = feedAfter mint log log.length ↔
      ∀ n envelope, k ≤ n → log[n]? = some envelope → Agree left (tablesAfter mint log n) envelope) ∧
    ((∀ n envelope, log[n]? = some envelope →
        KeepsProjects (log.take n) (tablesAfter mint log n) (tablesAfter mint log (n + 1)) envelope) →
      ProjectsRight (tablesAfter mint log) log (feedAfter mint log log.length)) := by
  constructor
  · have hCut : log.take k ++ log.drop k = log := take_append_drop k log
    have hStoredCut : StoredLog (log.take k ++ log.drop k) := by rwa [hCut]
    have hRows : RowsOf ([] ++ log.take k) (feedAfter mint log k) := rowsOf_feedFrom RowsOf.nil
    have hRepaired : backfillFromEvents left log (feedAfter mint log k) =
        feedFrom (fun _ => left) (log.take k).length (feedAfter mint log k) (log.drop k) := by
      have hBackfill := @backfill_eq left _ _ (tablesAfter mint log) hStoredCut
      rw [hCut] at hBackfill
      exact hBackfill.trans feedFrom_const.symm
    rw [hRepaired, feedAfter_split mint log k, feedFrom_eq_iff hRows hStoredCut.ids]
    exact forall_drop_iff (Agree left ∘ tablesAfter mint log)
  · intro hKeeps
    have hEmpty : InStep (tablesAfter mint log) [] [] := by
      refine ⟨RowsOf.nil, .nil, ?_, ?_⟩
      · intro id task hTask
        have hNone : (Database.empty).tasks.find? id = none := rfl
        cases hNone.symm.trans hTask
      · intro n envelope hn
        cases hn
    have hRun := hEmpty.feedFrom hStored fun n envelope hn => by
      have hSum : ([] : List EventEnvelope).length + n = n := Nat.zero_add n
      rw [hSum]
      exact hKeeps n envelope hn
    unfold feedAfter
    rw [take_length]
    exact hRun.right

private def logOf (commands : List Command) : List EventEnvelope :=
  (Server.run Server.engineConfig (Server.commands commands)).events.rows

private def laterPlan : PlanId := (((Server.nthEnv 2).part 0).part 1).fresh 0

/-- A task without a project that is given one, and a plan. -/
private def movedLog : List EventEnvelope := logOf [
  .task (.createTask { NewTask.new "task" with id := some ⟨7⟩ }),
  .task (.updateTask ⟨7⟩ { TaskPatch.none with projectId := some (some ⟨3⟩) }),
  .plan (.createPlan (NewPlan.new "plan" ⟨0⟩ .anyUser) none),
  .plan (.setPlanStatus laterPlan .active false none)]

private def minted : EventEnvelope → Env := fun _ => Server.nthEnv 0

private theorem movedLog_stored : StoredLog movedLog :=
  ⟨by decide +kernel, by decide +kernel, by decide +kernel⟩

/-- What is known at a stop before the plan is applied. -/
theorem feed_repaired_iff_moved :
    (backfillFromEvents (tablesAfter minted movedLog 2) movedLog (feedAfter minted movedLog 2) =
        feedAfter minted movedLog movedLog.length ↔
      ∀ n envelope, 2 ≤ n → movedLog[n]? = some envelope →
        Agree (tablesAfter minted movedLog 2) (tablesAfter minted movedLog n) envelope) ∧
    ((∀ n envelope, movedLog[n]? = some envelope →
        KeepsProjects (movedLog.take n) (tablesAfter minted movedLog n) (tablesAfter minted movedLog (n + 1)) envelope) →
      ProjectsRight (tablesAfter minted movedLog) movedLog (feedAfter minted movedLog movedLog.length)) :=
  feed_repaired_iff minted movedLog movedLog_stored 2 (tablesAfter minted movedLog 2)

private def isRight (tables : Nat → Database) (log : List EventEnvelope) (feed : Feed) (n : Nat) : Option Bool :=
  log[n]?.bind fun envelope =>
    (feed.find? fun row => row.eventId = envelope.id).bind fun row =>
      row.taskId.bind fun id =>
        ((tables (n + 1)).tasks.find? id).map fun task => decide (row.projectId = task.projectId)

private theorem not_right (h : isRight tables log feed n = some false) : ¬ProjectsRight tables log feed := by
  intro hRight
  unfold isRight at h
  obtain ⟨envelope, hEnvelope, h⟩ := Option.bind_eq_some_iff.mp h
  obtain ⟨row, hRow, h⟩ := Option.bind_eq_some_iff.mp h
  obtain ⟨id, hId, h⟩ := Option.bind_eq_some_iff.mp h
  obtain ⟨task, hTask, hWrong⟩ := Option.map_eq_some_iff.mp h
  have hIs := find?_some hRow
  have hSame := hRight n envelope hEnvelope row (mem_of_find?_eq_some hRow) (of_decide_eq_true hIs) id task hId hTask
  exact of_decide_eq_false hWrong hSame

private theorem ne_of_projects {feed other : Feed} (h : feed.map Row.projectId ≠ other.map Row.projectId) : feed ≠ other :=
  fun hSame => h (congrArg (List.map Row.projectId) hSame)

/-- A claimed task and a later one, and the release that the sweep of the expired claims
writes beside the commands. -/
private def sweptLog : List EventEnvelope :=
  logOf [.task (.createTask { NewTask.new "task" with id := some ⟨7⟩ }), .claim (.acquireClaim ⟨5⟩ ⟨7⟩ ⟨6⟩ 10),
    .task (.createTask { NewTask.new "later" with id := some ⟨8⟩ })] ++
  [⟨⟨0⟩, 4, 20, .anyUser, none, 0, .claim (.agentReleased ⟨5⟩ ⟨7⟩ (some ⟨6⟩))⟩]

/-- The server stops after the release is applied, and before the later task is. -/
private def sweptFeed : Feed :=
  (sweptLog.take 2 ++ sweptLog.drop 3).foldl (applyEvent (tablesAfter minted sweptLog 2)) []

private theorem sweptLog_stored : StoredLog sweptLog :=
  ⟨by decide +kernel, by decide +kernel, by decide +kernel⟩

/-- The row of the move has no project; after a stop before the plan the row of its
status has none; and a task that was not applied before a later release stays without a
row. -/
theorem feed_loses_projects : StoredLog movedLog ∧ StoredLog sweptLog ∧
    backfillFromEvents (tablesAfter minted movedLog 2) movedLog (feedAfter minted movedLog 2) ≠
      feedAfter minted movedLog movedLog.length ∧
    ¬ProjectsRight (tablesAfter minted movedLog) movedLog (feedAfter minted movedLog movedLog.length) ∧
    (backfillFromEvents (tablesAfter minted sweptLog 2) sweptLog sweptFeed).map Row.eventId ≠
      (feedAfter minted sweptLog sweptLog.length).map Row.eventId := by
  have hMoved : isRight (tablesAfter minted movedLog) movedLog (feedAfter minted movedLog movedLog.length) 1 = some false := by
    decide +kernel
  exact ⟨movedLog_stored, sweptLog_stored, ne_of_projects (by decide +kernel), not_right hMoved, by decide +kernel⟩

end ActivityFeed
end Daruma
