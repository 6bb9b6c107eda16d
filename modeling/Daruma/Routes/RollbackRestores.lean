import Daruma.Routes.RollbackEffects

/-! What a rollback leaves: the snapshot, in a state that ordinary commands keep, where
its commands are accepted; nothing of it, where the first is refused. When a later one
is, what the first has written stays. -/
namespace Daruma

open Stateful
open Handler (MintsNew handleWithRunOwner)
open DocumentCommands (trimmedTitle requireDocument)
namespace Rollback

variable {config : Config} {env : Env} {rights : RollbackRights} {actor : Actor} {db after : Database} {current target : Task}

/-- What both commands leave of the task and of everything else. -/
structure Landed (current target : Task) (git : Option (Option GitContext)) (before after : Database) : Prop where
  row : ∃ row, after.tasks.find? target.id = some row ∧
    row.content = { target.content with gitContext := git.getD current.gitContext } ∧ row.completedAt = current.completedAt
  others : ∀ other, other ≠ target.id → after.tasks.find? other = before.tasks.find? other
  documents : after.documents = before.documents
  relations : after.relations = before.relations
  agentClaims : after.agentClaims = before.agentClaims

/-- A row that the first command has passed. -/
structure Midway (current target row : Task) : Prop where
  content : row.content = (planOwnedPatch current target).onContent current.content
  completedAt : row.completedAt = current.completedAt
  position : row.pipelinePosition = current.pipelinePosition

theorem Midway.status {row : Task} (h : Midway current target row) : row.status = current.status :=
  congrArg TaskContent.status h.content

theorem executionPatch_empty_accepted (h : (executionPatch current target).isEmpty = true) :
    GitAccepted current target ∧ StatusAccepted current target ∧ GitKept current target := by
  obtain ⟨hStatus, _, _, _, hGit⟩ := executionPatch_isEmpty.mp h
  exact ⟨.inl hGit, .inl hStatus, .inl hGit⟩

theorem onContent_execution_empty (h : (executionPatch current target).isEmpty = true) (content : TaskContent) :
    ({ executionPatch current target with gitContext := none } : TaskPatch).onContent content = content := by
  obtain ⟨hStatus, hPriority, hTriage, hDue, hGit⟩ := executionPatch_isEmpty.mp h
  simp [TaskPatch.onContent, executionPatch, TaskPatch.none, restoring, hStatus, hPriority, hTriage, hDue]

theorem execution_lands {row : Task} {n : Nat} (hMints : MintsNew (env.part n) db)
    (hKeys : TaskRepo.KeysDistinct db.tasks) (hRow : db.tasks.find? target.id = some row) (hMidway : Midway current target row) :
    (GitAccepted current target ∧ StatusAccepted current target ∧ ∃ git after,
      dispatchAll config env actor n (executionCommands target.id (executionPatch current target)) db = (.ok (), after) ∧
      Landed current target git db after ∧ (git.getD current.gitContext = target.gitContext ↔ GitKept current target)) ∨
    (¬(GitAccepted current target ∧ StatusAccepted current target) ∧ ∃ e,
      dispatchAll config env actor n (executionCommands target.id (executionPatch current target)) db = (.error e, db)) := by
  cases hEmpty : (executionPatch current target).isEmpty with
  | true =>
    obtain ⟨hGit, hDirect, hKept⟩ := executionPatch_empty_accepted hEmpty
    have hNone : executionCommands target.id (executionPatch current target) = [] := if_pos hEmpty
    rw [hNone]
    have hContent := (hMidway.content.trans (onContent_execution_empty hEmpty _).symm).trans (onContent_both none)
    exact .inl ⟨hGit, hDirect, none, db, rfl, ⟨⟨row, hRow, hContent, hMidway.completedAt⟩, fun _ _ => rfl, rfl, rfl, rfl⟩,
      iff_of_true (executionPatch_isEmpty.mp hEmpty).2.2.2.2 hKept⟩
  | false =>
    have hOne : executionCommands target.id (executionPatch current target) =
        [.task (.updateTask target.id (executionPatch current target))] :=
      if_neg (by rw [hEmpty]; exact Bool.false_ne_true)
    rw [hOne, dispatchAll]
    rcases second_runs hMints hKeys hRow hMidway.status hMidway.position hEmpty with
      ⟨hGit, hDirect, git, answer, after, hHandled, hPatched, hKept⟩ | ⟨hRefused, e, hHandled⟩
    · refine .inl ⟨hGit, hDirect, git, after, ?_, ⟨?_, hPatched.others, hPatched.documents, hPatched.relations,
        hPatched.agentClaims⟩, hKept⟩
      · rw [bind_eq, hHandled]
        rfl
      · obtain ⟨written, hWritten, hContent, hCompleted, _⟩ := hPatched.row row hRow
        refine ⟨written, hWritten, ?_, hCompleted.trans hMidway.completedAt⟩
        rw [hContent, hMidway.content]
        exact onContent_both git
    · refine .inr ⟨hRefused, e, ?_⟩
      rw [bind_eq, hHandled]

variable {git : Option (Option GitContext)} {version : HistoryVersion} {middle : Database} {id : DocumentId}
  {title content : String}

theorem Landed.keeps (h : Landed current target git db after)
    (hRow : db.tasks.find? target.id = some current) : after.Keeps ↔ (db.withStatus target.id target.status).Keeps := by
  have hTasks : ∀ id, (after.tasks.find? id).map (fun task => (task.status, task.completedAt)) =
      ((db.withStatus target.id target.status).tasks.find? id).map fun task => (task.status, task.completedAt) := by
    intro id
    have hModify := KeyedTable.find?_modify db.tasks target.id id (fun task => { task with status := target.status }) fun _ => rfl
    unfold Database.withStatus
    dsimp only
    rw [hModify]
    by_cases hIs : target.id = id
    · obtain ⟨row, hWritten, hContent, hCompleted⟩ := h.row
      have hStatus : row.status = target.status := congrArg TaskContent.status hContent
      rw [if_pos hIs, ← hIs, hRow, hWritten]
      dsimp only [Option.map_some]
      rw [hStatus, hCompleted]
    · rw [if_neg hIs, h.others id fun hSame => hIs hSame.symm]
  constructor
  · intro hKeeps
    exact hKeeps.of_same (fun id => (hTasks id).symm) (fun id => by rw [h.documents]; rfl) h.relations.symm h.agentClaims.symm
  · intro hKeeps
    exact hKeeps.of_same hTasks (fun id => by rw [h.documents]; rfl) h.relations h.agentClaims

/-- What a rollback promises: the snapshot in the row, in a state that is kept, or
nothing at all. -/
def Restores (version : HistoryVersion) (before : Database) : Except CoreError Unit × Database → Prop
  | (.error _, after) => after = before
  | (.ok _, after) => after.Keeps ∧ match version.after with
      | some (.task target) => ∃ row, after.tasks.find? target.id = some row ∧ row.content = target.content
      | some (.document target) => ∃ row, after.documents.find? target.id = some row ∧
          row.title = target.title ∧ row.content = target.content
      | _ => False

def TaskRestorable (config : Config) (rights : RollbackRights) (db : Database) (current target : Task) : Prop :=
  FirstRefused config rights db current target ∨
    (GitAccepted current target ∧ StatusAccepted current target ∧ GitKept current target ∧
      (db.withStatus target.id target.status).Keeps) ∨
    (¬(GitAccepted current target ∧ StatusAccepted current target) ∧ (planOwnedPatch current target).isEmpty = true)

theorem task_dispatches (hRow : db.tasks.find? target.id = some current)
    (hVersion : version.after = some (.task target)) (hRight : rights.tasks = true) :
    rollbackHistoryVersion config env rights actor version db =
      match planOwnedCommands db rights target.id (planOwnedPatch current target) with
      | .error e => (.error e, db)
      | .ok first =>
        dispatchAll config env actor 0 (first ++ executionCommands target.id (executionPatch current target)) db := by
  have hCommands : rollbackCommands db rights version = (do
      let first ← planOwnedCommands db rights target.id (planOwnedPatch current target)
      pure (first ++ executionCommands target.id (executionPatch current target))) := by
    unfold rollbackCommands rollbackTaskCommands requireRight
    rw [hVersion, hRight]
    change (do
      let current ← Outcome.okOr (db.tasks.find? target.id) _
      let first ← planOwnedCommands db rights target.id (planOwnedPatch current target)
      pure (first ++ executionCommands target.id (executionPatch current target)) : Result (List Command)) = _
    rw [hRow]
    rfl
  unfold rollbackHistoryVersion
  rw [bind_eq]
  dsimp only [Stateful.get]
  rw [bind_eq]
  dsimp only [Stateful.lift]
  rw [hCommands]
  cases planOwnedCommands db rights target.id (planOwnedPatch current target) <;> rfl

theorem Landed.trans {patch : TaskPatch}
    (h : Landed current target git middle after) (hFirst : Patched target.id patch db middle) :
    Landed current target git db after :=
  ⟨h.row, fun other hOther => (h.others other hOther).trans (hFirst.others other hOther), h.documents.trans hFirst.documents,
    h.relations.trans hFirst.relations, h.agentClaims.trans hFirst.agentClaims⟩

theorem Landed.restores (h : Landed current target git db after)
    (hRow : db.tasks.find? target.id = some current) (hVersion : version.after = some (.task target))
    (hKept : git.getD current.gitContext = target.gitContext ↔ GitKept current target) :
    Restores version db (.ok (), after) ↔ GitKept current target ∧ (db.withStatus target.id target.status).Keeps := by
  obtain ⟨row, hWritten, hContent, _⟩ := h.row
  unfold Restores
  rw [hVersion]
  dsimp only
  rw [h.keeps hRow, ← hKept, and_comm]
  refine and_congr_left fun _ => ?_
  constructor
  · rintro ⟨other, hOther, hSame⟩
    cases hWritten.symm.trans hOther
    exact congrArg TaskContent.gitContext (hContent.symm.trans hSame)
  · intro hGit
    refine ⟨row, hWritten, hContent.trans ?_⟩
    rw [hGit]
    rfl

theorem task_restores (hMints : MintsNew env db) (hKeys : TaskRepo.KeysDistinct db.tasks)
    (hRow : db.tasks.find? target.id = some current) (hVersion : version.after = some (.task target))
    (hRight : rights.tasks = true) : Restores version db (rollbackHistoryVersion config env rights actor version db) ↔
      TaskRestorable config rights db current target := by
  rw [task_dispatches hRow hVersion hRight]
  unfold TaskRestorable
  cases hEmpty : (planOwnedPatch current target).isEmpty with
  | true =>
    have hNotFirst : ¬FirstRefused config rights db current target := by
      rintro ⟨hNonempty, _⟩
      cases hEmpty.symm.trans hNonempty
    have hFirst : planOwnedCommands db rights target.id (planOwnedPatch current target) = .ok [] := if_pos hEmpty
    have hMidway : Midway current target current := ⟨(onContent_planOwned_empty hEmpty).symm, rfl, rfl⟩
    rw [hFirst]
    dsimp only [List.nil_append]
    rcases @execution_lands config env actor db current target current 0 (hMints.part 0) hKeys hRow hMidway with
      ⟨hGit, hDirect, git, after, hHandled, hLanded, hKept⟩ | ⟨hRefused, e, hHandled⟩
    · rw [hHandled, hLanded.restores hRow hVersion hKept]
      simp [hNotFirst, hGit, hDirect]
    · rw [hHandled]
      exact iff_of_true rfl (.inr (.inr ⟨hRefused, rfl⟩))
  | false =>
    by_cases hFirst : FirstRefused config rights db current target
    · refine iff_of_true ?_ (.inl hFirst)
      rcases @first_refused config (env.part 0) rights actor db current target hFirst with ⟨e, hPlanned⟩ | ⟨command, e, hPlanned, hHandled⟩
      · rw [hPlanned]
        rfl
      · rw [hPlanned]
        dsimp only [List.cons_append, List.nil_append]
        rw [dispatchAll, bind_eq, hHandled]
        rfl
    · obtain ⟨command, answer, middle, hPlanned, hHandled, hPatched, hIds⟩ :=
        @first_runs config (env.part 0) rights actor db current target (hMints.part 0) hKeys hRow hEmpty hFirst
      obtain ⟨row, hMiddle, hContent, hCompleted, hPosition⟩ := hPatched.row current hRow
      have hLater : MintsNew (env.part 1) middle := hMints.later (by decide) hIds
      rw [hPlanned]
      dsimp only [List.cons_append, List.nil_append]
      rw [dispatchAll, bind_eq, hHandled]
      dsimp only
      rcases @execution_lands config env actor middle current target row 1 hLater hPatched.keys hMiddle
          ⟨hContent, hCompleted, hPosition⟩ with
        ⟨hGit, hDirect, git, after, hDone, hLanded, hKept⟩ | ⟨hRefused, e, hDone⟩
      · rw [hDone, (hLanded.trans hPatched).restores hRow hVersion hKept]
        simp [hFirst, hGit, hDirect]
      · rw [hDone]
        refine iff_of_false (fun hSame => ?_) ?_
        · have hSame : middle = db := hSame
          rw [hSame] at hMiddle
          cases hRow.symm.trans hMiddle
          exact onContent_planOwned_ne hEmpty hContent.symm
        · rintro (hIs | ⟨hGit, hDirect, _⟩ | ⟨_, hIs⟩)
          · exact hFirst hIs
          · exact hRefused ⟨hGit, hDirect⟩
          · cases hIs

/-- The title of the snapshot can be given, and is what is written. -/
def TitleKept (current target : Document) : Prop :=
  current.title = target.title ∨ trimmedTitle target.title = .ok target.title

def TitleRefused (current target : Document) : Prop :=
  current.title ≠ target.title ∧ ∀ title, trimmedTitle target.title ≠ .ok title

/-- When the rollback of a document keeps to its promise. -/
def DocumentRestorable (db : Database) (current target : Document) : Prop :=
  TitleRefused current target ∨ (TitleKept current target ∧ db.Keeps)

/-- What both commands leave of the document and of everything else. -/
structure DocumentLanded (id : DocumentId) (title content : String) (before after : Database) : Prop where
  row : ∀ current, before.documents.find? id = some current → ∃ row, after.documents.find? id = some row ∧
    row.title = title ∧ row.content = content
  documents : ∀ other, (after.documents.find? other).map (fun doc => (doc.taskId, doc.status)) =
    (before.documents.find? other).map fun doc => (doc.taskId, doc.status)
  tasks : after.tasks = before.tasks
  relations : after.relations = before.relations
  agentClaims : after.agentClaims = before.agentClaims

theorem DocumentLanded.keeps (h : DocumentLanded id title content db after) : after.Keeps ↔ db.Keeps := by
  constructor
  · intro hKeeps
    exact hKeeps.of_same (fun task => by rw [h.tasks]) (fun other => (h.documents other).symm) h.relations.symm h.agentClaims.symm
  · intro hKeeps
    exact hKeeps.of_same (fun task => by rw [h.tasks]) h.documents h.relations h.agentClaims

theorem DocumentLanded.trans {title' content' : String} {current : Document} (hFirst : DocumentLanded id title content db middle)
    (h : DocumentLanded id title' content' middle after) (hRow : db.documents.find? id = some current) :
    DocumentLanded id title' content' db after := by
  refine ⟨fun _ _ => ?_, fun other => (h.documents other).trans (hFirst.documents other), h.tasks.trans hFirst.tasks,
    h.relations.trans hFirst.relations, h.agentClaims.trans hFirst.agentClaims⟩
  obtain ⟨row, hMiddle, _⟩ := hFirst.row current hRow
  exact h.row row hMiddle

theorem updateDocument_lands {f : Document → Document} {current : Document}
    (hRow : db.documents.find? id = some current) (hId : (f current).id = current.id)
    (hAlike : ((f current).taskId, (f current).status) = (current.taskId, current.status))
    (hTasks : after.tasks = db.tasks) (hDocuments : after.documents = DocumentRepo.updateDocument db.documents id f)
    (hRelations : after.relations = db.relations) (hClaims : after.agentClaims = db.agentClaims) :
    DocumentLanded id (f current).title (f current).content db after := by
  have hKey : current.id = id := KeyedTable.key_of_find? hRow
  have hFound : ∀ other, after.documents.find? other = if id = other then some (f current) else db.documents.find? other := by
    intro other
    rw [hDocuments]
    unfold DocumentRepo.updateDocument
    rw [hRow]
    dsimp only
    rw [KeyedTable.find?_insertOrReplace, hId, hKey]
  refine ⟨fun _ _ => ⟨f current, ?_, rfl, rfl⟩, fun other => ?_, hTasks, hRelations, hClaims⟩
  · rw [hFound, if_pos rfl]
  · rw [hFound]
    by_cases hIs : id = other
    · rw [if_pos hIs, ← hIs, hRow, Option.map_some, Option.map_some, hAlike]
    · rw [if_neg hIs]

theorem rename_runs {id : DocumentId} {title trimmed : String} {current : Document} (hMints : MintsNew env db)
    (hRow : db.documents.find? id = some current) (hTitle : trimmedTitle title = .ok trimmed) :
    ∃ answer after,
      handleWithRunOwner config env .internal (.document (.renameDocument id title)) actor db = (.ok answer, after) ∧
      DocumentLanded id trimmed current.content db after ∧
      ∀ eventId, db.events.find? eventId = none → (∀ n, eventId ≠ (env.part 2).fresh n) →
        after.events.find? eventId = none := by
  have hBuilt : DocumentCommands.buildEvents db ((env.part 0).part 1) (.renameDocument id title) =
      .ok [.documentRenamed id trimmed ((env.part 0).part 1).now] := by
    dsimp only [DocumentCommands.buildEvents]
    rw [hTitle]
    unfold requireDocument DocumentRepo.get
    rw [hRow]
    rfl
  have hQuiet : (Event.document (.documentRenamed id trimmed ((env.part 0).part 1).now)).IsQuiet := trivial
  obtain ⟨answer, after, hHandled, hTasks, hDocuments, hRelations, hClaims, hIds⟩ := document_runs hMints hQuiet hBuilt
  exact ⟨answer, after, hHandled, updateDocument_lands hRow rfl rfl hTasks hDocuments hRelations hClaims, hIds⟩

theorem replace_runs {id : DocumentId} {content : String} {current : Document} (hMints : MintsNew env db)
    (hRow : db.documents.find? id = some current) : ∃ answer after,
      handleWithRunOwner config env .internal (.document (.replaceDocumentContent id content)) actor db =
        (.ok answer, after) ∧
      DocumentLanded id current.title content db after := by
  have hBuilt : DocumentCommands.buildEvents db ((env.part 0).part 1) (.replaceDocumentContent id content) =
      .ok [.documentContentReplaced id content ((env.part 0).part 1).now] := by
    dsimp only [DocumentCommands.buildEvents]
    unfold requireDocument DocumentRepo.get
    rw [hRow]
    rfl
  have hQuiet : (Event.document (.documentContentReplaced id content ((env.part 0).part 1).now)).IsQuiet := trivial
  obtain ⟨answer, after, hHandled, hTasks, hDocuments, hRelations, hClaims, _⟩ := document_runs hMints hQuiet hBuilt
  exact ⟨answer, after, hHandled, updateDocument_lands hRow rfl rfl hTasks hDocuments hRelations hClaims⟩

theorem content_lands {n : Nat} {current : Document} {content : String} {id : DocumentId}
    (hMints : MintsNew (env.part n) db) (hRow : db.documents.find? id = some current) :
    ∃ after, dispatchAll config env actor n (if current.content ≠ content then
        [.document (.replaceDocumentContent id content)] else []) db = (.ok (), after) ∧
      DocumentLanded id current.title content db after := by
  by_cases hSame : current.content = content
  · rw [if_neg (not_not.mpr hSame)]
    refine ⟨db, rfl, fun other hOther => ?_, fun _ => rfl, rfl, rfl, rfl⟩
    cases hRow.symm.trans hOther
    exact ⟨current, hRow, rfl, hSame⟩
  · rw [if_pos hSame]
    obtain ⟨answer, after, hHandled, hLanded⟩ := @replace_runs config (env.part n) actor db id content current hMints hRow
    refine ⟨after, ?_, hLanded⟩
    rw [dispatchAll, bind_eq, hHandled]
    rfl

theorem document_dispatches {current target : Document}
    (hRow : db.documents.find? target.id = some current) (hVersion : version.after = some (.document target))
    (hRight : rights.documents = true) :
    rollbackHistoryVersion config env rights actor version db = dispatchAll config env actor 0
      ((if current.title ≠ target.title then [.document (.renameDocument target.id target.title)] else []) ++
        if current.content ≠ target.content then [.document (.replaceDocumentContent target.id target.content)] else []) db := by
  have hCommands : rollbackCommands db rights version = .ok
      ((if current.title ≠ target.title then [.document (.renameDocument target.id target.title)] else []) ++
        if current.content ≠ target.content then [.document (.replaceDocumentContent target.id target.content)] else []) := by
    unfold rollbackCommands rollbackDocumentCommands requireRight
    rw [hVersion, hRight]
    change (do
      let current ← Outcome.okOr (db.documents.find? target.id) _
      pure ((if current.title ≠ target.title then [.document (.renameDocument target.id target.title)] else []) ++
        if current.content ≠ target.content then
          [.document (.replaceDocumentContent target.id target.content)] else []) : Result (List Command)) = _
    rw [hRow]
    rfl
  unfold rollbackHistoryVersion
  rw [bind_eq]
  dsimp only [Stateful.get]
  rw [bind_eq]
  dsimp only [Stateful.lift]
  rw [hCommands]

theorem DocumentLanded.restores {current target : Document}
    (h : DocumentLanded target.id title target.content db after) (hRow : db.documents.find? target.id = some current)
    (hVersion : version.after = some (.document target)) :
    Restores version db (.ok (), after) ↔ title = target.title ∧ db.Keeps := by
  obtain ⟨row, hWritten, hTitle, hContent⟩ := h.row current hRow
  unfold Restores
  rw [hVersion]
  dsimp only
  rw [h.keeps, and_comm]
  refine and_congr_left fun _ => ?_
  constructor
  · rintro ⟨other, hOther, hSame, _⟩
    cases hWritten.symm.trans hOther
    exact hTitle.symm.trans hSame
  · intro hSame
    exact ⟨row, hWritten, hTitle.trans hSame, hContent⟩

theorem document_restores {current target : Document} (hMints : MintsNew env db)
    (hRow : db.documents.find? target.id = some current) (hVersion : version.after = some (.document target))
    (hRight : rights.documents = true) :
    Restores version db (rollbackHistoryVersion config env rights actor version db) ↔
      DocumentRestorable db current target := by
  rw [document_dispatches hRow hVersion hRight]
  unfold DocumentRestorable TitleKept TitleRefused
  by_cases hSame : current.title = target.title
  · rw [if_neg (not_not.mpr hSame)]
    obtain ⟨after, hHandled, hLanded⟩ :=
      @content_lands config env actor db 0 current target.content target.id (hMints.part 0) hRow
    dsimp only [List.nil_append]
    rw [hHandled, hLanded.restores hRow hVersion]
    simp [hSame]
  · rw [if_pos hSame]
    dsimp only [List.cons_append, List.nil_append]
    rw [dispatchAll, bind_eq]
    cases hTitle : trimmedTitle target.title with
    | error e =>
      have hRefused : handleWithRunOwner config (env.part 0) .internal
          (.document (.renameDocument target.id target.title)) actor db = (.error e, db) := by
        refine Handler.handle_unbuilt rfl rfl ?_
        change recorded .document (DocumentCommands.buildEvents db _ (.renameDocument target.id target.title)) db.relations = _
        dsimp only [DocumentCommands.buildEvents]
        rw [hTitle]
        rfl
      rw [hRefused]
      exact iff_of_true rfl (.inl ⟨hSame, fun title hIs => by cases hIs⟩)
    | ok trimmed =>
      obtain ⟨answer, middle, hRenamed, hMiddle, hIds⟩ :=
        @rename_runs config (env.part 0) actor db target.id target.title trimmed current (hMints.part 0) hRow hTitle
      obtain ⟨row, hMiddleRow, hRowTitle, hRowContent⟩ := hMiddle.row current hRow
      have hLater : MintsNew (env.part 1) middle := hMints.later (by decide) hIds
      obtain ⟨after, hHandled, hLanded⟩ :=
        @content_lands config env actor middle 1 row target.content target.id hLater hMiddleRow
      rw [hRenamed]
      dsimp only
      rw [← hRowContent, hHandled, ((hMiddle.trans hLanded hRow).restores hRow hVersion), hRowTitle]
      simp [hSame]

/-- When a rollback keeps to its promise: whatever it is that the version holds. -/
def Restorable (config : Config) (rights : RollbackRights) (db : Database) (version : HistoryVersion) : Prop :=
  match version.after with
  | some (.task target) => rights.tasks = false ∨
      ∀ current, db.tasks.find? target.id = some current → TaskRestorable config rights db current target
  | some (.document target) => rights.documents = false ∨
      ∀ current, db.documents.find? target.id = some current → DocumentRestorable db current target
  | _ => True

theorem restores_nothing (h : ∃ e, rollbackCommands db rights version = .error e) :
    Restores version db (rollbackHistoryVersion config env rights actor version db) := by
  obtain ⟨e, hCommands⟩ := h
  unfold rollbackHistoryVersion
  rw [bind_eq]
  dsimp only [Stateful.get]
  rw [bind_eq]
  dsimp only [Stateful.lift]
  rw [hCommands]
  rfl

theorem no_task_commands (hVersion : version.after = some (.task target))
    (hMissing : rights.tasks = false ∨ db.tasks.find? target.id = none) :
    ∃ e, rollbackCommands db rights version = .error e := by
  unfold rollbackCommands requireRight
  rw [hVersion]
  cases hRight : rights.tasks with
  | false => exact ⟨_, rfl⟩
  | true =>
    rcases hMissing with hMissing | hMissing
    · cases hRight.symm.trans hMissing
    · change ∃ e, rollbackTaskCommands db rights target = .error e
      unfold rollbackTaskCommands
      rw [hMissing]
      exact ⟨_, rfl⟩

theorem no_document_commands {target : Document} (hVersion : version.after = some (.document target))
    (hMissing : rights.documents = false ∨ db.documents.find? target.id = none) :
    ∃ e, rollbackCommands db rights version = .error e := by
  unfold rollbackCommands requireRight
  rw [hVersion]
  cases hRight : rights.documents with
  | false => exact ⟨_, rfl⟩
  | true =>
    rcases hMissing with hMissing | hMissing
    · cases hRight.symm.trans hMissing
    · change ∃ e, rollbackDocumentCommands db target = .error e
      unfold rollbackDocumentCommands
      rw [hMissing]
      exact ⟨_, rfl⟩

theorem iff_of_row {α : Type} {row : Option α} {current : α} {holds : α → Prop} (hRow : row = some current) :
    holds current ↔ true = false ∨ ∀ other, row = some other → holds other := by
  constructor
  · intro h
    refine .inr fun other hOther => ?_
    cases hRow.symm.trans hOther
    exact h
  · rintro (hNone | h)
    · cases hNone
    · exact h current hRow

/-- A rollback leaves the snapshot and a state that ordinary commands keep, or nothing
of it, exactly in the cases that are named. -/
theorem rollback_restores_iff (config : Config) (env : Env) (rights : RollbackRights) (actor : Actor)
    (version : HistoryVersion) (db : Database) (hMints : Handler.MintsNew env db) (hKeys : TaskRepo.KeysDistinct db.tasks) :
    Restores version db (rollbackHistoryVersion config env rights actor version db) ↔ Restorable config rights db version := by
  unfold Restorable
  cases hVersion : version.after with
  | none =>
    have hNone : ∃ e, rollbackCommands db rights version = .error e := by
      unfold rollbackCommands
      rw [hVersion]
      exact ⟨_, rfl⟩
    exact iff_of_true (restores_nothing hNone) trivial
  | some snapshot =>
    cases snapshot with
    | other entityType =>
      have hNone : ∃ e, rollbackCommands db rights version = .error e := by
        unfold rollbackCommands
        rw [hVersion]
        exact ⟨_, rfl⟩
      exact iff_of_true (restores_nothing hNone) trivial
    | task target =>
      cases hRow : db.tasks.find? target.id with
      | none => exact iff_of_true (restores_nothing (no_task_commands hVersion (.inr hRow))) (.inr fun _ h => by cases hRow.symm.trans h)
      | some current =>
        cases hRight : rights.tasks with
        | false => exact iff_of_true (restores_nothing (no_task_commands hVersion (.inl hRight))) (.inl rfl)
        | true =>
          exact (task_restores hMints hKeys hRow hVersion hRight).trans
            (@iff_of_row _ _ _ (fun held => TaskRestorable config rights db held target) hRow)
    | document target =>
      cases hRow : db.documents.find? target.id with
      | none =>
        exact iff_of_true (restores_nothing (no_document_commands hVersion (.inr hRow))) (.inr fun _ h => by cases hRow.symm.trans h)
      | some current =>
        cases hRight : rights.documents with
        | false => exact iff_of_true (restores_nothing (no_document_commands hVersion (.inl hRight))) (.inl rfl)
        | true =>
          exact (document_restores hMints hRow hVersion hRight).trans
            (@iff_of_row _ _ _ (fun held => DocumentRestorable db held target) hRow)

theorem Restores.not_of_ok {before : Database} {outcome : Except CoreError Unit × Database}
    (hOk : outcome.1 = .ok ()) (hNot : ¬outcome.2.Keeps) : ¬Restores version before outcome := by
  obtain ⟨answer, after⟩ := outcome
  cases hOk
  exact fun h => hNot h.1

private def everyRight : RollbackRights := ⟨true, true, true⟩

private def completedRun : List Command :=
  [.task (.createTask { NewTask.new "task" with id := some ⟨7⟩ }), .task (.createTask { NewTask.new "other" with id := some ⟨8⟩ }),
    .task (.completeTask ⟨7⟩ none)]

private def completed : Database := Server.run Server.engineConfig (Server.commands completedRun)

/-- The completed task is opened again, and the other one blocks it. -/
private def reopened : Database := Server.run Server.engineConfig (Server.commands (completedRun ++
  [.task (.setStatus ⟨7⟩ .todo false none none), .relation (.linkTasks ⟨8⟩ ⟨7⟩ .blocks)]))

private def reopenedEnv : Env := (Server.nthEnv 9).part 1

private def versionOf (db : Database) (id : TaskId) : HistoryVersion := ⟨"version", (db.tasks.find? id).map .task⟩

private theorem reopened_keys : TaskRepo.KeysDistinct reopened.tasks := by
  intro first hFirst second hSecond
  have hAll : ∀ first ∈ reopened.tasks.rows, ∀ second ∈ reopened.tasks.rows, first.externalKey.isSome = true →
    first.externalKey = second.externalKey → first.id = second.id := by decide +kernel
  exact hAll first hFirst second hSecond

private def rolledBack : Except CoreError Unit × Database :=
  rollbackHistoryVersion Server.engineConfig reopenedEnv everyRight .anyUser (versionOf completed ⟨7⟩) reopened

private def rowOf (db : Database) (id : TaskId) : Option (Status × Bool) :=
  (db.tasks.find? id).map fun task => (task.status, task.completedAt.isSome)

private def accepted : Except CoreError Unit → Bool
  | .ok _ => true
  | .error _ => false

private theorem ok_of_accepted {answer : Except CoreError Unit} (h : accepted answer = true) : answer = .ok () := by
  cases answer with
  | ok => rfl
  | error e => cases h

private theorem not_keeps_of_row {db : Database} {id : TaskId} (h : rowOf db id = some (.done, false)) : ¬db.Keeps := by
  intro hKeeps
  obtain ⟨task, hTask, hStanding⟩ := Option.map_eq_some_iff.mp h
  obtain ⟨hStatus, hCompleted⟩ := Prod.mk.inj hStanding
  have hKept := (hKeeps task (KeyedTable.mem_of_find? hTask)).completed
  rw [hStatus, hCompleted] at hKept
  cases hKept

/-- The condition at a rollback that goes back behind the reopening of a task. -/
theorem rollback_restores_iff_reopened : Restores (versionOf completed ⟨7⟩) reopened rolledBack ↔
      Restorable Server.engineConfig everyRight reopened (versionOf completed ⟨7⟩) :=
  rollback_restores_iff Server.engineConfig reopenedEnv everyRight .anyUser (versionOf completed ⟨7⟩) reopened
    (Handler.mintsNew_of_calls (by decide +kernel)) reopened_keys

/-- The rollback to a version in which the task was done succeeds after the task was
opened again: it is done, has no time of completion, and is blocked. -/
theorem rollback_completes_blocked : rowOf completed ⟨7⟩ = some (.done, true) ∧ rowOf reopened ⟨7⟩ = some (.todo, false) ∧
    rolledBack.1 = .ok () ∧ rowOf rolledBack.2 ⟨7⟩ = some (.done, false) ∧
    RelationEnforcement.listActiveBlockers rolledBack.2.relations rolledBack.2.tasks ⟨7⟩ = [⟨8⟩] ∧
    ¬Restores (versionOf completed ⟨7⟩) reopened rolledBack := by
  have hRow : rowOf rolledBack.2 ⟨7⟩ = some (.done, false) := by decide +kernel
  have hAnswer : rolledBack.1 = .ok () := ok_of_accepted (by decide +kernel)
  refine ⟨by decide +kernel, by decide +kernel, hAnswer, hRow, by decide +kernel, ?_⟩
  exact Restores.not_of_ok hAnswer (not_keeps_of_row hRow)

end Rollback
end Daruma
