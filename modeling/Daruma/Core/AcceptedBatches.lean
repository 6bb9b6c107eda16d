import Daruma.Core.Batches

/-! What an accepted batch holds: the events of its builder, the sources of its plan and the plans
that close. -/
namespace Daruma

open Outcome List
open PlanConcurrency (detectParentCycle)

namespace PlanCommands

variable {config : Config} {db : Database} {env : Env} {links : Bool} {actor : Actor} {command : Command}

variable {task : NewTask} {target : MaterializeTarget} {n : Nat} {tasks : List NewTask} {planId : PlanId}

theorem prepareTask_ok {projectId : ProjectId} : Yields (prepareTask projectId task) fun prepared =>
      prepared.id = task.id ∧ prepared.status = some (task.status.getD .todo) ∧
        prepared.externalKey = normalizedKey task.externalKey :=
  .andThen fun _ _ => .andThen fun _ _ => .pure ⟨rfl, rfl, rfl⟩

variable {events : List Event}

theorem materializedTask_ok {id : TaskId} (h : materializedTask db env target actor task = .ok (id, events)) :
    (∃ key existing, task.externalKey = some key ∧ TaskRepo.findByExternalKey db key = some existing ∧
        existing.projectId = some target.projectId ∧ id = existing.id ∧
        events = redeliveredCreateEvents (env.part 1) existing.id key task actor) ∨
      (task.externalKey.bind (TaskRepo.findByExternalKey db) = none ∧ id = task.id.getD (env.fresh 0) ∧
        events = createdEvents env target actor id task) := by
  unfold materializedTask at h
  split at h
  · rename_i key existing hFound
    obtain ⟨key', hKey, hFound⟩ := Option.bind_eq_some_iff.mp hFound
    obtain ⟨found, hFind, hPair⟩ := Option.map_eq_some_iff.mp hFound
    cases hPair
    split at h
    · cases h
    · rename_i hProject
      cases h
      exact .inl ⟨key, existing, hKey, hFind, not_not.mp hProject, rfl, rfl⟩
  · rename_i hFound
    cases h
    refine .inr ⟨?_, rfl, rfl⟩
    cases hKey : task.externalKey with
    | none => rfl
    | some key =>
      rw [hKey] at hFound
      exact Option.map_eq_none_iff.mp hFound

def batchIntakes (env : Env) (n : Nat) (tasks : List NewTask) : List Intake :=
  tasks.mapIdx fun k new =>
    ⟨new.id.getD ((env.part (n + k)).fresh 0), new.status.getD .todo, normalizedKey new.externalKey, true⟩

theorem batchIntakes_cons {rest : List NewTask} : batchIntakes env n (task :: rest) =
      ⟨task.id.getD ((env.part n).fresh 0), task.status.getD .todo, normalizedKey task.externalKey, true⟩ ::
        batchIntakes env (n + 1) rest := by
  simp only [batchIntakes, mapIdx_cons, Nat.add_zero, Nat.add_assoc, Nat.add_comm 1]

theorem materializedTaskEvents_records {outer : Env} {position : Nat} {batchKeys : List String}
    (hPlaces : command.places = true) (hLoud : command.isQuiet = false)
    (hIntakes : ∀ intake ∈ batchIntakes env n tasks, intake ∈ command.intakes outer) :
    Yields (materializedTaskEvents db env target actor n position batchKeys tasks) (AllRecords db outer links command) := by
  induction tasks generalizing n position batchKeys with
  | nil => exact .ok .nil
  | cons task rest ih =>
    rw [batchIntakes_cons] at hIntakes
    obtain ⟨hFirst, hRest⟩ := forall_mem_cons.mp hIntakes
    refine .bind prepareTask_ok fun prepared ⟨hId, hStatus, hKey⟩ => .andThen fun keys _ =>
      .andThen fun ⟨id, events⟩ hEvents => ?_
    have hTask : AllRecords db outer links command events ∧
        (command.Brings db outer id ∨ ∃ task, db.tasks.find? id = some task ∧ task.projectId.isSome = true) := by
      rcases materializedTask_ok hEvents with
        ⟨key, existing, _, hFind, hProject, rfl, rfl⟩ | ⟨hUnknown, rfl, rfl⟩
      · refine ⟨commentEvents_records _, .inr ⟨existing, ?_, by rw [hProject]; rfl⟩⟩
        exact KeyedTable.find?_of_mem (mem_of_find?_eq_some hFind)
      · rw [hKey] at hUnknown
        have hCreates : command.Creates db outer { prepared with
            id := some (prepared.id.getD ((env.part n).fresh 0)) } := by
          refine ⟨_, hFirst, by simp [Intake.isNew, hUnknown], ?_, ?_, hKey⟩
          · rw [hId]
          · rw [hStatus]
            rfl
        have hBrings := TaskCommands.creates_brings hCreates rfl
        refine ⟨.cons (.created hPlaces hCreates) (.append ?_ ?_), .inl hBrings⟩
        · cases target.gitContext with
          | none => exact .nil
          | some context => exact .cons (.inherited hBrings) .nil
        · cases target.sourceNote with
          | none => exact .nil
          | some sourceNote => exact commentEvents_records _
    exact .ite (fun _ => .bind (ih hRest) fun later hLater => .pure (.append hTask.1 hLater)) fun _ =>
      .bind (ih hRest) fun later hLater => .pure (.append hTask.1 (.cons (.joined hPlaces hLoud fun _ => hTask.2) hLater))

variable {plan given : NewPlan}

theorem materialize_records {planId : Option PlanId} :
    Yields (materialize db (env.part 1) target actor tasks)
      (AllRecords db env links (.plan (.materializePlan plan tasks planId))) := by
  refine materializedTaskEvents_records rfl rfl fun intake hMem => ?_
  simpa only [batchIntakes, Nat.zero_add, Command.intakes] using hMem

theorem newPlan_parent {title : String} : Yields (do
    match plan.parentPlanId with
    | some parent => detectParentCycle db (env.fresh 0) parent
    | none => pure ()
    pure ({ plan with title := title }.intoPlan (env.fresh 0) env.now)) fun created =>
      (∃ title, created = { plan with title := title }.intoPlan (env.fresh 0) env.now) ∧
        ∀ parent, plan.parentPlanId = some parent → detectParentCycle db (env.fresh 0) parent = .ok () := by
  split
  · rename_i parent hPlan
    refine .andThen fun _ hChecked => .pure ⟨⟨title, rfl⟩, fun other hOther => ?_⟩
    cases hPlan.symm.trans hOther
    exact hChecked
  · rename_i hPlan
    exact .pure ⟨⟨title, rfl⟩, fun other hOther => by cases hPlan.symm.trans hOther⟩

theorem newPlan_ok : Yields (newPlan config db env plan) fun created =>
    (∃ title, created = { plan with title := title }.intoPlan (env.fresh 0) env.now) ∧
      ∀ parent, plan.parentPlanId = some parent → detectParentCycle db (env.fresh 0) parent = .ok () := by
  refine .andThen fun title _ => ?_
  dsimp only
  split
  · exact .andThen fun _ _ => newPlan_parent
  · exact newPlan_parent

theorem createPlan_rule {externalRef : Option (String × String × String)} {P : List Event → Prop}
    (hKnown : P []) (hNew : Yields (newPlan config db env plan) fun created => P [.plan (.planCreated created)]) :
    Yields (buildEvents config db env actor (.createPlan plan externalRef)) P := by
  unfold buildEvents createPlan
  refine .map ?_
  exact .ite (fun _ => .ok hKnown) fun _ => .bind hNew fun _ h => .pure h

theorem createPlan_records {externalRef : Option (String × String × String)} :
    Yields (buildEvents config db env actor (.createPlan plan externalRef))
      (AllRecords db env links (.plan (.createPlan given externalRef))) := by
  refine createPlan_rule .nil (.mono newPlan_ok fun created ⟨⟨title, hCreated⟩, hParent⟩ => ?_)
  subst hCreated
  exact .cons (.planCreated rfl rfl hParent (.inl rfl) rfl) .nil

theorem materializePlan_records : Yields (buildEvents config db env actor (.materializePlan plan tasks none))
    (AllRecords db env links (.plan (.materializePlan given tasks none))) := by
  refine .andThen fun _ _ => .bind newPlan_ok fun created ⟨⟨title, hCreated⟩, hParent⟩ =>
    .bind materialize_records fun _ hEvents => .pure (.cons ?_ hEvents)
  subst hCreated
  exact .planCreated rfl rfl hParent (.inr rfl) rfl

theorem requirePlan_ok {id : PlanId} : Yields (requirePlan db id) fun plan => db.plans.find? id = some plan :=
  fun _ hOk => okOr_eq_ok.mp hOk

theorem reopenEvents_records {plan : Plan} (hPlan : db.plans.find? planId = some plan) :
    Yields (reopenEvents plan) (AllRecords db env links (.plan (.materializePlan given tasks (some planId)))) := by
  obtain rfl : plan.id = planId := KeyedTable.key_of_find? hPlan
  refine .andThen fun _ _ => ?_
  split
  · exact .error _
  · rename_i hStatus
    exact .pure (.cons (.planReopened hPlan hStatus) .nil)
  · exact .pure .nil
  · exact .pure .nil

theorem activeRun_of_listed {run : Run} (h : run ∈ RunRepo.listActiveForPlan db planId) : ActiveRun db run.id := by
  obtain ⟨hStored, hIs⟩ := mem_filter.mp (mem_orderBy.mp h)
  rw [Bool.and_eq_true, decide_eq_true_eq, decide_eq_true_eq] at hIs
  exact ⟨run, KeyedTable.find?_of_mem hStored, hIs.2⟩

theorem abortedRuns_records {command : PlanCommand} {now : Timestamp} {reason : String}
    (hCommand : Command.plan command = .plan (.archivePlan planId) ∨ Command.plan command = .plan (.deletePlan planId)) :
    AllRecords db env links (.plan command) (abortedRuns db now planId reason) := by
  intro event hMem
  obtain ⟨run, hRun, hEvent⟩ := mem_flatMap.mp hMem
  rcases mem_cons.mp hEvent with rfl | hEvent
  · exact .planRun rfl (.inr ⟨activeRun_of_listed hRun, planId, hCommand⟩)
  · rw [mem_singleton.mp hEvent]
    exact .planRun rfl trivial

theorem updateEvents_records {patch : PlanPatch} {plan : Plan} (hPlan : db.plans.find? planId = some plan)
    (hParents : ∀ parent, patch.parentPlanId = some (some parent) → detectParentCycle db planId parent = .ok ()) :
    AllRecords db env links (.plan (.updatePlan planId patch)) (((match patch.goal with
      | some goal => if goal = plan.goal then [] else [PlanEvent.planGoalChanged planId plan.goal goal]
      | none => []) ++ [.planUpdated planId patch]).map .plan) := by
  rw [map_append]
  refine .append (forall_mem_map.mpr fun event hGoal => ?_)
    (.cons (.planUpdated (Option.isSome_of_eq_some hPlan) hParents) .nil)
  split at hGoal
  · split at hGoal
    · cases hGoal
    · rw [mem_singleton.mp hGoal]
      exact .aside rfl
  · cases hGoal

theorem updatePlan_records {patch : PlanPatch} : Yields (List.map Event.plan <$> updatePlan db planId patch)
    (AllRecords db env links (.plan (.updatePlan planId patch))) := by
  refine .map (.andThen fun _ _ => .bind requirePlan_ok fun plan hPlan => ?_)
  dsimp only
  split
  · rename_i parent hPatched
    refine .andThen fun _ hChecked => .pure (updateEvents_records hPlan fun other hOther => ?_)
    obtain rfl := Option.some.inj (Option.some.inj (hPatched.symm.trans hOther))
    exact hChecked
  · rename_i hNone
    exact .pure (updateEvents_records hPlan fun other hOther => absurd hOther (hNone other))

theorem buildEvents_records {command : PlanCommand} :
    Yields (buildEvents config db env actor command) (AllRecords db env links (.plan command)) := by
  have hAside : ∀ {event : PlanEvent}, event.isAside = true → MayRecord db env links (.plan command) (.plan event) := .aside
  cases command with
  | createPlan plan externalRef => exact createPlan_records
  | materializePlan plan tasks planId =>
    cases planId with
    | none => exact materializePlan_records
    | some planId =>
      exact .andThen fun _ _ => .bind requirePlan_ok fun existing hPlan => .bind (reopenEvents_records hPlan)
        fun _ hReopened => .andThen fun _ _ => .andThen fun _ _ => .bind materialize_records
        fun _ hEvents => .pure (.append hReopened hEvents)
  | extendSource => exact .ok .nil
  | updatePlan id patch => exact updatePlan_records
  | amendPlanTask planId taskId patch =>
    refine .andThen fun _ _ => .andThen fun _ hOwned => .andThen fun _ _ => .andThen fun _ _ => .andThen fun _ _ =>
      .andThen fun _ _ => .pure (.cons (hAside rfl) (.cons (.amended ?_) (.cons (hAside rfl) .nil)))
    have hFields := ensure_eq_ok.mp hOwned
    simp only [Bool.and_eq_true, Option.isNone_iff_eq_none] at hFields
    exact hFields.1.1.1
  | archivePlan id =>
    exact .andThen fun _ _ => .ite (fun _ => .pure .nil) fun _ =>
      .pure (.cons .planArchived (abortedRuns_records (.inl rfl)))
  | deletePlan id =>
    exact .andThen fun _ _ => .andThen fun _ _ => .pure (.cons .planDeleted (abortedRuns_records (.inr rfl)))
  | addPlanTask planId taskId position dependsOn =>
    exact .map (.andThen fun _ _ => .andThen fun _ _ => .pure
      (.cons (.joined rfl rfl fun hTakesIn => by cases hTakesIn) (.cons (hAside rfl) .nil)))
  | bulkAttachToPlan planId taskIds =>
    refine .map (.andThen fun _ _ => .andThen fun _ _ => .andThen fun _ _ => .ite (fun _ => .pure .nil) fun _ => .pure ?_)
    rw [map_append, map_map]
    exact .append (.map fun _ => .joined rfl rfl fun hTakesIn => by cases hTakesIn) (.cons (hAside rfl) .nil)
  | removePlanTask planId taskId =>
    refine .andThen fun _ _ => .pure (.cons (.left (.inr rfl)) ?_)
    split
    · rename_i run hFound
      exact .cons .contested (.cons (.planRun rfl
        (.inr ⟨activeRun_of_listed (mem_of_find?_eq_some hFound), planId, rfl⟩)) .nil)
    · exact .nil
  | reorderPlan planId order => exact .map (.andThen fun _ _ => .pure (.cons (hAside rfl) (.cons (hAside rfl) .nil)))
  | setPlanGoal planId goal =>
    exact .map (.andThen fun plan _ => .ite (fun _ => .pure .nil) fun _ =>
      .pure (.cons (hAside rfl) (.cons .goalUpdated .nil)))
  | setPlanStatus id status force reason =>
    refine .map (.bind requirePlan_ok fun plan hPlan => .ite (fun _ => .pure .nil) fun _ => ?_)
    dsimp only
    have hEvent : AllRecords db env links (.plan (.setPlanStatus id status force reason))
        [.plan (.planStatusChanged id plan.status status)] := .cons (.planMoved hPlan) .nil
    exact .ite (fun _ => .andThen fun _ _ => .pure hEvent) fun _ => .pure hEvent

end PlanCommands

namespace RunCommands

variable {config : Config} {db : Database} {env : Env} {links : Bool} {actor : Actor} {id : RunId}

theorem requireRun_active {run : Run} (hFound : requireRun db id = .ok run)
    (hActive : run.status = .active) : ActiveRun db id :=
  ⟨run, okOr_eq_ok.mp hFound, hActive⟩

theorem stepsClosed_of_postconditions {codec : TextCodec}
    (h : ensureRunPostconditions codec db id = .ok ()) : StepsClosed db id := by
  have hSteps : ∀ steps : List RunStep, steps.forM (ensureStep codec db id) = .ok () →
      ∀ step ∈ steps, step.finishedAt.isSome = true := by
    intro steps hChecked
    induction steps with
    | nil => exact fun _ hMem => absurd hMem not_mem_nil
    | cons first rest ih =>
      obtain ⟨_, hFirst, hRest⟩ := bind_eq_ok.mp hChecked
      obtain ⟨_, hFinished, _⟩ := bind_eq_ok.mp hFirst
      exact forall_mem_cons.mpr ⟨ensure_eq_ok.mp hFinished, ih hRest⟩
  intro step hMem hRun
  refine hSteps _ h step ?_
  rw [RunRepo.listSteps, mem_orderBy]
  exact mem_filter.mpr ⟨hMem, decide_eq_true hRun⟩

theorem buildEvents_records {command : RunCommand} : Yields (buildEvents config db env actor command)
    (Everywhere fun event => MayRecord db env links (.run command) (.run event)) := by
  cases command with
  | startRun planId agentId parentRunId =>
    exact .andThen fun _ _ => .andThen fun _ _ =>
      .pure (.cons (.run rfl ⟨rfl, rfl, planId, agentId, parentRunId, rfl⟩) .nil)
  | runStartStep runId taskId =>
    exact .andThen fun run hRun => .andThen fun _ hActive =>
      .pure (.cons (.run rfl ⟨rfl, requireRun_active hRun (of_decide_eq_true (ensure_eq_ok.mp hActive))⟩) .nil)
  | runFinishStep runId taskId outcome =>
    refine .andThen fun _ _ => .ite (fun _ => .pure .nil) fun hOther => .pure (.cons (.run rfl (.inl ⟨rfl, ?_⟩)) .nil)
    rintro ⟨step, hLatest, hFinished, hOutcome⟩
    exact hOther (by simp [hLatest, hFinished, hOutcome])
  | completeRun runId =>
    exact .andThen fun run hRun => .andThen fun _ hActive => .andThen fun _ hSteps =>
      .pure (.cons (.run rfl ⟨rfl, requireRun_active hRun (of_decide_eq_true (ensure_eq_ok.mp hActive)),
        stepsClosed_of_postconditions hSteps⟩) .nil)
  | failRun runId reason => exact .andThen fun _ _ => .pure (.cons (.run rfl rfl) .nil)
  | abortRun runId reason => exact .andThen fun _ _ => .pure (.cons (.run rfl (.inl rfl)) .nil)
  | appendRunNote runId body =>
    exact .andThen fun _ _ => .andThen fun _ _ => .andThen fun _ _ => .andThen fun _ _ =>
      .pure (.cons (.run rfl trivial) .nil)
  | sendRunSignal runId kind =>
    refine .andThen fun _ _ => ?_
    cases kind with
    | interventionAccepted => exact .error _
    | _ => exact .pure (.cons (.run rfl trivial) .nil)
  | respondRunSignal runId choice => exact .andThen fun _ _ => .pure (.cons (.run rfl trivial) .nil)

end RunCommands

theorem ProjectCommands.buildEvents_records {config : Config} {db : Database} {env : Env} {links : Bool} {command : ProjectCommand} :
    Yields (buildEvents config db env command)
      (Everywhere fun event => MayRecord db env links (.project command) (.project event)) := by
  cases command with
  | createProject | updateProject => exact fun _ _ _ _ => .project fun _ => rfl
  | updateProjectSettings projectId autoAppend intakeSource audit =>
    have hStored : Yields (do
        let _ ← requireProject db projectId
        let current := ProjectSettingsRepo.autoAppend db projectId
        pure [ProjectEvent.projectSettingsChanged projectId (current.apply autoAppend) env.now intakeSource audit])
        (Everywhere fun event => MayRecord db env links
          (.project (.updateProjectSettings projectId autoAppend intakeSource audit)) (.project event)) :=
      .andThen fun _ _ => .pure (.cons (.project fun hWrites => by cases hWrites) .nil)
    change Yields (updateProjectSettings config db env.now projectId autoAppend intakeSource audit) _
    unfold updateProjectSettings
    split
    · split
      · exact .andThen fun _ _ => .andThen fun _ _ => hStored
      · exact .andThen fun _ _ => hStored
    · split
      · exact .andThen fun _ _ => hStored
      · exact hStored
  | deleteProject id =>
    exact .andThen fun _ _ => .andThen fun _ _ => .pure (.cons (.project fun hWrites => by cases hWrites) .nil)

section

variable {config : Config} {db : Database} {env : Env} {links : Bool} {actor : Actor} {command : Command}

theorem buildEvents_records : Stateful.Yields (buildEvents config db env actor command) (AllRecords db env links command) := by
  have hGroup : ∀ {Kind : Type} {group : Kind → Event} {events : Result (List Kind)},
      Yields events (Everywhere fun event => MayRecord db env links command (group event)) →
        Stateful.Yields (recorded group events) (AllRecords db env links command) :=
    fun h => .lift (.map (.mono h fun _ hAll => forall_mem_map.mpr hAll))
  cases command with
  | task command => exact TaskCommands.buildEvents_records
  | relation command => exact RelationCommands.buildEvents_records
  | plan command => exact .lift PlanCommands.buildEvents_records
  | run command => exact hGroup RunCommands.buildEvents_records
  | project command => exact hGroup ProjectCommands.buildEvents_records
  | claim command => exact .lift (.ok (.cons .claim .nil))
  | lease command => exact .lift (.ok (.cons .lease .nil))
  | comment => exact hGroup fun _ _ _ _ => .comment
  | session => exact hGroup fun _ _ _ _ => .session
  | workUnit => exact hGroup fun _ _ _ _ => .workUnit
  | handoff => exact hGroup fun _ _ _ _ => .handoff
  | document => exact hGroup fun _ _ _ _ => .document
  | rule => exact hGroup fun _ _ _ _ => .rule
  | evidence => exact hGroup fun _ _ _ _ => .evidence
  | artifact => exact hGroup fun _ _ _ _ => .artifact

/-- Resolving a source may rewrite the plan that is to be made. -/
inductive Resolved : Command → Command → Prop where
  | same {command : Command} : Resolved command command
  | materialized {plan resolved : NewPlan} {tasks : List NewTask} :
    Resolved (.plan (.materializePlan plan tasks none)) (.plan (.materializePlan resolved tasks none))
  | created {plan resolved : NewPlan} {externalRef : Option (String × String × String)} :
    Resolved (.plan (.createPlan plan externalRef)) (.plan (.createPlan resolved externalRef))

theorem Resolved.records {resolved : Command} (h : Resolved command resolved) :
    Stateful.Yields (buildEvents config db env actor resolved) (AllRecords db env links command) := by
  cases h with
  | same => exact buildEvents_records
  | materialized => exact .lift PlanCommands.materializePlan_records
  | created => exact .lift PlanCommands.createPlan_records

end

open Stateful

def PlanEvent.isLink : PlanEvent → Bool
  | .sourceUpserted _ | .planSourceSet .. => true
  | _ => false

namespace PlanSource

variable {codec : TextCodec} {db : Database} {env outer : Env} {actor : Actor} {command : PlanCommand}

variable {keepExisting : Bool} {acc : Linking} {nodes : List SourceNode} {plan : NewPlan}

/-- Linking sources says where plans come from, and nothing else. -/
abbrev OnlyLinks (events : List PlanEvent) : Prop := Everywhere (fun event => event.isLink = true) events

theorem OnlyLinks.records {events : List PlanEvent} (h : OnlyLinks events) :
    AllRecords db outer true (.plan command) (events.map .plan) := by
  refine forall_mem_map.mpr fun event hMem => ?_
  have hLink := h event hMem
  cases event with
  | sourceUpserted => exact .source rfl
  | planSourceSet => exact .sourceSet rfl
  | _ => cases hLink

theorem mergeNode_onlyLinks {node : SourceNode} (h : OnlyLinks acc.events) :
    Yields (mergeNode db keepExisting acc node) fun merged => OnlyLinks merged.1.events := by
  have hRecord : ∀ next : SourceNode, OnlyLinks (acc.events ++ [.sourceUpserted next]) := by
    exact fun next => .append h (.cons rfl .nil)
  unfold mergeNode
  dsimp only
  split
  · refine .ok ?_
    dsimp only
    split
    · exact h
    · exact hRecord _
  · split
    · refine .ok ?_
      dsimp only
      split
      · exact h
      · exact hRecord _
    · refine .ite (fun _ => ?_) fun _ => .error _
      split
      · exact .error _
      · refine .ok ?_
        dsimp only
        split
        · exact h
        · exact hRecord _

theorem mergeNodes_onlyLinks (h : OnlyLinks acc.events) :
    Yields (mergeNodes db keepExisting acc nodes) fun merged => OnlyLinks merged.events := by
  induction nodes generalizing acc with
  | nil => exact .ok h
  | cons node rest ih =>
    exact .bind (mergeNode_onlyLinks h) fun merged hMerged =>
      .ite (fun _ => .pure hMerged) fun _ => ih hMerged

theorem linkSources_onlyLinks : Yields (linkSources db nodes keepExisting) fun linked => OnlyLinks linked.1 := by
  refine .bind (mergeNodes_onlyLinks .nil) fun linked hLinked => ?_
  split
  · exact .pure hLinked
  · exact .andThen fun _ _ => .pure hLinked

theorem planSourceEvents_onlyLinks :
    Yields (planSourceEvents codec db env plan nodes actor) fun linked => OnlyLinks linked.1 := by
  unfold planSourceEvents
  split
  · exact .ok .nil
  · exact .andThen fun _ _ => linkSources_onlyLinks
  · exact linkSources_onlyLinks

theorem resolvePlanSource_onlyLinks :
    Yields (resolvePlanSource codec db env plan actor) fun resolved => OnlyLinks resolved.2.1 :=
  .andThen fun _ _ => .andThen fun _ _ => .bind planSourceEvents_onlyLinks fun _ hLinked => .pure hLinked

variable {upstream : List SourceInput}

theorem extendFrom_onlyLinks {start : String} {byRef : Bool} : Yields (extendFrom codec db env start byRef upstream actor)
    fun extended => OnlyLinks extended.1 :=
  .andThen fun _ _ => .andThen fun _ _ => .andThen fun _ _ => .andThen fun _ _ =>
    .bind linkSources_onlyLinks fun _ hLinked => .pure hLinked

theorem extendSource_onlyLinks {planId : Option PlanId} {sourceRef : Option String} {source : Option SourceInput} :
    Yields (extendSource codec db env planId sourceRef source upstream actor)
      fun extended => OnlyLinks extended.1 := by
  unfold extendSource
  split
  · refine .andThen fun plan _ => ?_
    split
    · exact .andThen fun _ _ => .andThen fun _ _ => .andThen fun _ _ =>
        .bind linkSources_onlyLinks fun linked hLinked => .pure (.append hLinked (.cons rfl .nil))
    · exact .error _
    · exact .error _
    · exact extendFrom_onlyLinks
  · exact .andThen fun _ _ => .andThen fun _ _ => .andThen fun _ _ => extendFrom_onlyLinks
  · exact .error _

end PlanSource

namespace Handler

variable {config : Config} {db : Database} {env outer : Env} {caller : Caller} {actor : Actor} {command : Command}

theorem resolveSource_recorded : Yields (resolveSource config db env actor command) fun sourced =>
    Resolved command sourced.command ∧ AllRecords db outer true command (sourced.events.map .plan) := by
  unfold resolveSource
  split
  · refine .bind PlanSource.resolvePlanSource_onlyLinks fun resolved hLinked => .ite (fun _ => ?_) fun _ => ?_
    · exact .pure ⟨.materialized, hLinked.records⟩
    · exact .andThen fun _ _ => .pure ⟨.materialized, hLinked.records⟩
  · exact .bind PlanSource.resolvePlanSource_onlyLinks fun resolved hLinked =>
      .pure ⟨.created, hLinked.records⟩
  · exact .andThen fun prepared _ => .bind PlanSource.planSourceEvents_onlyLinks fun linked hLinked =>
      .pure ⟨.created, hLinked.records⟩
  · exact .bind PlanSource.extendSource_onlyLinks fun extended hExtended => .pure ⟨.same, hExtended.records⟩
  · exact .pure ⟨.same, .nil⟩

/-- Only evidence is put on record under another name. -/
theorem authenticated_cases (caller : Caller) (event : Event) : authenticated caller event = event ∨
    ∃ given recorded, event = .evidence given ∧ authenticated caller event = .evidence recorded := by
  unfold authenticated
  split
  · exact .inr ⟨_, _, rfl, rfl⟩
  · exact .inl rfl

/-- The events of a command before plans are reconciled. -/
def unreconciled (config : Config) (db : Database) (env : Env) (caller : Caller) (actor : Actor)
    (command : Command) : Building (List Event) := do
  let sourced ← Stateful.lift (resolveSource config db (env.part 0) actor command)
  let built ← buildEvents config db (env.part 1) actor sourced.command
  pure ((withSource sourced built).map (authenticated caller))

theorem draft_unreconciled {batch : List Event} {warnings : List MutationWarning} {before relations : Relations}
    (h : draft config db env caller actor command before = (.ok (batch, warnings), relations)) :
    ∃ events, unreconciled config db env caller actor command before = (.ok events, relations) ∧
      batch = events ++ (Reconciliation.planReconciliations db events).map .plan := by
  obtain ⟨sourced, middle, hSourced, h⟩ := bind_eq_ok.mp h
  obtain ⟨built, later, hBuilt, h⟩ := bind_eq_ok.mp h
  obtain ⟨hBatch, rfl⟩ := pure_eq.mp h
  cases hBatch
  refine ⟨_, bind_eq_ok.mpr ⟨sourced, middle, hSourced, bind_eq_ok.mpr ⟨built, later, hBuilt, ?_⟩⟩, rfl⟩
  exact pure_eq.mpr ⟨rfl, rfl⟩

theorem unreconciled_records :
    Stateful.Yields (unreconciled config db env caller actor command) (AllRecords db (env.part 1) true command) := by
  have hResolved : Yields (resolveSource config db (env.part 0) actor command) fun sourced =>
      Resolved command sourced.command ∧ AllRecords db (env.part 1) true command (sourced.events.map .plan) :=
    resolveSource_recorded
  have hBuilds : ∀ resolved, Resolved command resolved → Stateful.Yields (buildEvents config db (env.part 1) actor resolved)
      (AllRecords db (env.part 1) true command) := fun _ hCommand => hCommand.records
  refine .bind (.lift hResolved) fun sourced ⟨hCommand, hSource⟩ =>
    .bind (hBuilds _ hCommand) fun built hBuilt => .pure (forall_mem_map.mpr fun event hMem => ?_)
  have hRecords : MayRecord db (env.part 1) true command event := by
    unfold withSource at hMem
    split at hMem
    · exact (mem_append.mp hMem).elim (hSource event) (hBuilt event)
    · exact hBuilt event hMem
  rcases authenticated_cases caller event with hIs | ⟨_, _, _, hIs⟩
  · exact hIs.symm ▸ hRecords
  · rw [hIs]
    exact .evidence

end Handler

namespace Reconciliation

variable {db : Database} {env : Env} {command : Command}

variable {steps : Nat} {pending : Pending}

theorem drain_closes {event : PlanEvent} (h : event ∈ drain db steps pending) :
    ∃ planId fromStatus, event = .planStatusChanged planId fromStatus .completed := by
  induction steps generalizing pending with
  | zero => exact absurd h not_mem_nil
  | succ steps ih =>
    unfold drain at h
    split at h
    · exact absurd h not_mem_nil
    · split at h
      · exact ih h
      · split at h
        · rcases mem_cons.mp h with rfl | hLater
          · exact ⟨_, _, rfl⟩
          · exact ih hLater
        · exact ih h

theorem drain_nil (h : pending.candidates = []) : drain db steps pending = [] := by
  cases steps with
  | zero => rfl
  | succ steps => simp only [drain, h]

end Reconciliation

def Sanctioned (db : Database) (env : Env) (command : Command) : Event → Prop
  | .task (.taskCreated new) => command.Creates db env new
  | .task (.taskSplitGenerated _ subtasks) => ∀ new ∈ subtasks, command.Creates db env new
  | .task (.taskUpdated id patch) =>
    (patch.status = none ∧ command.Brings db env id) ∨
      (command.IsPlain ∧ (patch.status = none ∨ command.patchesStatus id patch.status))
  | .task (.taskCompleted id ..) => ∃ completionNote, command = .task (.completeTask id completionNote)
  | .task (.taskDueElapsed ..) => False
  | .task _ => command.IsPlain
  -- A task that joins a plan with its intake has a project already, or is new.
  | .plan (.planTaskAdded _ id ..) => command.isQuiet = false ∧ (command.takesIn = true →
      command.Brings db env id ∨ ∃ task, db.tasks.find? id = some task ∧ task.projectId.isSome = true)
  | .plan _ | .document _ => command.isQuiet = false
  | .run event => event.isNote = command.isQuiet
  | .claim _ | .handoff _ | .rule _ | .artifact _ => command.isQuiet = true
  | .lease _ => ∃ lease, command = .lease lease
  | _ => True

section

variable {db : Database} {env : Env} {links : Bool} {command : Command} {event : Event}

theorem MayRecord.sanctioned (h : MayRecord db env links command event) : Sanctioned db env command event := by
  cases h with
  | created _ hCreates => exact hCreates
  | split hAll => exact hAll
  | patched hStatus => exact .inr ⟨⟨rfl, rfl⟩, .inr ⟨rfl, hStatus.symm⟩⟩
  | placed hMoves => exact .inr ⟨TaskCommand.plain_of_moves hMoves, .inl rfl⟩
  | inherited hBrings => exact .inl ⟨rfl, hBrings⟩
  | amended hNone => exact .inr ⟨⟨rfl, rfl⟩, .inl hNone⟩
  | moved hMoves | reopened hMoves | closed hMoves => exact TaskCommand.plain_of_moves hMoves
  | documentClosed hMoves => exact (TaskCommand.plain_of_moves hMoves).2
  | completed => exact ⟨_, rfl⟩
  | unblocked hFrees => exact Command.plain_of_frees hFrees
  | prioritised | deleted | contested => exact ⟨rfl, rfl⟩
  | joined _ hLoud hIntake => exact ⟨hLoud, hIntake⟩
  | @aside command event hAside =>
    cases event with
    | planTaskAdded => cases hAside
    | _ => rfl
  | left hCommand =>
    rcases hCommand with rfl | rfl
    · rfl
    · rfl
  | planCreated hCreates =>
    cases command with
    | plan => rfl
    | _ => cases hCreates
  | run hNote | planRun hNote => exact hNote
  | lease => exact ⟨_, rfl⟩
  | comment | relation | project | session | workUnit | evidence => exact trivial
  | _ => rfl

end

namespace Reconciliation

variable {db : Database} {env : Env} {command : Command} {pending : Pending}

theorem note_candidates {event : Event} (hQuiet : command.isQuiet = true)
    (h : Sanctioned db env command event) : note db pending event = pending := by
  have hNotPlain : ¬command.IsPlain := fun hPlain => by
    rw [hPlain.2] at hQuiet
    cases hQuiet
  cases event with
  | task event =>
    cases event with
    | taskStatusChanged => exact absurd h hNotPlain
    | _ => rfl
  | plan event =>
    cases event with
    | planStatusChanged | planArchived => exact absurd (h.symm.trans hQuiet) Bool.false_ne_true
    | _ => rfl
  | run event =>
    cases event with
    | runCompleted | runFailed | runAborted => exact absurd (h.trans hQuiet) Bool.false_ne_true
    | _ => rfl
  | _ => rfl

theorem planReconciliations_sanctioned (h : Everywhere (Sanctioned db env command) events) :
    Everywhere (Sanctioned db env command) ((planReconciliations db events).map .plan) := by
  cases hQuiet : command.isQuiet with
  | false =>
    refine forall_mem_map.mpr fun event hMem => ?_
    obtain ⟨planId, fromStatus, rfl⟩ := drain_closes hMem
    exact hQuiet
  | true =>
    have hNoted : ∀ pending, events.foldl (note db) pending = pending := by
      intro pending
      induction events with
      | nil => rfl
      | cons event rest ih =>
        obtain ⟨hEvent, hRest⟩ := forall_mem_cons.mp h
        rw [foldl_cons, note_candidates hQuiet hEvent]
        exact ih hRest
    have hNone : planReconciliations db events = [] := by
      unfold planReconciliations
      rw [hNoted]
      exact drain_nil rfl
    rw [hNone]
    exact .nil

end Reconciliation

namespace Handler

variable {config : Config} {db : Database} {env : Env} {caller : Caller} {actor claimed : Actor} {command : Command}

/-- What holds of the events that a command may record, and of plans that close, holds of a batch. -/
theorem draft_rule {P : Event → Prop} (hRecords : ∀ event, MayRecord db (env.part 1) true command event → P event)
    (hCloses : ∀ id fromStatus, P (.plan (.planStatusChanged id fromStatus .completed))) :
    Stateful.Yields (draft config db env caller actor command) fun drafted => Everywhere P drafted.1 := by
  intro relations drafted later hDrafted
  obtain ⟨events, hEvents, hBatch⟩ := draft_unreconciled hDrafted
  rw [hBatch]
  refine .append (fun event hMem => hRecords event (unreconciled_records _ _ _ hEvents event hMem))
    (forall_mem_map.mpr fun event hMem => ?_)
  obtain ⟨planId, fromStatus, rfl⟩ := Reconciliation.drain_closes hMem
  exact hCloses planId fromStatus

theorem draft_sanctioned : Stateful.Yields (draft config db env caller actor command)
    fun drafted => Everywhere (Sanctioned db (env.part 1) command) drafted.1 := by
  intro relations drafted later hDrafted
  obtain ⟨events, hEvents, hBatch⟩ := draft_unreconciled hDrafted
  have hAll : Everywhere (Sanctioned db (env.part 1) command) events :=
    fun event hMem => (unreconciled_records _ _ _ hEvents event hMem).sanctioned
  rw [hBatch]
  exact .append hAll (Reconciliation.planReconciliations_sanctioned hAll)

/-- Where the builders of a call mint. -/
def builderEnv (env : Env) : Env := (env.part 0).part 1

variable {batch : List Event} {relations : Relations} {trail : GateStage.Trail} {persisted : List EventEnvelope}
  {appended : Database}

theorem Accepted.sanctioned
    (h : Accepted config env caller command claimed db batch relations trail persisted appended) :
    Everywhere (Sanctioned db (builderEnv env) command) batch := by
  obtain ⟨warnings, hBuilt⟩ := h.built
  exact draft_sanctioned _ _ _ hBuilt

variable {warnings : List MutationWarning}

theorem draft_of_unsourced {actor : Actor}
    (hSource : resolveSource config db ((env.part 0).part 0) actor command = .ok ⟨command, [], []⟩)
    {batch : List Event} {relations : Relations}
    (h : draft config db (env.part 0) caller actor command db.relations = (.ok (batch, warnings), relations)) :
    ∃ built, buildEvents config db (builderEnv env) actor command db.relations = (.ok built, relations) ∧
      batch = built.map (authenticated caller) ++
        (Reconciliation.planReconciliations db (built.map (authenticated caller))).map .plan := by
  obtain ⟨sourced, hResolved, h⟩ := lift_bind_ok.mp h
  cases hSource.symm.trans hResolved
  obtain ⟨built, middle, hBuilt, h⟩ := bind_eq_ok.mp h
  obtain ⟨hBatch, rfl⟩ := pure_eq.mp h
  have hUnsourced : withSource ⟨command, [], []⟩ built = built := by
    unfold withSource
    split <;> rfl
  rw [hUnsourced] at hBatch
  cases hBatch
  exact ⟨built, hBuilt, rfl⟩

theorem draft_ok {actor : Actor} (hPlan : ∀ plan, command ≠ .plan plan) {batch : List Event} {relations : Relations}
    (h : draft config db (env.part 0) caller actor command db.relations = (.ok (batch, warnings), relations)) :
    ∃ built, buildEvents config db (builderEnv env) actor command db.relations = (.ok built, relations) ∧
      batch = built.map (authenticated caller) ++
        (Reconciliation.planReconciliations db (built.map (authenticated caller))).map .plan := by
  refine draft_of_unsourced ?_ h
  cases command with
  | plan plan => exact absurd rfl (hPlan plan)
  | _ => rfl

theorem Accepted.of_task {command : TaskCommand}
    (h : Accepted config env caller (.task command) claimed db batch relations trail persisted appended) :
    ∃ built, TaskCommands.buildEvents config db (builderEnv env) (attributedActor caller (.task command) claimed)
        command db.relations = (.ok built, relations) ∧
      batch = built.map (authenticated caller) ++
        (Reconciliation.planReconciliations db (built.map (authenticated caller))).map .plan := by
  obtain ⟨warnings, hDraft⟩ := h.built
  exact draft_ok (fun plan hIs => by cases hIs) hDraft

theorem Accepted.mem_of_task {command : TaskCommand}
    (h : Accepted config env caller (.task command) claimed db batch relations trail persisted appended) :
    ∃ built, TaskCommands.buildEvents config db (builderEnv env) (attributedActor caller (.task command) claimed)
        command db.relations = (.ok built, relations) ∧
      ∀ event : TaskEvent, .task event ∈ built → .task event ∈ batch := by
  obtain ⟨built, hBuilt, rfl⟩ := h.of_task
  refine ⟨built, hBuilt, fun event hMem => mem_append_left _ (mem_map.mpr ?_)⟩
  exact ⟨_, hMem, rfl⟩

end Handler
end Daruma
