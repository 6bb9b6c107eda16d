import Daruma.Core.ClosedPlans
import Daruma.Core.TaskLandings

/-! The limits of tenants over runs of the server: which commands count before they
create, and what the others bring into a tenant uncounted. -/
namespace Daruma

open Outcome List
open TenantQuotaRepo (checkPlanQuota checkTaskQuota)

namespace PlanSource

variable {codec : TextCodec} {db : Database} {env : Env} {actor : Actor}

theorem OnlyLinks.landsNothing {events : List PlanEvent} (h : OnlyLinks events) : LandsNothing (events.map .plan) := by
  refine forall_mem_map.mpr fun event hMem => ?_
  have hLink := h event hMem
  cases event with
  | sourceUpserted | planSourceSet => rfl
  | _ => cases hLink

variable {plan : NewPlan}

theorem sourcedPlan_project (explicit : Option String) : Yields (do
    let nodes ← match plan.source with
      | some source => sourceNodes codec env (some source) [] actor
      | none => pure []
    let sourceRef ← nearestRef explicit nodes
    let gitContext ← normalizedContext plan.gitContext
    pure ({ plan with sourceRef := sourceRef, source := none, gitContext := gitContext }, nodes) :
      Result (NewPlan × List SourceNode)) fun prepared => prepared.1.projectId = plan.projectId := by
  split
  · exact .andThen fun _ _ => .andThen fun _ _ => .andThen fun _ _ => .pure rfl
  · exact .andThen fun _ _ => .andThen fun _ _ => .andThen fun _ _ => .pure rfl

theorem preparePlanSource_project :
    Yields (preparePlanSource codec env plan actor) fun prepared => prepared.1.projectId = plan.projectId := by
  unfold preparePlanSource
  refine .andThen fun _ _ => ?_
  cases plan.sourceRef with
  | none => exact sourcedPlan_project none
  | some raw => exact .andThen fun _ _ => sourcedPlan_project _

theorem autoParent_project {mayAutoParent : Bool} :
    Yields (autoParent db env plan mayAutoParent) fun parented => parented.1.projectId = plan.projectId := by
  unfold autoParent
  split
  · split
    · exact .ok rfl
    · split
      · exact .error _
      · exact .ok rfl
  · exact .ok rfl

theorem resolvePlanSource_project : Yields (resolvePlanSource codec db env plan actor)
    fun resolved => OnlyLinks resolved.2.1 ∧ resolved.1.projectId = plan.projectId := by
  have hPoliced : ∀ {given : NewPlan} {nearest : Option SourceNode}, Yields (applySourcePolicy codec db (env.part 1) given nearest)
      fun policed => policed.1.projectId = given.projectId :=
    .andThen fun _ _ => .bind autoParent_project fun _ hParented => .andThen fun _ _ => .pure hParented
  exact .bind preparePlanSource_project fun prepared hPrepared => .bind hPoliced fun policed hIs =>
    .bind planSourceEvents_onlyLinks fun linked hLinked => .pure ⟨hLinked, hIs.trans hPrepared⟩

end PlanSource

namespace Handler

variable {config : Config} {db : Database} {env outer : Env} {caller : Caller} {actor claimed : Actor} {command : Command}
  {batch : List Event} {relations : Relations} {trail : GateStage.Trail} {persisted : List EventEnvelope}
  {appended : Database}

structure Resolves (config : Config) (db : Database) (env : Env) (command : Command) (sourced : Sourced) : Prop where
  linked : LandsNothing (sourced.events.map .plan)
  landings : sourced.command.landings config db env = command.landings config db env
  makes : sourced.command.makes env = command.makes env
  settles : sourced.command.settles db env = command.settles db env
  mints : command.MintsPlan db env → sourced.command.MintsPlan db env
  extending : isExtending sourced.command = true → command.makes env = []
  intakes : sourced.command.intakes env = command.intakes env
  same : sourced.command = command ∨
    (command.takesIn = true ∧ ∃ plan tasks, sourced.command = .plan (.materializePlan plan tasks none)) ∨
    ∃ plan externalRef, sourced.command = .plan (.createPlan plan externalRef)

theorem resolveSource_resolves :
    Yields (resolveSource config db env actor command) (Resolves config db outer command) := by
  unfold resolveSource
  split
  · rename_i plan tasks
    refine .bind PlanSource.resolvePlanSource_project fun resolved ⟨hOnly, hProject⟩ => ?_
    have hResolves : ∀ warnings, Resolves config db outer (.plan (.materializePlan plan tasks none))
        ⟨.plan (.materializePlan resolved.1 tasks none), resolved.2.1, warnings⟩ := by
      intro warnings
      refine ⟨hOnly.landsNothing, ?_, ?_, rfl, id, nofun, rfl, .inr (.inl ⟨rfl, _, _, rfl⟩)⟩
      · show Landings.materialized db outer resolved.1.projectId tasks = _
        rw [hProject]
        rfl
      · show [(_, resolved.1.projectId)] = _
        rw [hProject]
        rfl
    exact .ite (fun _ => .pure (hResolves _)) fun _ => .andThen fun _ _ => .pure (hResolves _)
  · rename_i plan
    refine .bind PlanSource.resolvePlanSource_project fun resolved ⟨hOnly, hProject⟩ =>
      .pure ⟨hOnly.landsNothing, rfl, ?_, rfl, id, nofun, rfl, .inr (.inr ⟨_, _, rfl⟩)⟩
    show [(_, resolved.1.projectId)] = _
    rw [hProject]
    rfl
  · rename_i plan ref
    refine .bind PlanSource.preparePlanSource_project fun prepared hProject =>
      .bind PlanSource.planSourceEvents_onlyLinks fun linked hOnly =>
        .pure ⟨hOnly.landsNothing, rfl, ?_, rfl, id, nofun, rfl, .inr (.inr ⟨_, _, rfl⟩)⟩
    show [(_, prepared.1.projectId)] = _
    rw [hProject]
    rfl
  · exact .bind PlanSource.extendSource_onlyLinks fun extended hExtended =>
      .pure ⟨hExtended.landsNothing, rfl, rfl, rfl, id, fun _ => rfl, rfl, .inl rfl⟩
  · rename_i hOther
    refine .pure ⟨.nil, rfl, rfl, rfl, id, fun hExtends => ?_, rfl, .inl rfl⟩
    cases command with
    | plan command =>
      cases command with
      | extendSource => rfl
      | _ => cases hExtends
    | _ => cases hExtends

theorem Resolves.origins {sourced : Sourced} (h : Resolves config db env command sourced) :
    sourced.command.origins config db env = command.origins config db env := by
  unfold Command.origins
  rw [h.landings, h.makes, h.settles]

theorem lands_authenticated {origins : Origins} {event : Event} (h : event.Lands origins) :
    (authenticated caller event).Lands origins := by
  rcases authenticated_cases caller event with hIs | ⟨_, _, rfl, hIs⟩
  · exact hIs.symm ▸ h
  · rw [hIs]
    exact trivial

theorem unreconciled_lands (hMints : command.MintsPlan db (env.part 1)) :
    Stateful.Yields (unreconciled config db env caller actor command)
      (AllLand (command.origins config db (env.part 1))) := by
  refine .bind (.lift (@resolveSource_resolves config db _ (env.part 1) actor command)) fun sourced hResolves =>
    .bind (buildEvents_lands (hResolves.mints hMints)) fun built hBuilt => .pure (forall_mem_map.mpr fun event hMem => ?_)
  apply lands_authenticated
  rw [hResolves.origins] at hBuilt
  unfold withSource at hMem
  split at hMem
  · rcases mem_append.mp hMem with hLink | hMem
    · exact .of_nothing (hResolves.linked event hLink)
    · exact hBuilt event hMem
  · exact hBuilt event hMem

theorem Accepted.lands (h : Accepted config env caller command claimed db batch relations trail persisted appended)
    (hMints : command.MintsPlan db (builderEnv env)) :
    ∀ event ∈ persisted.map EventEnvelope.payload, event.Lands (command.origins config db (builderEnv env)) := by
  obtain ⟨warnings, hDraft⟩ := h.built
  obtain ⟨events, hEvents, rfl⟩ := draft_unreconciled hDraft
  have hLands := unreconciled_lands hMints _ _ _ hEvents
  refine h.payload_rule (fun hRelinking hEvent => ?_) (fun _ => trivial) fun _ _ _ => trivial
  rw [hRelinking.reads (·.Lands (command.origins config db (builderEnv env))) fun _ _ => rfl]
  rcases mem_append.mp hEvent with hEvent | hEvent
  · exact hLands _ hEvent
  · obtain ⟨closure, hClosure, rfl⟩ := mem_map.mp hEvent
    obtain ⟨planId, fromStatus, rfl⟩ := Reconciliation.drain_closes hClosure
    exact trivial

end Handler

namespace Server

open Handler (builderEnv)

variable {config : Config} {db : Database}

theorem command_cover {env : Env} {caller : Caller} {command : Command} {claimed : Actor}
    (hMints : command.MintsPlan db (builderEnv env)) :
    (command.origins config db (builderEnv env)).Cover (serve config db (.command env caller command claimed)) := by
  have hStored : (command.origins config db (builderEnv env)).Cover db := Command.origins_cover
  show Origins.Cover _ (Handler.handleWithRunOwner config env caller command claimed db).2
  refine Handler.handle_rule (fun hAudited => ?_) (fun hAccepted hApplied => ?_)
    fun ⟨_, _, _, _, _, _, hLines, _⟩ hCover => ?_
  · obtain ⟨_, _, _, _, _, _, rfl⟩ := hAudited
    exact ⟨hStored.tasks, hStored.plans, hStored.projects⟩
  · refine Projections.applyEvents_cover (hAccepted.lands hMints) hApplied ?_
    obtain ⟨_, _, _, _, _, rfl⟩ := hAccepted.frame
    exact ⟨hStored.tasks, hStored.plans, hStored.projects⟩
  · rw [hLines]
    exact ⟨hCover.tasks, hCover.plans, hCover.projects⟩

theorem serve_cover {origins : Origins} {call : Call} (hCall : Call.isCommand call = false) (hCover : origins.Cover db) :
    origins.Cover (serve config db call) := by
  refine serve_rule hCall fun ⟨_, _, _, _, _, _, hFrame, _⟩ => ?_
  rw [hFrame]
  exact ⟨hCover.tasks, hCover.plans, hCover.projects⟩

end Server

namespace TenantQuotaRepo

open ProjectRepo (defaultTenantId)

def holdsTask (db : Database) (tenant : String) (projectId : Option ProjectId) : Bool :=
  projectTenant db projectId = some tenant || (tenant = defaultTenantId && projectId.isNone)

def holdsPlan (db : Database) (tenant : String) (projectId : ProjectId) : Bool :=
  projectTenant db (some projectId) = some tenant

variable {db after : Database} {tenant : String} {quotas : TenantQuotas} {limits : TenantLimits} {limit : Int}

theorem countTasks_eq : countTasks db tenant = db.tasks.rows.countP fun task => holdsTask db tenant task.projectId := rfl

theorem countPlans_eq : countPlans db tenant = db.plans.rows.countP fun plan => holdsPlan db tenant plan.projectId := rfl

variable {projectId : Option ProjectId}

theorem tenantForProject_of_holds (h : holdsTask db tenant projectId = true) :
    tenantForProject db projectId = tenant := by
  unfold holdsTask at h
  rw [Bool.or_eq_true, Bool.and_eq_true, decide_eq_true_eq, decide_eq_true_eq] at h
  cases projectId with
  | none =>
    rcases h with hStored | ⟨hDefault, _⟩
    · cases hStored
    · exact hDefault.symm
  | some id =>
    rcases h with hStored | ⟨_, hNone⟩
    · show (projectTenant db (some id)).getD defaultTenantId = tenant
      rw [hStored]
      rfl
    · cases hNone

theorem task_fits (h : checkTaskQuota quotas db projectId = .ok ())
    (hHolds : holdsTask db tenant projectId = true) (hLimits : quotas tenant = some limits)
    (hLimit : limits.maxTasks = some limit) : countTasks db tenant + 1 ≤ limit := by
  unfold checkTaskQuota rejectIfFull at h
  dsimp only at h
  rw [tenantForProject_of_holds hHolds, hLimits, Option.bind_some, hLimit] at h
  dsimp only at h
  split at h
  · cases h
  · omega

theorem plan_fits {projectId : ProjectId} (h : checkPlanQuota quotas db projectId = .ok ())
    (hHolds : holdsPlan db tenant projectId = true) (hLimits : quotas tenant = some limits)
    (hLimit : limits.maxPlans = some limit) : countPlans db tenant + 1 ≤ limit := by
  have hTask : holdsTask db tenant (some projectId) = true := by
    unfold holdsPlan at hHolds
    unfold holdsTask
    rw [hHolds]
    rfl
  unfold checkPlanQuota rejectIfFull at h
  dsimp only at h
  rw [tenantForProject_of_holds hTask, hLimits, Option.bind_some, hLimit] at h
  dsimp only at h
  split at h
  · cases h
  · omega

end TenantQuotaRepo

theorem countP_rows_le {Key Row : Type} {key : Row → Key} {before after : KeyedTable Key Row key} {met meets : Row → Bool}
    {entering : List Key}
    (h : ∀ row ∈ after, meets row = true → (∃ old ∈ before, key old = key row ∧ met old = true) ∨ key row ∈ entering) :
    after.rows.countP meets ≤ before.rows.countP met + entering.length := by
  have hNodup : ((after.rows.filter meets).map key).Nodup := after.nodup.sublist (filter_sublist.map key)
  have hSubset : (after.rows.filter meets).map key ⊆ (before.rows.filter met).map key ++ entering := by
    intro k hKey
    obtain ⟨row, hRow, rfl⟩ := mem_map.mp hKey
    obtain ⟨hMem, hMeets⟩ := mem_filter.mp hRow
    rcases h row hMem hMeets with ⟨old, hOld, hSame, hMet⟩ | hEnters
    · exact mem_append_left _ (mem_map.mpr ⟨old, mem_filter.mpr ⟨hOld, hMet⟩, hSame⟩)
    · exact mem_append_right _ hEnters
  have hLength := (subperm_of_subset hNodup hSubset).length_le
  rw [length_append, length_map, length_map, ← countP_eq_length_filter,
    ← countP_eq_length_filter] at hLength
  exact hLength

namespace Command

open TenantQuotaRepo
open ProjectRepo (defaultTenantId)

def settlesIn (db : Database) (env : Env) (tenant : String) (command : Command) (projectId : ProjectId) : Bool :=
  tenant = defaultTenantId && projectId ∈ command.settles db env

/-- How many tasks the command may bring into a tenant: those that it lands in a
project of the tenant from elsewhere, and those of a project that becomes the
tenant's. -/
def enteringTasks (config : Config) (db : Database) (env : Env) (tenant : String) (command : Command) : Nat :=
  ((command.landings config db env).countP fun landing =>
      (holdsTask db tenant landing.2 || landing.2.any (command.settlesIn db env tenant)) &&
        !(db.tasks.find? landing.1).any fun task => holdsTask db tenant task.projectId) +
    db.tasks.rows.countP fun task =>
      task.projectId.any (command.settlesIn db env tenant) && !holdsTask db tenant task.projectId

/-- How many stored plans the command brings into a tenant with their project. -/
def enteringPlans (db : Database) (env : Env) (tenant : String) (command : Command) : Nat :=
  db.plans.rows.countP fun plan => command.settlesIn db env tenant plan.projectId && !holdsPlan db tenant plan.projectId

variable {config : Config} {db after : Database} {env : Env} {tenant : String} {command : Command}

theorem holdsPlan_of_cover (h : (command.origins config db env).Cover after) {projectId : ProjectId}
    (hHolds : holdsPlan after tenant projectId = true) :
    holdsPlan db tenant projectId = true ∨ command.settlesIn db env tenant projectId = true := by
  unfold holdsPlan at *
  rw [decide_eq_true_eq] at *
  obtain ⟨project, hFound, hTenant⟩ := Option.bind_eq_some_iff.mp hHolds
  have hFound : after.projects.find? projectId = some project := hFound
  have hOrigin := h.projects project (KeyedTable.mem_of_find? hFound)
  rw [KeyedTable.key_of_find? hFound, hTenant] at hOrigin
  rcases hOrigin with ⟨old, hOld, rfl, hSame⟩ | ⟨hSettles, hDefault⟩
  · refine .inl ?_
    show (db.projects.find? old.id).bind Project.tenantId = _
    rw [KeyedTable.find?_of_mem hOld]
    exact hSame
  · refine .inr ?_
    unfold settlesIn
    rw [Option.some.inj hDefault, Bool.and_eq_true, decide_eq_true_eq, decide_eq_true_eq]
    exact ⟨rfl, hSettles⟩

theorem holdsTask_of_cover (h : (command.origins config db env).Cover after) {projectId : Option ProjectId}
    (hHolds : holdsTask after tenant projectId = true) :
    holdsTask db tenant projectId = true ∨ projectId.any (command.settlesIn db env tenant) = true := by
  cases projectId with
  | none => exact .inl hHolds
  | some id =>
    have hPlan : holdsPlan after tenant id = true := by
      simpa [holdsTask, holdsPlan] using hHolds
    rcases holdsPlan_of_cover h hPlan with hBefore | hSettles
    · exact .inl (by simpa [holdsTask, holdsPlan] using hBefore)
    · exact .inr hSettles

theorem countTasks_le (h : (command.origins config db env).Cover after) :
    countTasks after tenant ≤ countTasks db tenant + command.enteringTasks config db env tenant := by
  have hCount := @countP_rows_le _ _ _ db.tasks after.tasks (fun task => holdsTask db tenant task.projectId)
    (fun task => holdsTask after tenant task.projectId)
    (((command.landings config db env).filter fun landing =>
        (holdsTask db tenant landing.2 || landing.2.any (command.settlesIn db env tenant)) &&
          !(db.tasks.find? landing.1).any fun task => holdsTask db tenant task.projectId).map Prod.fst ++
      (db.tasks.rows.filter fun task =>
        task.projectId.any (command.settlesIn db env tenant) && !holdsTask db tenant task.projectId).map Task.id) ?_
  · rw [length_append, length_map, length_map, ← countP_eq_length_filter,
      ← countP_eq_length_filter] at hCount
    rw [countTasks_eq, countTasks_eq]
    exact_mod_cast hCount
  intro task hTask hHolds
  have hReaches := holdsTask_of_cover h hHolds
  rcases h.tasks task hTask with ⟨old, hOld, hId, hProject⟩ | hLanded
  · by_cases hBefore : holdsTask db tenant old.projectId = true
    · exact .inl ⟨old, hOld, hId, hBefore⟩
    · refine .inr (mem_append_right _ (mem_map.mpr ⟨old, mem_filter.mpr ⟨hOld, ?_⟩, hId⟩))
      rw [← hProject] at hReaches
      simp [hReaches.resolve_left hBefore, hBefore]
  · by_cases hBefore : (db.tasks.find? task.id).any (fun task => holdsTask db tenant task.projectId) = true
    · cases hFound : db.tasks.find? task.id with
      | none =>
        rw [hFound] at hBefore
        cases hBefore
      | some old =>
        rw [hFound] at hBefore
        exact .inl ⟨old, KeyedTable.mem_of_find? hFound, KeyedTable.key_of_find? hFound, hBefore⟩
    · refine .inr (mem_append_left _ (mem_map.mpr ⟨_, mem_filter.mpr ⟨hLanded, ?_⟩, rfl⟩))
      rw [Bool.and_eq_true, Bool.or_eq_true, Bool.not_eq_true', Bool.eq_false_iff]
      exact ⟨hReaches, hBefore⟩

theorem countPlans_le (h : (command.origins config db env).Cover after) :
    countPlans after tenant ≤ countPlans db tenant + command.enteringPlans db env tenant +
      (command.makes env).countP fun made =>
        holdsPlan db tenant made.2 || command.settlesIn db env tenant made.2 := by
  have hCount := @countP_rows_le _ _ _ db.plans after.plans (fun plan => holdsPlan db tenant plan.projectId)
    (fun plan => holdsPlan after tenant plan.projectId)
    ((db.plans.rows.filter fun plan =>
        command.settlesIn db env tenant plan.projectId && !holdsPlan db tenant plan.projectId).map Plan.id ++
      ((command.makes env).filter fun made =>
        holdsPlan db tenant made.2 || command.settlesIn db env tenant made.2).map Prod.fst) ?_
  · rw [length_append, length_map, length_map, ← countP_eq_length_filter,
      ← countP_eq_length_filter, ← Nat.add_assoc] at hCount
    rw [countPlans_eq, countPlans_eq]
    exact_mod_cast hCount
  intro plan hPlan hHolds
  have hReaches := holdsPlan_of_cover h hHolds
  rcases h.plans plan hPlan with ⟨old, hOld, hId, hProject⟩ | hMade
  · by_cases hBefore : holdsPlan db tenant old.projectId = true
    · exact .inl ⟨old, hOld, hId, hBefore⟩
    · refine .inr (mem_append_left _ (mem_map.mpr ⟨old, mem_filter.mpr ⟨hOld, ?_⟩, hId⟩))
      rw [← hProject] at hReaches
      simp [hReaches.resolve_left hBefore, hBefore]
  · refine .inr (mem_append_right _ (mem_map.mpr ⟨_, mem_filter.mpr ⟨hMade, ?_⟩, rfl⟩))
    rw [Bool.or_eq_true]
    exact hReaches

end Command

section

variable {config : Config} {quotas : TenantQuotas} {db : Database} {env : Env} {actor : Actor}

theorem TaskCommands.createTask_checked (hQuotas : config.tenantQuotas = some quotas) {task : NewTask} :
    Yields (createTask config db env actor task) fun _ =>
      ((normalizedKey task.externalKey).bind (TaskRepo.findByExternalKey db)).isNone = true →
        checkTaskQuota quotas db task.projectId = .ok () := by
  refine .andThen fun _ _ => .andThen fun title _ => ?_
  dsimp only
  split
  · rename_i key existing hFound
    refine .pure fun hNone => ?_
    obtain ⟨key', hKey, hFound⟩ := Option.bind_eq_some_iff.mp hFound
    obtain ⟨found, hFind, _⟩ := Option.map_eq_some_iff.mp hFound
    rw [show normalizedKey task.externalKey = some key' from hKey, Option.bind_some, hFind] at hNone
    cases hNone
  · rw [hQuotas]
    exact .andThen fun _ hChecked => .pure fun _ => hChecked

theorem PlanCommands.newPlan_checked (hQuotas : config.tenantQuotas = some quotas) {plan : NewPlan} :
    Yields (newPlan config db env plan) fun _ => checkPlanQuota quotas db plan.projectId = .ok () := by
  refine .andThen fun title _ => ?_
  rw [hQuotas]
  refine .andThen fun _ hChecked => ?_
  split
  · exact .andThen fun _ _ => .pure hChecked
  · exact .pure hChecked

def PlansChecked (quotas : TenantQuotas) (db : Database) (env : Env) (command : Command) : Prop :=
  ∀ made ∈ command.makes env, checkPlanQuota quotas db made.2 = .ok ()

theorem buildEvents_checked (hQuotas : config.tenantQuotas = some quotas) {command : Command} :
    Stateful.Yields (buildEvents config db env actor command) fun built => built ≠ [] → PlansChecked quotas db env command := by
  have hNone : command.makes env = [] → Stateful.Yields (buildEvents config db env actor command)
      fun built => built ≠ [] → PlansChecked quotas db env command := by
    intro hMakes _ _ _ _ _ made hMade
    rw [hMakes] at hMade
    exact absurd hMade not_mem_nil
  have hOne : ∀ {id : PlanId} {projectId : ProjectId}, checkPlanQuota quotas db projectId = .ok () →
      ∀ made ∈ [(id, projectId)], checkPlanQuota quotas db made.2 = .ok () := by
    intro id projectId hChecked made hMade
    rw [mem_singleton.mp hMade]
    exact hChecked
  cases command with
  | plan command =>
    cases command with
    | createPlan plan externalRef =>
      exact .lift (PlanCommands.createPlan_rule (fun hEvents => absurd rfl hEvents)
        (.mono (PlanCommands.newPlan_checked hQuotas) fun _ hChecked _ => hOne hChecked))
    | materializePlan plan tasks planId =>
      cases planId with
      | none =>
        exact .lift (.andThen fun _ _ => .bind (PlanCommands.newPlan_checked hQuotas) fun _ hChecked => .andThen
          fun _ _ => .pure fun _ => hOne hChecked)
      | some planId => exact hNone rfl
    | _ => exact hNone rfl
  | _ => exact hNone rfl

end

namespace Handler

variable {config : Config} {quotas : TenantQuotas} {db : Database} {env : Env} {caller : Caller} {actor claimed : Actor}
  {command : Command} {batch : List Event} {relations : Relations} {trail : GateStage.Trail}
  {persisted : List EventEnvelope} {appended : Database}

theorem unreconciled_checked (hQuotas : config.tenantQuotas = some quotas) :
    Stateful.Yields (unreconciled config db env caller actor command) fun events =>
      events ≠ [] → PlansChecked quotas db (env.part 1) command := by
  refine .bind (.lift (@resolveSource_resolves config db _ (env.part 1) actor command)) fun sourced hResolves =>
    .bind (buildEvents_checked hQuotas) fun built hBuilt => .pure fun hEvents => ?_
  unfold PlansChecked at hBuilt ⊢
  rw [hResolves.makes] at hBuilt
  by_cases hNone : built = []
  · rw [hNone] at hEvents
    unfold withSource at hEvents
    split at hEvents
    · rename_i hExtends
      rw [any_nil, Bool.or_false] at hExtends
      rw [hResolves.extending hExtends]
      exact fun _ hMade => absurd hMade not_mem_nil
    · exact absurd rfl hEvents
  · exact hBuilt hNone

theorem Accepted.plans_checked (hQuotas : config.tenantQuotas = some quotas)
    (h : Accepted config env caller command claimed db batch relations trail persisted appended) :
    PlansChecked quotas db (builderEnv env) command := by
  obtain ⟨warnings, hDraft⟩ := h.built
  obtain ⟨events, hEvents, rfl⟩ := draft_unreconciled hDraft
  refine unreconciled_checked hQuotas _ _ _ hEvents fun hNone => h.nonempty ?_
  subst hNone
  exact (@Reconciliation.reconciled_none db db _ .nil).1 ▸ rfl

theorem Accepted.task_checked (hQuotas : config.tenantQuotas = some quotas) {new : NewTask}
    (h : Accepted config env caller (.task (.createTask new)) claimed db batch relations trail persisted appended)
    (hNew : ((normalizedKey new.externalKey).bind (TaskRepo.findByExternalKey db)).isNone = true) :
    checkTaskQuota quotas db new.projectId = .ok () := by
  obtain ⟨warnings, hDraft⟩ := h.built
  obtain ⟨built, hBuilt, _⟩ := draft_of_unsourced rfl hDraft
  exact TaskCommands.createTask_checked hQuotas _ (Stateful.lift_eq.mp hBuilt).1 hNew

end Handler

open TenantQuotaRepo

/-- A tenant has no more tasks and plans than its limits, or than it had. -/
def QuotasKept (quotas : TenantQuotas) (before after : Database) : Prop :=
  ∀ tenant limits, quotas tenant = some limits →
    (∀ limit, limits.maxTasks = some limit → countTasks after tenant ≤ max limit (countTasks before tenant)) ∧
    ∀ limit, limits.maxPlans = some limit → countPlans after tenant ≤ max limit (countPlans before tenant)

theorem QuotasKept.of_same {quotas : TenantQuotas} {before after : Database}
    (h : ∀ tenant, countTasks after tenant ≤ countTasks before tenant ∧ countPlans after tenant ≤ countPlans before tenant) :
    QuotasKept quotas before after := by
  refine fun tenant limits _ => ⟨fun limit _ => ?_, fun limit _ => ?_⟩
  · exact Int.le_trans (h tenant).1 (Int.le_max_right _ _)
  · exact Int.le_trans (h tenant).2 (Int.le_max_right _ _)

namespace Command

def countsTasks : Command → Bool
  | .task (.createTask _) => true
  | _ => false

/-- What the command brings into a tenant uncounted, its limits have room for. -/
structure Fits (config : Config) (quotas : TenantQuotas) (db : Database) (env : Env) (command : Command) : Prop where
  mints : command.MintsPlan db env
  tasks : command.countsTasks = false → ∀ tenant limits limit, quotas tenant = some limits → limits.maxTasks = some limit →
    command.enteringTasks config db env tenant = 0 ∨
      countTasks db tenant + command.enteringTasks config db env tenant ≤ limit
  plans : ∀ tenant limits limit, quotas tenant = some limits → limits.maxPlans = some limit →
    command.enteringPlans db env tenant = 0 ∨ countPlans db tenant + command.enteringPlans db env tenant ≤ limit

variable {config : Config} {quotas : TenantQuotas} {db : Database} {env : Env} {command : Command} {tenant : String}

theorem settlesIn_none (h : command.settles db env = []) (projectId : ProjectId) :
    command.settlesIn db env tenant projectId = false := by
  simp [settlesIn, h]

theorem makes_cases (command : Command) (db : Database) (env : Env) :
    command.makes env = [] ∨ (∃ made, command.makes env = [made]) ∧ command.settles db env = [] := by
  cases command with
  | plan command =>
    cases command with
    | createPlan => exact .inr ⟨⟨_, rfl⟩, rfl⟩
    | materializePlan plan tasks planId =>
      cases planId with
      | none => exact .inr ⟨⟨_, rfl⟩, rfl⟩
      | some planId => exact .inl rfl
    | _ => exact .inl rfl
  | _ => exact .inl rfl

theorem enteringPlans_none (h : command.settles db env = []) : command.enteringPlans db env tenant = 0 := by
  unfold enteringPlans
  simp [settlesIn_none h]

theorem enteringTasks_created {new : NewTask} :
    (Command.task (.createTask new)).enteringTasks config db env tenant = 0 ∨
      (((normalizedKey new.externalKey).bind (TaskRepo.findByExternalKey db)).isNone = true ∧
        holdsTask db tenant new.projectId = true ∧
        (Command.task (.createTask new)).enteringTasks config db env tenant = 1) := by
  have hSettles : ∀ projectId : Option ProjectId,
      projectId.any ((Command.task (.createTask new)).settlesIn db env tenant) = false := by
    intro projectId
    cases projectId with
    | none => rfl
    | some id => exact settlesIn_none rfl id
  have hSettled : (db.tasks.rows.countP fun task => task.projectId.any ((Command.task (.createTask new)).settlesIn db env tenant)
      && !holdsTask db tenant task.projectId) = 0 := by
    apply countP_eq_zero.mpr
    intro task _
    rw [hSettles, Bool.false_and]
    exact Bool.false_ne_true
  have hLandings : (Command.task (.createTask new)).landings config db env =
      if ((normalizedKey new.externalKey).bind (TaskRepo.findByExternalKey db)).isNone then
        [(new.id.getD (env.fresh 0), new.projectId)]
      else [] := rfl
  unfold enteringTasks
  rw [hSettled, Nat.add_zero, hLandings]
  by_cases hNew : ((normalizedKey new.externalKey).bind (TaskRepo.findByExternalKey db)).isNone = true
  · rw [if_pos hNew, countP_singleton, hSettles, Bool.or_false]
    split
    · rename_i hEnters
      rw [Bool.and_eq_true] at hEnters
      exact .inr ⟨hNew, hEnters.1, rfl⟩
    · exact .inl rfl
  · rw [if_neg hNew]
    exact .inl rfl

end Command

namespace Server

open Handler (builderEnv)

variable {config : Config} {quotas : TenantQuotas} {db : Database} {call : Call}

/-- What a call brings into a tenant uncounted, its limits have room for. -/
def FitsQuotas (config : Config) (quotas : TenantQuotas) (db : Database) : Call → Prop
  | .command env _ command _ => command.Fits config quotas db (builderEnv env)
  | _ => True

theorem command_quotas (hQuotas : config.tenantQuotas = some quotas) {env : Env} {caller : Caller} {command : Command}
    {claimed : Actor} (hFits : command.Fits config quotas db (builderEnv env)) :
    QuotasKept quotas db (serve config db (.command env caller command claimed)) := by
  have hCover := @command_cover config db env caller command claimed hFits.mints
  have hChecked : (∃ batch relations trail persisted appended,
      Handler.Accepted config env caller command claimed db batch relations trail persisted appended) ∨
      QuotasKept quotas db (serve config db (.command env caller command claimed)) := by
    show _ ∨ QuotasKept quotas db (Handler.handleWithRunOwner config env caller command claimed db).2
    cases hRun : Handler.handleWithRunOwner config env caller command claimed db with
    | mk outcome db' =>
    cases Handler.handled hRun with
    | unlogged _ _ hAudited =>
      obtain ⟨_, _, _, _, _, _, rfl⟩ := hAudited
      exact .inr (.of_same fun tenant => ⟨Int.le_refl _, Int.le_refl _⟩)
    | stranded hAccepted _ => exact .inl ⟨_, _, _, _, _, hAccepted⟩
    | projected hAccepted _ _ => exact .inl ⟨_, _, _, _, _, hAccepted⟩
  rcases hChecked with ⟨batch, relations, trail, persisted, appended, hAccepted⟩ | hKept
  case inr => exact hKept
  refine fun tenant limits hLimits => ⟨fun limit hLimit => ?_, fun limit hLimit => ?_⟩
  · have hCount := @Command.countTasks_le config db _ (builderEnv env) tenant command hCover
    cases hCounts : command.countsTasks with
    | false =>
      rcases hFits.tasks hCounts tenant limits limit hLimits hLimit with hNone | hRoom
      · omega
      · omega
    | true =>
      obtain ⟨new, rfl⟩ : ∃ new, command = .task (.createTask new) := by
        unfold Command.countsTasks at hCounts
        split at hCounts
        · exact ⟨_, rfl⟩
        · cases hCounts
      rcases @Command.enteringTasks_created config db (builderEnv env) tenant new with hNone | ⟨hNew, hHolds, hOne⟩
      · omega
      · have hRoom := task_fits (hAccepted.task_checked hQuotas hNew) hHolds hLimits hLimit
        omega
  · have hCount := @Command.countPlans_le config db _ (builderEnv env) tenant command hCover
    rcases command.makes_cases db (builderEnv env) with hNone | ⟨⟨made, hMade⟩, hSettles⟩
    · rw [hNone, countP_nil] at hCount
      rcases hFits.plans tenant limits limit hLimits hLimit with hNone | hRoom
      · omega
      · omega
    · rw [Command.enteringPlans_none hSettles, hMade, countP_singleton, Command.settlesIn_none hSettles,
        Bool.or_false] at hCount
      split at hCount
      · rename_i hHolds
        have hChecked := hAccepted.plans_checked hQuotas made (hMade ▸ mem_singleton_self made)
        have hRoom := plan_fits hChecked hHolds hLimits hLimit
        omega
      · omega

theorem serve_quotas (hCall : Call.isCommand call = false) : QuotasKept quotas db (serve config db call) := by
  have hCover : (Command.origins config db (nthEnv 0) (.plan (.reorderPlan ⟨0⟩ []))).Cover (serve config db call) :=
    serve_cover hCall Command.origins_cover
  have hNone : ∀ projectId : Option ProjectId, ∀ tenant,
      projectId.any (Command.settlesIn db (nthEnv 0) tenant (.plan (.reorderPlan ⟨0⟩ []))) = false := by
    intro projectId tenant
    cases projectId with
    | none => rfl
    | some id => exact Command.settlesIn_none rfl id
  refine .of_same fun tenant => ⟨?_, ?_⟩
  · have hCount := @Command.countTasks_le config db _ (nthEnv 0) tenant _ hCover
    simpa [Command.enteringTasks, Command.landings, hNone] using hCount
  · have hCount := @Command.countPlans_le config db _ (nthEnv 0) tenant _ hCover
    rw [Command.enteringPlans_none rfl] at hCount
    simpa [Command.makes] using hCount

/-- While every command fits, no step of a run takes a tenant over its limits, and a
tenant that is over them stays where it is. -/
theorem fitting_commands_keep_quotas (hQuotas : config.tenantQuotas = some quotas) {calls earlier later : List Call}
    (hMeets : Meets config (FitsQuotas config quotas) db calls) (hSplit : calls = earlier ++ call :: later) :
    QuotasKept quotas (earlier.foldl (serve config) db) (serve config (earlier.foldl (serve config) db) call) := by
  subst hSplit
  have hFits := hMeets.split.2.1
  cases call with
  | command env caller command claimed => exact command_quotas hQuotas hFits
  | _ => exact serve_quotas rfl

private def oneTask : TenantQuotas := fun tenant => if tenant = ProjectRepo.defaultTenantId then some ⟨some 1, none⟩ else none

private def limitedConfig : Config := { engineConfig with tenantQuotas := some oneTask }

private def firstTask : List Call := commands [.task (.createTask { NewTask.new "task" with id := some ⟨7⟩ })]

theorem fitting_commands_keep_quotas_created : QuotasKept oneTask Database.empty (serve limitedConfig Database.empty
    (.command (nthEnv 0) .internal (.task (.createTask { NewTask.new "task" with id := some ⟨7⟩ })) .anyUser)) := by
  apply @fitting_commands_keep_quotas limitedConfig oneTask Database.empty _ rfl firstTask [] [] _ rfl
  exact ⟨⟨trivial, (fun hCounts => nomatch hCounts), fun _ _ _ _ _ => .inl rfl⟩, trivial⟩

private def oneTaskHeld : Database := run limitedConfig firstTask

private def splitInTwo : Call :=
  .command (nthEnv 1) .internal (.task (.splitTask ⟨7⟩ [NewTask.new "left", NewTask.new "right"])) .anyUser

theorem split_exceeds_quota : ¬ QuotasKept oneTask oneTaskHeld (serve limitedConfig oneTaskHeld splitInTwo) := by
  intro hKept
  exact absurd ((hKept ProjectRepo.defaultTenantId _ rfl).1 1 rfl) (by decide +kernel)

end Server
end Daruma
