import Daruma.Core.Persisting
import Daruma.Core.Runs

/-! What an error of the handler leaves behind. -/
namespace Daruma
namespace Handler

/-- The state that a refused command leaves: the log may have grown by audit
events. A command that edits relations while it is built may have edited them. -/
structure Untouched (command : Command) (before after : Database) : Prop where
  log : ∃ audit : List EventEnvelope, (∀ envelope ∈ audit, envelope.payload.isAudit = true) ∧
    after.events.rows = before.events.rows ++ audit
  tasks : after.tasks = before.tasks
  plans : after.plans = before.plans
  planTasks : after.planTasks = before.planTasks
  runs : after.runs = before.runs
  documents : after.documents = before.documents
  agentClaims : after.agentClaims = before.agentClaims
  relations : command.writesRelations = false → after.relations = before.relations

/-- The state of a batch that is in the log and that a projection refused. -/
def Stranded (config : Config) (env : Env) (caller : Caller) (command : Command) (claimed : Actor)
    (before after : Database) : Prop :=
  ∃ batch relations trail persisted appended,
    Accepted config env caller command claimed before batch relations trail persisted appended ∧
      after.events.rows = before.events.rows ++ persisted

variable {config : Config} {env : Env} {caller : Caller} {command : Command} {claimed : Actor} {db db' : Database}

/-- Whatever a command fails for, it changes nothing as long as its batch has not
been appended. -/
theorem handle_error_atomic {e : CoreError}
    (h : handleWithRunOwner config env caller command claimed db = (.error e, db')) :
    Untouched command db db' ∨ Stranded config env caller command claimed db db' := by
  cases handled h with
  | @unlogged _ relations _ _ hRelations hAudited =>
    obtain ⟨audit, hAudit, hLog, events, latestSeq, activity, rfl⟩ := hAudited
    have hKept : command.writesRelations = false → relations = db.relations := fun hReads =>
      hRelations.elim id fun ⟨_, hDraft, _⟩ => (draft_readsOnly hReads).state_eq hDraft
    exact .inl ⟨⟨audit, hAudit, hLog⟩, rfl, rfl, rfl, rfl, rfl, rfl, hKept⟩
  | stranded hAccepted hApplied =>
    have hLog := (Projections.applyEvents_sameLog hApplied).1
    exact .inr ⟨_, _, _, _, _, hAccepted, by rw [hLog, hAccepted.log]⟩

/-- The completion of a task that does not exist. -/
theorem handle_error_atomic_missing_task : Untouched (.task (.completeTask ⟨7⟩ none)) Database.empty Database.empty ∨
      Stranded Server.engineConfig (Server.nthEnv 0) .internal (.task (.completeTask ⟨7⟩ none)) .anyUser
        Database.empty Database.empty :=
  handle_error_atomic (e := .notFound s!"task {(⟨7⟩ : TaskId)}") rfl

def Event.isRuleFired : Event → Bool
  | .audit (.ruleFired ..) => true
  | _ => false

/-- A rule for starting any task that nothing has satisfied. -/
private def ownerRule (key : String) (mode : RuleMode) : NewRule :=
  ⟨none, key, "", .tenant, .taskBeforeStart, none, .ownerRequired, mode, "", false, true⟩

def ruledRun : List Call := Server.commands [
  .rule (.createRule (ownerRule "advisory" .recommendation)),
  .rule (.createRule (ownerRule "required" .required)),
  .task (.createTask { NewTask.new "task" with id := some ⟨7⟩ })]

def refusedStart : Except CoreError DispatchOutcome × Database :=
  handleWithRunOwner Server.engineConfig (Server.nthEnv 3) .internal
    (.task (.setStatus ⟨7⟩ .inProgress false none none)) .anyUser
    (Server.run Server.engineConfig ruledRun)

/-- A start that the required rule refuses puts on record that the advisory one
was evaluated. -/
theorem refused_start_records_metric : (∃ e, refusedStart.1 = .error e) ∧
      ¬∃ fired : List EventEnvelope, (∀ envelope ∈ fired, Event.isRuleFired envelope.payload = true) ∧
        refusedStart.2.events.rows = (Server.run Server.engineConfig ruledRun).events.rows ++ fired := by
  have hRefused : refusedStart.1.isOk = false := by decide +kernel
  have hRecorded : ((refusedStart.2.events.rows.drop
      (Server.run Server.engineConfig ruledRun).events.rows.length).all
        fun envelope => Event.isRuleFired envelope.payload) = false := by decide +kernel
  constructor
  · cases hOutcome : refusedStart.1 with
    | ok answer =>
      rw [hOutcome] at hRefused
      cases hRefused
    | error e => exact ⟨e, rfl⟩
  · rintro ⟨fired, hFired, hLog⟩
    rw [hLog, List.drop_left, List.all_eq_false] at hRecorded
    obtain ⟨envelope, hMem, hOther⟩ := hRecorded
    exact hOther (hFired envelope hMem)

end Handler
end Daruma
