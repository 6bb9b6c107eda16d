import Daruma.Core.LifecycleSteps

/-! What calls write of plans, sources and runs: the events of an accepted batch,
what persisting it ends, and nothing else. -/
namespace Daruma

structure SameWork (before after : Database) : Prop where
  plans : after.plans = before.plans
  sources : after.sources = before.sources
  runs : after.runs = before.runs
  runSteps : after.runSteps = before.runSteps

theorem SameWork.refl (db : Database) : SameWork db db := ⟨rfl, rfl, rfl, rfl⟩

/-- What the events of a batch and the writes between them do, as a relation
between the states before and after. -/
structure WorkRelation (rel : Database → Database → Prop) : Prop where
  trans : ∀ first second third, rel first second → rel second third → rel first third
  same : ∀ before after, SameWork before after → rel before after

namespace Projections

variable {rel : Database → Database → Prop} {env : Env} {envelope : EventEnvelope} {db db' : Database}

theorem projectors_work (hRel : WorkRelation rel)
    (hPlan : ∀ event, envelope.payload = .plan event → ∀ db, rel db (PlanRepo.applyPlanEvent db env envelope event))
    (hRun : ∀ event, envelope.payload = .run event → ∀ db, rel db (RunRepo.applyRunEvent db event))
    {step : Database → Result Database} (hStep : step ∈ projectors env envelope) (h : step db = .ok db') :
    rel db db' := by
  obtain ⟨_, hWrote⟩ := exists_wrote hStep h
  cases hWrote with
  | plans hApplied =>
    rw [← hApplied]
    unfold PlanRepo.applyEvent
    split
    · rename_i event hPayload
      exact hPlan event hPayload db
    · exact hRel.same _ _ (.refl db)
  | runs hApplied =>
    rw [← hApplied]
    unfold RunRepo.applyEvent
    split
    · rename_i event hPayload
      exact hRun event hPayload db
    · exact hRel.same _ _ (.refl db)
  | _ => exact hRel.same _ _ ⟨rfl, rfl, rfl, rfl⟩

variable {outcome : Except CoreError Unit} {envelopes : List EventEnvelope}

theorem applyEvents_work (hRel : WorkRelation rel)
    (hPlan : ∀ event, .plan event ∈ envelopes.map EventEnvelope.payload →
      ∀ db env envelope, rel db (PlanRepo.applyPlanEvent db env envelope event))
    (hRun : ∀ event, .run event ∈ envelopes.map EventEnvelope.payload → ∀ db, rel db (RunRepo.applyRunEvent db event))
    (h : applyEvents env envelopes db = (outcome, db')) : rel db db' := by
  refine Stateful.inTurn_rel (fun db => hRel.same db db (.refl db)) hRel.trans ?_ h
  intro step hStep before after hTaken
  obtain ⟨envelope, hEnvelope, hProjector⟩ := List.mem_flatMap.mp hStep
  have hPayload := List.mem_map_of_mem (f := EventEnvelope.payload) hEnvelope
  exact projectors_work hRel (fun event hIs db => hPlan event (hIs ▸ hPayload) db _ _)
    (fun event hIs => hRun event (hIs ▸ hPayload)) hProjector hTaken

end Projections

namespace AutoAppend

variable {rel : Database → Database → Prop} {env : Env} {actor : Actor} {db : Database} {event : Event}

theorem persistSignalEvent_work (hRel : WorkRelation rel)
    (hPlan : ∀ recorded, event = .plan recorded → ∀ db env envelope,
      rel db (PlanRepo.applyPlanEvent db env envelope recorded))
    (hRun : ∀ recorded, event = .run recorded → ∀ db, rel db (RunRepo.applyRunEvent db recorded)) :
    rel db (persistSignalEvent env actor event db).2 := by
  refine persistSignalEvent_rule (hRel.same _ _ (.refl _)) fun {_ _ events latestSeq _ _} hIs hApplied => ?_
  have hAppended : rel db { db with events := events, latestSeq := latestSeq } := hRel.same _ _ ⟨rfl, rfl, rfl, rfl⟩
  exact hRel.trans _ _ _ hAppended
    (Projections.applyEvents_work hRel (fun recorded hMem => hPlan recorded (hIs _ hMem).symm)
      (fun recorded hMem => hRun recorded (hIs _ hMem).symm) hApplied)

theorem autoAppendLogs_work (hRel : WorkRelation rel) {config : Config} :
    rel db (autoAppendLogs config env db envelopes) := by
  obtain ⟨_, _, _, _, _, _, hLines, _⟩ := autoAppendLogs_lines envelopes db
  rw [hLines]
  exact hRel.same _ _ ⟨rfl, rfl, rfl, rfl⟩

end AutoAppend

namespace Handler

variable {rel : Database → Database → Prop} {config : Config} {env : Env} {caller : Caller} {command : Command}
  {claimed : Actor} {db : Database} {batch : List Event} {relations : Relations} {trail : GateStage.Trail}
  {persisted : List EventEnvelope} {appended applied : Database}

theorem Accepted.mem_of_work
    (h : Accepted config env caller command claimed db batch relations trail persisted appended) {event : Event}
    (hMem : event ∈ persisted.map EventEnvelope.payload)
    (hWork : (∃ recorded, event = .plan recorded) ∨ ∃ recorded, event = .run recorded) : event ∈ batch := by
  rcases hWork with ⟨recorded, rfl⟩ | ⟨recorded, rfl⟩
  · exact h.mem_batch hMem rfl
  · exact h.mem_batch hMem rfl

/-- How the writes of an accepted batch are related: what persisting it ends, and
what its events write. -/
structure BatchRelation (rel : Database → Database → Prop) (db : Database) (batch : List Event)
    (appended : Database) : Prop where
  stored : rel db appended
  plan : ∀ event, .plan event ∈ batch → ∀ db env envelope, rel db (PlanRepo.applyPlanEvent db env envelope event)
  run : ∀ event, .run event ∈ batch → ∀ db, rel db (RunRepo.applyRunEvent db event)

theorem Accepted.applied_work (hRel : WorkRelation rel)
    (h : Accepted config env caller command claimed db batch relations trail persisted appended)
    (hBatch : BatchRelation rel db batch appended)
    (hApplied : Projections.applyEvents (env.part 4) persisted appended = (outcome, applied)) : rel db applied :=
  hRel.trans _ _ _ hBatch.stored (Projections.applyEvents_work hRel
    (fun event hMem => hBatch.plan event (h.mem_of_work hMem (.inl ⟨event, rfl⟩)))
    (fun event hMem => hBatch.run event (h.mem_of_work hMem (.inr ⟨event, rfl⟩))) hApplied)

theorem handle_work (hRel : WorkRelation rel) (hBatch : ∀ {batch relations trail persisted appended},
      Accepted config env caller command claimed db batch relations trail persisted appended →
      BatchRelation rel db batch appended) :
    rel db (handleWithRunOwner config env caller command claimed db).2 := by
  refine handle_rule (fun hAudited => ?_) (fun hAccepted => hAccepted.applied_work hRel (hBatch hAccepted))
    fun ⟨_, _, _, _, _, _, hLines, _⟩ hApplied => hRel.trans _ _ _ hApplied (hRel.same _ _ (hLines ▸ ⟨rfl, rfl, rfl, rfl⟩))
  obtain ⟨_, _, _, _, _, _, rfl⟩ := hAudited
  exact hRel.same _ _ ⟨rfl, rfl, rfl, rfl⟩

end Handler

namespace Server

variable {rel : Database → Database → Prop} {config : Config} {db : Database} {call : Call}

theorem serve_work (hRel : WorkRelation rel)
    (hNoticed : ∀ event, (∃ id instant, event = .runUnresponsive id instant ∨ event = .runStale id instant) →
      ∀ db, rel db (RunRepo.applyRunEvent db event))
    (hCall : Call.isCommand call = false) : rel db (serve config db call) := by
  cases call with
  | command => cases hCall
  | signal env signal =>
    refine AutoAppend.persistSignalEvent_work hRel (fun recorded hIs => ?_) fun recorded hIs => hNoticed recorded ?_
    · cases signal <;> cases hIs
    · cases signal with
      | runUnresponsive id =>
        cases hIs
        exact ⟨id, env.now, .inl rfl⟩
      | runStale id =>
        cases hIs
        exact ⟨id, env.now, .inr rfl⟩
      | _ => cases hIs
  | _ =>
    refine serve_claims rfl rfl fun ⟨_, _, _, _, _, _, _, hFrame, _⟩ => ?_
    rw [hFrame]
    exact hRel.same _ _ ⟨rfl, rfl, rfl, rfl⟩

end Server
end Daruma
