import Daruma.Core.Projections

/-! What the projections of an event leave alone. -/
namespace Daruma

open List

namespace Projections

open Outcome

variable {env : Env} {envelope : EventEnvelope} {db db' : Database}

theorem tasks_ok (h : tasks env envelope db = .ok db') :
    ∃ written, TaskRepo.applyEvent db.tasks env envelope = .ok written ∧ db' = { db with tasks := written } := by
  obtain ⟨written, hWritten, h⟩ := bind_eq_ok.mp h
  exact ⟨written, hWritten, (pure_eq_ok.mp h).symm⟩

theorem handoffs_ok (h : handoffs envelope db = .ok db') : ∃ written, db' = { db with handoffs := written } := by
  obtain ⟨written, _, h⟩ := bind_eq_ok.mp h
  exact ⟨written, (pure_eq_ok.mp h).symm⟩

theorem rules_ok (h : rules envelope db = .ok db') : ∃ written, db' = { db with rules := written } := by
  obtain ⟨written, _, h⟩ := bind_eq_ok.mp h
  exact ⟨written, (pure_eq_ok.mp h).symm⟩

variable {step : Database → Result Database} {n k : Nat}

/-- What the projection at a place of `projectors` writes. It leaves every other table. -/
inductive Wrote (env : Env) (envelope : EventEnvelope) (db : Database) : Nat → Database → Prop where
  | tasks {tasks} (hApplied : TaskRepo.applyEvent db.tasks env envelope = .ok tasks) :
    Wrote env envelope db 0 { db with tasks := tasks }
  | records : Wrote env envelope db 1 (records envelope db)
  | plans {tasks plans planTasks sources} (hApplied : PlanRepo.applyEvent db env envelope =
      { db with tasks := tasks, plans := plans, planTasks := planTasks, sources := sources }) :
    Wrote env envelope db 2 { db with tasks := tasks, plans := plans, planTasks := planTasks, sources := sources }
  | runs {runs runSteps runNotes} (hApplied : RunRepo.applyEvent db envelope =
      { db with runs := runs, runSteps := runSteps, runNotes := runNotes }) :
    Wrote env envelope db 3 { db with runs := runs, runSteps := runSteps, runNotes := runNotes }
  | runNotes {runNotes} : Wrote env envelope db 4 { db with runNotes := runNotes }
  | sessions {sessions artifacts} :
    Wrote env envelope db 5 { db with agentSessions := sessions, sessionArtifacts := artifacts }
  | claims {agentClaims}
    (hApplied : AgentClaimRepo.applyEvent db env.now envelope = .ok { db with agentClaims := agentClaims }) :
    Wrote env envelope db 6 { db with agentClaims := agentClaims }
  | leases {workLeases} (hApplied : WorkLeaseRepo.applyEvent db envelope = { db with workLeases := workLeases }) :
    Wrote env envelope db 7 { db with workLeases := workLeases }
  | documents : Wrote env envelope db 8 (documents envelope db)
  | handoffs {handoffs} : Wrote env envelope db 9 { db with handoffs := handoffs }
  | rules {rules} : Wrote env envelope db 10 { db with rules := rules }
  | evidence {evidence} (hApplied : EvidenceRepo.applyEvent db envelope = { db with evidence := evidence }) :
    Wrote env envelope db 11 { db with evidence := evidence }
  | artifacts {artifacts relations} (hApplied : ArtifactRepo.applyEvent db env envelope =
      .ok { db with artifacts := artifacts, artifactRelations := relations }) :
    Wrote env envelope db 12 { db with artifacts := artifacts, artifactRelations := relations }

theorem wrote (hStep : (projectors env envelope)[n]? = some step) (h : step db = .ok db') :
    Wrote env envelope db n db' := by
  match n, hStep with
  | 0, rfl =>
    obtain ⟨written, hWritten, rfl⟩ := tasks_ok h
    exact .tasks hWritten
  | 1, rfl =>
    cases h
    exact .records
  | 2, rfl =>
    cases h
    obtain ⟨tasks, plans, planTasks, sources, hFrame⟩ := PlanRepo.applyEvent_frame db env envelope
    exact hFrame ▸ .plans hFrame
  | 3, rfl =>
    cases h
    obtain ⟨runs, runSteps, runNotes, hFrame⟩ := RunRepo.applyEvent_frame db envelope
    exact hFrame ▸ .runs hFrame
  | 4, rfl =>
    obtain ⟨runNotes, rfl⟩ := RunNoteRepo.applyEvent_frame h
    exact .runNotes
  | 5, rfl =>
    cases h
    obtain ⟨sessions, artifacts, hFrame⟩ := SessionRepo.applyEvent_frame db envelope
    exact hFrame ▸ .sessions
  | 6, rfl =>
    obtain ⟨agentClaims, rfl⟩ := AgentClaimRepo.applyEvent_frame h
    exact .claims h
  | 7, rfl =>
    cases h
    obtain ⟨workLeases, hFrame⟩ := WorkLeaseRepo.applyEvent_frame db envelope
    exact hFrame ▸ .leases hFrame
  | 8, rfl =>
    cases h
    exact .documents
  | 9, rfl =>
    obtain ⟨written, rfl⟩ := handoffs_ok h
    exact .handoffs
  | 10, rfl =>
    obtain ⟨written, rfl⟩ := rules_ok h
    exact .rules
  | 11, rfl =>
    cases h
    obtain ⟨evidence, hFrame⟩ := EvidenceRepo.applyEvent_frame db envelope
    exact hFrame ▸ .evidence hFrame
  | 12, rfl =>
    obtain ⟨artifacts, relations, rfl⟩ := ArtifactRepo.applyEvent_frame h
    exact .artifacts h

theorem exists_wrote (hStep : step ∈ projectors env envelope) (h : step db = .ok db') :
    ∃ n, Wrote env envelope db n db' := by
  obtain ⟨n, hStep⟩ := getElem?_of_mem hStep
  exact ⟨n, wrote hStep h⟩

theorem exists_wrote_take (hStep : step ∈ (projectors env envelope).take k) (h : step db = .ok db') :
    ∃ n < k, Wrote env envelope db n db' := by
  obtain ⟨n, hStep⟩ := getElem?_of_mem hStep
  rw [getElem?_take] at hStep
  split at hStep
  · next hLess => exact ⟨n, hLess, wrote hStep h⟩
  · cases hStep

theorem exists_wrote_drop (hStep : step ∈ (projectors env envelope).drop k) (h : step db = .ok db') :
    ∃ n ≥ k, Wrote env envelope db n db' := by
  obtain ⟨n, hStep⟩ := getElem?_of_mem hStep
  rw [getElem?_drop] at hStep
  exact ⟨k + n, Nat.le_add_right k n, wrote hStep h⟩

/-- The log and the relations between tasks, which no projection writes. -/
def SameLog (before after : Database) : Prop :=
  after.events = before.events ∧ after.latestSeq = before.latestSeq ∧ after.relations = before.relations

theorem SameLog.trans {first second third : Database} (h : SameLog first second)
    (h' : SameLog second third) : SameLog first third :=
  ⟨h'.1.trans h.1, h'.2.1.trans h.2.1, h'.2.2.trans h.2.2⟩

theorem projectors_sameLog (hStep : step ∈ projectors env envelope) (h : step db = .ok db') : SameLog db db' := by
  obtain ⟨_, hWrote⟩ := exists_wrote hStep h
  cases hWrote
  all_goals exact ⟨rfl, rfl, rfl⟩

theorem applyEvents_sameLog {envelopes : List EventEnvelope} {outcome : Except CoreError Unit}
    (h : applyEvents env envelopes db = (outcome, db')) : SameLog db db' := by
  refine Stateful.inTurn_rel (fun _ => ⟨rfl, rfl, rfl⟩) (fun _ _ _ => SameLog.trans) ?_ h
  intro step hStep before after hRun
  obtain ⟨envelope, _, hProjector⟩ := mem_flatMap.mp hStep
  exact projectors_sameLog hProjector hRun

end Projections
end Daruma
