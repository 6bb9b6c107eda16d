import Daruma.Core.SourceLinks
import Daruma.Core.WarrantedBatches
import Daruma.Core.WorkHistory

/-! The graph of sources over runs: its links close no cycle and are never
rewritten, and how long its chains get. -/
namespace Daruma

open Outcome Ancestry Stateful List
open DirectedGraph (Acyclic)

theorem SourceInput.toNode_bare {input : SourceInput} {validDate : String → Bool} {syntheticRef : String}
    {createdAt : Timestamp} {createdBy : Actor} :
    Yields (input.toNode validDate syntheticRef createdAt createdBy) fun node => node.upstreamRef = none := by
  unfold SourceInput.toNode
  refine .andThen fun label _ => ?_
  dsimp only
  split
  all_goals
    refine .andThen fun _ _ => .andThen fun _ _ => ?_
    split
    · exact .ite (fun _ => .andThen fun _ _ => .pure rfl) fun _ => .andThen fun _ _ => .andThen fun _ _ => .pure rfl
    · exact .andThen fun _ _ => .pure rfl

namespace PlanSource

variable {codec : TextCodec} {db : Database} {env : Env} {actor : Actor} {command : Command}

abbrev Bare (nodes : List SourceNode) : Prop := ∀ node ∈ nodes, node.upstreamRef = none

theorem orValidation_yields {α : Type} {x : Except String α} {post : α → Prop} (h : Yields x post) :
    Yields (orValidation x) post := by
  intro a hOk
  cases x with
  | error message => cases hOk
  | ok value =>
    cases hOk
    exact h _ rfl

theorem bareNode_bare {sourceRef : String} :
    Yields (bareNode codec env sourceRef actor) fun node => node.upstreamRef = none :=
  orValidation_yields SourceInput.toNode_bare

theorem toNodes_bare {hasHead : Bool} {n : Nat} {inputs : List SourceInput} :
    Yields (toNodes codec env actor hasHead n inputs) Bare := by
  induction inputs generalizing n with
  | nil => exact .ok fun _ hMem => absurd hMem not_mem_nil
  | cons input rest ih =>
    exact .andThen fun _ _ => .bind (orValidation_yields SourceInput.toNode_bare) fun node hNode =>
      .bind ih fun later hLater => .pure (forall_mem_cons.mpr ⟨hNode, hLater⟩)

theorem sourceNodes_bare {head : Option SourceInput} {more : List SourceInput} :
    Yields (sourceNodes codec env head more actor) Bare :=
  .andThen fun _ _ => toNodes_bare

variable {plan : NewPlan} {upstream : List SourceInput}

theorem preparePlanSource_bare : Yields (preparePlanSource codec env plan actor) fun prepared => Bare prepared.2 := by
  unfold preparePlanSource
  refine .andThen fun _ _ => ?_
  dsimp only
  split
  · refine .andThen fun _ _ => .andThen fun _ _ => ?_
    split
    · exact .bind sourceNodes_bare fun nodes hNodes => .andThen fun _ _ => .andThen fun _ _ => .pure hNodes
    · refine .bind (.pure fun _ hMem => absurd hMem not_mem_nil) fun nodes hNodes => .andThen fun _ _ =>
        .andThen fun _ _ => .pure hNodes
  · refine .andThen fun _ _ => ?_
    split
    · exact .bind sourceNodes_bare fun nodes hNodes => .andThen fun _ _ => .andThen fun _ _ => .pure hNodes
    · exact .bind (.pure fun _ hMem => absurd hMem not_mem_nil) fun nodes hNodes => .andThen fun _ _ =>
        .andThen fun _ _ => .pure hNodes

/-- The chain of sources that a command gives, and whether links that are set end it. -/
inductive GivesChain (codec : TextCodec) (db : Database) (env : Env) (actor : Actor) :
    Command → List SourceNode → Bool → Prop
  | materialised {plan prepared : NewPlan} {tasks : List NewTask} {nodes : List SourceNode}
      (h : preparePlanSource codec ((env.part 0).part 0) plan actor = .ok (prepared, nodes)) :
      GivesChain codec db env actor (.plan (.materializePlan plan tasks none)) nodes true
  | created {plan prepared : NewPlan} {nodes : List SourceNode}
      (h : preparePlanSource codec ((env.part 0).part 0) plan actor = .ok (prepared, nodes)) :
      GivesChain codec db env actor (.plan (.createPlan plan none)) nodes true
  | referenced {plan prepared : NewPlan} {ref : String × String × String} {nodes : List SourceNode}
      (h : preparePlanSource codec (env.part 0) plan actor = .ok (prepared, nodes)) :
      GivesChain codec db env actor (.plan (.createPlan plan (some ref))) nodes true
  | set {id : PlanId} {source : SourceInput} {upstream : List SourceInput} {nodes : List SourceNode}
      (h : sourceNodes codec (env.part 0) (some source) upstream actor = .ok nodes) :
      GivesChain codec db env actor (.plan (.extendSource (some id) none (some source) upstream)) nodes false
  | extended {id : PlanId} {plan : Plan} {start : String} {upstream : List SourceInput} {first : SourceNode}
      {more : List SourceNode} (hPlan : db.plans.find? id = some plan) (hStart : plan.sourceRef = some start)
      (hFirst : bareNode codec (env.part 0) (topSource db sourceChainMax start) actor = .ok first)
      (hMore : sourceNodes codec (env.part 0) none upstream actor = .ok more) :
      GivesChain codec db env actor (.plan (.extendSource (some id) none none upstream)) (first :: more) false
  | extendedRef {raw start : String} {upstream : List SourceInput} {first : SourceNode} {more : List SourceNode}
      (hStart : normalized raw = .ok start)
      (hFirst : bareNode codec (env.part 0) (topSource db sourceChainMax start) actor = .ok first)
      (hMore : sourceNodes codec (env.part 0) none upstream actor = .ok more) :
      GivesChain codec db env actor (.plan (.extendSource none (some raw) none upstream)) (first :: more) false

def RecordsChain (codec : TextCodec) (db : Database) (env : Env) (actor : Actor) (command : Command)
    (events : List PlanEvent) : Prop :=
  (∀ source, .sourceUpserted source ∉ events) ∨ ∃ nodes keepExisting linked, Bare nodes ∧
    linkSources db nodes keepExisting = .ok linked ∧
    (GivesChain codec db env actor command nodes keepExisting ∨ ∃ node, nodes = [node]) ∧
    ∀ source, .sourceUpserted source ∈ events → .sourceUpserted source ∈ linked.1

theorem planSourceEvents_records {inner : Env} {nodes : List SourceNode} (hBare : Bare nodes)
    (hGives : GivesChain codec db env actor command nodes true) :
    Yields (planSourceEvents codec db inner plan nodes actor) fun linked =>
      RecordsChain codec db env actor command linked.1 := by
  unfold planSourceEvents
  split
  · exact .ok (.inl fun _ => not_mem_nil)
  · refine .bind bareNode_bare fun node hNode => ?_
    exact fun linked hLinked => .inr ⟨[node], true, linked, forall_mem_singleton.mpr hNode, hLinked, .inr ⟨node, rfl⟩,
      fun _ hMem => hMem⟩
  · exact fun linked hLinked => .inr ⟨_, true, linked, hBare, hLinked, .inl hGives, fun _ hMem => hMem⟩

theorem resolvePlanSource_records (hGives : ∀ prepared nodes,
      preparePlanSource codec ((env.part 0).part 0) plan actor = .ok (prepared, nodes) →
      GivesChain codec db env actor command nodes true) :
    Yields (resolvePlanSource codec db (env.part 0) plan actor) fun resolved =>
      RecordsChain codec db env actor command resolved.2.1 :=
  .andThen fun ⟨prepared, nodes⟩ hPrepared => .andThen fun _ _ =>
    .bind (planSourceEvents_records (preparePlanSource_bare _ hPrepared) (hGives prepared nodes hPrepared))
      fun _ hRecords => .pure hRecords

theorem extendFrom_records {start : String} {byRef : Bool}
    (hGives : ∀ first more, bareNode codec (env.part 0) (topSource db sourceChainMax start) actor = .ok first →
      sourceNodes codec (env.part 0) none upstream actor = .ok more →
        GivesChain codec db env actor command (first :: more) false) :
    Yields (extendFrom codec db (env.part 0) start byRef upstream actor) fun extended =>
      RecordsChain codec db env actor command extended.1 := by
  refine .andThen fun _ _ => .andThen fun _ _ => .andThen fun first hFirst => .andThen fun more hMore =>
    .andThen fun linked hLinked => .pure (.inr ⟨first :: more, false, linked, ?_, hLinked, ?_, fun _ hMem => hMem⟩)
  · exact forall_mem_cons.mpr ⟨bareNode_bare _ hFirst, sourceNodes_bare _ hMore⟩
  · exact .inl (hGives first more hFirst hMore)

theorem extendSource_records {planId : Option PlanId} {sourceRef : Option String} {source : Option SourceInput} :
    Yields (extendSource codec db (env.part 0) planId sourceRef source upstream actor) fun extended =>
      RecordsChain codec db env actor (.plan (.extendSource planId sourceRef source upstream)) extended.1 := by
  unfold extendSource
  split
  · refine .andThen fun plan hPlan => ?_
    split
    · refine .andThen fun nodes hNodes => .andThen fun nearest _ => .andThen fun _ _ => .andThen fun linked hLinked =>
        .pure (.inr ⟨nodes, false, linked, sourceNodes_bare _ hNodes, hLinked, .inl (.set hNodes), fun upserted hMem => ?_⟩)
      rcases mem_append.mp hMem with hMem | hSet
      · exact hMem
      · cases mem_singleton.mp hSet
    · exact .error _
    · exact .error _
    · rename_i hStart
      exact extendFrom_records fun first more => .extended (okOr_eq_ok.mp hPlan) hStart
  · refine .andThen fun _ hAlone => .andThen fun start hStart => .andThen fun _ _ => ?_
    rw [ensure_eq_ok, Option.isNone_iff_eq_none] at hAlone
    rw [hAlone]
    exact extendFrom_records fun first more => .extendedRef hStart
  · exact .error _

theorem resolveSource_records {config : Config} : Yields (Handler.resolveSource config db env actor command) fun sourced =>
    ∀ events, sourced.events = events → RecordsChain config.text db env actor command events := by
  unfold Handler.resolveSource
  split
  · rename_i plan tasks
    have hGives : ∀ prepared nodes, preparePlanSource config.text ((env.part 0).part 0) plan actor = .ok (prepared, nodes) →
        GivesChain config.text db env actor (.plan (.materializePlan plan tasks none)) nodes true :=
      fun _ _ hPrepared => .materialised hPrepared
    refine .bind (resolvePlanSource_records hGives) fun resolved hRecords => .ite (fun _ => ?_) fun _ => ?_
    · exact .pure fun _ hIs => hIs ▸ hRecords
    · exact .andThen fun _ _ => .pure fun _ hIs => hIs ▸ hRecords
  · exact .bind (resolvePlanSource_records fun _ _ h => .created h) fun resolved hRecords => .pure fun _ hIs => hIs ▸ hRecords
  · exact .andThen fun ⟨prepared, nodes⟩ hPrepared => .bind (planSourceEvents_records (preparePlanSource_bare _ hPrepared)
      (.referenced hPrepared)) fun linked hRecords => .pure fun _ hIs => hIs ▸ hRecords
  · exact .bind extendSource_records fun extended hRecords => .pure fun _ hIs => hIs ▸ hRecords
  · exact .pure fun _ hIs => hIs ▸ .inl fun _ => not_mem_nil

end PlanSource

theorem MayRecord.not_source {db : Database} {env : Env} {command : Command} {event : Event}
    (h : MayRecord db env false command event) : event.isSource = false := by
  cases h with
  | source hLinks => cases hLinks
  | @aside command event hAside =>
    cases event with
    | sourceUpserted => cases hAside
    | _ => rfl
  | _ => rfl

open PlanSource (GivesChain RecordsChain LinksSources joinedUpstream addedLink linkSources)

namespace Handler

variable {config : Config} {db : Database} {env : Env} {caller : Caller} {command : Command} {claimed : Actor}
  {batch : List Event} {relations : Relations} {trail : GateStage.Trail} {persisted : List EventEnvelope}
  {appended : Database}

def sourceEvents (config : Config) (db : Database) (env : Env) (caller : Caller) (command : Command) (claimed : Actor) :
    List PlanEvent :=
  match resolveSource config db ((env.part 0).part 0) (attributedActor caller command claimed) command with
  | .ok sourced => sourced.events
  | .error _ => []

theorem sourceEvents_records : RecordsChain config.text db ((env.part 0).part 0) (attributedActor caller command claimed)
    command (sourceEvents config db env caller command claimed) := by
  unfold sourceEvents
  split
  · rename_i sourced hResolved
    exact PlanSource.resolveSource_records _ hResolved _ rfl
  · exact .inl fun _ => not_mem_nil

theorem Accepted.mem_sourceEvents
    (h : Accepted config env caller command claimed db batch relations trail persisted appended) {source : SourceNode}
    (hMem : .plan (.sourceUpserted source) ∈ batch) :
    .sourceUpserted source ∈ sourceEvents config db env caller command claimed := by
  obtain ⟨warnings, hDraft⟩ := h.built
  obtain ⟨sourced, hResolved, hDraft⟩ := lift_bind_ok.mp hDraft
  obtain ⟨built, middle, hBuilt, hDraft⟩ := bind_eq_ok.mp hDraft
  obtain ⟨hBatch, rfl⟩ := pure_eq.mp hDraft
  cases hBatch
  have hUnbuilt : .plan (.sourceUpserted source) ∉ built := fun hIn => by
    have hRecords : AllRecords db (builderEnv env) false sourced.command built := buildEvents_records _ _ _ hBuilt
    cases (hRecords _ hIn).not_source
  rw [sourceEvents, hResolved]
  rcases mem_append.mp hMem with hMem | hClosed
  · obtain ⟨event, hEvent, hSame⟩ := mem_map.mp hMem
    have hIs : event = .plan (.sourceUpserted source) := by
      cases event with
      | evidence event => cases event <;> cases hSame
      | _ => exact hSame
    rw [hIs, withSource] at hEvent
    split at hEvent
    · rcases mem_append.mp hEvent with hLinked | hIn
      · obtain ⟨linked, hLinked, hSame⟩ := mem_map.mp hLinked
        cases hSame
        exact hLinked
      · exact absurd hIn hUnbuilt
    · exact absurd hEvent hUnbuilt
  · obtain ⟨closed, hClosed, hSame⟩ := mem_map.mp hClosed
    obtain ⟨planId, fromStatus, hIs⟩ := Reconciliation.drain_closes hClosed
    rw [hIs] at hSame
    cases hSame

end Handler

namespace Server

open Handler (sourceEvents attributedActor)

variable {config : Config} {db before after : Database} {call : Call}

/-- Upstreams that are set stay. -/
def UpstreamsKept (before after : Database) : Prop :=
  ∀ child above, before.sourceUpstream child = some above → after.sourceUpstream child = some above

/-- Upstreams that are set stay, and those that are new are given. -/
def Relinked (given : String → String → Prop) (before after : Database) : Prop :=
  UpstreamsKept before after ∧ ∀ child above, after.sourceUpstream child = some above →
    before.sourceUpstream child = some above ∨ given child above

theorem Relinked.work (given : String → String → Prop) : WorkRelation (Relinked given) where
  trans := fun _ _ _ ⟨hKept, hGiven⟩ ⟨hKept', hGiven'⟩ => ⟨fun child above h => hKept' child above (hKept child above h),
    fun child above h => (hGiven' child above h).elim (hGiven child above) .inr⟩
  same := fun before after h => by
    have hSame : after.sourceUpstream = before.sourceUpstream := by
      unfold Database.sourceUpstream
      rw [h.sources]
    exact ⟨fun child above hUp => hSame ▸ hUp, fun child above hUp => .inl (hSame ▸ hUp)⟩

variable {given : String → String → Prop}

theorem relinked_of_sources (h : after.sources = before.sources) : Relinked given before after := by
  have hSame : after.sourceUpstream = before.sourceUpstream := by
    unfold Database.sourceUpstream
    rw [h]
  exact ⟨fun child above hUp => hSame ▸ hUp, fun child above hUp => .inl (hSame ▸ hUp)⟩

theorem relinked_of_runEvent (event : RunEvent) (db : Database) :
    Relinked given db (RunRepo.applyRunEvent db event) := by
  obtain ⟨runs, runSteps, runNotes, hFrame⟩ := RunRepo.applyRunEvent_frame db event
  rw [hFrame]
  exact relinked_of_sources rfl

def Call.GivesUpstream (config : Config) (db : Database) : Call → String → String → Prop
  | .command env caller command claimed => fun child above => ∃ source,
      .sourceUpserted source ∈ sourceEvents config db env caller command claimed ∧ source.sourceRef = child ∧
        source.upstreamRef = some above
  | _ => fun _ _ => False

theorem serve_relinked (config : Config) (db : Database) (call : Call) :
    Relinked (Call.GivesUpstream config db call) db (serve config db call) := by
  cases call with
  | command env caller command claimed =>
    refine Handler.handle_work (Relinked.work _) fun {batch relations trail persisted appended} hAccepted => ?_
    refine ⟨?_, fun event hMem before env envelope => ?_, fun event _ db => relinked_of_runEvent event db⟩
    · obtain ⟨_, _, _, _, _, rfl⟩ := hAccepted.frame
      exact relinked_of_sources rfl
    · refine ⟨fun child above => PlanRepo.sourceUpstream_kept, fun child above hUp => ?_⟩
      refine (PlanRepo.sourceUpstream_applyPlanEvent hUp).imp_right fun hSets => ?_
      cases event with
      | sourceUpserted source => exact ⟨source, hAccepted.mem_sourceEvents hMem, hSets⟩
      | _ => exact absurd hSets not_false
  | _ => exact serve_work (Relinked.work _) (fun event _ db => relinked_of_runEvent event db) rfl

/-- The links of a chain fit: what hangs below a source that gets one, the link and
the chain that it leads to. -/
def ChainFits (db : Database) (chain : List String) : Prop :=
  ∀ child above, db.sourceUpstream child = none → joinedUpstream db chain child = some above →
    ∀ below beyond node top, climb db.sourceUpstream below node = some child →
      climb (joinedUpstream db chain) beyond above = some top → below + 1 + beyond < sourceChainMax

def KeepsChains (config : Config) (db : Database) : Call → Prop
  | .command env caller command claimed => ∀ nodes keepExisting,
      GivesChain config.text db ((env.part 0).part 0) (attributedActor caller command claimed) command nodes keepExisting →
        (∃ linked, linkSources db nodes keepExisting = .ok linked) → ChainFits db (nodes.map SourceNode.sourceRef)
  | _ => True

/-- A single source links nothing. -/
theorem chainFits_single (node : String) : ChainFits db [node] := by
  intro child above hNone hJoined
  rw [joinedUpstream, hNone] at hJoined
  cases hJoined

def SourcesAcyclic (db : Database) : Prop := Acyclic (Link db.sourceUpstream)

def WithinChainMax (db : Database) : Prop := Bounded db.sourceUpstream (sourceChainMax - 1)

theorem serve_links (config : Config) (db : Database) (call : Call) : ∃ updated : String → Option String,
    (SourcesAcyclic db → Acyclic (Link updated)) ∧
      (WithinChainMax db → KeepsChains config db call → Bounded updated (sourceChainMax - 1)) ∧
      ∀ child above, (serve config db call).sourceUpstream child = some above → updated child = some above := by
  have hRelinked := (serve_relinked config db call).2
  cases call with
  | command env caller command claimed =>
    rcases Handler.sourceEvents_records with hNone | ⟨nodes, keepExisting, linked, hBare, hLinked, hGiven, hEvents⟩
    · refine ⟨db.sourceUpstream, id, fun h _ => h, fun child above hUp => (hRelinked child above hUp).resolve_right ?_⟩
      rintro ⟨source, hMem, _⟩
      exact hNone source hMem
    · obtain ⟨updated, hLinks⟩ := PlanSource.linkSources_links hBare hLinked
      refine ⟨updated, hLinks.acyclic, fun hBounded hKeeps => ?_, fun child above hUp => ?_⟩
      · have hFits : ChainFits db (nodes.map SourceNode.sourceRef) := by
          rcases hGiven with hGives | ⟨node, rfl⟩
          · exact hKeeps nodes keepExisting hGives ⟨linked, hLinked⟩
          · exact chainFits_single node.sourceRef
        refine hBounded.extended hLinks.kept fun child target hNone hUp below beyond node above hBelow hBeyond => ?_
        exact Nat.le_sub_one_of_lt (hFits child target hNone (hLinks.joined child target hUp) below beyond node above hBelow
          (climb_mono hLinks.joined hBeyond))
      · rcases hRelinked child above hUp with hOld | ⟨source, hMem, rfl, hIs⟩
        · exact hLinks.kept child above hOld
        · exact hLinks.events source above (hEvents source hMem) hIs
  | _ => exact ⟨db.sourceUpstream, id, fun h _ => h, fun child above hUp => (hRelinked child above hUp).resolve_right not_false⟩

theorem serve_sourcesAcyclic (h : SourcesAcyclic db) : SourcesAcyclic (serve config db call) := by
  obtain ⟨updated, hAcyclic, _, hLinks⟩ := serve_links config db call
  exact (hAcyclic h).mono hLinks

theorem serve_withinChainMax (h : WithinChainMax db) (hKeeps : KeepsChains config db call) :
    WithinChainMax (serve config db call) := by
  obtain ⟨updated, _, hBounded, hLinks⟩ := serve_links config db call
  exact (hBounded h hKeeps).mono hLinks

theorem run_sourcesAcyclic (calls : List Call) : SourcesAcyclic (run config calls) := by
  have hEmpty : SourcesAcyclic Database.empty :=
    DirectedGraph.acyclic_of_no_edge fun child above hLink => by cases hLink
  exact run_induction hEmpty (fun _ _ h _ => serve_sourcesAcyclic h) (Meets.of_forall fun _ _ => trivial)

theorem run_upstreamsKept (earlier later : List Call) :
    UpstreamsKept (run config earlier) (run config (earlier ++ later)) := by
  have hServe : ∀ db call, UpstreamsKept (run config earlier) db → True →
      UpstreamsKept (run config earlier) (serve config db call) := by
    intro db call hKept _ child above hUp
    exact (serve_relinked config db call).1 child above (hKept child above hUp)
  rw [run, run, foldl_append]
  exact foldl_induction hServe (fun _ _ h => h) (Meets.of_forall fun _ _ => trivial)

/-- In a run whose linked chains fit, sources form chains of at most the permitted
length, without cycles, and no link between them is rewritten. -/
theorem source_chains_run {earlier later : List Call}
    (hMeets : Meets config (KeepsChains config) Database.empty (earlier ++ later)) :
    SourcesAcyclic (run config (earlier ++ later)) ∧ WithinChainMax (run config (earlier ++ later)) ∧
      UpstreamsKept (run config earlier) (run config (earlier ++ later)) := by
  have hEmpty : WithinChainMax Database.empty := by
    intro links node above hClimb
    cases links with
    | zero => exact Nat.zero_le _
    | succ links =>
      obtain ⟨next, hNext, _⟩ := climb_succ.mp hClimb
      cases hNext
  exact ⟨run_sourcesAcyclic _, run_induction hEmpty (fun _ _ => serve_withinChainMax) hMeets,
    run_upstreamsKept earlier later⟩

theorem chainFits_pair {first second : String} (hNone : ∀ child, db.sourceUpstream child = none)
    (hOther : second ≠ first) : ChainFits db [first, second] := by
  have hJoins : ∀ child, joinedUpstream db [first, second] child = if child = first then some second else none := by
    intro child
    rw [joinedUpstream, addedLink, hNone child, hNone first]
    rfl
  intro child above _ hJoined below beyond node top hBelow hBeyond
  rw [hJoins] at hJoined
  obtain ⟨_, hAbove⟩ := Option.ite_none_right_eq_some.mp hJoined
  cases hAbove
  cases below with
  | succ below =>
    obtain ⟨next, hNext, _⟩ := climb_succ.mp hBelow
    cases (hNone node).symm.trans hNext
  | zero =>
    cases beyond with
    | zero => decide
    | succ beyond =>
      obtain ⟨next, hNext, _⟩ := climb_succ.mp hBeyond
      rw [hJoins, if_neg hOther] at hNext
      cases hNext

private def sourcedPlan (nearest : String) (above : List String) : NewPlan :=
  { NewPlan.new "plan" ⟨0⟩ .anyUser with
    source := some (.mk (some nearest) none none none (above.map fun name => .mk (some name) none none none [])) }

private def linkedPair : List Call := commands [.plan (.createPlan (sourcedPlan "n:0" ["n:1"]) none)]

theorem source_chains_linkedPair : (run engineConfig linkedPair).sourceUpstream "n:0" = some "n:1" ∧
    (SourcesAcyclic (run engineConfig ([] ++ linkedPair)) ∧ WithinChainMax (run engineConfig ([] ++ linkedPair)) ∧
      UpstreamsKept (run engineConfig []) (run engineConfig ([] ++ linkedPair))) := by
  refine ⟨by decide +kernel, source_chains_run ⟨fun nodes keepExisting hGives _ => ?_, trivial⟩⟩
  cases hGives with
  | created hPrepared =>
    have hRefs : (PlanSource.preparePlanSource plainCodec (((((nthEnv 0).part 0).part 0).part 0).part 0)
        (sourcedPlan "n:0" ["n:1"]) .anyUser).map (fun prepared => prepared.2.map SourceNode.sourceRef) =
        .ok ["n:0", "n:1"] := by decide +kernel
    have hNodes : ["n:0", "n:1"] = nodes.map SourceNode.sourceRef :=
      Except.ok.inj (hRefs.symm.trans (congrArg _ hPrepared))
    rw [← hNodes]
    exact chainFits_pair (fun _ => rfl) (by decide)

/-- A chain of as many sources as the limit, and a chain that passes through its end. -/
private def crossedChains : List Call := commands [
  .plan (.createPlan (sourcedPlan "n:0" ((List.range 31).map fun k => "n:" ++ toString (k + 1))) none),
  .plan (.createPlan (sourcedPlan "x:0" ["n:31", "y:0"]) none)]

/-- The first chain has become longer than the limit. -/
theorem crossed_chain_too_long : ¬WithinChainMax (run engineConfig crossedChains) := by
  have hClimb : climb (run engineConfig crossedChains).sourceUpstream 32 "n:0" = some "y:0" := by decide +kernel
  exact fun hWithin => absurd (hWithin 32 _ _ hClimb) (by decide)

end Server
end Daruma
