import Daruma.Core.PlanSource
import Daruma.Library.Ancestry

/-! How linking a chain of sources changes the links between them: which links it
adds, and what its walk up from the first source has seen. -/
namespace Daruma

open KeyedTable List

def Database.sourceUpstream (db : Database) (sourceRef : String) : Option String :=
  (db.sources.find? sourceRef).bind SourceNode.upstreamRef

def PlanEvent.SetsUpstream : PlanEvent → String → String → Prop
  | .sourceUpserted source, child, above => source.sourceRef = child ∧ source.upstreamRef = some above
  | _, _, _ => False

namespace PlanRepo

variable {db : Database} {env : Env} {envelope : EventEnvelope} {event : PlanEvent} {child above : String}

theorem sourceUpstream_upsertSource {source : SourceNode} : (upsertSource db source).sourceUpstream child =
    if source.sourceRef = child then (db.sourceUpstream child).or source.upstreamRef else db.sourceUpstream child := by
  unfold upsertSource Database.sourceUpstream
  split
  · rename_i hFound
    dsimp only
    rw [find?_upsert]
    split
    · rename_i hIs
      rw [← hIs, hFound]
      rfl
    · rfl
  · rename_i old hFound
    have hKey : old.sourceRef = source.sourceRef := key_of_find? hFound
    dsimp only
    rw [find?_upsert]
    change Option.bind (if old.sourceRef = child then _ else _) _ = _
    rw [hKey]
    split
    · rename_i hIs
      rw [← hIs, hFound]
      rfl
    · rfl

variable {planId : PlanId} {position : Nat}

theorem sources_addTask {taskId : TaskId} {dependsOn : List TaskId} :
    (addTask db planId taskId position dependsOn).sources = db.sources := by
  unfold addTask
  dsimp only
  split <;> rfl

theorem sources_reorder {order : List TaskId} : (reorder db planId position order).sources = db.sources := by
  induction order generalizing db position with
  | nil => rfl
  | cons taskId rest ih => exact ih

theorem sources_applyPatch {patch : PlanPatch} : (applyPatch db env envelope planId patch).sources = db.sources := by
  unfold applyPatch
  split
  · rfl
  · dsimp only
    split
    · split <;> rfl
    · rfl

theorem sources_deletePlan {instant : Timestamp} : (deletePlan db planId instant).sources = db.sources := by
  unfold deletePlan
  dsimp only
  split <;> rfl

theorem sources_applyPlanEvent (h : ∀ source, event ≠ .sourceUpserted source) :
    (applyPlanEvent db env envelope event).sources = db.sources := by
  cases event with
  | sourceUpserted source => exact absurd rfl (h source)
  | planUpdated => exact sources_applyPatch
  | planDeleted => exact sources_deletePlan
  | planTaskAdded => exact sources_addTask
  | planReordered => exact sources_reorder
  | _ => rfl

theorem sourceUpstream_applyPlanEvent (h : (applyPlanEvent db env envelope event).sourceUpstream child = some above) :
    db.sourceUpstream child = some above ∨ event.SetsUpstream child above := by
  cases event with
  | sourceUpserted source =>
    have hUpserted := sourceUpstream_upsertSource.symm.trans h
    split at hUpserted
    · rename_i hIs
      exact (Option.or_eq_some_iff.mp hUpserted).imp_right fun ⟨_, hUpstream⟩ => ⟨hIs, hUpstream⟩
    · exact .inl hUpserted
  | _ =>
    rw [Database.sourceUpstream, sources_applyPlanEvent (fun _ hIs => by cases hIs)] at h
    exact .inl h

theorem sourceUpstream_kept (h : db.sourceUpstream child = some above) :
    (applyPlanEvent db env envelope event).sourceUpstream child = some above := by
  cases event with
  | sourceUpserted source =>
    refine sourceUpstream_upsertSource.trans ?_
    rw [h]
    split <;> rfl
  | _ =>
    rw [Database.sourceUpstream, sources_applyPlanEvent (fun _ hIs => by cases hIs)]
    exact h

end PlanRepo

open Outcome Ancestry
open DirectedGraph (Acyclic)

variable {old : SourceNode}

theorem SourceNode.fillFrom_ok {node next : SourceNode} (h : old.fillFrom node = .ok next) :
    next.sourceRef = old.sourceRef ∧ next.upstreamRef = old.upstreamRef.or node.upstreamRef ∧
      ∀ present new, old.upstreamRef = some present → node.upstreamRef = some new → present = new := by
  unfold SourceNode.fillFrom at h
  dsimp only at h
  split at h
  · rename_i present new hOld hNew
    split at h
    · rename_i hSame
      cases h
      refine ⟨rfl, rfl, fun first second hFirst hSecond => ?_⟩
      rw [← Option.some.inj (hOld.symm.trans hFirst), ← Option.some.inj (hNew.symm.trans hSecond)]
      exact hSame
    · cases h
  · rename_i hNone
    cases h
    exact ⟨rfl, rfl, fun present new hOld hNew => absurd hNew (hNone present new hOld)⟩

theorem SourceNode.fillFrom_error {node : SourceNode} {present : String} (h : old.fillFrom node = .error present) :
    old.upstreamRef = some present ∧ ∃ new, node.upstreamRef = some new ∧ present ≠ new := by
  unfold SourceNode.fillFrom at h
  dsimp only at h
  split at h
  · rename_i old new hOld hNew
    split at h
    · cases h
    · rename_i hOther
      cases h
      exact ⟨hOld, new, hNew, hOther⟩
  · cases h

namespace PlanSource

variable {db : Database} {keepExisting stop : Bool} {acc result : Linking} {node next : SourceNode}
  {nodes merged : List SourceNode} {child above : String}

def linkedUpstream (db : Database) (merged : List SourceNode) (sourceRef : String) : Option String :=
  (currentSource db merged sourceRef).bind SourceNode.upstreamRef

/-- The nodes point at each other, and the last one at nothing. -/
def Chained : List SourceNode → Prop
  | node :: next :: rest => node.upstreamRef = some next.sourceRef ∧ Chained (next :: rest)
  | [node] => node.upstreamRef = none
  | [] => True

/-- The links that a chain adds where the stored ones leave room. A different link
that is stored ends it. -/
def addedLink (db : Database) : List String → String → Option String
  | current :: next :: rest, sourceRef =>
    match db.sourceUpstream current with
    | some present => if present = next then addedLink db (next :: rest) sourceRef else none
    | none => if sourceRef = current then some next else addedLink db (next :: rest) sourceRef
  | _, _ => none

def joinedUpstream (db : Database) (chain : List String) (sourceRef : String) : Option String :=
  (db.sourceUpstream sourceRef).or (addedLink db chain sourceRef)

theorem chainUpstreams_refs (nodes : List SourceNode) :
    (chainUpstreams nodes).map SourceNode.sourceRef = nodes.map SourceNode.sourceRef := by
  induction nodes with
  | nil => rfl
  | cons node rest ih =>
    cases rest with
    | nil => rfl
    | cons next rest =>
      rw [chainUpstreams, map_cons, ih]
      rfl

theorem chained_chainUpstreams (h : ∀ node ∈ nodes, node.upstreamRef = none) : Chained (chainUpstreams nodes) := by
  induction nodes with
  | nil => exact trivial
  | cons node rest ih =>
    have hRest := ih fun later hMem => h later (mem_cons_of_mem _ hMem)
    cases rest with
    | nil => exact h node mem_cons_self
    | cons next rest =>
      rw [chainUpstreams]
      cases hChain : chainUpstreams (next :: rest) with
      | nil => exact absurd (congrArg List.length (chainUpstreams_refs (next :: rest))) (by rw [hChain]; exact nofun)
      | cons head later =>
        have hHead : head.sourceRef = next.sourceRef := by
          have hRefs := chainUpstreams_refs (next :: rest)
          rw [hChain] at hRefs
          exact (List.cons.inj hRefs).1
        exact ⟨congrArg some hHead.symm, hChain ▸ hRest⟩

theorem currentSource_ref {sourceRef : String} {old : SourceNode} (h : currentSource db merged sourceRef = some old) :
    old.sourceRef = sourceRef := by
  rcases Option.or_eq_some_iff.mp h with hMerged | ⟨_, hStored⟩
  · have hIs := find?_some hMerged
    exact of_decide_eq_true hIs
  · exact key_of_find? hStored

theorem linkedUpstream_cons : linkedUpstream db (next :: merged) child =
    if next.sourceRef = child then next.upstreamRef else linkedUpstream db merged child := by
  unfold linkedUpstream currentSource
  rw [find?_cons]
  split
  · rename_i hIs
    rw [if_pos (of_decide_eq_true hIs)]
    rfl
  · rename_i hOther
    rw [if_neg (of_decide_eq_false hOther)]

structure Merges (db : Database) (acc : Linking) (node : SourceNode) (result : Linking) (stop : Bool) : Prop where
  others : ∀ child, node.sourceRef ≠ child → linkedUpstream db result.merged child = linkedUpstream db acc.merged child
  own : linkedUpstream db result.merged node.sourceRef =
    if stop then linkedUpstream db acc.merged node.sourceRef
    else (linkedUpstream db acc.merged node.sourceRef).or node.upstreamRef
  agrees : stop = false → ∀ present new, linkedUpstream db acc.merged node.sourceRef = some present →
    node.upstreamRef = some new → present = new
  events : ∀ source, .sourceUpserted source ∈ result.events → .sourceUpserted source ∈ acc.events ∨
    linkedUpstream db result.merged source.sourceRef = source.upstreamRef

def recordNode (db : Database) (acc : Linking) (next : SourceNode) : Linking :=
  if currentSource db acc.merged next.sourceRef = some next then acc
  else { acc with merged := next :: acc.merged, events := acc.events ++ [.sourceUpserted next] }

theorem linkedUpstream_recordNode : linkedUpstream db (recordNode db acc next).merged child =
    if next.sourceRef = child then next.upstreamRef else linkedUpstream db acc.merged child := by
  unfold recordNode
  split
  · rename_i hSame
    split
    · rename_i hIs
      rw [← hIs, linkedUpstream, hSame]
      rfl
    · rfl
  · exact linkedUpstream_cons

theorem recordNode_events {source : SourceNode} (h : .sourceUpserted source ∈ (recordNode db acc next).events) :
    .sourceUpserted source ∈ acc.events ∨
      linkedUpstream db (recordNode db acc next).merged source.sourceRef = source.upstreamRef := by
  have hUpstream : linkedUpstream db (recordNode db acc next).merged next.sourceRef = next.upstreamRef :=
    linkedUpstream_recordNode.trans (if_pos rfl)
  unfold recordNode at h
  split at h
  · exact .inl h
  · rcases mem_append.mp h with hOld | hNew
    · exact .inl hOld
    · cases mem_singleton.mp hNew
      exact .inr hUpstream

theorem mergeNode_merges (h : mergeNode db keepExisting acc node = .ok (result, stop)) : Merges db acc node result stop := by
  have hRecorded : ∀ next : SourceNode, next.sourceRef = node.sourceRef →
      (if currentSource db acc.merged node.sourceRef = some next then acc
        else { acc with merged := next :: acc.merged, events := acc.events ++ [.sourceUpserted next] }) =
      recordNode db acc next := by
    intro next hRef
    rw [recordNode, hRef]
  have hOthers : ∀ {next : SourceNode}, next.sourceRef = node.sourceRef → ∀ child, node.sourceRef ≠ child →
      linkedUpstream db (recordNode db acc next).merged child = linkedUpstream db acc.merged child :=
    fun hRef child hOther => linkedUpstream_recordNode.trans (if_neg (hRef ▸ hOther))
  have hOwn : ∀ {next : SourceNode}, next.sourceRef = node.sourceRef →
      linkedUpstream db (recordNode db acc next).merged node.sourceRef = next.upstreamRef :=
    fun hRef => linkedUpstream_recordNode.trans (if_pos hRef)
  unfold mergeNode at h
  dsimp only at h
  split at h
  · rename_i hNone
    rw [hRecorded node rfl] at h
    cases h
    have hUpstream : linkedUpstream db acc.merged node.sourceRef = none := by
      rw [linkedUpstream, hNone]
      rfl
    refine ⟨hOthers rfl, ?_, fun _ present new hPresent => ?_, fun source => recordNode_events⟩
    · rw [hOwn rfl, hUpstream]
      rfl
    · cases hUpstream.symm.trans hPresent
  · rename_i old hOld
    have hRef : old.sourceRef = node.sourceRef := currentSource_ref hOld
    have hUpstream : linkedUpstream db acc.merged node.sourceRef = old.upstreamRef := by
      rw [linkedUpstream, hOld]
      rfl
    split at h
    · rename_i next hFilled
      obtain ⟨hNextRef, hNext, hAgrees⟩ := SourceNode.fillFrom_ok hFilled
      rw [hRecorded next (hNextRef.trans hRef)] at h
      cases h
      refine ⟨hOthers (hNextRef.trans hRef), ?_, fun _ present new hPresent => ?_, fun source => recordNode_events⟩
      · rw [hOwn (hNextRef.trans hRef), hNext, hUpstream]
        rfl
      · exact hAgrees present new (hUpstream.symm.trans hPresent)
    · rename_i present hRefused
      obtain ⟨hPresent, _⟩ := SourceNode.fillFrom_error hRefused
      split at h
      · split at h
        · cases h
        · rename_i next hFilled
          obtain ⟨hNextRef, hNext, _⟩ := SourceNode.fillFrom_ok hFilled
          rw [hRecorded next (hNextRef.trans hRef)] at h
          cases h
          refine ⟨hOthers (hNextRef.trans hRef), ?_, nofun, fun source => recordNode_events⟩
          dsimp only
          rw [hOwn (hNextRef.trans hRef), hNext, hUpstream, hPresent]
          rfl
      · cases h

theorem Merges.kept (h : Merges db acc node result stop) (hLinked : linkedUpstream db acc.merged child = some above) :
    linkedUpstream db result.merged child = some above := by
  by_cases hIs : node.sourceRef = child
  · subst hIs
    rw [h.own, hLinked]
    split <;> rfl
  · rw [h.others child hIs, hLinked]

theorem Merges.added (h : Merges db acc node result stop) (hLinked : linkedUpstream db result.merged child = some above) :
    linkedUpstream db acc.merged child = some above ∨ (node.sourceRef = child ∧ stop = false ∧
      linkedUpstream db acc.merged child = none ∧ node.upstreamRef = some above) := by
  by_cases hIs : node.sourceRef = child
  · subst hIs
    rw [h.own] at hLinked
    split at hLinked
    · exact .inl hLinked
    · rename_i hGoesOn
      exact (Option.or_eq_some_iff.mp hLinked).imp_right fun ⟨hNone, hGiven⟩ =>
        ⟨rfl, Bool.eq_false_iff.mpr hGoesOn, hNone, hGiven⟩
  · exact .inl ((h.others child hIs).symm.trans hLinked)

theorem Merges.points (h : Merges db acc node result false) (hNext : node.upstreamRef = some above) :
    linkedUpstream db result.merged node.sourceRef = some above := by
  rw [h.own, if_neg Bool.false_ne_true, hNext]
  cases hPresent : linkedUpstream db acc.merged node.sourceRef with
  | none => rfl
  | some present => rw [h.agrees rfl present above hPresent hNext]; rfl

structure MergesChain (db : Database) (acc : Linking) (nodes : List SourceNode) (result : Linking) : Prop where
  kept : ∀ child above, linkedUpstream db acc.merged child = some above → linkedUpstream db result.merged child = some above
  onWay : ∀ child above, linkedUpstream db result.merged child = some above →
    linkedUpstream db acc.merged child = some above ∨ ∃ first ∈ nodes.head?, ∃ links,
      climb (linkedUpstream db result.merged) links first.sourceRef = some child
  joined : (∀ child above, db.sourceUpstream child = some above → linkedUpstream db acc.merged child = some above) →
    ∀ child above, linkedUpstream db result.merged child = some above →
      linkedUpstream db acc.merged child = some above ∨
        addedLink db (nodes.map SourceNode.sourceRef) child = some above
  events : ∀ source, .sourceUpserted source ∈ result.events → .sourceUpserted source ∈ acc.events ∨
    ∀ above, source.upstreamRef = some above → linkedUpstream db result.merged source.sourceRef = some above

theorem MergesChain.of_last (h : Merges db acc node result stop) (hLast : stop = true ∨ node.upstreamRef = none) :
    MergesChain db acc (node :: nodes) result := by
  have hSame : ∀ child above, linkedUpstream db result.merged child = some above →
      linkedUpstream db acc.merged child = some above := by
    intro child above hLinked
    refine (h.added hLinked).resolve_right fun ⟨_, hGoesOn, _, hGiven⟩ => ?_
    rcases hLast with hStop | hNone
    · cases hStop.symm.trans hGoesOn
    · cases hNone.symm.trans hGiven
  exact ⟨fun _ _ => h.kept, fun child above hLinked => .inl (hSame child above hLinked),
    fun _ child above hLinked => .inl (hSame child above hLinked),
    fun source hMem => (h.events source hMem).imp_right fun hIs above hUpstream => hIs.trans hUpstream⟩

theorem mergeNodes_merges (hChain : Chained nodes) (h : mergeNodes db keepExisting acc nodes = .ok result) :
    MergesChain db acc nodes result := by
  induction nodes generalizing acc with
  | nil =>
    cases h
    exact ⟨fun _ _ h => h, fun _ _ h => .inl h, fun _ _ _ h => .inl h, fun _ h => .inl h⟩
  | cons node rest ih =>
    unfold mergeNodes at h
    obtain ⟨⟨merged, stop⟩, hNode, h⟩ := bind_eq_ok.mp h
    have hMerges := mergeNode_merges hNode
    dsimp only at h
    split at h
    · rename_i hStop
      cases h
      exact .of_last hMerges (.inl hStop)
    · rename_i hGoesOn
      obtain rfl : stop = false := Bool.eq_false_iff.mpr hGoesOn
      cases rest with
      | nil =>
        cases h
        exact .of_last hMerges (.inr hChain)
      | cons next rest =>
        obtain ⟨hPoints, hRestChained⟩ := hChain
        have hRest := ih hRestChained h
        have hOwn : linkedUpstream db result.merged node.sourceRef = some next.sourceRef :=
          hRest.kept _ _ (hMerges.points hPoints)
        refine ⟨fun child above hLinked => hRest.kept _ _ (hMerges.kept hLinked), fun child above hLinked => ?_,
          fun hStored child above hLinked => ?_, fun source hMem => ?_⟩
        · rcases hRest.onWay child above hLinked with hMerged | ⟨first, hFirst, links, hClimb⟩
          · refine (hMerges.added hMerged).imp_right fun ⟨hIs, _⟩ => ?_
            exact ⟨node, rfl, 0, congrArg some hIs⟩
          · cases hFirst
            exact .inr ⟨node, rfl, links + 1, climb_succ.mpr ⟨_, hOwn, hClimb⟩⟩
        · have hJoined := hRest.joined (fun child above h => hMerges.kept (hStored child above h)) child above hLinked
          rw [map_cons, map_cons, addedLink]
          cases hUpstream : db.sourceUpstream node.sourceRef with
          | some present =>
            have hPresent := hStored _ _ hUpstream
            dsimp only
            rw [if_pos (hMerges.agrees rfl _ _ hPresent hPoints)]
            refine hJoined.imp_left fun hMerged => (hMerges.added hMerged).resolve_right ?_
            rintro ⟨rfl, _, hNone, _⟩
            cases hNone.symm.trans hPresent
          | none =>
            dsimp only
            by_cases hIs : child = node.sourceRef
            · rw [if_pos hIs]
              exact .inr (hOwn.symm.trans (hIs ▸ hLinked))
            · rw [if_neg hIs]
              exact hJoined.imp_left fun hMerged =>
                (hMerges.added hMerged).resolve_right fun ⟨hSame, _⟩ => hIs hSame.symm
        · rcases hRest.events source hMem with hMerged | hIs
          · refine (hMerges.events source hMerged).imp_right fun hIs above hUpstream => ?_
            exact hRest.kept _ _ (hIs.trans hUpstream)
          · exact .inr hIs

/-- The walk up from the first source has reached a top. -/
theorem checkChain_ok {below steps : Nat} {seen : List String} {current : String}
    (h : checkChain db merged below steps seen current = .ok ()) :
    ∃ links top, climb (linkedUpstream db merged) links current = some top ∧ linkedUpstream db merged top = none := by
  induction steps generalizing seen current with
  | zero => cases h
  | succ steps ih =>
    unfold checkChain at h
    split at h
    · cases h
    split at h
    · cases h
    split at h
    · rename_i hTop
      exact ⟨0, current, rfl, hTop⟩
    · rename_i up hUp
      obtain ⟨links, top, hClimb, hTop⟩ := ih h
      exact ⟨links + 1, top, climb_succ.mpr ⟨up, hUp, hClimb⟩, hTop⟩

structure LinksSources (db : Database) (nodes : List SourceNode) (events : List PlanEvent)
    (updated : String → Option String) : Prop where
  kept : ∀ child above, db.sourceUpstream child = some above → updated child = some above
  acyclic : Acyclic (Link db.sourceUpstream) → Acyclic (Link updated)
  joined : ∀ child above, updated child = some above →
    joinedUpstream db (nodes.map SourceNode.sourceRef) child = some above
  events : ∀ source above, .sourceUpserted source ∈ events → source.upstreamRef = some above →
    updated source.sourceRef = some above

variable {linked : List PlanEvent × List MutationWarning}

theorem linkSources_ok (h : linkSources db nodes keepExisting = .ok linked) :
    ∃ result, mergeNodes db keepExisting ⟨[], [], []⟩ (chainUpstreams nodes) = .ok result ∧ linked.1 = result.events ∧
      ∀ first, (chainUpstreams nodes).head? = some first → ∃ links top,
        climb (linkedUpstream db result.merged) links first.sourceRef = some top ∧
          linkedUpstream db result.merged top = none := by
  obtain ⟨result, hMerged, h⟩ := bind_eq_ok.mp h
  refine ⟨result, hMerged, ?_⟩
  dsimp only at h
  split at h
  · rename_i hNone
    cases h
    refine ⟨rfl, fun first hFirst => ?_⟩
    cases hNone.symm.trans hFirst
  · rename_i head hHead
    obtain ⟨_, hChecked, hLinked⟩ := bind_eq_ok.mp h
    cases hLinked
    refine ⟨rfl, fun first hFirst => ?_⟩
    cases hHead.symm.trans hFirst
    exact checkChain_ok hChecked

theorem linkSources_links (hBare : ∀ node ∈ nodes, node.upstreamRef = none)
    (h : linkSources db nodes keepExisting = .ok linked) : ∃ updated, LinksSources db nodes linked.1 updated := by
  obtain ⟨result, hMerged, hEvents, hWalked⟩ := linkSources_ok h
  have hChain := mergeNodes_merges (chained_chainUpstreams hBare) hMerged
  have hKept : ∀ child above, db.sourceUpstream child = some above → linkedUpstream db result.merged child = some above :=
    hChain.kept
  refine ⟨linkedUpstream db result.merged, hKept, fun hAcyclic => ?_, fun child above hUp => ?_, fun source above hMem => ?_⟩
  · cases hNodes : (chainUpstreams nodes).head? with
    | none =>
      refine hAcyclic.mono fun child above hLink => ?_
      refine (hChain.onWay child above hLink).resolve_right ?_
      rintro ⟨first, hFirst, _⟩
      cases hNodes.symm.trans hFirst
    | some first =>
      obtain ⟨links, top, hClimb, hTop⟩ := hWalked first hNodes
      refine acyclic_extended hAcyclic ⟨hKept, fun child above hUp => ?_⟩ hClimb hTop
      refine (hChain.onWay child above hUp).imp_right ?_
      rintro ⟨other, hOther, hWay⟩
      cases hNodes.symm.trans hOther
      exact hWay
  · have hJoined := hChain.joined (fun _ _ h => h) child above hUp
    rw [chainUpstreams_refs] at hJoined
    cases hOld : db.sourceUpstream child with
    | some present =>
      obtain rfl := Option.some.inj ((hKept child present hOld).symm.trans hUp)
      rw [joinedUpstream, hOld]
      rfl
    | none =>
      rw [joinedUpstream, hOld, Option.none_or]
      refine hJoined.resolve_left fun hStored => ?_
      cases hOld.symm.trans hStored
  · exact (hChain.events source (hEvents ▸ hMem)).resolve_left not_mem_nil above

end PlanSource
end Daruma
