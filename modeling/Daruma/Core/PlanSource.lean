import Daruma.Core.Config
import Daruma.Storage.PlanRepo

/-! The source of a plan at intake: its reference is resolved, checked against
the project's policy and linked into the graph of sources. -/
namespace Daruma

open Outcome

namespace PlanConcurrency

/-- The deepest nesting of plans. -/
def maxParentDepth : Nat := 3

/-- Walk upward from a candidate parent. Too many hops count as a cycle. -/
def walkParents (db : Database) (planId : PlanId) : Nat → PlanId → Result Unit
  | 0, _ => .error (.validation "cycle_detected")
  | hops + 1, current =>
    match (db.plans.find? current).bind Plan.parentPlanId with
    | none => .ok ()
    | some parent =>
      if parent = planId then .error (.validation "cycle_detected") else walkParents db planId hops parent

/-- A parent that would close a cycle or nest too deep is refused. -/
def detectParentCycle (db : Database) (planId candidateParent : PlanId) : Result Unit :=
  if candidateParent = planId then .error (.validation "cycle_detected")
  else walkParents db planId maxParentDepth candidateParent

end PlanConcurrency

namespace PlanSource

open PlanConcurrency (detectParentCycle)

def maxPatternLen : Nat := 512
def maxDeriveRules : Nat := 32
def maxChannels : Nat := 32
def appendedBriefMax : Nat := 2000
def planChoiceCompletedDays : Int := 7

/-- Branches that say nothing about the subject of the work. -/
def trunkBranches : List String := ["main", "master", "develop", "dev", "trunk"]

private def nanosecondsPerDay : Int := 86400 * 1000000000

def invalid (message : String) : CoreError := .unprocessable "invalid_intake_source" message

def chainInvalid (message : String) : CoreError := .unprocessable "source_chain_invalid" message

def compile (codec : TextCodec) (pattern name : String) : Result Matcher :=
  if maxPatternLen < charCount pattern then
    .error (invalid s!"{name} is longer than {maxPatternLen} characters")
  else match codec.regex pattern with
    | .ok matcher => .ok matcher
    | .error e => .error (invalid s!"{name} `{pattern}` is not a valid regex: {e}")

/-- A reference of a policy, with the error under the policy's own code. -/
def policyRef (label raw : String) : Result String :=
  match normalizeSourceRef raw with
  | .ok normal => .ok normal
  | .error e => .error (invalid s!"{label}: {e}")

def validateDerive (codec : TextCodec) (rule : SourceDeriveRule) : Result Unit := do
  ensure (rule.origin = "branch") (invalid s!"derive.from `{rule.origin}` is not supported (only `branch`)")
  let _ ← compile codec rule.pattern "derive.pattern"
  let _ ← policyRef "derive.ref" rule.refTemplate
  pure ()

def validateChannel (codec : TextCodec) (channel : SourceChannel) : Result Unit := do
  ensure (trim channel.scheme ≠ "") (invalid "channels[].scheme must not be empty")
  match channel.pattern with
  | some pattern => do
    let _ ← compile codec pattern "channels[].pattern"
    pure ()
  | none => pure ()

def validatePolicy (codec : TextCodec) (policy : IntakeSourcePolicy) : Result Unit := do
  ensure (policy.derive.length ≤ maxDeriveRules) (invalid s!"at most {maxDeriveRules} derive rules are allowed")
  ensure (policy.channels.length ≤ maxChannels) (invalid s!"at most {maxChannels} channels are allowed")
  match policy.defaultRef with
  | some raw => do
    let _ ← policyRef "default_ref" raw
    pure ()
  | none => pure ()
  policy.derive.forM (validateDerive codec)
  policy.channels.forM (validateChannel codec)

def defaultPolicy : IntakeSourcePolicy := ⟨.warn, none, [], []⟩

def intakePolicy (db : Database) (projectId : ProjectId) : IntakeSourcePolicy :=
  (ProjectSettingsRepo.intakeSource db projectId).getD defaultPolicy

/-- Put captured groups in a template. A group that took no part gives nothing. -/
def expand (captures : Nat → Option String) : List Char → Option (List Char)
  | [] => some []
  | '$' :: d :: rest =>
    if d.isDigit && d ≠ '0' then
      match captures (d.toNat - '0'.toNat), expand captures rest with
      | some group, some later => some (group.toList ++ later)
      | _, _ => none
    else (expand captures (d :: rest)).map fun later => '$' :: later
  | c :: rest => (expand captures rest).map fun later => c :: later

def channelMatches (codec : TextCodec) (channel : SourceChannel) (sourceRef : String) : Result Bool :=
  let scheme := String.ofList (sourceRef.toList.takeWhile (· ≠ ':'))
  if toAsciiLowercase scheme ≠ toAsciiLowercase (trim channel.scheme) then .ok false
  else match channel.pattern with
    | some pattern => do
      let matcher ← compile codec pattern "channels[].pattern"
      pure (matcher sourceRef).isSome
    | none => .ok true

/-- The first channel that a reference comes through. -/
def firstChannel (codec : TextCodec) (sourceRef : String) : List SourceChannel → Result (Option SourceChannel)
  | [] => .ok none
  | channel :: rest => do
    let found ← channelMatches codec channel sourceRef
    if found then pure (some channel) else firstChannel codec sourceRef rest

/-- What a policy finds wrong with a source, as a code and a message. -/
def policyProblem (codec : TextCodec) (policy : IntakeSourcePolicy) (sourceRef : Option String)
    (explained : Bool) : Result (Option (String × String)) :=
  match sourceRef with
  | none => .ok (some ("plan_source_missing",
      "plan has no source: pass `source.ref` (MCP tools) / `plan.source_ref` (HTTP), a URI such as an issue URL"))
  | some sourceRef => do
    let channel ← firstChannel codec sourceRef policy.channels
    match channel with
    | none =>
      if policy.channels.isEmpty then pure none
      else pure (some ("plan_source_channel_mismatch",
        s!"source `{sourceRef}` matches none of the project's channels"))
    | some channel =>
      if channel.noteRequired && !explained then
        pure (some ("plan_source_note_required",
          s!"source `{sourceRef}`: channel requires an explanation: pass source.note (or source_brief)"))
      else pure none

def sourcePolicyFindings (codec : TextCodec) (policy : IntakeSourcePolicy) (sourceRef : Option String)
    (explained : Bool) : Result (List MutationWarning) :=
  if policy.mode = .off then .ok []
  else do
    let problem ← policyProblem codec policy sourceRef explained
    match problem with
    | none => pure []
    | some (code, message) =>
      if policy.mode = .enforce then .error (.unprocessable "plan_source_required" message)
      else pure [⟨code, message, none⟩]

def normalized (sourceRef : String) : Result String := orValidation (normalizeSourceRef sourceRef)

def toNodes (codec : TextCodec) (env : Env) (actor : Actor) (hasHead : Bool) :
    Nat → List SourceInput → Result (List SourceNode)
  | _, [] => .ok []
  | n, input :: rest => do
    ensure ((n = 0 && hasHead) || input.upstream.isEmpty)
      (.validation "only the nearest source node may carry `upstream`")
    let node ← orValidation
      (input.toNode codec.validDate ("note:" ++ hyphenated (env.uuid n)) env.now actor)
    let later ← toNodes codec env actor hasHead (n + 1) rest
    pure (node :: later)

def sourceNodes (codec : TextCodec) (env : Env) (head : Option SourceInput) (more : List SourceInput)
    (actor : Actor) : Result (List SourceNode) := do
  let inputs := head.toList ++ head.toList.flatMap SourceInput.upstream ++ more
  ensure (inputs.length ≤ sourceChainMax) (chainInvalid s!"a source chain holds at most {sourceChainMax} nodes")
  toNodes codec env actor head.isSome 0 inputs

def bareNode (codec : TextCodec) (env : Env) (sourceRef : String) (actor : Actor) : Result SourceNode :=
  orValidation ((SourceInput.mk (some sourceRef) none none none []).toNode codec.validDate "" env.now actor)

def normalizedContext (context : Option GitContext) : Result (Option GitContext) :=
  match context with
  | none => .ok none
  | some context => do
    let normal ← orValidation context.normalized
    pure (some normal)

/-- The reference of a plan, which its nearest node may not contradict. -/
def nearestRef (explicit : Option String) (nodes : List SourceNode) : Result (Option String) :=
  match nodes.head? with
  | none => .ok explicit
  | some nearest => match explicit with
    | some given =>
      if given ≠ nearest.sourceRef then .error (.validation
        s!"`source.ref` `{nearest.sourceRef}` differs from `source_ref` `{given}`; pass one")
      else .ok (some nearest.sourceRef)
    | none => .ok (some nearest.sourceRef)

def preparePlanSource (codec : TextCodec) (env : Env) (plan : NewPlan) (actor : Actor) :
    Result (NewPlan × List SourceNode) := do
  ensure (plan.sourceBrief ≠ some PlanRepo.intakeMarker)
    (.validation s!"source_brief `{PlanRepo.intakeMarker}` is reserved for the legacy intake plan")
  let explicit ← match plan.sourceRef with
    | some raw => do
      let normal ← normalized raw
      pure (some normal)
    | none => pure none
  let nodes ← match plan.source with
    | some source => sourceNodes codec env (some source) [] actor
    | none => pure []
  let sourceRef ← nearestRef explicit nodes
  let gitContext ← normalizedContext plan.gitContext
  pure ({ plan with sourceRef := sourceRef, source := none, gitContext := gitContext }, nodes)

/-- What linking has gathered so far. -/
structure Linking where
  merged : List SourceNode
  events : List PlanEvent
  warnings : List MutationWarning

/-- A node as the batch leaves it, or else as it is stored. -/
def currentSource (db : Database) (merged : List SourceNode) (sourceRef : String) : Option SourceNode :=
  (merged.find? fun node => node.sourceRef = sourceRef).or (PlanRepo.getSource db sourceRef)

def chainUpstreams : List SourceNode → List SourceNode
  | node :: next :: rest => { node with upstreamRef := some next.sourceRef } :: chainUpstreams (next :: rest)
  | nodes => nodes

/-- Merge a node into the graph. The flag says that a different upstream was
kept, which ends the chain there. -/
def mergeNode (db : Database) (keepExisting : Bool) (acc : Linking) (node : SourceNode) :
    Result (Linking × Bool) :=
  let stored := currentSource db acc.merged node.sourceRef
  let record := fun next : SourceNode =>
    if stored = some next then acc
    else { acc with merged := next :: acc.merged, events := acc.events ++ [.sourceUpserted next] }
  match stored with
  | none => .ok (record node, false)
  | some old => match old.fillFrom node with
    | .ok next => .ok (record next, false)
    | .error present =>
      if keepExisting then
        match old.fillFrom { node with upstreamRef := some present } with
        | .error _ => .error (.storage "same upstream never conflicts")
        | .ok next =>
          let acc := record next
          .ok ({ acc with warnings := acc.warnings ++ [⟨"source_upstream_kept",
            s!"source `{node.sourceRef}` already has upstream `{present}`; kept it and dropped the sources given above it",
            none⟩] }, true)
      else .error (.codedConflict "source_upstream_conflict"
        s!"source `{node.sourceRef}` already has upstream `{present}`; a set link is never rewritten")

def mergeNodes (db : Database) (keepExisting : Bool) : Linking → List SourceNode → Result Linking
  | acc, [] => .ok acc
  | acc, node :: rest => do
    let (acc, stop) ← mergeNode db keepExisting acc node
    if stop then pure acc else mergeNodes db keepExisting acc rest

/-- Walk up from the first node: no cycle, and no more nodes than a chain holds.
Each step adds a node, so the bound on nodes bounds the walk. -/
def checkChain (db : Database) (merged : List SourceNode) (below : Nat) :
    Nat → List String → String → Result Unit
  | 0, _, _ => .error (chainInvalid s!"a source chain holds at most {sourceChainMax} nodes")
  | steps + 1, seen, current =>
    if current ∈ seen then .error (chainInvalid s!"linking would close a cycle at source `{current}`")
    else if sourceChainMax < below + (current :: seen).length then
      .error (chainInvalid s!"a source chain holds at most {sourceChainMax} nodes")
    else match (currentSource db merged current).bind SourceNode.upstreamRef with
      | none => .ok ()
      | some up => checkChain db merged below steps (current :: seen) up

def linkSources (db : Database) (nodes : List SourceNode) (keepExisting : Bool) :
    Result (List PlanEvent × List MutationWarning) := do
  let nodes := chainUpstreams nodes
  let linked ← mergeNodes db keepExisting ⟨[], [], []⟩ nodes
  match nodes.head? with
  | none => pure ()
  | some first =>
    let below := PlanRepo.depthBelow db (sourceChainMax - 1) first.sourceRef
    checkChain db linked.merged below (sourceChainMax + 1) [] first.sourceRef
  pure (linked.events, linked.warnings)

def planSourceEvents (codec : TextCodec) (db : Database) (env : Env) (plan : NewPlan)
    (nodes : List SourceNode) (actor : Actor) : Result (List PlanEvent × List MutationWarning) :=
  match nodes, plan.sourceRef with
  | [], none => .ok ([], [])
  | [], some sourceRef => do
    let node ← bareNode codec env sourceRef actor
    linkSources db [node] true
  | nodes, _ => linkSources db nodes true

private def filled (value : Option String) : Bool :=
  value.any fun text => !isBlank text

private def nodeExplains (node : SourceNode) : Bool :=
  filled node.note || ("note:".toList.isPrefixOf node.sourceRef.toList && filled node.label)

def sourceExplained (db : Database) (sourceBrief : Option String) (incoming : Option SourceNode)
    (sourceRef : Option String) : Bool :=
  filled sourceBrief || incoming.any nodeExplains || (sourceRef.bind (PlanRepo.getSource db)).any nodeExplains

def deriveRef (codec : TextCodec) (branch : String) : List SourceDeriveRule → Result (Option String)
  | [] => .ok none
  | rule :: rest =>
    if rule.origin ≠ "branch" then deriveRef codec branch rest
    else do
      let matcher ← compile codec rule.pattern "derive.pattern"
      match (matcher branch).bind fun captures => expand captures rule.refTemplate.toList with
      | some derived => do
        let normal ← normalized (String.ofList derived)
        pure (some normal)
      | none => deriveRef codec branch rest

/-- The reference of a plan that names none: its parent's, one derived from its
branch, or the project's default. The flag says that plans of one source gather
under the earliest of them. -/
def resolveRef (codec : TextCodec) (db : Database) (policy : IntakeSourcePolicy) (plan : NewPlan) :
    Result (Option String × Bool) :=
  match plan.sourceRef with
  | some given => .ok (some given, !"note:".toList.isPrefixOf given.toList)
  | none => match (plan.parentPlanId.bind db.plans.find?).bind Plan.sourceRef with
    | some inherited => .ok (some inherited, false)
    | none => do
      let derived ← match plan.gitContext.bind GitContext.branch with
        | some branch => deriveRef codec branch policy.derive
        | none => pure none
      match derived, policy.defaultRef with
      | some derived, _ => pure (some derived, true)
      | none, some raw => do
        let normal ← normalized raw
        pure (some normal, false)
      | none, none => pure (none, false)

def autoParent (db : Database) (env : Env) (plan : NewPlan) (mayAutoParent : Bool) :
    Result (NewPlan × List MutationWarning) :=
  match plan.sourceRef, plan.parentPlanId with
  | some sourceRef, none =>
    match if mayAutoParent then PlanRepo.earliestBySourceRef db plan.projectId sourceRef else none with
    | none => .ok (plan, [])
    | some root => match detectParentCycle db (env.fresh 0) root with
      | .error _ => .error (.validation
          s!"auto-parent to plan {root} (earliest plan with source `{sourceRef}`) failed: validation failed: cycle_detected; pass an explicit parent_plan_id")
      | .ok () => .ok ({ plan with parentPlanId := some root }, [⟨"plan_auto_parented",
          s!"a plan with source `{sourceRef}` already exists; this plan was attached to it as a child", none⟩])
  | _, _ => .ok (plan, [])

def applySourcePolicy (codec : TextCodec) (db : Database) (env : Env) (plan : NewPlan)
    (nearest : Option SourceNode) : Result (NewPlan × List MutationWarning) := do
  let policy := intakePolicy db plan.projectId
  let (sourceRef, mayAutoParent) ← resolveRef codec db policy plan
  let (plan, parented) ← autoParent db env { plan with sourceRef := sourceRef } mayAutoParent
  let explained := sourceExplained db plan.sourceBrief nearest plan.sourceRef
  let findings ← sourcePolicyFindings codec policy plan.sourceRef explained
  pure (plan, parented ++ findings)

def resolvePlanSource (codec : TextCodec) (db : Database) (env : Env) (plan : NewPlan) (actor : Actor) :
    Result (NewPlan × List PlanEvent × List MutationWarning) := do
  let (plan, nodes) ← preparePlanSource codec (env.part 0) plan actor
  let (plan, warnings) ← applySourcePolicy codec db (env.part 1) plan nodes.head?
  let (events, kept) ← planSourceEvents codec db (env.part 2) plan nodes actor
  pure (plan, events, warnings ++ kept)

/-- The chain above a reference, as the pending events leave it. -/
def pendingChain (db : Database) (pending : List SourceNode) : Nat → List String → Option String → List String
  | 0, chain, _ => chain
  | _, chain, none => chain
  | steps + 1, chain, some sourceRef =>
    if sourceRef ∈ chain then chain
    else pendingChain db pending steps (chain ++ [sourceRef])
      ((currentSource db pending sourceRef).bind SourceNode.upstreamRef)

/-- A plan whose source or branch other plans share must say that it is separate. -/
def requirePlanChoice (db : Database) (env : Env) (plan : NewPlan) (sourceEvents : List PlanEvent) :
    Result Unit := do
  let pending := sourceEvents.reverse.filterMap fun
    | .sourceUpserted source => some source
    | _ => none
  let chain := pendingChain db pending sourceChainMax [] plan.sourceRef
  let defaultRef ← match (intakePolicy db plan.projectId).defaultRef with
    | some raw => do
      let normal ← normalized raw
      pure (some normal)
    | none => pure none
  let chain := if chain.head?.isSome && chain.head? = defaultRef then []
    else chain.filter fun sourceRef => some sourceRef ≠ defaultRef
  let branch := (plan.gitContext.bind GitContext.branch).filter fun b => toAsciiLowercase b ∉ trunkBranches
  if chain.isEmpty && branch.isNone then pure ()
  else
    let repo := if branch.isSome then plan.gitContext.bind GitContext.repo else none
    let since := env.now - planChoiceCompletedDays * nanosecondsPerDay
    let candidates := (PlanRepo.continuationCandidates db plan.projectId chain repo branch).filter fun p =>
      p.status ≠ .completed || since ≤ p.updatedAt
    ensure candidates.isEmpty (.codedConflict "plan_choice_required"
      (s!"{candidates.length} existing plan(s) share this branch or source chain: same subject of work → pass `plan.id` " ++
        "(a completed plan reopens); another subject → pass `plan.separate: true`"))

private def given (value : Option String) : Option String :=
  (value.map trim).filter fun text => text ≠ ""

/-- What a task appended to a plan says of a source other than the plan's own. -/
def appendedSourceNote (db : Database) (plan : Plan) (incoming : NewPlan) : Result (Option String) := do
  let incomingRef ← match (given (incoming.source.bind SourceInput.sourceRef)).or (given incoming.sourceRef) with
    | some raw => do
      let normal ← normalized raw
      pure (some normal)
    | none => pure none
  let storedLabel := ((plan.sourceRef.bind (PlanRepo.getSource db)).bind SourceNode.label)
  let refLine := (incomingRef.filter fun r => plan.sourceRef ≠ some r).map fun r => s!"Source: {r}"
  let labelLine := ((given (incoming.source.bind SourceInput.label)).filter fun l =>
    given storedLabel ≠ some l).map fun l => s!"Source label: {l}"
  let briefLine := ((given incoming.sourceBrief).filter fun b => given plan.sourceBrief ≠ some b).map fun b =>
    s!"Brief: {String.ofList (b.toList.take appendedBriefMax)}"
  let lines := refLine.toList ++ labelLine.toList ++ briefLine.toList
  if lines.isEmpty then pure none
  else
    let kept := plan.sourceRef.getD "none"
    pure (some (s!"Added to plan {plan.id} from a source other than the plan's own (`{kept}`, kept).\n" ++
      String.intercalate "\n" lines))

/-- The top of a chain: the first node above without an upstream. -/
def topSource (db : Database) : Nat → String → String
  | 0, sourceRef => sourceRef
  | steps + 1, sourceRef => match (PlanRepo.getSource db sourceRef).bind SourceNode.upstreamRef with
    | some up => topSource db steps up
    | none => sourceRef

def setPlanSource (codec : TextCodec) (db : Database) (env : Env) (plan : Plan) (source : SourceInput)
    (upstream : List SourceInput) (actor : Actor) : Result (List PlanEvent × List MutationWarning) := do
  let nodes ← sourceNodes codec env (some source) upstream actor
  let nearest ← okOr nodes.head? (.validation "a source node needs `ref` or `label`")
  let explained := sourceExplained db plan.sourceBrief (some nearest) (some nearest.sourceRef)
  let warnings ← sourcePolicyFindings codec (intakePolicy db plan.projectId) (some nearest.sourceRef) explained
  let (events, _) ← linkSources db nodes false
  pure (events ++ [.planSourceSet plan.id nearest.sourceRef env.now], warnings)

def extendFrom (codec : TextCodec) (db : Database) (env : Env) (start : String) (byRef : Bool)
    (upstream : List SourceInput) (actor : Actor) : Result (List PlanEvent × List MutationWarning) := do
  ensure (!upstream.isEmpty) (.validation "`upstream` (nearest first) is required to extend a chain")
  let top := topSource db sourceChainMax start
  ensure (!byRef || top = start) (.codedConflict "source_upstream_conflict"
    s!"source `{start}` already has an upstream; extend the chain's top node `{top}` instead")
  let first ← bareNode codec env top actor
  let more ← sourceNodes codec env none upstream actor
  let (events, _) ← linkSources db (first :: more) false
  pure (events, [])

def extendSource (codec : TextCodec) (db : Database) (env : Env) (planId : Option PlanId)
    (sourceRef : Option String) (source : Option SourceInput) (upstream : List SourceInput)
    (actor : Actor) : Result (List PlanEvent × List MutationWarning) :=
  match planId, sourceRef with
  | some id, none => do
    let plan ← requirePlan db id
    match plan.sourceRef, source with
    | none, some source => setPlanSource codec db env plan source upstream actor
    | none, none => .error (.validation s!"plan {id} has no source yet: pass `source`")
    | some present, some _ => .error (.codedConflict "plan_source_already_set"
        s!"plan {id} already has source `{present}`; extend it with `upstream`")
    | some present, none => extendFrom codec db env present false upstream actor
  | none, some raw => do
    ensure source.isNone (.validation
      "`source` sets a plan's first source: pass `plan_id`, or `upstream` to extend `ref`")
    let start ← normalized raw
    let _ ← okOr (PlanRepo.getSource db start) (.notFound s!"source `{start}`")
    extendFrom codec db env start true upstream actor
  | _, _ => .error (.validation "pass exactly one of `plan_id` / `ref`")

def rawWords : List String :=
  ["исследовать", "подумать", "разобраться", "идея", "explore", "investigate", "research", "idea"]

private def hasInfix (word text : String) : Bool :=
  text.toList.tails.any fun rest => word.toList.isPrefixOf rest

def planLooksRaw (codec : TextCodec) (plan : NewPlan) (tasks : List NewTask) : List MutationWarning :=
  if filled plan.goal || (plan.successCriteria.any fun c => !c.isEmpty) || 1 < tasks.length then []
  else if (plan.title :: tasks.map NewTask.title).any fun title =>
      rawWords.any fun word => hasInfix word (codec.lowercase title) then
    [⟨"plan_looks_raw", "plan has no goal or success_criteria, at most one task and an exploratory title: it looks like raw material — consider mcpbox_pipeline_run",
      none⟩]
  else []

end PlanSource
end Daruma
