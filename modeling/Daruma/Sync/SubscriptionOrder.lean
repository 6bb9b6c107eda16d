import Daruma.Sync.HubFanout
import Daruma.Sync.Subscription
import Mathlib.Data.List.Nodup

/-! The order of the log, the bus and the channel of a subscription, and that no
subscription shows an event twice. -/
namespace Daruma

open List
open Hub (Channel setChannel State)

namespace Hub

variable {Event : Type} {capacity : Nat} {hub hub' : State Event} {id : SubscriptionId} {channel : Channel Event}

theorem step_channel (h : Step capacity hub hub') (hChannel : hub.channels id = some channel) :
    ∃ channel', hub'.channels id = some channel' ∧ channel'.since = channel.since ∧ channel.sent <+: channel'.sent := by
  have hKept : ∃ channel', hub.channels id = some channel' ∧ channel'.since = channel.since ∧
      channel.sent <+: channel'.sent := ⟨channel, hChannel, rfl, prefix_refl _⟩
  have hWrite : ∀ (other : SubscriptionId) (before after : Channel Event), hub.channels other = some before →
      after.since = before.since → before.sent <+: after.sent →
      ∃ channel', Function.update hub.channels other (some after) id = some channel' ∧
        channel'.since = channel.since ∧ channel.sent <+: channel'.sent := by
    intro other before after hBefore hSince hSent
    by_cases hId : id = other
    · subst hId
      cases hChannel.symm.trans hBefore
      exact ⟨after, Function.update_self .., hSince, hSent⟩
    · rw [Function.update_of_ne hId]
      exact hKept
  cases h with
  | publish | finishSending | finishClearing => exact hKept
  | subscribe other hFresh =>
    have hId : id ≠ other := by
      rintro rfl
      rw [hChannel] at hFresh
      cases hFresh
    refine ⟨channel, ?_, rfl, prefix_refl _⟩
    exact (Function.update_of_ne hId ..).trans hChannel
  | take other before hBefore _ => exact hWrite other before _ hBefore rfl (prefix_refl _)
  | hangUp other before hBefore => exact hWrite other before _ hBefore rfl (prefix_refl _)
  | unsubscribe other before hBefore => exact hWrite other before _ hBefore rfl (prefix_refl _)
  | recv hWaiting =>
    unfold Hub.recv
    split
    · exact hKept
    · split <;> exact hKept
  | send event due late _ other before hBefore _ _ =>
    apply hWrite other before (before.trySend event) hBefore
    · unfold Channel.trySend
      split <;> rfl
    · unfold Channel.trySend
      split
      · exact prefix_refl _
      · exact prefix_append _ _
  | clear due late _ other before hBefore _ => exact hWrite other before _ hBefore rfl (prefix_refl _)

end Hub

namespace WsSession

open Transition (Trace Preserves)

variable {View : Type} {capacity : Nat} {faults : Bool} {s s' : Session View} {id : SubscriptionId} {view : View}

/-- What holds in every state of every run. -/
structure Ordered (s : Session View) : Prop where
  seqs : ∀ n envelope, s.log[n]? = some envelope → envelope.seq = n + 1
  hub : Hub.Sound s.hub
  logged : ∀ envelope ∈ s.hub.published, envelope ∈ s.log
  once : s.hub.published.Nodup
  known : ∀ id, s.stage.subscription = some id →
    ∃ channel, s.hub.channels id = some channel ∧ channel.taken ≤ channel.sent.length

theorem ordered_start : Ordered (start view) :=
  ⟨fun _ _ hAt => (by cases hAt), Hub.sound_start, fun _ hMem => absurd hMem not_mem_nil, nodup_nil,
    fun _ hStage => (by cases hStage)⟩

theorem Ordered.congr (h : Ordered s) (hLog : s'.log = s.log) (hHub : s'.hub = s.hub)
    (hServed : ∀ id, s'.stage.subscription = some id → s.stage.subscription = some id) : Ordered s' := by
  obtain ⟨hSeqs, hSound, hLogged, hOnce, hKnown⟩ := h
  exact ⟨hLog ▸ hSeqs, hHub ▸ hSound, hHub ▸ hLog ▸ hLogged, hHub ▸ hOnce, fun id hId => hHub ▸ hKnown id (hServed id hId)⟩

theorem trySend_log (frame : Frame) : (s.trySend frame).log = s.log ∧ (s.trySend frame).hub = s.hub ∧
    (s.trySend frame).stage = s.stage ∧ (s.trySend frame).rejected = s.rejected := by
  unfold Session.trySend
  split <;> exact ⟨rfl, rfl, rfl, rfl⟩

theorem forward_cases (s : Session View) (sub : Subscription View) (boundary : Nat) (seen : Option View)
    (envelope : EventEnvelope) : (envelope.seq ≤ boundary ∧ s.forward sub boundary seen envelope = s) ∨
      (boundary < envelope.seq ∧ sub.passes seen envelope = false ∧
        s.forward sub boundary seen envelope = s.reject sub envelope) ∨
      (seen = none ∧ s.forward sub boundary seen envelope = s) ∨
      (boundary < envelope.seq ∧
        s.forward sub boundary seen envelope = { s with frames := s.frames ++ [.event sub.id envelope] }) ∨
      s.forward sub boundary seen envelope = { s with stage := .closing } := by
  unfold Session.forward
  split
  · exact .inl ⟨‹_›, rfl⟩
  · rename_i hAbove
    have hAbove := Nat.lt_of_not_le hAbove
    split
    · rename_i hPasses
      split
      · exact .inr (.inl ⟨hAbove, by simpa using hPasses, rfl⟩)
      · rename_i hNone
        exact .inr (.inr (.inl ⟨by simpa using hNone, rfl⟩))
    · split
      · exact .inr (.inr (.inr (.inl ⟨hAbove, rfl⟩)))
      · exact .inr (.inr (.inr (.inr rfl)))

theorem Ordered.taken {channel : Channel EventEnvelope} {sub : Subscription View} {boundary : Nat}
    {envelope : EventEnvelope} (h : Ordered s) (hStage : s.stage = .live sub boundary)
    (hChannel : s.hub.channels sub.id = some channel) (hNext : channel.sent[channel.taken]? = some envelope) :
    Ordered { s with hub := setChannel s.hub sub.id { channel with taken := channel.taken + 1 } } := by
  refine ⟨h.seqs, ?_, h.logged, h.once, fun id hId => ?_⟩
  · exact h.hub.write ((h.hub.placed sub.id channel hChannel).congr rfl rfl rfl fun hOpen => hOpen)
  · have hIs : id = sub.id := by
      change s.stage.subscription = some id at hId
      rw [hStage] at hId
      exact (Option.some.inj hId).symm
    rw [hIs]
    exact ⟨_, Function.update_self .., (List.getElem?_eq_some_iff.mp hNext).1⟩

theorem ordered_step : Preserves (Step capacity faults) (Ordered : Session View → Prop) := by
  intro s s' hStep h
  cases hStep with
  | append envelope =>
    refine ⟨fun n other hAt => ?_, h.hub, fun other hMem => mem_append_left _ (h.logged other hMem), h.once, h.known⟩
    rcases Nat.lt_or_ge n s.log.length with hBefore | hLast
    · rw [getElem?_append_left hBefore] at hAt
      exact h.seqs n other hAt
    · rw [getElem?_append_right hLast] at hAt
      obtain ⟨hZero, hIs⟩ := List.getElem?_eq_some_iff.mp hAt
      rw [length_singleton] at hZero
      have hN : n = s.log.length := by omega
      subst hN
      simp only [Nat.sub_self, getElem_cons_zero] at hIs
      rw [← hIs]
  | project | hangUp | write => exact h.congr rfl rfl fun _ hId => hId
  | publish envelope hLogged hNew =>
    refine ⟨h.seqs, h.hub.publish, fun other hMem => ?_, ?_, h.known⟩
    · rcases mem_append.mp hMem with hOld | hIs
      · exact h.logged other hOld
      · rw [mem_singleton.mp hIs]
        exact hLogged
    · exact nodup_append.mpr ⟨h.once, nodup_singleton _, fun other hOther another hIs hSame =>
        hNew (mem_singleton.mp hIs ▸ hSame ▸ hOther)⟩
  | fanout hub hHub hBus hTaken =>
    refine ⟨h.seqs, Hub.sound_step hHub h.hub, fun other hMem => h.logged other (hBus ▸ hMem), hBus ▸ h.once, ?_⟩
    intro id hId
    obtain ⟨channel, hChannel, hLe⟩ := h.known id hId
    obtain ⟨channel', hChannel', _, hSent⟩ := Hub.step_channel hHub hChannel
    have hSame := hTaken id hId
    rw [hChannel, hChannel', Option.map_some, Option.map_some, Option.some.injEq] at hSame
    exact ⟨channel', hChannel', hSame ▸ Nat.le_trans hLe hSent.length_le⟩
  | subscribe sub hReading hFresh =>
    refine ⟨h.seqs, h.hub.subscribe hFresh, h.logged, h.once, fun id hId => ?_⟩
    cases hId
    exact ⟨_, Function.update_self .., Nat.le_refl 0⟩
  | readBoundary sub hStage | boundaryFails _ sub hStage =>
    exact h.congr rfl rfl fun _ hId => hStage ▸ hId
  | load sub boundary since hStage _ | loadFails _ sub boundary since hStage _ | noHistory sub boundary hStage _ =>
    exact h.congr rfl rfl fun _ hId => hStage ▸ hId
  | keep sub boundary page envelope todo shown hStage | hide sub boundary page envelope todo shown hStage
  | hideFails _ sub boundary page envelope todo shown hStage =>
    exact h.congr rfl rfl fun _ hId => hStage ▸ hId
  | sendSnapshot sub boundary since page shown hStage =>
    obtain ⟨hLog, hHub, _⟩ := trySend_log (s := s) (snapshotFrame sub.id since page shown)
    exact h.congr hLog hHub fun _ hId => hStage ▸ hId
  | forward sub boundary hStage channel hChannel envelope hNext seen _ =>
    have hTaken := h.taken hStage hChannel hNext
    rcases forward_cases { s with hub := setChannel s.hub sub.id { channel with taken := channel.taken + 1 } }
      sub boundary seen envelope with
      ⟨_, hIs⟩ | ⟨_, _, hIs⟩ | ⟨_, hIs⟩ | ⟨_, hIs⟩ | hIs
    · rw [hIs]; exact hTaken
    · rw [hIs]; exact hTaken.congr rfl rfl fun _ hId => hId
    · rw [hIs]; exact hTaken
    · rw [hIs]; exact hTaken.congr rfl rfl fun _ hId => hId
    · rw [hIs]; exact hTaken.congr rfl rfl nofun
  | finish => exact h.congr rfl rfl nofun
  | sendClose =>
    obtain ⟨hLog, hHub, _⟩ := trySend_log (s := s) .close
    exact h.congr hLog hHub nofun
  | reply =>
    obtain ⟨hLog, hHub, hStage, _⟩ := trySend_log (s := s) .plain
    exact h.congr hLog hHub fun _ hId => hStage ▸ hId

theorem shownBy_append {first second : List Frame} :
    shownBy id (first ++ second) = shownBy id first ++ shownBy id second := flatMap_append

variable {frame : Frame}

theorem shownBy_singleton : shownBy id [frame] = frame.shows id := flatMap_singleton ..

/-- What the frames show for the subscription at hand. -/
def StageOnce (s : Session View) : Prop :=
  match s.stage with
  | .registered sub | .bounded sub _ => shownBy sub.id s.frames = []
  | .paging sub boundary _ todo shown => shownBy sub.id s.frames = [] ∧ (shown ++ todo).Nodup ∧
      ∀ envelope ∈ shown ++ todo, envelope.seq ≤ boundary
  | .live sub boundary => ∀ envelope ∈ shownBy sub.id s.frames, envelope.seq ≤ boundary ∨
      ∃ channel, s.hub.channels sub.id = some channel ∧ envelope ∈ channel.received
  | .idle | .closing | .ended => True

/-- No frame shows an event that another one of its subscription shows. -/
structure ShownOnce (s : Session View) : Prop where
  fresh : ∀ id, s.hub.channels id = none → shownBy id s.frames = []
  nodup : ∀ id, (shownBy id s.frames).Nodup
  stage : StageOnce s

theorem shownOnce_start : ShownOnce (start view) := ⟨fun _ _ => rfl, fun _ => nodup_nil, trivial⟩

theorem shownBy_trySend (h : frame.shows id = []) : shownBy id (s.trySend frame).frames = shownBy id s.frames := by
  unfold Session.trySend
  split
  · rw [shownBy_append, shownBy_singleton, h, append_nil]
  · rfl

theorem received_fanout {hub : State EventEnvelope} {channel : Channel EventEnvelope}
    (h : Hub.Step capacity s.hub hub) (hChannel : s.hub.channels id = some channel)
    (hTaken : (hub.channels id).map Channel.taken = (s.hub.channels id).map Channel.taken)
    (hLe : channel.taken ≤ channel.sent.length) :
    ∃ channel', hub.channels id = some channel' ∧ channel'.since = channel.since ∧
      channel'.taken = channel.taken ∧ channel'.received = channel.received := by
  obtain ⟨channel', hChannel', hSince, hSent⟩ := Hub.step_channel h hChannel
  rw [hChannel, hChannel', Option.map_some, Option.map_some, Option.some.injEq] at hTaken
  obtain ⟨later, hLater⟩ := hSent
  refine ⟨channel', hChannel', hSince, hTaken, ?_⟩
  rw [Channel.received, hTaken, ← hLater, take_append_of_le_length hLe]
  rfl

theorem received_next {channel : Channel EventEnvelope} {envelope : EventEnvelope}
    (h : channel.sent[channel.taken]? = some envelope) :
    ({ channel with taken := channel.taken + 1 } : Channel EventEnvelope).received = channel.received ++ [envelope] := by
  rw [Channel.received, take_add_one, h]
  rfl

theorem Ordered.next_new {channel : Channel EventEnvelope} {envelope : EventEnvelope} (h : Ordered s)
    (hChannel : s.hub.channels id = some channel) (hNext : channel.sent[channel.taken]? = some envelope) :
    envelope ∉ channel.received := by
  obtain ⟨first, _, hBlock, _⟩ := h.hub.placed id channel hChannel
  have hSent : channel.sent.Nodup := by
    rw [show channel.sent = _ from hBlock]
    exact ((h.once.sublist (drop_sublist _ _)).sublist (take_sublist _ _))
  obtain ⟨hLt, rfl⟩ := List.getElem?_eq_some_iff.mp hNext
  intro hMem
  obtain ⟨n, hN, hSame⟩ := mem_take_iff_getElem.mp hMem
  have hIndex := (List.Nodup.getElem_inj_iff hSent).mp hSame
  omega

theorem page_nodup {log : List EventEnvelope} {since boundary : Nat} (h : log.Nodup) :
    (filterHistory (loadSince log since) boundary).Nodup :=
  ((h.filter _).sublist (take_sublist _ _)).filter _

theorem Ordered.log_nodup (h : Ordered s) : s.log.Nodup := by
  refine nodup_iff_getElem?_ne_getElem?.mpr fun first second hLt hLength hSame => ?_
  have hFirst := h.seqs first _ (getElem?_eq_getElem (Nat.lt_trans hLt hLength))
  have hSecond := h.seqs second _ (getElem?_eq_getElem hLength)
  rw [getElem?_eq_getElem (Nat.lt_trans hLt hLength), getElem?_eq_getElem hLength, Option.some.injEq] at hSame
  rw [hSame] at hFirst
  omega

section

variable {sub : Subscription View} {boundary : Nat} {channel : Channel EventEnvelope} {envelope : EventEnvelope}

theorem ShownOnce.taken (h : ShownOnce s) (hIs : s.stage = .live sub boundary)
    (hChannel : s.hub.channels sub.id = some channel) (hNext : channel.sent[channel.taken]? = some envelope) :
    ShownOnce { s with hub := setChannel s.hub sub.id { channel with taken := channel.taken + 1 } } := by
  refine ⟨fun id hNone => ?_, h.nodup, ?_⟩
  · apply h.fresh id
    by_cases hId : id = sub.id
    · subst hId
      cases (Function.update_self (f := s.hub.channels) ..).symm.trans hNone
    · exact (Function.update_of_ne hId ..).symm.trans hNone
  · have hStage := h.stage
    unfold StageOnce at hStage ⊢
    rw [hIs] at hStage
    dsimp only
    rw [hIs]
    intro other hMem
    refine (hStage other hMem).imp_right fun ⟨known, hKnown, hReceived⟩ => ?_
    cases hChannel.symm.trans hKnown
    refine ⟨_, Function.update_self .., ?_⟩
    rw [received_next hNext]
    exact mem_append_left _ hReceived

theorem ShownOnce.deliver (h : ShownOnce { s with
      hub := setChannel s.hub sub.id { channel with taken := channel.taken + 1 } }) (hOrdered : Ordered s)
    (hIs : s.stage = .live sub boundary) (hChannel : s.hub.channels sub.id = some channel)
    (hNext : channel.sent[channel.taken]? = some envelope) (hBefore : StageOnce s) (hAbove : boundary < envelope.seq) :
    ShownOnce { s with
      hub := setChannel s.hub sub.id { channel with taken := channel.taken + 1 }
      frames := s.frames ++ [.event sub.id envelope] } := by
  have hShown : ∀ id, shownBy id (s.frames ++ [.event sub.id envelope]) =
      shownBy id s.frames ++ if sub.id = id then [envelope] else [] := fun id => by
    rw [shownBy_append, shownBy_singleton, Frame.shows]
  unfold StageOnce at hBefore
  rw [hIs] at hBefore
  refine ⟨fun id hNone => ?_, fun id => ?_, ?_⟩
  · rw [hShown, h.fresh id hNone, if_neg, append_nil]
    rintro rfl
    cases (Function.update_self (f := s.hub.channels) ..).symm.trans hNone
  · rw [hShown]
    split
    · rename_i hId
      subst hId
      refine nodup_append.mpr ⟨h.nodup sub.id, nodup_singleton _, fun other hOther another hAnother hSame => ?_⟩
      rw [mem_singleton.mp hAnother] at hSame
      subst hSame
      rcases hBefore other hOther with hBelow | ⟨known, hKnown, hReceived⟩
      · omega
      · cases hChannel.symm.trans hKnown
        exact hOrdered.next_new hChannel hNext hReceived
    · rw [append_nil]
      exact h.nodup id
  · unfold StageOnce
    dsimp only
    rw [hIs]
    intro other hMem
    rw [hShown, if_pos rfl] at hMem
    have hLast : ({ channel with taken := channel.taken + 1 } : Channel EventEnvelope).received =
        channel.received ++ [envelope] := received_next hNext
    rcases mem_append.mp hMem with hOld | hNew
    · refine (hBefore other hOld).imp_right fun ⟨known, hKnown, hReceived⟩ => ?_
      cases hChannel.symm.trans hKnown
      exact ⟨_, Function.update_self .., hLast ▸ mem_append_left _ hReceived⟩
    · exact .inr ⟨_, Function.update_self .., hLast ▸ mem_append_right _ hNew⟩

theorem ShownOnce.fanout {hub : State EventEnvelope} (h : ShownOnce s) (hOrdered : Ordered s)
    (hHub : Hub.Step capacity s.hub hub) (hTaken : ∀ id, s.stage.subscription = some id →
      (hub.channels id).map Channel.taken = (s.hub.channels id).map Channel.taken) :
    ShownOnce { s with hub := hub } := by
  have hStage := h.stage
  refine ⟨fun id hNone => ?_, h.nodup, ?_⟩
  · apply h.fresh id
    cases hChannel : s.hub.channels id with
    | none => rfl
    | some channel =>
      obtain ⟨channel', hChannel', _⟩ := Hub.step_channel hHub hChannel
      cases hNone.symm.trans hChannel'
  · unfold StageOnce at hStage ⊢
    dsimp only at hStage ⊢
    cases hIs : s.stage with
    | live sub boundary =>
      rw [hIs] at hStage
      intro envelope hMem
      refine (hStage envelope hMem).imp_right fun ⟨channel, hChannel, hReceived⟩ => ?_
      have hServed : s.stage.subscription = some sub.id := by rw [hIs]; rfl
      obtain ⟨known, hKnown, hLe⟩ := hOrdered.known sub.id hServed
      cases hChannel.symm.trans hKnown
      obtain ⟨channel', hChannel', _, _, hSame⟩ := received_fanout hHub hChannel (hTaken sub.id hServed) hLe
      exact ⟨channel', hChannel', hSame ▸ hReceived⟩
    | _ =>
      rw [hIs] at hStage
      exact hStage

theorem ShownOnce.sendSnapshot {since : Nat} {page shown : List EventEnvelope} (h : ShownOnce s) (hOrdered : Ordered s)
    (hIs : s.stage = .paging sub boundary page [] shown) :
    ShownOnce { s.trySend (snapshotFrame sub.id since page shown) with stage := .live sub boundary } := by
  have hStage := h.stage
  unfold StageOnce at hStage
  rw [hIs] at hStage
  obtain ⟨hNone, hDistinct, hBelow⟩ := hStage
  rw [append_nil] at hDistinct hBelow
  obtain ⟨_, hHub, _⟩ := trySend_log (s := s) (snapshotFrame sub.id since page shown)
  have hShown : ∀ id, shownBy id (s.trySend (snapshotFrame sub.id since page shown)).frames = shownBy id s.frames ∨
      (id = sub.id ∧ shownBy id (s.trySend (snapshotFrame sub.id since page shown)).frames = shown) := by
    intro id
    by_cases hId : id = sub.id
    · subst hId
      unfold Session.trySend
      split
      · refine .inr ⟨rfl, ?_⟩
        rw [shownBy_append, shownBy_singleton, hNone, snapshotFrame, Frame.shows, if_pos rfl, nil_append]
      · exact .inl rfl
    · exact .inl (shownBy_trySend (if_neg (Ne.symm hId)))
  refine ⟨fun id hChannel => ?_, fun id => ?_, fun envelope hMem => ?_⟩
  · rcases hShown id with hSame | ⟨rfl, _⟩
    · exact hSame.trans (h.fresh id (hHub ▸ hChannel))
    · obtain ⟨channel, hKnown, _⟩ := hOrdered.known sub.id (by rw [hIs]; rfl)
      rw [show s.hub.channels sub.id = none from hHub ▸ hChannel] at hKnown
      cases hKnown
  · rcases hShown id with hSame | ⟨_, hSame⟩
    · exact hSame.symm ▸ h.nodup id
    · exact hSame.symm ▸ hDistinct
  · rcases hShown sub.id with hSame | ⟨_, hSame⟩
    · rw [show shownBy sub.id _ = _ from hSame, hNone] at hMem
      cases hMem
    · exact .inl (hBelow envelope (hSame ▸ hMem))

theorem ShownOnce.forward (h : ShownOnce s) (hOrdered : Ordered s) (hIs : s.stage = .live sub boundary)
    (hChannel : s.hub.channels sub.id = some channel) (hNext : channel.sent[channel.taken]? = some envelope)
    (seen : Option View) : ShownOnce (Session.forward
      { s with hub := setChannel s.hub sub.id { channel with taken := channel.taken + 1 } } sub boundary seen envelope) := by
  have hTaken := h.taken hIs hChannel hNext
  rcases forward_cases { s with hub := setChannel s.hub sub.id { channel with taken := channel.taken + 1 } }
    sub boundary seen envelope with
    ⟨_, hSame⟩ | ⟨_, _, hSame⟩ | ⟨_, hSame⟩ | ⟨hAbove, hSame⟩ | hSame
  · rw [hSame]; exact hTaken
  · rw [hSame]; exact ⟨hTaken.fresh, hTaken.nodup, hTaken.stage⟩
  · rw [hSame]; exact hTaken
  · rw [hSame]; exact hTaken.deliver hOrdered hIs hChannel hNext h.stage hAbove
  · rw [hSame]; exact ⟨hTaken.fresh, hTaken.nodup, trivial⟩

end

theorem shownOnce_step ⦃s s' : Session View⦄ (hStep : Step capacity faults s s') (hOrdered : Ordered s)
    (h : ShownOnce s) : ShownOnce s' := by
  obtain ⟨hFresh, hNodup, hStage⟩ := h
  cases hStep with
  | append | publish => exact ⟨hFresh, hNodup, hStage⟩
  | project | hangUp | write => exact ⟨hFresh, hNodup, hStage⟩
  | fanout hub hHub hBus hTaken => exact ShownOnce.fanout ⟨hFresh, hNodup, hStage⟩ hOrdered hHub hTaken
  | subscribe sub hReading hNew =>
    refine ⟨fun id hNone => ?_, hNodup, hFresh sub.id hNew⟩
    apply hFresh id
    by_cases hId : id = sub.id
    · exact hId ▸ hNew
    · exact (Function.update_of_ne hId ..).symm.trans hNone
  | readBoundary sub hIs | boundaryFails _ sub hIs =>
    refine ⟨hFresh, hNodup, ?_⟩
    unfold StageOnce at hStage ⊢
    rwa [hIs] at hStage
  | load sub boundary since hIs hSince =>
    refine ⟨hFresh, hNodup, ?_⟩
    unfold StageOnce at hStage ⊢
    rw [hIs] at hStage
    exact ⟨hStage, page_nodup hOrdered.log_nodup, fun envelope hMem => of_decide_eq_true (mem_filter.mp hMem).2⟩
  | loadFails _ sub boundary since hIs hSince =>
    refine ⟨hFresh, hNodup, ?_⟩
    unfold StageOnce at hStage ⊢
    rw [hIs] at hStage
    exact ⟨hStage, nodup_nil, fun _ hMem => absurd hMem not_mem_nil⟩
  | noHistory sub boundary hIs hSince =>
    refine ⟨hFresh, hNodup, ?_⟩
    unfold StageOnce at hStage ⊢
    rw [hIs] at hStage
    intro envelope hMem
    dsimp only at hMem
    rw [hStage] at hMem
    cases hMem
  | keep sub boundary page envelope todo shown hIs =>
    refine ⟨hFresh, hNodup, ?_⟩
    unfold StageOnce at hStage ⊢
    rw [hIs] at hStage
    dsimp only
    rwa [append_assoc]
  | hide sub boundary page envelope todo shown hIs | hideFails _ sub boundary page envelope todo shown hIs =>
    refine ⟨hFresh, hNodup, ?_⟩
    unfold StageOnce at hStage ⊢
    rw [hIs] at hStage
    obtain ⟨hNone, hDistinct, hBelow⟩ := hStage
    have hSub : (shown ++ todo).Sublist (shown ++ envelope :: todo) :=
      List.Sublist.append_left (sublist_cons_self envelope todo) shown
    exact ⟨hNone, hDistinct.sublist hSub, fun other hMem => hBelow other (hSub.subset hMem)⟩
  | sendSnapshot sub boundary since page shown hIs => exact ShownOnce.sendSnapshot ⟨hFresh, hNodup, hStage⟩ hOrdered hIs
  | forward sub boundary hIs channel hChannel envelope hNext seen =>
    exact ShownOnce.forward ⟨hFresh, hNodup, hStage⟩ hOrdered hIs hChannel hNext seen
  | finish => exact ⟨hFresh, hNodup, trivial⟩
  | sendClose =>
    obtain ⟨_, hHub, _⟩ := trySend_log (s := s) .close
    have hShown : ∀ id, shownBy id (s.trySend .close).frames = shownBy id s.frames := fun _ => shownBy_trySend rfl
    exact ⟨fun id hNone => (hShown id).trans (hFresh id (hHub ▸ hNone)), fun id => (hShown id).symm ▸ hNodup id, trivial⟩
  | reply =>
    obtain ⟨_, hHub, hSame, _⟩ := trySend_log (s := s) .plain
    have hShown : ∀ id, shownBy id (s.trySend .plain).frames = shownBy id s.frames := fun _ => shownBy_trySend rfl
    refine ⟨fun id hNone => (hShown id).trans (hFresh id (hHub ▸ hNone)), fun id => hShown id ▸ hNodup id, ?_⟩
    unfold StageOnce at hStage ⊢
    simpa only [hSame, hHub, hShown] using hStage

theorem no_event_twice (h : Trace (Step capacity faults) (start view) s) (id : SubscriptionId) :
    (shownBy id s.delivered).Nodup := by
  have hBoth : Ordered s ∧ ShownOnce s := (ordered_step.and_of fun _ _ hStep hBase hOnce =>
    shownOnce_step hStep hBase hOnce).trace h ⟨ordered_start, shownOnce_start⟩
  have hSplit : shownBy id s.frames = shownBy id s.delivered ++ shownBy id (s.frames.drop s.written) := by
    rw [← shownBy_append, Session.delivered, take_append_drop]
  exact (nodup_append.mp (hSplit ▸ hBoth.2.nodup id)).1

end WsSession
end Daruma
