import Daruma.Sync.SubscriptionOrder

/-! What a subscriber of the event stream has been told once everything is at rest. -/
namespace Daruma

open List

namespace WsSession

open Transition (Trace Preserves)

variable {View : Type} {capacity : Nat} {faults : Bool} {s s' : Session View} {id : SubscriptionId} {view : View}

def Rejected (s : Session View) (id : SubscriptionId) (envelope : EventEnvelope) : Prop :=
  ∃ sub view, (sub, view, envelope) ∈ s.rejected ∧ sub.id = id ∧ sub.passes (some view) envelope = false

/-- The event was put in a frame, or turned away. -/
def Answered (s : Session View) (id : SubscriptionId) (envelope : EventEnvelope) : Prop :=
  envelope ∈ shownBy id s.frames ∨ Rejected s id envelope

/-- A page goes without a gap up to its last event, and to the boundary if it is not
full. -/
structure PageComplete (log : List EventEnvelope) (since boundary : Nat) (page : List EventEnvelope) : Prop where
  upTo : ∀ n, page.getLast?.map EventEnvelope.seq = some n →
    n ≤ log.length ∧ ∀ envelope ∈ log, since < envelope.seq → envelope.seq ≤ n → envelope ∈ page
  rest : page.length < snapshotPage →
    ∀ envelope ∈ log, since < envelope.seq → envelope.seq ≤ boundary → envelope ∈ page

/-- A snapshot frame answers for all the events up to its next sequence number. -/
def FrameComplete (s : Session View) : Frame → Prop
  | .snapshot id since events _ nextSeq => ∀ n, nextSeq = some n → n ≤ s.log.length ∧
      ∀ envelope ∈ s.log, since < envelope.seq → envelope.seq ≤ n → envelope ∈ events ∨ Rejected s id envelope
  | .event .. | .close | .plain => True

/-- A snapshot frame answers for all the events up to a boundary, or says that there
are more. -/
def Paged (s : Session View) (id : SubscriptionId) (since boundary : Nat) : Prop :=
  ∃ events hasMore nextSeq, .snapshot id since events hasMore nextSeq ∈ s.frames ∧
    ∀ envelope ∈ s.log, since < envelope.seq → envelope.seq ≤ boundary →
      envelope ∈ events ∨ Rejected s id envelope ∨
        (hasMore = true ∧ ∃ n, nextSeq = some n ∧ n < envelope.seq)

/-- What was published before the channel was made is history. -/
def Bounded (s : Session View) (id : SubscriptionId) (boundary : Nat) : Prop :=
  boundary ≤ s.log.length ∧ ∃ channel, s.hub.channels id = some channel ∧ channel.since ≤ s.hub.published.length ∧
    ∀ envelope ∈ s.hub.published.take channel.since, envelope.seq ≤ boundary

/-- What the forwarder has taken is answered. -/
def Forwarded (s : Session View) (id : SubscriptionId) (boundary : Nat) : Prop :=
  ∀ channel, s.hub.channels id = some channel →
    ∀ envelope ∈ channel.received, boundary < envelope.seq → Answered s id envelope

def StageComplete (s : Session View) : Prop :=
  match s.stage with
  | .registered sub => ∃ channel, s.hub.channels sub.id = some channel ∧
      channel.since ≤ s.hub.published.length ∧ channel.taken = 0
  | .bounded sub boundary => Bounded s sub.id boundary ∧ Forwarded s sub.id boundary
  | .paging sub boundary page todo shown => Bounded s sub.id boundary ∧ Forwarded s sub.id boundary ∧
      (∀ since, sub.since = some since → PageComplete s.log since boundary page) ∧
      ∀ envelope ∈ page, envelope ∈ todo ∨ envelope ∈ shown ∨ Rejected s sub.id envelope
  | .live sub boundary => Bounded s sub.id boundary ∧ Forwarded s sub.id boundary ∧
      ∀ since, sub.since = some since → Paged s sub.id since boundary
  | .ended => .close ∈ s.frames
  | .idle | .closing => True

/-- What holds while no read fails and no frame of a subscription is dropped. -/
structure Complete (s : Session View) : Prop where
  frames : ∀ frame ∈ s.frames, FrameComplete s frame
  stage : StageComplete s

theorem complete_start : Complete (start view) := ⟨fun _ hMem => absurd hMem not_mem_nil, trivial⟩

/-- The log may grow, frames and rejections are added. -/
structure Grows (s s' : Session View) : Prop where
  length : s.log.length ≤ s'.log.length
  log : ∀ envelope ∈ s'.log, envelope.seq ≤ s.log.length → envelope ∈ s.log
  frames : ∀ frame ∈ s.frames, frame ∈ s'.frames
  rejected : ∀ entry ∈ s.rejected, entry ∈ s'.rejected

theorem Grows.of_log (hLog : s'.log = s.log) (hFrames : ∀ frame ∈ s.frames, frame ∈ s'.frames)
    (hRejected : ∀ entry ∈ s.rejected, entry ∈ s'.rejected) : Grows s s' :=
  ⟨hLog ▸ Nat.le_refl _, fun _ hMem _ => hLog ▸ hMem, hFrames, hRejected⟩

section

variable (hGrows : Grows s s') {since boundary : Nat} {envelope : EventEnvelope}
include hGrows

theorem Rejected.mono (h : Rejected s id envelope) : Rejected s' id envelope :=
  h.imp fun _ => Exists.imp fun _ hEntry => ⟨hGrows.rejected _ hEntry.1, hEntry.2⟩

theorem Answered.mono (h : Answered s id envelope) : Answered s' id envelope := by
  refine h.imp (fun hShown => ?_) (Rejected.mono hGrows)
  obtain ⟨frame, hFrame, hIn⟩ := mem_flatMap.mp hShown
  exact mem_flatMap.mpr ⟨frame, hGrows.frames frame hFrame, hIn⟩

theorem FrameComplete.mono {frame : Frame} (h : FrameComplete s frame) : FrameComplete s' frame := by
  cases frame with
  | snapshot id since events hasMore nextSeq =>
    intro n hNext
    obtain ⟨hLe, hAll⟩ := h n hNext
    refine ⟨Nat.le_trans hLe hGrows.length, fun envelope hMem hAbove hUpTo => ?_⟩
    have hOld := hGrows.log envelope hMem (Nat.le_trans hUpTo hLe)
    exact (hAll envelope hOld hAbove hUpTo).imp_right (Rejected.mono hGrows)
  | _ => trivial

theorem PageComplete.mono {page : List EventEnvelope} (h : PageComplete s.log since boundary page)
    (hBoundary : boundary ≤ s.log.length) : PageComplete s'.log since boundary page where
  upTo n hLast := by
    obtain ⟨hLe, hAll⟩ := h.upTo n hLast
    refine ⟨Nat.le_trans hLe hGrows.length, fun envelope hMem hAbove hUpTo => ?_⟩
    exact hAll envelope (hGrows.log envelope hMem (Nat.le_trans hUpTo hLe)) hAbove hUpTo
  rest hShort envelope hMem hAbove hUpTo :=
    h.rest hShort envelope (hGrows.log envelope hMem (Nat.le_trans hUpTo hBoundary)) hAbove hUpTo

theorem Paged.mono (h : Paged s id since boundary) (hBoundary : boundary ≤ s.log.length) :
    Paged s' id since boundary := by
  obtain ⟨events, hasMore, nextSeq, hFrame, hAll⟩ := h
  refine ⟨events, hasMore, nextSeq, hGrows.frames _ hFrame, fun envelope hMem hAbove hUpTo => ?_⟩
  rcases hAll envelope (hGrows.log envelope hMem (Nat.le_trans hUpTo hBoundary)) hAbove hUpTo with
    hShown | hRejected | hMore
  · exact .inl hShown
  · exact .inr (.inl (hRejected.mono hGrows))
  · exact .inr (.inr hMore)

end

/-- The hub goes on, and the channel at hand holds what it held. -/
structure Serves (s s' : Session View) (id : SubscriptionId) : Prop where
  published : s.hub.published <+: s'.hub.published
  channel : ∀ channel, s.hub.channels id = some channel → ∃ channel', s'.hub.channels id = some channel' ∧
    channel'.since = channel.since ∧ channel'.taken = channel.taken ∧ channel'.received = channel.received

theorem Serves.of_hub (h : s'.hub = s.hub) : Serves s s' id :=
  ⟨h ▸ prefix_refl _, fun channel hChannel => ⟨channel, h ▸ hChannel, rfl, rfl, rfl⟩⟩

theorem Bounded.mono {boundary : Nat} (h : Bounded s id boundary) (hGrows : Grows s s') (hServes : Serves s s' id) :
    Bounded s' id boundary := by
  obtain ⟨hLe, channel, hChannel, hSince, hBefore⟩ := h
  obtain ⟨channel', hChannel', hSame, _⟩ := hServes.channel channel hChannel
  obtain ⟨later, hLater⟩ := hServes.published
  refine ⟨Nat.le_trans hLe hGrows.length, channel', hChannel', ?_, ?_⟩
  · exact hSame ▸ Nat.le_trans hSince hServes.published.length_le
  · rw [hSame, ← hLater, take_append_of_le_length hSince]
    exact hBefore

theorem Forwarded.mono {boundary : Nat} (h : Forwarded s id boundary) (hGrows : Grows s s') (hServes : Serves s s' id)
    (hBounded : Bounded s id boundary) : Forwarded s' id boundary := by
  obtain ⟨_, channel, hChannel, _⟩ := hBounded
  obtain ⟨channel', hChannel', _, _, hSame⟩ := hServes.channel channel hChannel
  intro other hOther envelope hMem hAbove
  cases hChannel'.symm.trans hOther
  exact (h channel hChannel envelope (hSame ▸ hMem) hAbove).mono hGrows

theorem StageComplete.mono (h : StageComplete s) (hStage : s'.stage = s.stage) (hGrows : Grows s s')
    (hServes : ∀ id, s.stage.subscription = some id → Serves s s' id) : StageComplete s' := by
  unfold StageComplete at h ⊢
  rw [hStage]
  cases hIs : s.stage with
  | registered sub =>
    rw [hIs] at h
    obtain ⟨channel, hChannel, hSince, hTaken⟩ := h
    have hServed := hServes sub.id (by rw [hIs]; rfl)
    obtain ⟨channel', hChannel', hSame, hSameTaken, _⟩ := hServed.channel channel hChannel
    exact ⟨channel', hChannel', hSame ▸ Nat.le_trans hSince hServed.published.length_le, hSameTaken.trans hTaken⟩
  | bounded sub boundary =>
    rw [hIs] at h
    have hServed := hServes sub.id (by rw [hIs]; rfl)
    exact ⟨h.1.mono hGrows hServed, h.2.mono hGrows hServed h.1⟩
  | paging sub boundary page todo shown =>
    rw [hIs] at h
    obtain ⟨hBounded, hForwarded, hPage, hEach⟩ := h
    have hServed := hServes sub.id (by rw [hIs]; rfl)
    refine ⟨hBounded.mono hGrows hServed, hForwarded.mono hGrows hServed hBounded, ?_, ?_⟩
    · exact fun since hSince => (hPage since hSince).mono hGrows hBounded.1
    · exact fun envelope hMem => (hEach envelope hMem).imp_right (Or.imp_right (Rejected.mono hGrows))
  | live sub boundary =>
    rw [hIs] at h
    obtain ⟨hBounded, hForwarded, hPaged⟩ := h
    have hServed := hServes sub.id (by rw [hIs]; rfl)
    refine ⟨hBounded.mono hGrows hServed, hForwarded.mono hGrows hServed hBounded, ?_⟩
    exact fun since hSince => (hPaged since hSince).mono hGrows hBounded.1
  | ended =>
    rw [hIs] at h
    exact hGrows.frames _ h
  | idle | closing => trivial

theorem Complete.mono (h : Complete s) (hStage : s'.stage = s.stage) (hGrows : Grows s s')
    (hFrames : ∀ frame ∈ s'.frames, frame ∈ s.frames ∨ FrameComplete s' frame)
    (hServes : ∀ id, s.stage.subscription = some id → Serves s s' id) : Complete s' where
  frames frame hMem := (hFrames frame hMem).elim (fun hOld => (h.frames frame hOld).mono hGrows) id
  stage := h.stage.mono hStage hGrows hServes

theorem Ordered.seq_le (h : Ordered s) {envelope : EventEnvelope} (hMem : envelope ∈ s.log) :
    envelope.seq ≤ s.log.length := by
  obtain ⟨n, hLt, rfl⟩ := getElem_of_mem hMem
  rw [h.seqs n _ (getElem?_eq_getElem hLt)]
  exact hLt

theorem Ordered.sorted (h : Ordered s) : s.log.Pairwise fun first second => first.seq < second.seq := by
  refine pairwise_iff_getElem.mpr fun first second hFirst hSecond hLt => ?_
  rw [h.seqs first _ (getElem?_eq_getElem hFirst), h.seqs second _ (getElem?_eq_getElem hSecond)]
  omega

/-- A page that was read without a fault. -/
theorem Ordered.page_complete (h : Ordered s) (since boundary : Nat) :
    PageComplete s.log since boundary (filterHistory (loadSince s.log since) boundary) := by
  have hSorted := h.sorted.filter fun envelope => decide (since < envelope.seq)
  have hSplit := take_append_drop snapshotPage (s.log.filter fun envelope => decide (since < envelope.seq))
  rw [← hSplit, pairwise_append] at hSorted
  obtain ⟨_, _, hApart⟩ := hSorted
  have hAbove : ∀ envelope ∈ s.log, since < envelope.seq → envelope ∈ loadSince s.log since ∨
      ∀ other ∈ loadSince s.log since, other.seq < envelope.seq := by
    intro envelope hMem hSince
    have hIn : envelope ∈ s.log.filter fun envelope => decide (since < envelope.seq) :=
      mem_filter.mpr ⟨hMem, decide_eq_true hSince⟩
    rw [← hSplit] at hIn
    exact (mem_append.mp hIn).imp_right fun hLater other hOther => hApart other hOther envelope hLater
  constructor
  · intro n hLast
    obtain ⟨last, hPage, rfl⟩ := Option.map_eq_some_iff.mp hLast
    obtain ⟨hLoaded, hBelow⟩ := mem_filter.mp (mem_of_getLast? hPage)
    have hLogged : last ∈ s.log := (mem_filter.mp (mem_of_mem_take hLoaded)).1
    refine ⟨h.seq_le hLogged, fun envelope hMem hSince hUpTo => ?_⟩
    rcases hAbove envelope hMem hSince with hIn | hLater
    · exact mem_filter.mpr ⟨hIn, decide_eq_true (Nat.le_trans hUpTo (of_decide_eq_true hBelow))⟩
    · exact absurd (hLater last hLoaded) (Nat.not_lt.mpr hUpTo)
  · intro hShort envelope hMem hSince hUpTo
    rcases hAbove envelope hMem hSince with hIn | hLater
    · exact mem_filter.mpr ⟨hIn, decide_eq_true hUpTo⟩
    · exfalso
      have hAll : filterHistory (loadSince s.log since) boundary = loadSince s.log since :=
        filter_eq_self.mpr fun other hOther =>
          decide_eq_true (Nat.le_trans (Nat.le_of_lt (hLater other hOther)) hUpTo)
      rw [hAll, loadSince, length_take] at hShort
      have hWhole : loadSince s.log since = s.log.filter fun envelope => decide (since < envelope.seq) :=
        take_of_length_le (by omega)
      have hIn : envelope ∈ loadSince s.log since :=
        hWhole ▸ mem_filter.mpr ⟨hMem, decide_eq_true hSince⟩
      exact absurd (hLater envelope hIn) (Nat.lt_irrefl _)

variable {sub : Subscription View}

variable {channel : Hub.Channel EventEnvelope}

theorem Complete.taken {boundary : Nat} {envelope : EventEnvelope} (h : Complete s) (hIs : s.stage = .live sub boundary)
    (hChannel : s.hub.channels sub.id = some channel) (hNext : channel.sent[channel.taken]? = some envelope)
    (hStage : s'.stage = s.stage) (hHub : s'.hub = Hub.setChannel s.hub sub.id { channel with taken := channel.taken + 1 })
    (hGrows : Grows s s') (hFrames : ∀ frame ∈ s'.frames, frame ∈ s.frames ∨ FrameComplete s' frame)
    (hAnswered : boundary < envelope.seq → Answered s' sub.id envelope) : Complete s' := by
  have hBefore := h.stage
  unfold StageComplete at hBefore
  rw [hIs] at hBefore
  obtain ⟨⟨hLe, known, hKnown, hSince, hHistory⟩, hForwarded, hPaged⟩ := hBefore
  cases hChannel.symm.trans hKnown
  have hAfter : s'.hub.channels sub.id = some { channel with taken := channel.taken + 1 } := by
    rw [hHub]
    exact Function.update_self ..
  refine ⟨fun frame hMem => (hFrames frame hMem).elim (fun hOld => (h.frames frame hOld).mono hGrows) id, ?_⟩
  unfold StageComplete
  rw [hStage, hIs]
  refine ⟨⟨Nat.le_trans hLe hGrows.length, _, hAfter, ?_, ?_⟩, ?_, fun since hOf => (hPaged since hOf).mono hGrows hLe⟩
  · rw [hHub]
    exact hSince
  · rw [hHub]
    exact hHistory
  · intro other hOther event hMem hAbove
    cases hAfter.symm.trans hOther
    rw [received_next hNext] at hMem
    rcases mem_append.mp hMem with hOld | hNew
    · exact (hForwarded channel hChannel event hOld hAbove).mono hGrows
    · cases mem_singleton.mp hNew
      exact hAnswered hAbove

theorem Complete.at_stage {stage : Stage View} (h : Complete s) (hIs : s.stage = stage) :
    StageComplete { s with stage := stage } := by
  cases hIs
  exact h.stage

variable {boundary since : Nat} {envelope : EventEnvelope} {page todo shown : List EventEnvelope}

theorem Complete.paging (h : Complete s) (hIs : s.stage = .paging sub boundary page todo shown) :
    Bounded s sub.id boundary ∧ Forwarded s sub.id boundary ∧
      (∀ since, sub.since = some since → PageComplete s.log since boundary page) ∧
      ∀ envelope ∈ page, envelope ∈ todo ∨ envelope ∈ shown ∨ Rejected s sub.id envelope :=
  h.at_stage hIs

theorem Complete.keep (h : Complete s) (hIs : s.stage = .paging sub boundary page (envelope :: todo) shown) :
    Complete { s with stage := .paging sub boundary page todo (shown ++ [envelope]) } := by
  obtain ⟨hBounded, hForwarded, hPage, hEach⟩ := h.paging hIs
  refine ⟨h.frames, hBounded, hForwarded, hPage, fun other hMem => ?_⟩
  rcases hEach other hMem with hTodo | hShown | hRejected
  · rcases mem_cons.mp hTodo with rfl | hLater
    · exact .inr (.inl (mem_append_right _ (mem_singleton_self _)))
    · exact .inl hLater
  · exact .inr (.inl (mem_append_left _ hShown))
  · exact .inr (.inr hRejected)

theorem Complete.hide (h : Complete s) (hIs : s.stage = .paging sub boundary page (envelope :: todo) shown)
    (hPasses : sub.passes (some s.view) envelope = false) :
    Complete { s.reject sub envelope with stage := .paging sub boundary page todo shown } := by
  have hGrows : Grows s { s.reject sub envelope with stage := .paging sub boundary page todo shown } :=
    .of_log rfl (fun _ hMem => hMem) fun _ hMem => mem_append_left _ hMem
  obtain ⟨hBounded, hForwarded, hPage, hEach⟩ := h.paging hIs
  refine ⟨fun frame hMem => (h.frames frame hMem).mono hGrows, hBounded, hForwarded.mono hGrows (.of_hub rfl) hBounded, ?_, ?_⟩
  · exact fun since hSince => (hPage since hSince).mono hGrows hBounded.1
  · intro other hMem
    rcases hEach other hMem with hTodo | hShown | hRejected
    · rcases mem_cons.mp hTodo with rfl | hLater
      · exact .inr (.inr ⟨sub, s.view, mem_append_right _ (mem_singleton_self _), rfl, hPasses⟩)
      · exact .inl hLater
    · exact .inr (.inl hShown)
    · exact .inr (.inr (hRejected.mono hGrows))

/-- A page whose every event is shown or turned away answers up to the boundary. -/
theorem PageComplete.paged (h : PageComplete s.log since boundary page)
    (hShown : ∀ envelope ∈ page, envelope ∈ shown ∨ Rejected s id envelope)
    (hSent : snapshotFrame id since page shown ∈ s.frames) : Paged s id since boundary := by
  refine ⟨_, _, _, hSent, fun envelope hIn hAbove hUpTo => ?_⟩
  by_cases hFull : snapshotPage ≤ page.length
  · obtain ⟨last, hLast⟩ : ∃ last, page.getLast? = some last :=
      getLast?_isSome.mpr (ne_nil_of_length_pos (Nat.lt_of_lt_of_le (by decide) hFull)) |> Option.isSome_iff_exists.mp
    rcases Nat.lt_or_ge last.seq envelope.seq with hMore | hWithin
    · exact .inr (.inr ⟨decide_eq_true hFull, last.seq, by rw [hLast, Option.map_some], hMore⟩)
    · obtain ⟨_, hAll⟩ := h.upTo last.seq (by rw [hLast, Option.map_some])
      exact (hShown envelope (hAll envelope hIn hAbove hWithin)).imp_right .inl
  · exact (hShown envelope (h.rest (Nat.lt_of_not_le hFull) envelope hIn hAbove hUpTo)).imp_right .inl

theorem Complete.sendSnapshot (h : Complete s) (hIs : s.stage = .paging sub boundary page [] shown)
    (hSince : sub.since = some since) : Complete { s with
      frames := s.frames ++ [snapshotFrame sub.id since page shown], stage := .live sub boundary } := by
  have hGrows : Grows s { s with
      frames := s.frames ++ [snapshotFrame sub.id since page shown], stage := .live sub boundary } :=
    .of_log rfl (fun _ hMem => mem_append_left _ hMem) fun _ hMem => hMem
  obtain ⟨hBounded, hForwarded, hPage, hEach⟩ := h.paging hIs
  have hPage := hPage since hSince
  have hShown : ∀ envelope ∈ page, envelope ∈ shown ∨ Rejected s sub.id envelope :=
    fun envelope hMem => (hEach envelope hMem).resolve_left not_mem_nil
  refine ⟨fun frame hMem => ?_, hBounded, hForwarded.mono hGrows (.of_hub rfl) hBounded, fun other hOther => ?_⟩
  · rcases mem_append.mp hMem with hOld | hNew
    · exact (h.frames frame hOld).mono hGrows
    · rw [mem_singleton.mp hNew]
      intro n hNext
      obtain ⟨hLe, hAll⟩ := hPage.upTo n hNext
      exact ⟨hLe, fun envelope hIn hAbove hUpTo => hShown envelope (hAll envelope hIn hAbove hUpTo)⟩
  · cases hSince.symm.trans hOther
    exact (hPage.mono hGrows hBounded.1).paged (fun envelope hMem => (hShown envelope hMem).imp_right (Rejected.mono hGrows))
      (mem_append_right _ (mem_singleton_self _))

theorem Complete.forward (h : Complete s) (hIs : s.stage = .live sub boundary)
    (hChannel : s.hub.channels sub.id = some channel) (hNext : channel.sent[channel.taken]? = some envelope) :
    Complete (Session.forward { s with hub := Hub.setChannel s.hub sub.id { channel with taken := channel.taken + 1 } }
      sub boundary (some s.view) envelope) := by
  rcases forward_cases { s with hub := Hub.setChannel s.hub sub.id { channel with taken := channel.taken + 1 } }
    sub boundary (some s.view) envelope with
    ⟨hBelow, hSame⟩ | ⟨hAbove, hPasses, hSame⟩ | ⟨hNone, _⟩ | ⟨hAbove, hSame⟩ | hSame
  · rw [hSame]
    exact h.taken hIs hChannel hNext rfl rfl (.of_log rfl (fun _ hMem => hMem) fun _ hMem => hMem)
      (fun _ hMem => .inl hMem) fun hAbove => absurd hBelow (Nat.not_le.mpr hAbove)
  · rw [hSame]
    exact h.taken hIs hChannel hNext rfl rfl (.of_log rfl (fun _ hMem => hMem) fun _ hMem => mem_append_left _ hMem)
      (fun _ hMem => .inl hMem) fun _ => .inr ⟨sub, s.view, mem_append_right _ (mem_singleton_self _), rfl, hPasses⟩
  · cases hNone
  · rw [hSame]
    refine h.taken hIs hChannel hNext rfl rfl (.of_log rfl (fun _ hMem => mem_append_left _ hMem) fun _ hMem => hMem)
      (fun frame hMem => ?_) fun _ => .inl ?_
    · rcases mem_append.mp hMem with hOld | hNew
      · exact .inl hOld
      · rw [mem_singleton.mp hNew]
        exact .inr trivial
    · rw [shownBy_append, shownBy_singleton, Frame.shows, if_pos rfl]
      exact mem_append_right _ (mem_singleton_self _)
  · rw [hSame]
    exact ⟨h.frames, trivial⟩

theorem complete_step ⦃s s' : Session View⦄ (hStep : Step capacity false s s') (hOrdered : Ordered s)
    (h : Complete s) : Complete s' := by
  cases hStep with
  | append envelope =>
    have hGrows : Grows s { s with log := s.log ++ [{ envelope with seq := s.log.length + 1 }] } := by
      refine ⟨by simp, fun other hMem hLe => ?_, fun _ hMem => hMem, fun _ hMem => hMem⟩
      rcases mem_append.mp hMem with hOld | hNew
      · exact hOld
      · rw [mem_singleton.mp hNew] at hLe
        exact absurd hLe (Nat.not_succ_le_self _)
    exact h.mono rfl hGrows (fun _ hMem => .inl hMem) fun _ _ => .of_hub rfl
  | project | hangUp | write =>
    exact h.mono rfl (.of_log rfl (fun _ hMem => hMem) fun _ hMem => hMem) (fun _ hMem => .inl hMem) fun _ _ => .of_hub rfl
  | publish envelope hLogged hNew =>
    refine h.mono rfl (.of_log rfl (fun _ hMem => hMem) fun _ hMem => hMem) (fun _ hMem => .inl hMem) fun id _ => ?_
    exact ⟨prefix_append _ _, fun channel hChannel => ⟨channel, hChannel, rfl, rfl, rfl⟩⟩
  | fanout hub hHub hBus hTaken =>
    refine h.mono rfl (.of_log rfl (fun _ hMem => hMem) fun _ hMem => hMem) (fun _ hMem => .inl hMem) fun id hId => ?_
    refine ⟨hBus ▸ prefix_refl _, fun channel hChannel => ?_⟩
    obtain ⟨known, hKnown, hLe⟩ := hOrdered.known id hId
    cases hChannel.symm.trans hKnown
    exact received_fanout hHub hChannel (hTaken id hId) hLe
  | subscribe sub hReading hNew =>
    refine ⟨h.frames, _, Function.update_self .., Nat.le_refl _, rfl⟩
  | readBoundary sub hIs =>
    obtain ⟨channel, hChannel, hSince, hTaken⟩ := h.at_stage hIs
    refine ⟨h.frames, ⟨Nat.le_refl _, channel, hChannel, hSince, fun envelope hMem => ?_⟩, ?_⟩
    · exact hOrdered.seq_le (hOrdered.logged envelope (mem_of_mem_take hMem))
    · intro other hOther envelope hMem
      cases hChannel.symm.trans hOther
      rw [Hub.Channel.received, hTaken] at hMem
      cases hMem
  | boundaryFails hFaults => cases hFaults
  | load sub boundary since hIs hSince =>
    obtain ⟨hBounded, hForwarded⟩ := h.at_stage hIs
    refine ⟨h.frames, hBounded, hForwarded, fun other hOther => ?_, fun envelope hMem => .inl hMem⟩
    cases hSince.symm.trans hOther
    exact hOrdered.page_complete since boundary
  | loadFails hFaults => cases hFaults
  | noHistory sub boundary hIs hSince =>
    obtain ⟨hBounded, hForwarded⟩ := h.at_stage hIs
    refine ⟨h.frames, hBounded, hForwarded, fun other hOther => ?_⟩
    cases hSince.symm.trans hOther
  | keep sub boundary page envelope todo shown hIs => exact h.keep hIs
  | hide sub boundary page envelope todo shown hIs hPasses => exact h.hide hIs hPasses
  | hideFails hFaults => cases hFaults
  | sendSnapshot sub boundary since page shown hIs hSince hRoom =>
    have hSent : s.trySend (snapshotFrame sub.id since page shown) =
        { s with frames := s.frames ++ [snapshotFrame sub.id since page shown] } :=
      if_pos (hRoom.resolve_right Bool.false_ne_true)
    exact hSent ▸ h.sendSnapshot hIs hSince
  | forward sub boundary hIs channel hChannel envelope hNext seen hSeen =>
    exact hSeen.resolve_right Bool.false_ne_true ▸ h.forward hIs hChannel hNext
  | finish => exact ⟨h.frames, trivial⟩
  | sendClose hIs hRoom =>
    have hSent : s.trySend .close = { s with frames := s.frames ++ [.close] } :=
      if_pos (hRoom.resolve_right Bool.false_ne_true)
    rw [hSent]
    have hGrows : Grows s { s with frames := s.frames ++ [.close], stage := .ended } :=
      .of_log rfl (fun _ hMem => mem_append_left _ hMem) fun _ hMem => hMem
    refine ⟨fun frame hMem => ?_, mem_append_right _ (mem_singleton_self _)⟩
    rcases mem_append.mp hMem with hOld | hNew
    · exact (h.frames frame hOld).mono hGrows
    · rw [mem_singleton.mp hNew]
      trivial
  | reply =>
    unfold Session.trySend
    split
    · refine h.mono rfl (.of_log rfl (fun _ hMem => mem_append_left _ hMem) fun _ hMem => hMem)
        (fun frame hMem => ?_) fun _ _ => .of_hub rfl
      rcases mem_append.mp hMem with hOld | hNew
      · exact .inl hOld
      · rw [mem_singleton.mp hNew]
        exact .inr trivial
    · exact h

theorem complete_run (h : Trace (Step capacity false) (start view) s) : Ordered s ∧ Complete s :=
  (ordered_step.and_of fun _ _ hStep hOrdered hComplete => complete_step hStep hOrdered hComplete).trace h
    ⟨ordered_start, complete_start⟩

/-- Everything is at rest: what was committed is published, the fan-out has handed it
on, the forwarder has taken it or has ended, and the writer has sent every frame. -/
structure Settled (s : Session View) : Prop where
  published : ∀ envelope ∈ s.log, envelope ∈ s.hub.published
  waiting : s.hub.pass = .waiting
  next : s.hub.next = s.hub.published.length
  written : s.frames.length ≤ s.written
  stage : match s.stage with
    | .live sub _ => ∃ channel, s.hub.channels sub.id = some channel ∧ channel.closed = false ∧ channel.queued = 0
    | .idle | .ended => True
    | .registered _ | .bounded .. | .paging .. | .closing => False

/-- The subscription of a page, where the pages before it said that there were more. -/
inductive Follows (frames : List Frame) (origin : Nat) : Nat → Prop where
  | first : Follows frames origin origin
  | next {since n : Nat} {id : SubscriptionId} {events : List EventEnvelope} (h : Follows frames origin since)
      (hFrame : .snapshot id since events true (some n) ∈ frames) : Follows frames origin n

/-- Every event since the first of the pages that were followed has come, was turned
away, or is in the page after the last one, which the client knows of. -/
def NoneMissing (s : Session View) : Prop :=
  ∀ sub boundary since origin, s.stage = .live sub boundary → sub.since = some since →
    Follows s.delivered origin since → ∀ envelope ∈ s.log, origin < envelope.seq →
      (∃ id, envelope ∈ shownBy id s.delivered) ∨ (∃ id, Rejected s id envelope) ∨
        ∃ events n, .snapshot sub.id since events true (some n) ∈ s.delivered ∧ n < envelope.seq

theorem Settled.received {boundary : Nat} {envelope : EventEnvelope} (hSettled : Settled s)
    (hOrdered : Ordered s) (hIs : s.stage = .live sub boundary) (hBounded : Bounded s sub.id boundary)
    (hLogged : envelope ∈ s.log) (hAbove : boundary < envelope.seq) :
    ∃ channel, s.hub.channels sub.id = some channel ∧ envelope ∈ channel.received := by
  have hStage := hSettled.stage
  rw [hIs] at hStage
  obtain ⟨channel, hChannel, hOpen, hDrained⟩ := hStage
  obtain ⟨_, known, hKnown, hSince, hHistory⟩ := hBounded
  cases hChannel.symm.trans hKnown
  obtain ⟨first, hStarts, hBlock, _, hUpTo⟩ := hOrdered.hub.placed sub.id channel hChannel
  have hAt := hUpTo (by rwa [Hub.Channel.closed, Bool.not_eq_false'] at hOpen)
  rw [hSettled.waiting, Hub.UpTo, hSettled.next] at hAt
  have hSent : channel.sent = s.hub.published.drop first := by
    have hLength : (s.hub.published.drop first).length = channel.sent.length := by
      rw [length_drop]
      omega
    have hBlock : channel.sent = (s.hub.published.drop first).take channel.sent.length := hBlock
    rw [hBlock, ← hLength, take_length]
  refine ⟨channel, hChannel, ?_⟩
  rw [Hub.Channel.received, take_of_length_le (Nat.le_of_sub_eq_zero hDrained), hSent]
  have hPublished := hSettled.published envelope hLogged
  rw [← take_append_drop first s.hub.published] at hPublished
  rcases mem_append.mp hPublished with hEarlier | hLater
  · have hBelow := hHistory envelope (take_subset_take_left _ hStarts.le_since hEarlier)
    omega
  · exact hLater

theorem shown_of_snapshot {frames : List Frame} {since : Nat} {events : List EventEnvelope} {hasMore : Bool}
    {nextSeq : Option Nat} {envelope : EventEnvelope} (hFrame : .snapshot id since events hasMore nextSeq ∈ frames)
    (hMem : envelope ∈ events) : envelope ∈ shownBy id frames := by
  refine mem_flatMap.mpr ⟨_, hFrame, ?_⟩
  rw [Frame.shows, if_pos rfl]
  exact hMem

theorem Follows.answered {origin since : Nat} {envelope : EventEnvelope} (h : Follows s.delivered origin since)
    (hComplete : Complete s) (hDelivered : s.delivered = s.frames) (hLogged : envelope ∈ s.log)
    (hAbove : origin < envelope.seq) (hUpTo : envelope.seq ≤ since) :
    (∃ id, envelope ∈ shownBy id s.delivered) ∨ ∃ id, Rejected s id envelope := by
  induction h with
  | first => exact absurd hAbove (Nat.not_lt.mpr hUpTo)
  | @next earlier n id events _ hFrame ih =>
    rcases Nat.lt_or_ge earlier envelope.seq with hIn | hBelow
    · have hPage : FrameComplete s (.snapshot id earlier events true (some n)) :=
        hComplete.frames _ (hDelivered ▸ hFrame)
      rcases (hPage n rfl).2 envelope hLogged hIn hUpTo with hShown | hRejected
      · exact .inl ⟨id, shown_of_snapshot hFrame hShown⟩
      · exact .inr ⟨id, hRejected⟩
    · exact ih hBelow

theorem none_missing (h : Trace (Step capacity false) (start view) s) (hSettled : Settled s) :
    s.Closed ∨ NoneMissing s := by
  obtain ⟨hOrdered, hComplete⟩ := complete_run h
  have hDelivered : s.delivered = s.frames := take_of_length_le hSettled.written
  by_cases hEnded : s.stage = .ended
  · have hStage := hComplete.stage
    unfold StageComplete at hStage
    rw [hEnded] at hStage
    exact .inl (.inr (hDelivered ▸ hStage))
  refine .inr fun sub boundary since origin hIs hSince hFollows envelope hLogged hAbove => ?_
  have hStage := hComplete.stage
  unfold StageComplete at hStage
  rw [hIs] at hStage
  obtain ⟨hBounded, hForwarded, hPaged⟩ := hStage
  rcases Nat.lt_or_ge since envelope.seq with hAfter | hBefore
  · rcases Nat.lt_or_ge boundary envelope.seq with hLive | hHistory
    · obtain ⟨channel, hChannel, hReceived⟩ := hSettled.received hOrdered hIs hBounded hLogged hLive
      rcases hForwarded channel hChannel envelope hReceived hLive with hShown | hRejected
      · exact .inl ⟨sub.id, hDelivered ▸ hShown⟩
      · exact .inr (.inl ⟨sub.id, hRejected⟩)
    · obtain ⟨events, hasMore, nextSeq, hFrame, hAll⟩ := hPaged since hSince
      rcases hAll envelope hLogged hAfter hHistory with hShown | hRejected | ⟨rfl, n, rfl, hLater⟩
      · exact .inl ⟨sub.id, shown_of_snapshot (hDelivered ▸ hFrame) hShown⟩
      · exact .inr (.inl ⟨sub.id, hRejected⟩)
      · exact .inr (.inr ⟨events, n, hDelivered ▸ hFrame, hLater⟩)
  · exact (hFollows.answered hComplete hDelivered hLogged hAbove hBefore).imp_right .inl

private def subscriber : Subscription Unit := ⟨⟨1⟩, some 0, fun _ _ => true⟩

private def deletion : EventEnvelope := { EventEnvelope.new ⟨5⟩ 0 .anyUser (.task (.taskDeleted ⟨7⟩)) with seq := 1 }

/-- One event is committed and published before anyone subscribes. -/
private def committed : Session Unit :=
  { start () with log := [deletion], hub := { (Hub.start : Hub.State EventEnvelope) with published := [deletion], next := 1 } }

/-- The client subscribes from the start, and the boundary is read. -/
private def atBoundary : Session Unit :=
  { committed with hub := Hub.subscribeWs committed.hub ⟨1⟩, stage := .bounded subscriber 1 }

private theorem reaches_committed : Trace (Step 1024 faults) (start ()) committed := by
  have hAppend : Step 1024 faults (start ()) { start () with log := [deletion] } :=
    .append (EventEnvelope.new ⟨5⟩ 0 .anyUser (.task (.taskDeleted ⟨7⟩)))
  have hPublish : Step 1024 faults { start () with log := [deletion] } { start () with
      log := [deletion], hub := { (Hub.start : Hub.State EventEnvelope) with published := [deletion] } } :=
    .publish deletion (mem_singleton_self _) not_mem_nil
  have hRecv : Step 1024 faults { start () with
      log := [deletion], hub := { (Hub.start : Hub.State EventEnvelope) with published := [deletion] } } { start () with
      log := [deletion], hub := Hub.recv 1024 { (Hub.start : Hub.State EventEnvelope) with published := [deletion] } } :=
    .fanout _ (.recv rfl) rfl nofun
  have hFinish : Step 1024 faults { start () with
      log := [deletion], hub := Hub.recv 1024 { (Hub.start : Hub.State EventEnvelope) with published := [deletion] } }
      committed :=
    .fanout _ (.finishSending deletion _ _ rfl fun id hDue => by cases hDue) rfl nofun
  exact (((Relation.ReflTransGen.single hAppend).tail hPublish).tail hRecv).tail hFinish

private theorem reaches_boundary : Trace (Step 1024 faults) (start ()) atBoundary := by
  have hSubscribe : Step 1024 faults committed
      { committed with hub := Hub.subscribeWs committed.hub ⟨1⟩, stage := .registered subscriber } :=
    .subscribe subscriber rfl rfl
  have hBoundary : Step 1024 faults
      { committed with hub := Hub.subscribeWs committed.hub ⟨1⟩, stage := .registered subscriber } atBoundary :=
    .readBoundary subscriber rfl
  exact (reaches_committed.tail hSubscribe).tail hBoundary

/-- The connection after a snapshot frame with some events. -/
private def toldOf (events : List EventEnvelope) (nextSeq : Option Nat) : Session Unit :=
  { atBoundary with stage := .live subscriber 1, frames := [.snapshot ⟨1⟩ 0 events false nextSeq], written := 1 }

private theorem settled_toldOf (events : List EventEnvelope) (nextSeq : Option Nat) : Settled (toldOf events nextSeq) :=
  ⟨fun _ hMem => hMem, rfl, rfl, Nat.le_refl 1, _, rfl, rfl, rfl⟩

end WsSession
end Daruma
