import Daruma.Desktop.ReplicaOwner

/-! A local replica belongs to one server, as long as no binding is overtaken by
another and the registry is not lost before the default file tells its owner. -/
namespace Daruma

open List

namespace ReplicaOwner

variable {Server P : Type}

namespace Replica

/-- Its marker and its contents say that it may be somebody's. -/
def Taken (replica : Replica Server) : Prop := replica.noOwner = false ∧ replica.isEmpty = false

theorem isEmpty_eq_false_iff {replica : Replica Server} :
    replica.isEmpty = false ↔ replica.serverSeq ≠ 0 ∨ replica.holdsRows = true ∨ replica.outbox ≠ [] := by
  unfold isEmpty
  cases hOutbox : replica.outbox with
  | nil =>
    simp
    exact Decidable.imp_iff_not_or
  | cons event later => simp

structure Keeps (replica changed : Replica Server) : Prop where
  taken : replica.Taken → changed.Taken
  queued : ∀ event ∈ changed.outbox, ∃ earlier ∈ replica.outbox, earlier.boundTo = event.boundTo

theorem keeps_noteIfEmpty (replica : Replica Server) : Keeps replica replica.noteIfEmpty := by
  unfold noteIfEmpty
  split
  · rename_i hEmpty
    constructor
    · intro hTaken
      rw [hTaken.2] at hEmpty
      cases hEmpty
    · exact fun event hMem => ⟨event, hMem, rfl⟩
  · exact ⟨id, fun event hMem => ⟨event, hMem, rfl⟩⟩

theorem keeps_noteOwner (replica : Replica Server) : Keeps replica replica.noteOwner :=
  ⟨fun hTaken => ⟨rfl, hTaken.2⟩, fun event hMem => ⟨event, hMem, rfl⟩⟩

theorem keeps_catchUp (replica : Replica Server) (serverSeq : Nat) : Keeps replica (replica.catchUp serverSeq) :=
  ⟨fun hTaken => ⟨hTaken.1, isEmpty_eq_false_iff.2 (.inr (.inl rfl))⟩, fun event hMem => ⟨event, hMem, rfl⟩⟩

variable {change : Queued Server → Queued Server}

theorem mem_modify {events : List (Queued Server)} {n : Nat}
    {event : Queued Server} (hMem : event ∈ events.modify n change) :
    ∃ earlier ∈ events, event = earlier ∨ event = change earlier := by
  obtain ⟨i, hGet⟩ := mem_iff_getElem?.1 hMem
  rw [getElem?_modify] at hGet
  obtain ⟨earlier, hEarlier, hEq⟩ := Option.map_eq_some_iff.1 hGet
  refine ⟨earlier, mem_iff_getElem?.2 ⟨i, hEarlier⟩, ?_⟩
  split at hEq
  · exact .inr hEq.symm
  · exact .inl hEq.symm

theorem keeps_mark (replica : Replica Server) (n : Nat)
    (hChange : ∀ event, (change event).boundTo = event.boundTo) : Keeps replica (replica.mark n change) := by
  constructor
  · intro hTaken
    refine ⟨hTaken.1, isEmpty_eq_false_iff.2 ?_⟩
    rcases isEmpty_eq_false_iff.1 hTaken.2 with hSeq | hRows | hOutbox
    · exact .inl hSeq
    · exact .inr (.inl hRows)
    · apply Or.inr
      apply Or.inr
      intro hNil
      have hLength : (replica.outbox.modify n change).length = 0 := congrArg List.length hNil
      rw [length_modify] at hLength
      exact hOutbox (eq_nil_of_length_eq_zero hLength)
  · intro event hMem
    obtain ⟨earlier, hEarlier, hEq⟩ := mem_modify hMem
    rcases hEq with hEq | hEq
    · exact ⟨earlier, hEarlier, congrArg Queued.boundTo hEq.symm⟩
    · exact ⟨earlier, hEarlier, ((congrArg Queued.boundTo hEq).trans (hChange earlier)).symm⟩

theorem keeps_markFlushed (replica : Replica Server) (n : Nat) : Keeps replica (replica.markFlushed n) :=
  replica.keeps_mark n fun _ => rfl

theorem keeps_markRejected (replica : Replica Server) (n : Nat) : Keeps replica (replica.markRejected n) :=
  replica.keeps_mark n fun _ => rfl

theorem keeps_requeueRejected (replica : Replica Server) : Keeps replica replica.requeueRejected := by
  constructor
  · intro hTaken
    refine ⟨hTaken.1, isEmpty_eq_false_iff.2 ?_⟩
    rcases isEmpty_eq_false_iff.1 hTaken.2 with hSeq | hRows | hOutbox
    · exact .inl hSeq
    · exact .inr (.inl hRows)
    · exact .inr (.inr fun hNil => hOutbox (map_eq_nil_iff.1 hNil))
  · intro event hMem
    obtain ⟨earlier, hEarlier, hEq⟩ := mem_map.1 hMem
    subst hEq
    exact ⟨earlier, hEarlier, rfl⟩

end Replica

/-- The server of a database, when the default file is `owner`'s. -/
def Path.server (owner : Option Server) : Path Server → Option Server
  | .default => owner
  | .of server => some server

/-- A registry records nothing, or the owner of the default file. -/
def Registry.Names (owner : Option Server) (registry : Registry Server) : Prop :=
  (registry.active = none ∧ registry.defaultOwner = none) ∨
    (registry.active ≠ none ∧ owner ≠ none ∧ registry.defaultOwner = owner)

/-- A process that knows its server has that server's database open, and one that does
not has the default file open. -/
def Own (owner own : Option Server) (path : Path Server) : Prop :=
  (own = none → path = .default) ∧ ∀ server, own = some server → path.server owner = some server

/-- What a process knows agrees with whose the default file is. -/
def Phase.Fits (owner : Option Server) : Phase Server → Prop
  | .loaded _ registry followed => registry.Names owner ∧ (followed = true → registry.active ≠ none)
  | .opening _ registry => registry.Names owner
  | .owning server | .recorded server _ => owner = some server
  | .ready own path => Own owner own path
  | .sending own path server => Own owner own path ∧ path.server owner = some server
  | _ => True

/-- The default file stays whose it is, once it is somebody's. -/
def Extends (owner later : Option Server) : Prop := ∀ server, owner = some server → later = some server

variable {owner later : Option Server} {path : Path Server} {server : Server} {phase : Phase Server}

theorem Path.server_mono
    (h : Extends owner later) (hServer : path.server owner = some server) : path.server later = some server := by
  cases path with
  | default => exact h server hServer
  | of other => exact hServer

theorem Registry.Names.mono {registry : Registry Server}
    (hNames : registry.Names owner) (h : Extends owner later) : registry.Names later := by
  rcases hNames with hNone | ⟨hActive, hOwner, hDefault⟩
  · exact .inl hNone
  · obtain ⟨server, hSome⟩ := Option.ne_none_iff_exists'.1 hOwner
    have hLater : later = some server := h server hSome
    apply Or.inr
    rw [hLater]
    exact ⟨hActive, nofun, hDefault.trans hSome⟩

variable {own : Option Server} {p : P}

theorem Own.mono (hOwn : Own owner own path) (h : Extends owner later) : Own later own path :=
  ⟨hOwn.1, fun server hServer => Path.server_mono h (hOwn.2 server hServer)⟩

theorem Phase.Fits.mono (hFits : phase.Fits owner) (h : Extends owner later) : phase.Fits later := by
  cases phase with
  | loaded pairedWith registry followed => exact ⟨hFits.1.mono h, hFits.2⟩
  | opening pairedWith registry => exact Registry.Names.mono hFits h
  | owning server => exact h server hFits
  | recorded server adopting => exact h server hFits
  | ready own path => exact Own.mono hFits h
  | sending own path server => exact ⟨hFits.1.mono h, Path.server_mono h hFits.2⟩
  | _ => trivial

theorem Phase.Fits.treats
    (hFits : phase.Fits owner) (hTreats : phase.treats = some server) : owner = some server := by
  cases phase with
  | owning | recorded => exact hFits.trans hTreats
  | ready own path =>
    cases path with
    | default => exact hFits.2 server hTreats
    | of other => cases hTreats
  | sending own path other =>
    cases path with
    | default => exact hFits.2.trans hTreats
    | of another => cases hTreats
  | _ => cases hTreats

namespace Registry

theorem names_empty (owner : Option Server) : (empty : Registry Server).Names owner := .inl ⟨rfl, rfl⟩

theorem names_bindDefault (server : Server) : (bindDefault server).Names (some server) :=
  .inr ⟨nofun, nofun, rfl⟩

variable [DecidableEq Server]

variable {owner : Option Server} {registry : Registry Server}

theorem names_follow (hNames : registry.Names owner) (server : Server) : (registry.follow server).1.Names owner ∧
      ((registry.follow server).2 = true → (registry.follow server).1.active ≠ none) := by
  unfold follow
  split
  · exact ⟨hNames, nofun⟩
  · rename_i hOther
    rcases hNames with ⟨hActive, _⟩ | ⟨_, hOwner, hDefault⟩
    · exact absurd (.inl hActive) hOther
    · exact ⟨.inr ⟨nofun, hOwner, hDefault⟩, fun _ => nofun⟩

theorem own_activePath (hNames : registry.Names owner)
    {server : Server} (hActive : registry.active = some server) : Own owner (some server) registry.activePath := by
  refine ⟨nofun, fun other hSame => ?_⟩
  cases hSame
  unfold activePath
  rw [hActive]
  dsimp only
  split
  · rfl
  · rename_i hDefault
    rcases hNames with ⟨hNone, _⟩ | ⟨_, _, hOwner⟩
    · rw [hActive] at hNone
      cases hNone
    · exact hOwner.symm.trans (Classical.not_not.1 hDefault)

end Registry

/-- What every careful run keeps: the registry, the marker of the default file, the
processes, the queues and what was sent agree on whose the default file is. -/
structure Sound (world : World Server P) : Prop where
  file : ∀ registry, world.registry = some registry → registry.Names world.owner
  kept : world.owner ≠ none → world.load.active ≠ none ∨ world.defaultReplica.Taken
  phases : ∀ p phase, world.processes p = some phase → phase.Fits world.owner
  treated : ∀ server ∈ world.treated, world.owner = some server
  queued : ∀ path, ∀ event ∈ (world.replicaAt path).outbox, ∀ server, event.boundTo = some server →
    path.server world.owner = some server
  sent : ∀ entry ∈ world.sent, ∀ server, entry.1.boundTo = some server → entry.2 = server

theorem sound_start {replica : Replica Server} (hUnbound : ∀ event ∈ replica.outbox, event.boundTo = none) :
    Sound (start replica : World Server P) := by
  refine ⟨nofun, fun hOwner => absurd rfl hOwner, nofun, nofun, fun path event hMem server hBound => ?_, nofun⟩
  cases path with
  | default =>
    have hMember : event ∈ replica.outbox := hMem
    rw [hUnbound event hMember] at hBound
    cases hBound
  | of other => cases hMem

namespace Sound

variable {world : World Server P}

theorem oneServer (h : Sound world) : OneServer world := by
  refine ⟨fun server hMem other hOther => ?_, h.sent⟩
  exact Option.some.inj ((h.treated server hMem).symm.trans (h.treated other hOther))

theorem load_names (h : Sound world) : world.load.Names world.owner := by
  unfold World.load
  cases hRegistry : world.registry with
  | none => exact Registry.names_empty world.owner
  | some registry => exact h.file registry hRegistry

/-- The default file becomes the server's, which it was, or nobody's. -/
theorem bind (h : Sound world) {server : Server} (hOwner : world.owner = none ∨ world.owner = some server) :
    Sound (world.bind server) := by
  have hExtends : Extends world.owner (some server) := by
    intro other hOther
    rcases hOwner with hNone | hSame
    · rw [hNone] at hOther
      cases hOther
    · exact hSame.symm.trans hOther
  refine ⟨fun registry hRegistry => ?_, fun _ => .inl nofun, fun p phase hProcess => ?_, fun other hMem => ?_,
    fun path event hMem other hBound => ?_, h.sent⟩
  · cases hRegistry
    exact Registry.names_bindDefault server
  · exact (h.phases p phase hProcess).mono hExtends
  · exact hExtends other (h.treated other hMem)
  · exact Path.server_mono hExtends (h.queued path event hMem other hBound)

theorem owner_of_canBind (h : Sound world) {server : Server} (hCan : CanBind world server) :
    world.owner = none ∨ world.owner = some server := by
  rcases hCan with ⟨hActive, hPast⟩ | hSame
  · apply Or.inl
    apply Classical.byContradiction
    intro hOwner
    rcases h.kept hOwner with hSome | ⟨hMarker, _⟩
    · exact hSome hActive
    · unfold Replica.hasUnknownPast at hPast
      rw [hMarker] at hPast
      cases hPast
  · exact .inr hSame

theorem lose (h : Sound world) (hCareful : world.load.active = none ∨ world.defaultReplica.Taken) :
    Sound { world with registry := none } := by
  refine ⟨nofun, fun hOwner => ?_, h.phases, h.treated, h.queued, h.sent⟩
  rcases h.kept hOwner with hActive | hTaken
  · rcases hCareful with hNone | hTaken
    · exact absurd hNone hActive
    · exact .inr hTaken
  · exact .inr hTaken

theorem push (h : Sound world) {path : Path Server} {server : Server}
    (hProcess : world.processes p = some (.sending own path server)) (n : Nat) :
    Sound { world with sent := world.sent ++ ((world.replicaAt path).pending n).toList.map (·, server) } := by
  refine ⟨h.file, h.kept, h.phases, h.treated, h.queued, fun entry hMem other hBound => ?_⟩
  rcases mem_append.1 hMem with hBefore | hNew
  · exact h.sent entry hBefore other hBound
  · obtain ⟨event, hPending, hEntry⟩ := mem_map.1 hNew
    subst hEntry
    have hMem : event ∈ (world.replicaAt path).outbox := by
      have hGet : (world.replicaAt path).outbox[n]? = some event :=
        (Option.filter_eq_some_iff.1 (Option.mem_toList.1 hPending)).1
      exact mem_iff_getElem?.2 ⟨n, hGet⟩
    have hServer : path.server world.owner = some other := h.queued path event hMem other hBound
    have hOpen : path.server world.owner = some server := (h.phases p _ hProcess).2
    exact Option.some.inj (hOpen.symm.trans hServer)

section

variable [DecidableEq Server]

variable {replica : Replica Server}

theorem writeAt (h : Sound world) (path : Path Server) (hTaken : (world.replicaAt path).Taken → replica.Taken)
    (hQueued : ∀ event ∈ replica.outbox, ∀ server, event.boundTo = some server → path.server world.owner = some server) :
    Sound (world.writeAt path replica) := by
  cases path with
  | default =>
    refine ⟨h.file, fun hOwner => ?_, h.phases, h.treated, fun other => ?_, h.sent⟩
    · rcases h.kept hOwner with hActive | hKept
      · exact .inl hActive
      · exact .inr (hTaken hKept)
    · cases other with
      | default => exact hQueued
      | of server => exact h.queued (.of server)
  | of server =>
    refine ⟨h.file, h.kept, h.phases, h.treated, fun other => ?_, h.sent⟩
    cases other with
    | default => exact h.queued .default
    | of another =>
      show ∀ event ∈ (Function.update world.replicas server replica another).outbox, _
      by_cases hSame : another = server
      · subst hSame
        rw [Function.update_self]
        exact hQueued
      · rw [Function.update_of_ne hSame]
        exact h.queued (.of another)

theorem change (h : Sound world) (path : Path Server)
    (hKeeps : Replica.Keeps (world.replicaAt path) replica) : Sound (world.writeAt path replica) := by
  apply h.writeAt path hKeeps.taken
  intro event hMem server hBound
  obtain ⟨earlier, hEarlier, hSame⟩ := hKeeps.queued event hMem
  exact h.queued path earlier hEarlier server (hSame.trans hBound)

theorem whileSending (h : Sound world) (p : P) {changed : Replica Server → Replica Server}
    (hKeeps : ∀ replica, Replica.Keeps replica (changed replica)) : Sound (world.whileSending p changed) := by
  unfold World.whileSending
  split
  · exact h.change _ (hKeeps _)
  · exact h

theorem queue (h : Sound world) {path : Path Server} (hOwn : Own world.owner own path) (id : Nat) :
    Sound (world.writeAt path ((world.replicaAt path).enqueue ⟨id, own.or world.owner, false, false⟩)) := by
  apply h.writeAt path
  · intro hTaken
    exact ⟨hTaken.1, Replica.isEmpty_eq_false_iff.2 (.inr (.inl rfl))⟩
  · intro event hMem server hBound
    rcases mem_append.1 hMem with hBefore | hNew
    · exact h.queued path event hBefore server hBound
    · cases mem_singleton.1 hNew
      cases own with
      | none =>
        rw [hOwn.1 rfl]
        exact hBound
      | some known => exact hOwn.2 server hBound

end

variable [DecidableEq P]

theorem enter (h : Sound world) {phase : Phase Server} (hFits : phase.Fits world.owner) :
    Sound (world.enter p phase) where
  file := h.file
  kept := h.kept
  phases := by
    intro other entered hProcess
    have hEntered : Function.update world.processes p (some phase) other = some entered := hProcess
    by_cases hSame : other = p
    · rw [hSame, Function.update_self] at hEntered
      cases hEntered
      exact hFits
    · rw [Function.update_of_ne hSame] at hEntered
      exact h.phases other entered hEntered
  treated := by
    intro server hMem
    rcases mem_append.1 hMem with hBefore | hTreats
    · exact h.treated server hBefore
    · exact hFits.treats (Option.mem_toList.1 hTreats)
  queued := h.queued
  sent := h.sent

end Sound

section

variable [DecidableEq Server] [DecidableEq P]

variable {world : World Server P}

theorem Sound.step (h : Sound world) {phase : Phase Server}
    (hProcess : world.processes p = some phase) (hRight : StillRight world phase) : Sound (world.step p phase) := by
  have hFits : phase.Fits world.owner := h.phases p phase hProcess
  have hOwner : Sound { world with defaultReplica := world.defaultReplica.noteOwner } :=
    h.change .default (Replica.keeps_noteOwner _)
  have hUnknown : Own world.owner none .default := ⟨fun _ => rfl, nofun⟩
  cases phase with
  | starting => exact h.enter trivial
  | paired pairedWith =>
    cases pairedWith with
    | none => exact h.enter ⟨h.load_names, nofun⟩
    | some server => exact h.enter (Registry.names_follow h.load_names server)
  | loaded pairedWith registry followed =>
    obtain ⟨hNames, hFollowed⟩ := hFits
    cases followed with
    | false => exact h.enter hNames
    | true =>
      have hSaved : Sound { world with registry := some registry } := by
        refine ⟨fun saved hSaved => ?_, fun _ => .inl (hFollowed rfl), h.phases, h.treated, h.queued, h.sent⟩
        cases hSaved
        exact hNames
      exact hSaved.enter hNames
  | opening pairedWith registry =>
    simp only [World.step]
    split
    · rename_i server hActive
      exact h.enter (Registry.own_activePath hFits hActive)
    · have hNoted : Sound { world with defaultReplica := world.defaultReplica.noteIfEmpty } :=
        h.change .default (Replica.keeps_noteIfEmpty _)
      exact hNoted.enter trivial
  | judging pairedWith =>
    simp only [World.step]
    split
    · exact h.enter trivial
    · exact h.enter hUnknown
  | binding server => exact (h.bind (h.owner_of_canBind hRight)).enter rfl
  | owning server => exact hOwner.enter ⟨nofun, fun other hSame => hFits.trans hSame⟩
  | ensuring | recording =>
    simp only [World.step]
    split
    · exact h.enter hUnknown
    · exact h.enter trivial
  | saving server adopting =>
    cases adopting with
    | false => exact (h.bind (h.owner_of_canBind hRight)).enter rfl
    | true => exact (h.bind hRight).enter rfl
  | recorded server adopting =>
    cases adopting with
    | false => exact hOwner.enter ⟨hUnknown, hFits⟩
    | true => exact hOwner.enter hUnknown
  | ready | sending => exact h

theorem Sound.after (h : Sound world) {move : Move Server P} (hCareful : Careful world move) :
    Sound (world.after move) := by
  cases move with
  | launch | adopt =>
    simp only [World.after]
    split
    · exact h.enter trivial
    · exact h
  | step p =>
    simp only [World.after]
    simp only [Careful] at hCareful
    split
    · rename_i phase hProcess
      rw [hProcess] at hCareful
      exact h.step hProcess hCareful
    · exact h
  | queue p id =>
    simp only [World.after]
    split
    · rename_i own path hProcess
      exact h.queue (h.phases p _ hProcess) id
    · rename_i own path server hProcess
      exact h.queue (h.phases p _ hProcess).1 id
    · exact h
  | ensureBound p server =>
    simp only [World.after]
    split
    · rename_i own path hProcess
      have hOwn : Own world.owner (some own) path := h.phases p _ hProcess
      split
      · rename_i hSame
        exact h.enter ⟨hOwn, hSame ▸ hOwn.2 own rfl⟩
      · exact h
    · exact h.enter trivial
    · exact h
  | push p n =>
    simp only [World.after]
    split
    · rename_i own path server hProcess
      exact h.push hProcess n
    · exact h
  | flushed p n => exact h.whileSending p fun replica => replica.keeps_markFlushed n
  | rejected p n => exact h.whileSending p fun replica => replica.keeps_markRejected n
  | requeue p => exact h.whileSending p Replica.keeps_requeueRejected
  | catchUp p serverSeq => exact h.whileSending p fun replica => replica.keeps_catchUp serverSeq
  | settle p =>
    simp only [World.after]
    split
    · rename_i own path server hProcess
      have hSending : (Phase.sending own path server).Fits world.owner := h.phases p _ hProcess
      exact h.enter hSending.1
    · exact h
  | stop p =>
    refine ⟨h.file, h.kept, fun other phase hProcess => ?_, h.treated, h.queued, h.sent⟩
    have hEntered : Function.update world.processes p none other = some phase := hProcess
    by_cases hSame : other = p
    · rw [hSame, Function.update_self] at hEntered
      cases hEntered
    · rw [Function.update_of_ne hSame] at hEntered
      exact h.phases other phase hEntered
  | pair server => exact ⟨h.file, h.kept, h.phases, h.treated, h.queued, h.sent⟩
  | lose => exact h.lose hCareful

theorem Sound.run (h : Sound world) {moves : List (Move Server P)}
    (hCareful : AllCareful world moves) : Sound (world.run moves) := by
  induction moves generalizing world with
  | nil => exact h
  | cons move later ih => exact ih (h.after hCareful.1) hCareful.2

/-- In every run whose moves are all careful, with any number of processes, the default
file is taken to be of one server at most, and what was queued for a server is sent to no other. -/
theorem replica_belongs_to_one {replica : Replica Server} (hUnbound : ∀ event ∈ replica.outbox, event.boundTo = none)
    {moves : List (Move Server P)} (hCareful : AllCareful (start replica) moves) :
    OneServer ((start replica).run moves) :=
  ((sound_start hUnbound).run hCareful).oneServer

end

/-- A process opens its replica to the end, alone. -/
def opens (p : Nat) : List (Move String Nat) := .launch p :: List.replicate 7 (.step p)

/-- A first open, an event, and a second server that gets a replica of its own. -/
def oneAfterTheOther : List (Move String Nat) :=
  .pair (some "a") :: opens 1 ++ ([.queue 1 7, .stop 1, .pair (some "b")] : List (Move String Nat)) ++ opens 2 ++
    ([.queue 2 8, .ensureBound 2 "b", .push 2 0] : List (Move String Nat))

theorem replica_belongs_to_one_after_the_other :
    AllCareful (start .fresh) oneAfterTheOther ∧ OneServer ((start .fresh).run oneAfterTheOther) :=
  ⟨by decide +kernel, replica_belongs_to_one (by exact nofun) (by decide +kernel)⟩

/-- Two opens load the registry before either of them has bound the default file. -/
def bothAtOnce : List (Move String Nat) :=
  .pair (some "a") :: ([.launch 1, .step 1, .pair (some "b"), .launch 2, .step 2] : List (Move String Nat)) ++
    ([.step 1, .step 2, .step 1, .step 2, .step 1, .step 2, .step 1, .step 2, .step 1, .step 1, .queue 1 7] : List (Move String Nat)) ++
    ([.step 2, .step 2, .ensureBound 2 "b", .push 2 0] : List (Move String Nat))

/-- The first open is stopped after it saved the registry. The next one finds the server
recorded and leaves the marker of the default file, which outlives the registry. -/
def markerLeft : List (Move String Nat) :=
  .pair (some "a") :: .launch 1 :: List.replicate 6 (.step 1) ++ ([.stop 1] : List (Move String Nat)) ++ opens 2 ++
    ([.queue 2 7, .stop 2, .lose] : List (Move String Nat)) ++ ([.pair (some "b")] : List (Move String Nat)) ++ opens 3 ++
    ([.ensureBound 3 "b", .push 3 0] : List (Move String Nat))

/-- Nothing was adopted, and yet the default file was of two servers, one of which got
what was queued for the other. -/
def HandedOver (moves : List (Move String Nat)) : Prop :=
  (∀ move ∈ moves, move.isAdopt = false) ∧ ¬OneServer ((start .fresh).run moves) ∧
    ∃ entry ∈ ((start .fresh).run moves).sent, entry.1.boundTo = some "a" ∧ entry.2 = "b"

theorem default_file_of_two_servers : HandedOver bothAtOnce ∧ HandedOver markerLeft := by
  refine ⟨⟨by decide +kernel, fun hOne => ?_, by decide +kernel⟩, ⟨by decide +kernel, fun hOne => ?_, by decide +kernel⟩⟩
  · have hSame : "a" = "b" := hOne.treated "a" (by decide +kernel) "b" (by decide +kernel)
    exact absurd hSame (by decide)
  · have hSame : "a" = "b" := hOne.treated "a" (by decide +kernel) "b" (by decide +kernel)
    exact absurd hSame (by decide)

end ReplicaOwner
end Daruma
