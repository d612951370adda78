import Cuber.Net.Pollers

/-!
# Waiting for events

`poll` of a poller asks the kernel which descriptors have events, and lists the
channels that these belong to.  `PollPoller` goes through its row of slots and
looks the channels up.  `EPollPoller` gets back the pointers to channels that it
handed to the kernel, for no more descriptors than its list has room for; a
list that was full is doubled.

The event loop goes through the list, and what the channels' callbacks do
meanwhile changes the poller.
-/

namespace Cuber.Pollers

open Cuber.Execution
open Cuber.Refinement
open Cuber.Runs

universe u

/-! ## The kernel -/

/-- What the kernel finds when it is asked.  Nothing is ready where the wait was
interrupted, or timed out. -/
structure Wait where
  /-- The events of a descriptor, as bits: those of interest, errors and hang-ups. -/
  ready : ℕ → Interest → ℕ
  /-- The order in which `epoll_wait` takes descriptors. -/
  order : List ℕ

section PollPoller

variable {ι : Type u}

/-- `channels_.find`. -/
def Poller.find (poller : Poller ι) (fd : ℤ) : Option ι :=
  if fd < 0 then none else poller.channels fd.toNat

/-- The `revents` of a slot after `poll`, which skips negative descriptors. -/
def Wait.revents (wait : Wait) (slot : PollFd) : ℕ :=
  if slot.fd < 0 then 0 else wait.ready slot.fd.toNat slot.events

namespace PollPoller

/-- The channels of slots and of their `revents`, of which `numEvents` are not `0`. -/
def fillActiveChannels (fd : ι → ℕ) (poller : PollPoller ι) :
    List (PollFd × ℕ) → ℕ → Exec PollerFault (List (ι × ℕ))
  | [], _ => .ret []
  | (slot, revents) :: slots, numEvents =>
      if numEvents = 0 then .ret []
      else if 0 < revents then
        match poller.find slot.fd with
        | none => .fault .assertionFailed
        | some i =>
            if (fd i : ℤ) = slot.fd then
              (fillActiveChannels fd poller slots (numEvents - 1)).bind fun activeChannels =>
                .ret ((i, revents) :: activeChannels)
            else .fault .assertionFailed
      else fillActiveChannels fd poller slots numEvents

def poll (fd : ι → ℕ) (poller : PollPoller ι) (wait : Wait) :
    Exec PollerFault (List (ι × ℕ)) :=
  let slots := poller.pollfds.map fun slot => (slot, wait.revents slot)
  let numEvents := slots.countP fun slot => decide (0 < slot.2)
  if 0 < numEvents then poller.fillActiveChannels fd slots numEvents else .ret []

end PollPoller

end PollPoller

section EPollPoller

variable {ι : Type u} [DecidableEq ι]

def kInitEventListSize : ℕ := 16

/-- An `EPollPoller` with the pointers that the kernel keeps for it, and with the size of its
list for events. -/
structure EPollList (ι : Type u) extends EPollPoller ι where
  /-- The `data.ptr` of the registered descriptors. -/
  pointers : ℕ → Option ι := fun _ => none
  eventListSize : ℕ := kInitEventListSize

namespace EPollList

/-- The pointers after a call of `epoll_ctl` for a channel. -/
def handOver (channel : ι) (pointers : ℕ → Option ι) (call : ControlCall) : ℕ → Option ι :=
  if call.accepted = true ∧ call.operation ≠ .delete then
    Function.update pointers call.fd (some channel)
  else pointers

def step (fd : ι → ℕ) (poller : EPollList ι) (event : Event ι) :
    Exec PollerFault (EPollList ι) :=
  (EPollPoller.step fd poller.toEPollPoller event).bind fun next =>
    .ret {
      toEPollPoller := next
      pointers := (next.calls.drop poller.calls.length).foldl (handOver event.channel)
        poller.pointers
      eventListSize := poller.eventListSize }

/-- The registered descriptors with events, each once. -/
def ready (poller : EPollList ι) (wait : Wait) : List (ℕ × ℕ) :=
  wait.order.dedup.filterMap fun descriptor =>
    (poller.registered descriptor).bind fun interest =>
      if 0 < wait.ready descriptor interest then
        some (descriptor, wait.ready descriptor interest)
      else none

def fillActiveChannels (fd : ι → ℕ) (poller : EPollList ι) :
    List (ℕ × ℕ) → Exec PollerFault (List (ι × ℕ))
  | [] => .ret []
  | (descriptor, revents) :: events =>
      match poller.pointers descriptor with
      | none => .fault .nullChannel
      | some i =>
          if poller.channels (fd i) = some i then
            (fillActiveChannels fd poller events).bind fun activeChannels =>
              .ret ((i, revents) :: activeChannels)
          else .fault .assertionFailed

def poll (fd : ι → ℕ) (poller : EPollList ι) (wait : Wait) :
    Exec PollerFault (EPollList ι × List (ι × ℕ)) :=
  let events := (poller.ready wait).take poller.eventListSize
  if 0 < events.length then
    (poller.fillActiveChannels fd events).bind fun activeChannels =>
      .ret (if events.length = poller.eventListSize then
          { poller with eventListSize := poller.eventListSize * 2 }
        else poller, activeChannels)
  else .ret (poller, [])

end EPollList

end EPollPoller

/-! ## Either poller -/

section DefaultPoller

variable {ι : Type u} [DecidableEq ι]

inductive AnyPoller (ι : Type u) where
  | poll (poller : PollPoller ι)
  | epoll (poller : EPollList ι)

/-- `Poller::newDefaultPoller`, which looks for a variable in the environment. -/
def newDefaultPoller (usePoll : Bool) : AnyPoller ι :=
  if usePoll then .poll {} else .epoll {}

namespace AnyPoller

def step (fd : ι → ℕ) (poller : AnyPoller ι) (event : Event ι) :
    Exec PollerFault (AnyPoller ι) :=
  match poller with
  | .poll poller => (PollPoller.step fd poller event).bind fun poller => .ret (.poll poller)
  | .epoll poller => (EPollList.step fd poller event).bind fun poller => .ret (.epoll poller)

def wait (fd : ι → ℕ) (poller : AnyPoller ι) (wait : Wait) :
    Exec PollerFault (AnyPoller ι × List (ι × ℕ)) :=
  match poller with
  | .poll poller =>
      (poller.poll fd wait).bind fun activeChannels => .ret (.poll poller, activeChannels)
  | .epoll poller =>
      (poller.poll fd wait).bind fun (poller, activeChannels) =>
        .ret (.epoll poller, activeChannels)

end AnyPoller

end DefaultPoller

/-! ## The event loop -/

section EventLoop

variable {ι : Type u} [DecidableEq ι]

structure EventLoop (ι : Type u) where
  poller : AnyPoller ι
  activeChannels : List (ι × ℕ) := []
  /-- The active channels that were not handled yet. -/
  remaining : List (ι × ℕ) := []
  currentActiveChannel : Option ι := none
  eventHandling : Bool := false

inductive Activity (ι : Type u) where
  | poll (wait : Wait)
  /-- The loop over the active channels goes on, or ends. -/
  | handle
  /-- A callback or a functor calls a channel. -/
  | operate (event : Event ι)

namespace EventLoop

def MayRemove (loop : EventLoop ι) (i : ι) : Prop :=
  loop.eventHandling = true →
    loop.currentActiveChannel = some i ∨ i ∉ loop.activeChannels.map Prod.fst

instance (loop : EventLoop ι) (i : ι) : Decidable (loop.MayRemove i) :=
  inferInstanceAs (Decidable (_ → _))

def step (fd : ι → ℕ) (loop : EventLoop ι) (activity : Activity ι) :
    Exec PollerFault (EventLoop ι) :=
  match activity with
  | .poll wait =>
      (loop.poller.wait fd wait).bind fun (poller, activeChannels) =>
        .ret { loop with
          poller, activeChannels
          remaining := activeChannels
          eventHandling := true }
  | .handle =>
      match loop.remaining with
      | [] => .ret { loop with currentActiveChannel := none, eventHandling := false }
      | (i, _) :: remaining => .ret { loop with currentActiveChannel := some i, remaining }
  | .operate event =>
      if event.operation = .remove ∧ ¬ loop.MayRemove event.channel then .fault .assertionFailed
      else (loop.poller.step fd event).bind fun poller => .ret { loop with poller }

end EventLoop

end EventLoop

/-! ## What is listed -/

section Listing

variable {ι : Type u} {fd : ι → ℕ} {usage : ι → Usage} {wait : Wait}

/-- A channel in use with this interest has events. -/
def Reports (fd : ι → ℕ) (usage : ι → Usage) (wait : Wait) (interest : Interest)
    (channel : ι × ℕ) : Prop :=
  usage channel.1 = .used interest ∧ wait.ready (fd channel.1) interest = channel.2 ∧
    0 < channel.2

/-- Only channels in use are listed, each once, with the events that the kernel found. -/
structure Lists (fd : ι → ℕ) (usage : ι → Usage) (wait : Wait)
    (activeChannels : List (ι × ℕ)) : Prop where
  distinct : (activeChannels.map Prod.fst).Nodup
  reports : ∀ channel ∈ activeChannels, ∃ interest, Reports fd usage wait interest channel

end Listing

namespace PollPoller

variable {ι : Type u} {fd : ι → ℕ} {poller : PollPoller ι} {usage : ι → Usage} {wait : Wait}

/-- The entry that a slot makes in the list. -/
def entry (poller : PollPoller ι) (slot : PollFd × ℕ) : Option (ι × ℕ) :=
  if 0 < slot.2 then (poller.find slot.1.fd).map fun i => (i, slot.2) else none

/-- The loop over the slots may stop when all events were seen. -/
theorem fillActiveChannels_eq {slots : List (PollFd × ℕ)} {numEvents : ℕ}
    (hfound : ∀ slot ∈ slots, 0 < slot.2 →
      ∃ i, poller.find slot.1.fd = some i ∧ (fd i : ℤ) = slot.1.fd)
    (hevents : (slots.countP fun slot => decide (0 < slot.2)) ≤ numEvents) :
    poller.fillActiveChannels fd slots numEvents = .ret (slots.filterMap poller.entry) := by
  induction slots generalizing numEvents with
  | nil => rfl
  | cons slot slots ih =>
      have hlater := fun slot hslot => hfound slot (List.mem_cons_of_mem _ hslot)
      rw [List.countP_cons] at hevents
      by_cases hready : 0 < slot.2
      · obtain ⟨i, hfind, hfd⟩ := hfound slot List.mem_cons_self hready
        simp only [hready, decide_true, if_true] at hevents
        have hentry : poller.entry slot = some (i, slot.2) := by
          rw [entry, if_pos hready, hfind, Option.map_some]
        rw [fillActiveChannels, if_neg (by omega), if_pos hready, hfind]
        simp only [hfd, if_true]
        rw [ih hlater (by omega), Exec.ret_bind, List.filterMap_cons_some hentry]
      · simp only [hready, decide_false, Bool.false_eq_true, if_false, add_zero] at hevents
        have hentry : poller.entry slot = none := if_neg hready
        rw [fillActiveChannels, if_neg hready, List.filterMap_cons_none hentry]
        by_cases hnone : numEvents = 0
        · have hrest : poller.fillActiveChannels fd slots 0 =
              .ret (slots.filterMap poller.entry) := ih hlater (by omega)
          rw [if_pos hnone, ← hrest]
          cases slots with
          | nil => rfl
          | cons slot slots => rw [fillActiveChannels, if_pos rfl]
        · rw [if_neg hnone, ih hlater hevents]

/-- Slots have different numbers, also those that are ignored. -/
theorem Invariant.fd_pairwise (hinvariant : Invariant fd poller usage) :
    poller.pollfds.Pairwise fun slot slot' => slot.fd ≠ slot'.fd := by
  rw [List.pairwise_iff_getElem]
  intro k k' hk hk' hlt hsame
  obtain ⟨i, interest, hused, hindex⟩ :=
    hinvariant.filled k _ (List.getElem?_eq_getElem hk)
  obtain ⟨i', interest', hused', hindex'⟩ :=
    hinvariant.filled k' _ (List.getElem?_eq_getElem hk')
  obtain ⟨place, hplace, hslot⟩ := hinvariant.slots i interest hused
  obtain ⟨place', hplace', hslot'⟩ := hinvariant.slots i' interest' hused'
  have heq : place = k := Int.ofNat.inj (hplace.symm.trans hindex)
  have heq' : place' = k' := Int.ofNat.inj (hplace'.symm.trans hindex')
  rw [heq, List.getElem?_eq_getElem hk, Option.some.injEq] at hslot
  rw [heq', List.getElem?_eq_getElem hk', Option.some.injEq] at hslot'
  have hfd : fd i = fd i' := by
    rw [← descriptor_slotOf (fd i) interest, ← descriptor_slotOf (fd i') interest', ← hslot,
      ← hslot', hsame]
  have hchannel := hinvariant.maps.distinct_of_used hused' i interest hused hfd
  rw [hchannel, hindex'] at hindex
  exact absurd (Int.ofNat.inj hindex) (by omega)

theorem Invariant.find_eq (hinvariant : Invariant fd poller usage) {number : ℤ} {i : ι}
    (hfind : poller.find number = some i) : (fd i : ℤ) = number := by
  rw [Poller.find] at hfind
  by_cases hnegative : number < 0
  · rw [if_pos hnegative] at hfind
    cases hfind
  · rw [if_neg hnegative] at hfind
    rw [(hinvariant.maps.mapped _ i hfind).1]
    omega

theorem Invariant.find_fd (hinvariant : Invariant fd poller usage) {i : ι}
    {interest : Interest} (hused : usage i = .used interest) :
    poller.find (fd i : ℤ) = some i := by
  rw [Poller.find, if_neg (by omega), Int.toNat_natCast]
  exact (hinvariant.maps.used i interest hused).2

/-- A slot with events belongs to a channel that has events enabled. -/
theorem Invariant.reports_of_slot (hinvariant : Invariant fd poller usage) {slot : PollFd}
    (hslot : slot ∈ poller.pollfds) (hready : 0 < wait.revents slot) :
    ∃ i interest, poller.find slot.fd = some i ∧ interest ≠ kNoneEvent ∧
      Reports fd usage wait interest (i, wait.revents slot) := by
  obtain ⟨k, hk⟩ := List.mem_iff_getElem?.mp hslot
  obtain ⟨i, interest, hused, hindex⟩ := hinvariant.filled k slot hk
  obtain ⟨place, hplace, hplaced⟩ := hinvariant.slots i interest hused
  have heq : place = k := Int.ofNat.inj (hplace.symm.trans hindex)
  rw [heq, hk, Option.some.injEq] at hplaced
  by_cases hnone : interest = kNoneEvent
  · have hnegative : ignored (fd i) < 0 := by
      rw [ignored]
      omega
    rw [hplaced, slotOf, if_pos hnone, Wait.revents, if_pos hnegative] at hready
    exact absurd hready (lt_irrefl 0)
  · have hrevents : wait.revents slot = wait.ready (fd i) interest := by
      rw [hplaced, slotOf, if_neg hnone, Wait.revents, if_neg (by simp), Int.toNat_natCast]
    refine ⟨i, interest, ?_, hnone, hused, hrevents.symm, hready⟩
    rw [hplaced, slotOf, if_neg hnone]
    exact hinvariant.find_fd hused

/-- `PollPoller` lists the channels that have events enabled and are ready. -/
theorem Invariant.poll_spec (hinvariant : Invariant fd poller usage) (wait : Wait) :
    ∃ activeChannels, poller.poll fd wait = .ret activeChannels ∧
      Lists fd usage wait activeChannels ∧
      ∀ channel, channel ∈ activeChannels ↔
        ∃ interest, interest ≠ kNoneEvent ∧ Reports fd usage wait interest channel := by
  let slots := poller.pollfds.map fun slot => (slot, wait.revents slot)
  have hpoll : poller.poll fd wait = .ret (slots.filterMap poller.entry) := by
    have hfill : poller.fillActiveChannels fd slots
        (slots.countP fun slot => decide (0 < slot.2)) = .ret (slots.filterMap poller.entry) := by
      apply fillActiveChannels_eq
      · intro slot hslot hready
        obtain ⟨slot, hmem, rfl⟩ := List.mem_map.mp hslot
        obtain ⟨i, interest, hfind, -, -⟩ := hinvariant.reports_of_slot hmem hready
        exact ⟨i, hfind, hinvariant.find_eq hfind⟩
      · exact le_refl _
    by_cases hevents : 0 < slots.countP fun slot => decide (0 < slot.2)
    · rw [poll, if_pos hevents, hfill]
    · rw [poll, if_neg hevents, ← hfill, Nat.eq_zero_of_not_pos hevents]
      cases slots with
      | nil => rfl
      | cons slot slots => rw [fillActiveChannels, if_pos rfl]
  have hmem : ∀ channel, channel ∈ slots.filterMap poller.entry ↔
      ∃ interest, interest ≠ kNoneEvent ∧ Reports fd usage wait interest channel := by
    intro channel
    rw [List.mem_filterMap]
    constructor
    · intro hentry
      obtain ⟨slot, hslot, hentry⟩ := hentry
      obtain ⟨slot, hmem, rfl⟩ := List.mem_map.mp hslot
      by_cases hready : 0 < wait.revents slot
      · obtain ⟨i, interest, hfind, hinterest, hreports⟩ :=
          hinvariant.reports_of_slot hmem hready
        rw [entry, if_pos hready, hfind, Option.map_some, Option.some.injEq] at hentry
        exact ⟨interest, hinterest, hentry ▸ hreports⟩
      · rw [entry, if_neg hready] at hentry
        cases hentry
    · intro hreports
      obtain ⟨interest, hinterest, hused, hrevents, hready⟩ := hreports
      obtain ⟨k, -, hslot⟩ := hinvariant.slots _ interest hused
      rw [slotOf, if_neg hinterest] at hslot
      refine ⟨_, List.mem_map.mpr ⟨_, List.mem_of_getElem? hslot, rfl⟩, ?_⟩
      have hslotEvents : wait.revents ⟨fd channel.1, interest⟩ = channel.2 := by
        rw [Wait.revents, if_neg (by simp), Int.toNat_natCast, hrevents]
      rw [entry, hslotEvents, if_pos hready, hinvariant.find_fd hused, Option.map_some]
  refine ⟨slots.filterMap poller.entry, hpoll, ⟨?_, ?_⟩, hmem⟩
  · rw [List.Nodup, List.pairwise_map, List.pairwise_filterMap, List.pairwise_map]
    apply hinvariant.fd_pairwise.imp
    intro slot slot' hfd channel hchannel channel' hchannel' hsame
    obtain ⟨-, i, hfind, rfl⟩ := by simpa [entry] using hchannel
    obtain ⟨-, i', hfind', rfl⟩ := by simpa [entry] using hchannel'
    have heq : i = i' := hsame
    rw [← hinvariant.find_eq hfind, ← hinvariant.find_eq hfind', heq] at hfd
    exact hfd rfl
  · intro channel hchannel
    obtain ⟨interest, -, hreports⟩ := (hmem channel).mp hchannel
    exact ⟨interest, hreports⟩

end PollPoller

namespace EPollList

variable {ι : Type u} {fd : ι → ℕ} {poller : EPollList ι}
  {usage : ι → Usage} {wait : Wait}

/-- The kernel has the pointer of the channel that is known for a registered descriptor. -/
structure Invariant (fd : ι → ℕ) (poller : EPollList ι) (usage : ι → Usage) : Prop where
  epoll : EPollPoller.Invariant fd poller.toEPollPoller usage
  pointers : ∀ descriptor, poller.registered descriptor ≠ none →
    poller.pointers descriptor = poller.channels descriptor
  room : 0 < poller.eventListSize

theorem Invariant.start (fd : ι → ℕ) : Invariant fd {} fun _ => .unused where
  epoll := EPollPoller.Invariant.start fd
  pointers _ hregistered := absurd rfl hregistered
  room := Nat.zero_lt_succ _

theorem foldl_handOver_of_deletes {calls : List ControlCall} (i : ι)
    (hdeletes : ∀ call ∈ calls, call.operation = .delete) (pointers : ℕ → Option ι) :
    calls.foldl (handOver i) pointers = pointers := by
  induction calls generalizing pointers with
  | nil => rfl
  | cons call calls ih =>
      have hcall : handOver i pointers call = pointers := by
        rw [handOver, if_neg]
        intro haccepted
        exact haccepted.2 (hdeletes call List.mem_cons_self)
      rw [List.foldl_cons, hcall, ih fun call hcall => hdeletes call (List.mem_cons_of_mem _ hcall)]

section Steps

variable [DecidableEq ι]

/-- A removal only deletes. -/
theorem calls_of_removeChannel {before after : EPollPoller ι} {i : ι}
    (hremove : before.removeChannel fd i = .ret after) :
    ∀ call ∈ after.calls.drop before.calls.length, call.operation = .delete := by
  rw [EPollPoller.removeChannel] at hremove
  split_ifs at hremove with hknown hadded
  · obtain ⟨middle, hupdate, hret⟩ := Exec.bind_eq_ret_iff.mp hremove
    cases hret
    simp only [EPollPoller.update, EPollPoller.epollCtl] at hupdate
    split_ifs at hupdate
    all_goals
      cases hupdate
      simp [EPollPoller.setIndex, EPollPoller.controlled]
  · cases hremove
    simp [EPollPoller.setIndex]

/-- The pointers after an update that the kernel accepted. -/
theorem Invariant.pointers_updated (hinvariant : Invariant fd poller usage) {i : ι}
    {interest : Interest} {index : ℤ} {operation : ControlOperation} {descriptor : ℕ}
    (hregistered : (poller.updated fd i interest index operation).registered descriptor ≠ none) :
    ((poller.updated fd i interest index operation).calls.drop poller.calls.length).foldl
        (handOver i) poller.pointers descriptor =
      (poller.updated fd i interest index operation).channels descriptor := by
  have hcalls : (poller.updated fd i interest index operation).calls.drop poller.calls.length =
      [⟨operation, fd i, true⟩] := List.drop_left ..
  rw [hcalls, List.foldl_cons, List.foldl_nil]
  simp only [EPollPoller.updated, EPollPoller.controlled, Poller.updated] at hregistered ⊢
  by_cases hfd : descriptor = fd i
  · rw [hfd, Function.update_self] at hregistered ⊢
    cases operation with
    | delete => exact absurd rfl hregistered
    | add => simp [handOver]
    | modify => simp [handOver]
  · rw [Function.update_of_ne hfd] at hregistered ⊢
    rw [← hinvariant.pointers descriptor hregistered, handOver]
    split_ifs with haccepted
    · exact Function.update_of_ne hfd ..
    · rfl

/-- After a removal the pointers of the kernel are those of the map. -/
theorem Invariant.pointers_removed (hinvariant : Invariant fd poller usage) {i : ι}
    {calls : List ControlCall} (hdeletes : ∀ call ∈ calls, call.operation = .delete)
    {descriptor : ℕ} (hregistered : (poller.removed fd i calls).registered descriptor ≠ none) :
    ((poller.removed fd i calls).calls.drop poller.calls.length).foldl (handOver i)
        poller.pointers descriptor = (poller.removed fd i calls).channels descriptor := by
  have hcalls : (poller.removed fd i calls).calls.drop poller.calls.length = calls :=
    List.drop_left ..
  rw [hcalls, foldl_handOver_of_deletes i hdeletes]
  simp only [EPollPoller.removed] at hregistered ⊢
  by_cases hfd : descriptor = fd i
  · rw [hfd, Function.update_self] at hregistered
    exact absurd rfl hregistered
  · rw [Function.update_of_ne hfd] at hregistered ⊢
    exact hinvariant.pointers descriptor hregistered

/-- What holds after an operation of a channel: the kernel got the pointers that it needs. -/
structure HandsOver (fd : ι → ℕ) (poller : EPollList ι) (i : ι) (after : EPollPoller ι)
    (usage : ι → Usage) : Prop where
  epoll : EPollPoller.Invariant fd after usage
  pointers : ∀ descriptor, after.registered descriptor ≠ none →
    (after.calls.drop poller.calls.length).foldl (handOver i) poller.pointers descriptor =
      after.channels descriptor

/-- An operation hands the pointer of its own channel over. -/
theorem Invariant.handsOver (hinvariant : Invariant fd poller usage) {event : Event ι}
    (hallowed : Allowed fd usage event) :
    ∃ after, EPollPoller.step fd poller.toEPollPoller event = .ret after ∧
      HandsOver fd poller event.channel after (next usage event) := by
  have hepoll := hinvariant.epoll
  apply hepoll.maps.run_of_allowed hallowed
  · intro events hunused hdistinct _
    have hunmapped := hepoll.maps.unmapped_of_unused hdistinct hunused
    have hindex := (hepoll.maps.unused _ hunused).2
    exact ⟨_, EPollPoller.updateChannel_unused hindex hunmapped (hepoll.listed _ hunmapped),
      hepoll.updated hdistinct (.inl ⟨rfl, rfl⟩), fun descriptor => hinvariant.pointers_updated⟩
  · intro before events hused
    obtain ⟨index, operation, htracks, hret⟩ :=
      EPollPoller.updateChannel_used hepoll hused events
    exact ⟨_, hret, hepoll.updated (hepoll.maps.distinct_of_used hused) htracks,
      fun descriptor => hinvariant.pointers_updated⟩
  · intro hused
    obtain ⟨calls, hcalls, hret⟩ := EPollPoller.removeChannel_used hepoll hused
    have hdeletes : ∀ call ∈ calls, call.operation = .delete := by
      have hdropped : (poller.removed fd event.channel calls).calls.drop poller.calls.length =
          calls := List.drop_left ..
      have hdeletes := calls_of_removeChannel hret
      rw [hdropped] at hdeletes
      exact hdeletes
    exact ⟨_, hret, hepoll.removed hused hcalls,
      fun descriptor => hinvariant.pointers_removed hdeletes⟩

/-- An operation that is allowed succeeds and keeps the invariant. -/
theorem Invariant.step (hinvariant : Invariant fd poller usage) {event : Event ι}
    (hallowed : Allowed fd usage event) :
    ∃ poller', poller.step fd event = .ret poller' ∧
      Invariant fd poller' (next usage event) ∧ poller'.eventListSize = poller.eventListSize := by
  obtain ⟨after, hstep, hafter⟩ := hinvariant.handsOver hallowed
  refine ⟨{
    toEPollPoller := after
    pointers := (after.calls.drop poller.calls.length).foldl (handOver event.channel)
      poller.pointers
    eventListSize := poller.eventListSize }, ?_,
    ⟨hafter.epoll, hafter.pointers, hinvariant.room⟩, rfl⟩
  rw [EPollList.step, hstep, Exec.ret_bind]

end Steps

/-- A registered descriptor belongs to a channel in use with this interest. -/
theorem Invariant.used_of_registered (hinvariant : Invariant fd poller usage) {descriptor : ℕ}
    {interest : Interest} (hregistered : poller.registered descriptor = some interest) :
    ∃ i, fd i = descriptor ∧ usage i = .used interest ∧ poller.pointers descriptor = some i := by
  have hsome : poller.registered descriptor ≠ none := by simp [hregistered]
  cases hchannel : poller.channels descriptor with
  | none => exact absurd (hinvariant.epoll.listed descriptor hchannel) hsome
  | some i =>
      obtain ⟨hfd, before, hused⟩ := hinvariant.epoll.maps.mapped descriptor i hchannel
      refine ⟨i, hfd, ?_, by rw [hinvariant.pointers descriptor hsome, hchannel]⟩
      rcases hinvariant.epoll.tracks i before hused with ⟨-, htracked⟩ | ⟨-, htracked, -⟩
      · rw [hfd, hregistered, Option.some.injEq] at htracked
        rw [hused, htracked]
      · rw [hfd, hregistered] at htracked
        cases htracked

theorem mem_ready {event : ℕ × ℕ} :
    event ∈ poller.ready wait ↔
      event.1 ∈ wait.order ∧ ∃ interest, poller.registered event.1 = some interest ∧
        wait.ready event.1 interest = event.2 ∧ 0 < event.2 := by
  rw [ready, List.mem_filterMap]
  constructor
  · rintro ⟨descriptor, hdescriptor, hevent⟩
    obtain ⟨interest, hregistered, hready⟩ := Option.bind_eq_some_iff.mp hevent
    split_ifs at hready with hpositive
    cases hready
    exact ⟨List.mem_dedup.mp hdescriptor, interest, hregistered, rfl, hpositive⟩
  · rintro ⟨hdescriptor, interest, hregistered, hready, hpositive⟩
    refine ⟨event.1, List.mem_dedup.mpr hdescriptor, ?_⟩
    rw [hregistered, Option.bind_some, hready, if_pos hpositive]

theorem ready_pairwise (poller : EPollList ι) (wait : Wait) :
    (poller.ready wait).Pairwise fun event event' => event.1 ≠ event'.1 := by
  rw [ready, List.pairwise_filterMap]
  apply wait.order.nodup_dedup.imp
  intro descriptor descriptor' hne event hevent event' hevent' hsame
  obtain ⟨interest, -, hready⟩ := Option.bind_eq_some_iff.mp hevent
  obtain ⟨interest', -, hready'⟩ := Option.bind_eq_some_iff.mp hevent'
  split_ifs at hready hready'
  cases hready
  cases hready'
  exact hne hsame

/-- The entry that an event makes in the list. -/
def entry (poller : EPollList ι) (event : ℕ × ℕ) : Option (ι × ℕ) :=
  (poller.pointers event.1).map fun i => (i, event.2)

/-- Where every event has its channel, the events are listed as they come. -/
theorem fillActiveChannels_eq [DecidableEq ι] {events : List (ℕ × ℕ)}
    (hfound : ∀ event ∈ events, ∃ i, poller.pointers event.1 = some i ∧
      poller.channels (fd i) = some i) :
    poller.fillActiveChannels fd events = .ret (events.filterMap poller.entry) := by
  induction events with
  | nil => rfl
  | cons event events ih =>
      obtain ⟨i, hpointer, hchannel⟩ := hfound event List.mem_cons_self
      have hentry : poller.entry event = some (i, event.2) := by
        rw [entry, hpointer, Option.map_some]
      rw [fillActiveChannels, hpointer]
      simp only [hchannel, if_true]
      rw [ih fun event hevent => hfound event (List.mem_cons_of_mem _ hevent), Exec.ret_bind,
        List.filterMap_cons_some hentry]

/-- An event comes from a channel in use, and makes its entry. -/
theorem Invariant.reports_of_ready (hinvariant : Invariant fd poller usage) {event : ℕ × ℕ}
    (hevent : event ∈ poller.ready wait) :
    ∃ i interest, fd i = event.1 ∧ poller.entry event = some (i, event.2) ∧
      poller.registered (fd i) = some interest ∧ Reports fd usage wait interest (i, event.2) := by
  obtain ⟨-, interest, hregistered, hready, hpositive⟩ := mem_ready.mp hevent
  obtain ⟨i, hfd, hused, hpointer⟩ := hinvariant.used_of_registered hregistered
  refine ⟨i, interest, hfd, ?_, hfd ▸ hregistered, hused, ?_, hpositive⟩
  · rw [entry, hpointer, Option.map_some]
  · rw [hfd, hready]

/-- A channel that is listed is registered with its interest. -/
theorem Invariant.registered_of_mem (hinvariant : Invariant fd poller usage) {room : ℕ}
    {channel : ι × ℕ}
    (hchannel : channel ∈ ((poller.ready wait).take room).filterMap poller.entry) :
    ∃ interest, poller.registered (fd channel.1) = some interest ∧
      Reports fd usage wait interest channel := by
  obtain ⟨event, hevent, hentry⟩ := List.mem_filterMap.mp hchannel
  obtain ⟨i, interest, -, hfound, hregistered, hreports⟩ :=
    hinvariant.reports_of_ready (List.mem_of_mem_take hevent)
  rw [hfound, Option.some.injEq] at hentry
  subst hentry
  exact ⟨interest, hregistered, hreports⟩

/-- Every channel that `PollPoller` would list has an event for `EPollPoller`. -/
theorem Invariant.ready_of_reports (hinvariant : Invariant fd poller usage) {channel : ι × ℕ}
    {interest : Interest} (hinterest : interest ≠ kNoneEvent)
    (hreports : Reports fd usage wait interest channel)
    (horder : fd channel.1 ∈ wait.order) : (fd channel.1, channel.2) ∈ poller.ready wait := by
  obtain ⟨hused, hready, hpositive⟩ := hreports
  refine mem_ready.mpr ⟨horder, interest, ?_, hready, hpositive⟩
  rcases hinvariant.epoll.tracks _ interest hused with ⟨-, htracked⟩ | ⟨-, -, hnone⟩
  · exact htracked
  · exact absurd hnone hinterest

/-- The size of the list after a wait. -/
def sizeAfter (poller : EPollList ι) (wait : Wait) : ℕ :=
  if poller.eventListSize ≤ (poller.ready wait).length then poller.eventListSize * 2
  else poller.eventListSize

theorem le_sizeAfter (poller : EPollList ι) (wait : Wait) :
    poller.eventListSize ≤ poller.sizeAfter wait := by
  rw [sizeAfter]
  split_ifs
  · exact Nat.le_mul_of_pos_right _ two_pos
  · exact le_refl _

/-- `EPollPoller` lists the channels of the first events that are ready. -/
theorem Invariant.poll_eq [DecidableEq ι] (hinvariant : Invariant fd poller usage) (wait : Wait) :
    poller.poll fd wait = .ret ({ poller with eventListSize := poller.sizeAfter wait },
      ((poller.ready wait).take poller.eventListSize).filterMap poller.entry) := by
  have hroom := hinvariant.room
  have hfill : poller.fillActiveChannels fd ((poller.ready wait).take poller.eventListSize) =
      .ret (((poller.ready wait).take poller.eventListSize).filterMap poller.entry) := by
    apply fillActiveChannels_eq
    intro event hevent
    obtain ⟨-, interest, hregistered, -, -⟩ := mem_ready.mp (List.mem_of_mem_take hevent)
    obtain ⟨i, hfd, hused, hpointer⟩ := hinvariant.used_of_registered hregistered
    exact ⟨i, hpointer, (hinvariant.epoll.maps.used i interest hused).2⟩
  rw [poll, hfill, List.length_take, sizeAfter]
  by_cases hready : 0 < (poller.ready wait).length
  · rw [if_pos (by omega), Exec.ret_bind]
    by_cases hfull : poller.eventListSize ≤ (poller.ready wait).length
    · rw [if_pos (by omega), if_pos hfull]
    · rw [if_neg (by omega), if_neg hfull]
  · have hnil : poller.ready wait = [] := List.eq_nil_of_length_eq_zero (by omega)
    rw [if_neg (by omega), if_neg (by omega), hnil, List.take_nil, List.filterMap_nil]

/-- Every event makes an entry. -/
theorem Invariant.length_entries (hinvariant : Invariant fd poller usage) (wait : Wait)
    (room : ℕ) :
    (((poller.ready wait).take room).filterMap poller.entry).length =
      min room (poller.ready wait).length := by
  have hentries : ∀ event ∈ (poller.ready wait).take room,
      (poller.entry event).isSome = true := by
    intro event hevent
    obtain ⟨i, -, -, hentry, -⟩ := hinvariant.reports_of_ready (List.mem_of_mem_take hevent)
    rw [hentry, Option.isSome_some]
  rw [List.length_filterMap_eq_countP, List.countP_eq_length.mpr hentries, List.length_take]

/-- The first events come from different channels in use. -/
theorem Invariant.lists (hinvariant : Invariant fd poller usage) (wait : Wait) (room : ℕ) :
    Lists fd usage wait (((poller.ready wait).take room).filterMap poller.entry) := by
  constructor
  · rw [List.Nodup, List.pairwise_map, List.pairwise_filterMap]
    apply ((poller.ready_pairwise wait).sublist (List.take_sublist ..)).imp_of_mem
    intro event event' hevent hevent' hne channel hchannel channel' hchannel' hsame
    obtain ⟨i, -, hfd, hentry, -⟩ := hinvariant.reports_of_ready (List.mem_of_mem_take hevent)
    obtain ⟨i', -, hfd', hentry', -⟩ :=
      hinvariant.reports_of_ready (List.mem_of_mem_take hevent')
    rw [hentry, Option.some.injEq] at hchannel
    rw [hentry', Option.some.injEq] at hchannel'
    rw [← hchannel, ← hchannel'] at hsame
    have heq : i = i' := hsame
    exact hne (by rw [← hfd, ← hfd', heq])
  · intro channel hchannel
    obtain ⟨interest, -, hreports⟩ := hinvariant.registered_of_mem hchannel
    exact ⟨interest, hreports⟩

end EPollList

/-! ## Both pollers list the same channels -/

section Agreement

variable {ι : Type u} [DecidableEq ι] {fd : ι → ℕ} {usage : ι → Usage}

def Activity.next (usage : ι → Usage) : Activity ι → ι → Usage
  | .operate event => Pollers.next usage event
  | .poll _ | .handle => usage

def Activity.Allowed (fd : ι → ℕ) (usage : ι → Usage) : Activity ι → Prop
  | .operate event => Pollers.Allowed fd usage event
  | .poll _ | .handle => True

instance [Fintype ι] (fd : ι → ℕ) (usage : ι → Usage) :
    (activity : Activity ι) → Decidable (activity.Allowed fd usage)
  | .operate event => inferInstanceAs (Decidable (Pollers.Allowed fd usage event))
  | .poll _ | .handle => .isTrue trivial

/-- The usage of the channels after a run from the start. -/
def usageAfter (activities : List (Activity ι)) : ι → Usage :=
  activities.foldl Activity.next fun _ => .unused

def AllAllowed (fd : ι → ℕ) (activities : List (Activity ι)) : Prop :=
  Meets (fun usage activity => (.ret (Activity.next usage activity) : Exec PollerFault _))
    (Activity.Allowed fd) (fun _ => .unused) activities

def PollPoller.perform (fd : ι → ℕ) (poller : PollPoller ι) :
    Activity ι → Exec PollerFault (PollPoller ι)
  | .poll wait => (poller.poll fd wait).bind fun _ => .ret poller
  | .handle => .ret poller
  | .operate event => poller.step fd event

def EPollList.perform (fd : ι → ℕ) (poller : EPollList ι) :
    Activity ι → Exec PollerFault (EPollList ι)
  | .poll wait => (poller.poll fd wait).bind fun (poller, _) => .ret poller
  | .handle => .ret poller
  | .operate event => poller.step fd event

theorem PollPoller.Invariant.perform {poller : PollPoller ι}
    (hinvariant : PollPoller.Invariant fd poller usage) {activity : Activity ι}
    (hallowed : activity.Allowed fd usage) :
    ∃ poller', poller.perform fd activity = .ret poller' ∧
      PollPoller.Invariant fd poller' (activity.next usage) := by
  cases activity with
  | poll wait =>
      obtain ⟨activeChannels, hpoll, -, -⟩ := hinvariant.poll_spec wait
      refine ⟨poller, ?_, hinvariant⟩
      rw [PollPoller.perform, hpoll, Exec.ret_bind]
  | handle => exact ⟨poller, rfl, hinvariant⟩
  | operate event => exact PollPoller.step_invariant hinvariant hallowed

omit [DecidableEq ι] in
theorem EPollList.Invariant.resized {poller : EPollList ι}
    (hinvariant : EPollList.Invariant fd poller usage) (wait : Wait) :
    EPollList.Invariant fd { poller with eventListSize := poller.sizeAfter wait } usage where
  epoll := hinvariant.epoll
  pointers := hinvariant.pointers
  room := lt_of_lt_of_le hinvariant.room (poller.le_sizeAfter wait)

theorem EPollList.Invariant.perform {poller : EPollList ι}
    (hinvariant : EPollList.Invariant fd poller usage) {activity : Activity ι}
    (hallowed : activity.Allowed fd usage) :
    ∃ poller', poller.perform fd activity = .ret poller' ∧
      EPollList.Invariant fd poller' (activity.next usage) := by
  cases activity with
  | poll wait =>
      refine ⟨_, ?_, hinvariant.resized wait⟩
      rw [EPollList.perform, hinvariant.poll_eq, Exec.ret_bind]
  | handle => exact ⟨poller, rfl, hinvariant⟩
  | operate event =>
      obtain ⟨poller', hstep, hinvariant', -⟩ := hinvariant.step hallowed
      exact ⟨poller', hstep, hinvariant'⟩

/-- After the same run, `PollPoller` lists the channels that have events enabled and are
ready.  So does `EPollPoller` where its list is not filled; it may list others only that are
registered without events, as after they were disabled twice, and have errors or hang-ups. -/
theorem lists_of_run (fd : ι → ℕ) (activities : List (Activity ι))
    (hallowed : AllAllowed fd activities) (wait : Wait) :
    ∃ (poll : PollPoller ι) (epoll epoll' : EPollList ι) (listed activeChannels : List (ι × ℕ)),
      runFrom (PollPoller.perform fd) {} activities = .ret poll ∧
      runFrom (EPollList.perform fd) {} activities = .ret epoll ∧
      poll.poll fd wait = .ret listed ∧ epoll.poll fd wait = .ret (epoll', activeChannels) ∧
      Lists fd (usageAfter activities) wait listed ∧
      Lists fd (usageAfter activities) wait activeChannels ∧
      (∀ channel, channel ∈ listed ↔ ∃ interest, interest ≠ kNoneEvent ∧
        Reports fd (usageAfter activities) wait interest channel) ∧
      (∀ channel ∈ activeChannels, channel ∈ listed ∨
        epoll.registered (fd channel.1) = some kNoneEvent ∧
          Reports fd (usageAfter activities) wait kNoneEvent channel) ∧
      ((∀ i, (usageAfter activities i).isUsed = true → fd i ∈ wait.order) →
        activeChannels.length < epoll.eventListSize →
        ∀ channel ∈ listed, channel ∈ activeChannels) := by
  have hpolls := refines_of_next_meets (fun _ _ => id)
    (fun poller usage activity hinvariant hactivity => hinvariant.perform hactivity)
    (PollPoller.Invariant.start fd) hallowed
  have hepolls := refines_of_next_meets (fun _ _ => id)
    (fun poller usage activity hinvariant hactivity => hinvariant.perform hactivity)
    (EPollList.Invariant.start fd) hallowed
  obtain ⟨poll, hrun, hinvariant⟩ := hpolls activities List.prefix_rfl
  obtain ⟨epoll, hrun', hinvariant'⟩ := hepolls activities List.prefix_rfl
  obtain ⟨listed, hpoll, hlists, hlisted⟩ := hinvariant.poll_spec wait
  refine ⟨poll, epoll, _, listed, _, hrun, hrun', hpoll, hinvariant'.poll_eq wait, hlists,
    hinvariant'.lists wait _, hlisted, ?_, ?_⟩
  · intro channel hchannel
    obtain ⟨interest, hregistered, hreports⟩ := hinvariant'.registered_of_mem hchannel
    by_cases hinterest : interest = kNoneEvent
    · exact .inr (hinterest ▸ ⟨hregistered, hreports⟩)
    · exact .inl ((hlisted channel).mpr ⟨interest, hinterest, hreports⟩)
  · intro horder hlength channel hchannel
    obtain ⟨interest, hinterest, hreports⟩ := (hlisted channel).mp hchannel
    have hready := hinvariant'.ready_of_reports hinterest hreports
      (horder channel.1 (by rw [usageAfter, hreports.1, Usage.isUsed]))
    rw [hinvariant'.length_entries] at hlength
    rw [List.take_of_length_le (by omega)]
    obtain ⟨i, interest', hfd, hentry, -, hreported⟩ := hinvariant'.reports_of_ready hready
    have hsame := hinvariant.maps.distinct_of_used hreports.1 i _ hreported.1 hfd
    rw [hsame] at hentry
    exact List.mem_filterMap.mpr ⟨_, hready, hentry⟩

end Agreement

/-- A channel is disabled twice before another is ready to be read. -/
def someActivities : List (Activity Bool) :=
  [.operate ⟨true, .enableReading⟩, .operate ⟨false, .enableReading⟩,
    .poll { ready := fun fd _ => fd, order := [0, 1] }, .operate ⟨true, .disableReading⟩,
    .operate ⟨true, .disableAll⟩]

/-- Both descriptors are ready, and the system names the one that is in use. -/
def someWait : Wait := { ready := fun _ _ => 1, order := [0] }

theorem someActivities_lists :
    ∃ (poll : PollPoller Bool) (epoll epoll' : EPollList Bool)
      (listed activeChannels : List (Bool × ℕ)),
      runFrom (PollPoller.perform Bool.toNat) {} someActivities = .ret poll ∧
      runFrom (EPollList.perform Bool.toNat) {} someActivities = .ret epoll ∧
      poll.poll Bool.toNat someWait = .ret listed ∧
      epoll.poll Bool.toNat someWait = .ret (epoll', activeChannels) ∧
      Lists Bool.toNat (usageAfter someActivities) someWait listed ∧
      Lists Bool.toNat (usageAfter someActivities) someWait activeChannels ∧
      (∀ channel, channel ∈ listed ↔ ∃ interest, interest ≠ kNoneEvent ∧
        Reports Bool.toNat (usageAfter someActivities) someWait interest channel) ∧
      (∀ channel ∈ activeChannels, channel ∈ listed ∨
        epoll.registered channel.1.toNat = some kNoneEvent ∧
          Reports Bool.toNat (usageAfter someActivities) someWait kNoneEvent channel) ∧
      ((∀ i, (usageAfter someActivities i).isUsed = true → Bool.toNat i ∈ someWait.order) →
        activeChannels.length < epoll.eventListSize →
        ∀ channel ∈ listed, channel ∈ activeChannels) :=
  lists_of_run Bool.toNat someActivities (by unfold AllAllowed; decide) someWait

/-! ## The event loop never handles a channel that was removed -/

section Handling

variable {ι : Type u} [DecidableEq ι] {fd : ι → ℕ} {usage : ι → Usage}

def AnyPoller.Invariant (fd : ι → ℕ) (poller : AnyPoller ι) (usage : ι → Usage) : Prop :=
  match poller with
  | .poll poller => PollPoller.Invariant fd poller usage
  | .epoll poller => EPollList.Invariant fd poller usage

omit [DecidableEq ι] in
theorem invariant_newDefaultPoller (fd : ι → ℕ) (usePoll : Bool) :
    (newDefaultPoller usePoll).Invariant fd fun _ => .unused := by
  cases usePoll with
  | true => exact PollPoller.Invariant.start fd
  | false => exact EPollList.Invariant.start fd

theorem AnyPoller.Invariant.step {poller : AnyPoller ι} (hinvariant : poller.Invariant fd usage)
    {event : Event ι} (hallowed : Allowed fd usage event) :
    ∃ poller', poller.step fd event = .ret poller' ∧
      poller'.Invariant fd (next usage event) := by
  cases poller with
  | poll poller =>
      obtain ⟨poller', hstep, hinvariant'⟩ := PollPoller.step_invariant hinvariant hallowed
      refine ⟨.poll poller', ?_, hinvariant'⟩
      rw [AnyPoller.step, hstep, Exec.ret_bind]
  | epoll poller =>
      obtain ⟨poller', hstep, hinvariant', -⟩ := EPollList.Invariant.step hinvariant hallowed
      refine ⟨.epoll poller', ?_, hinvariant'⟩
      rw [AnyPoller.step, hstep, Exec.ret_bind]

theorem AnyPoller.Invariant.wait {poller : AnyPoller ι} (hinvariant : poller.Invariant fd usage)
    (wait : Wait) :
    ∃ poller' activeChannels, poller.wait fd wait = .ret (poller', activeChannels) ∧
      poller'.Invariant fd usage ∧ Lists fd usage wait activeChannels := by
  cases poller with
  | poll poller =>
      obtain ⟨activeChannels, hpoll, hlists, -⟩ := PollPoller.Invariant.poll_spec hinvariant wait
      refine ⟨.poll poller, activeChannels, ?_, hinvariant, hlists⟩
      rw [AnyPoller.wait, hpoll, Exec.ret_bind]
  | epoll poller =>
      refine ⟨.epoll { poller with eventListSize := poller.sizeAfter wait }, _, ?_,
        EPollList.Invariant.resized hinvariant wait,
        EPollList.Invariant.lists hinvariant wait poller.eventListSize⟩
      rw [AnyPoller.wait, EPollList.Invariant.poll_eq hinvariant, Exec.ret_bind]

namespace EventLoop

def watch (fd : ι → ℕ) (state : EventLoop ι × (ι → Usage)) (activity : Activity ι) :
    Exec PollerFault (EventLoop ι × (ι → Usage)) :=
  (state.1.step fd activity).bind fun loop => .ret (loop, activity.next state.2)

/-- The loop waits when all active channels were handled, and channels are used as they may
be. -/
def Permits (fd : ι → ℕ) (state : EventLoop ι × (ι → Usage)) : Activity ι → Prop
  | .poll _ => state.1.eventHandling = false
  | .handle => True
  | .operate event => Allowed fd state.2 event

instance [Fintype ι] (fd : ι → ℕ) (state : EventLoop ι × (ι → Usage)) :
    (activity : Activity ι) → Decidable (Permits fd state activity)
  | .poll _ => inferInstanceAs (Decidable (_ = false))
  | .handle => .isTrue trivial
  | .operate event => inferInstanceAs (Decidable (Allowed fd state.2 event))

/-- A callback removes its own channel, or one that is not active. -/
def RemovesOwn (state : EventLoop ι × (ι → Usage)) : Activity ι → Prop
  | .operate event => event.operation = .remove → state.1.MayRemove event.channel
  | .poll _ | .handle => True

/-- The active channels that are left were not removed, and the current one is not among
them. -/
structure Invariant (fd : ι → ℕ) (state : EventLoop ι × (ι → Usage)) : Prop where
  poller : state.1.poller.Invariant fd state.2
  left : state.1.remaining <:+ state.1.activeChannels
  distinct : (state.1.remaining.map Prod.fst).Nodup
  used : ∀ channel ∈ state.1.remaining, ∃ interest, state.2 channel.1 = .used interest
  current : ∀ i, state.1.currentActiveChannel = some i → i ∉ state.1.remaining.map Prod.fst
  handling : state.1.eventHandling = false →
    state.1.remaining = [] ∧ state.1.currentActiveChannel = none

omit [DecidableEq ι] in
theorem Invariant.start (fd : ι → ℕ) (usePoll : Bool) :
    Invariant fd ({ poller := newDefaultPoller usePoll }, fun _ => .unused) where
  poller := invariant_newDefaultPoller fd usePoll
  left := List.suffix_rfl
  distinct := List.nodup_nil
  used channel hchannel := by cases hchannel
  current i hcurrent := by cases hcurrent
  handling _ := ⟨rfl, rfl⟩

omit [DecidableEq ι] in
/-- A channel that a callback may remove is not left to be handled. -/
theorem Invariant.not_remaining {state : EventLoop ι × (ι → Usage)}
    (hinvariant : Invariant fd state) {i : ι} (hremove : state.1.MayRemove i) :
    i ∉ state.1.remaining.map Prod.fst := by
  cases hhandling : state.1.eventHandling with
  | false =>
      rw [(hinvariant.handling hhandling).1]
      exact List.not_mem_nil
  | true =>
      rcases hremove hhandling with hcurrent | hinactive
      · exact hinvariant.current i hcurrent
      · exact fun hmem => hinactive ((hinvariant.left.map Prod.fst).mem hmem)

/-- An operation that does not fail the assertion of the loop keeps the invariant. -/
theorem Invariant.operate {state : EventLoop ι × (ι → Usage)} (hinvariant : Invariant fd state)
    {event : Event ι} (hallowed : Allowed fd state.2 event)
    (hremove : event.operation = .remove → state.1.MayRemove event.channel) :
    ∃ state', watch fd state (.operate event) = .ret state' ∧ Invariant fd state' := by
  obtain ⟨poller, hstep, hpoller⟩ := hinvariant.poller.step hallowed
  refine ⟨({ state.1 with poller }, next state.2 event), ?_, ?_⟩
  · rw [watch, EventLoop.step, if_neg fun hremoved => hremoved.2 (hremove hremoved.1), hstep]
    rfl
  · refine ⟨hpoller, hinvariant.left, hinvariant.distinct, ?_, hinvariant.current,
      hinvariant.handling⟩
    intro channel hchannel
    by_cases hself : channel.1 = event.channel
    · have hkept : event.operation ≠ .remove := by
        intro hoperation
        exact hinvariant.not_remaining (hremove hoperation)
          (hself ▸ List.mem_map_of_mem hchannel)
      refine ⟨event.operation.change (state.2 event.channel).events, ?_⟩
      change next state.2 event channel.1 = _
      rw [hself, next, Function.update_self, if_neg hkept]
    · obtain ⟨interest, hused⟩ := hinvariant.used channel hchannel
      refine ⟨interest, ?_⟩
      change next state.2 event channel.1 = _
      rw [next, Function.update_of_ne hself, hused]

/-- Waiting keeps the invariant, and lists channels that are in use. -/
theorem Invariant.poll {state : EventLoop ι × (ι → Usage)} (hinvariant : Invariant fd state)
    (hidle : state.1.eventHandling = false) (wait : Wait) :
    ∃ state', watch fd state (.poll wait) = .ret state' ∧ Invariant fd state' := by
  obtain ⟨poller, activeChannels, hwait, hpoller, hlists⟩ := hinvariant.poller.wait wait
  refine ⟨({ state.1 with
    poller, activeChannels, remaining := activeChannels, eventHandling := true }, state.2), ?_, ?_⟩
  · rw [watch, EventLoop.step, hwait]
    rfl
  · refine ⟨hpoller, List.suffix_rfl, hlists.distinct, ?_, ?_, fun hfalse => by cases hfalse⟩
    · intro channel hchannel
      obtain ⟨interest, hreports⟩ := hlists.reports channel hchannel
      exact ⟨interest, hreports.1⟩
    · intro i hcurrent
      cases (hinvariant.handling hidle).2.symm.trans hcurrent

/-- Handling an event keeps the invariant. -/
theorem Invariant.handle {state : EventLoop ι × (ι → Usage)} (hinvariant : Invariant fd state) :
    ∃ state', watch fd state .handle = .ret state' ∧ Invariant fd state' := by
  cases hremaining : state.1.remaining with
  | nil =>
      refine ⟨({ state.1 with
        remaining := [], currentActiveChannel := none, eventHandling := false }, state.2), ?_, ?_⟩
      · rw [watch, EventLoop.step, hremaining]
        rfl
      · refine ⟨hinvariant.poller, List.nil_suffix, List.nodup_nil, ?_, ?_, fun _ => ⟨rfl, rfl⟩⟩
        · intro channel hchannel
          cases hchannel
        · intro i hcurrent
          cases hcurrent
  | cons channel remaining =>
      have hdistinct := hinvariant.distinct
      rw [hremaining, List.map_cons, List.nodup_cons] at hdistinct
      refine ⟨({ state.1 with currentActiveChannel := some channel.1, remaining }, state.2),
        ?_, ?_⟩
      · rw [watch, EventLoop.step, hremaining]
        rfl
      · refine ⟨hinvariant.poller, ?_, hdistinct.2, ?_, ?_, ?_⟩
        · have hleft := hinvariant.left
          rw [hremaining] at hleft
          exact (List.suffix_cons channel remaining).trans hleft
        · intro other hother
          exact hinvariant.used other (by rw [hremaining]; exact List.mem_cons_of_mem _ hother)
        · intro i hcurrent
          cases hcurrent
          exact hdistinct.1
        · intro hidle
          rw [(hinvariant.handling hidle).1] at hremaining
          cases hremaining

theorem Invariant.step {state : EventLoop ι × (ι → Usage)} (hinvariant : Invariant fd state)
    {activity : Activity ι} (hpermits : Permits fd state activity)
    (hremoves : RemovesOwn state activity) :
    ∃ state', watch fd state activity = .ret state' ∧ Invariant fd state' := by
  cases activity with
  | poll wait => exact hinvariant.poll hpermits wait
  | handle => exact hinvariant.handle
  | operate event => exact hinvariant.operate hpermits hremoves

/-- Any other active channel cannot be removed. -/
theorem watch_of_not_removesOwn {state : EventLoop ι × (ι → Usage)} {activity : Activity ι}
    (hremoves : ¬ RemovesOwn state activity) :
    watch fd state activity = .fault .assertionFailed := by
  cases activity with
  | poll | handle => exact absurd trivial hremoves
  | operate event =>
      rw [watch, EventLoop.step, if_pos (Classical.not_imp.mp hremoves)]
      rfl

/-- The active channels that are still to be handled are different ones, in the order of the
list, and none of them was removed. -/
structure Handles (state : EventLoop ι × (ι → Usage)) : Prop where
  left : state.1.remaining <:+ state.1.activeChannels
  distinct : (state.1.remaining.map Prod.fst).Nodup
  used : ∀ channel ∈ state.1.remaining, (state.2 channel.1).isUsed = true

omit [DecidableEq ι] in
theorem Invariant.handles {state : EventLoop ι × (ι → Usage)} (hinvariant : Invariant fd state) :
    Handles state where
  left := hinvariant.left
  distinct := hinvariant.distinct
  used channel hchannel := by
    obtain ⟨interest, hused⟩ := hinvariant.used channel hchannel
    rw [hused, Usage.isUsed]

end EventLoop

end Handling

/-- A callback disables and removes a channel that is not active, and then its own. -/
def someHandling : List (Activity Bool) :=
  [.operate ⟨true, .enableReading⟩, .operate ⟨false, .enableReading⟩,
    .poll { ready := fun fd _ => fd, order := [0, 1] }, .handle,
    .operate ⟨false, .disableAll⟩, .operate ⟨false, .remove⟩, .operate ⟨true, .disableAll⟩,
    .operate ⟨true, .remove⟩, .handle]

section Growth

variable {ι : Type u} [DecidableEq ι] {fd : ι → ℕ} {usage : ι → Usage}

/-- How often in a run more descriptors were ready than the list had room for. -/
def EPollList.crowded (fd : ι → ℕ) : EPollList ι → List (Activity ι) → ℕ
  | _, [] => 0
  | poller, activity :: activities =>
      (match activity with
        | .poll wait => if poller.eventListSize < (poller.ready wait).length then 1 else 0
        | .handle | .operate _ => 0) +
      match poller.perform fd activity with
      | .ret poller => EPollList.crowded fd poller activities
      | .hang | .fault _ => 0

def AtMost (most : ℕ) (usage : ι → Usage) (activities : List (Activity ι)) : Prop :=
  ∀ before, before <+: activities → ∀ channels : List ι, channels.Nodup →
    (∀ i ∈ channels, (before.foldl Activity.next usage i).isUsed = true) →
    channels.length ≤ most

theorem AtMost.tail {most : ℕ} {activity : Activity ι} {activities : List (Activity ι)}
    (hmost : AtMost most usage (activity :: activities)) :
    AtMost most (activity.next usage) activities := by
  intro before hbefore
  exact hmost (activity :: before) (List.cons_prefix_cons.mpr ⟨rfl, hbefore⟩)

/-- Each descriptor that is ready belongs to another channel in use. -/
theorem EPollList.Invariant.length_ready_le {poller : EPollList ι}
    (hinvariant : EPollList.Invariant fd poller usage) {most : ℕ}
    {activities : List (Activity ι)} (hmost : AtMost most usage activities) (wait : Wait) :
    (poller.ready wait).length ≤ most := by
  have hlists := hinvariant.lists wait (poller.ready wait).length
  have hlength := hinvariant.length_entries wait (poller.ready wait).length
  rw [min_self] at hlength
  rw [← hlength, ← List.length_map Prod.fst]
  apply hmost [] List.nil_prefix _ hlists.distinct
  intro i hi
  obtain ⟨channel, hchannel, rfl⟩ := List.mem_map.mp hi
  obtain ⟨interest, hused, -⟩ := hlists.reports channel hchannel
  rw [List.foldl_nil, hused, Usage.isUsed]

/-- After the first of some doublings, the others start from the double. -/
theorem mul_two_pow_lt {size times most : ℕ} (hsize : size < most)
    (hlater : 0 < times → size * 2 * 2 ^ (times - 1) < most) : size * 2 ^ times < most := by
  cases times with
  | zero => rwa [pow_zero, mul_one]
  | succ times =>
      rw [pow_succ', ← mul_assoc]
      exact hlater (Nat.zero_lt_succ times)

/-- Every crowded wait doubles the list, and finds more channels than it had places. -/
theorem EPollList.Invariant.lt_of_crowded {poller : EPollList ι} {most : ℕ}
    {activities : List (Activity ι)} (hinvariant : EPollList.Invariant fd poller usage)
    (hmost : AtMost most usage activities)
    (hallowed : Meets
      (fun usage activity => (.ret (Activity.next usage activity) : Exec PollerFault _))
      (Activity.Allowed fd) usage activities)
    (hcrowded : 0 < EPollList.crowded fd poller activities) :
    poller.eventListSize * 2 ^ (EPollList.crowded fd poller activities - 1) < most := by
  induction activities generalizing poller usage with
  | nil => exact absurd hcrowded (lt_irrefl 0)
  | cons activity activities ih =>
      obtain ⟨hactivity, hlater⟩ := hallowed
      have hrest := hlater _ rfl
      cases activity with
      | handle =>
          rw [crowded, EPollList.perform, zero_add] at hcrowded ⊢
          exact ih hinvariant hmost.tail hrest hcrowded
      | operate event =>
          obtain ⟨poller', hstep, hinvariant', hsize⟩ := hinvariant.step hactivity
          rw [crowded, EPollList.perform, hstep, zero_add] at hcrowded ⊢
          rw [← hsize]
          exact ih hinvariant' hmost.tail hrest hcrowded
      | poll wait =>
          have hready := hinvariant.length_ready_le hmost wait
          have hlater := ih (hinvariant.resized wait) hmost.tail hrest
          rw [crowded, EPollList.perform, hinvariant.poll_eq, Exec.ret_bind] at hcrowded ⊢
          by_cases hfull : poller.eventListSize < (poller.ready wait).length
          · have hdouble : poller.sizeAfter wait = poller.eventListSize * 2 := if_pos hfull.le
            simp only [hfull, if_true, Nat.add_sub_cancel_left]
            apply mul_two_pow_lt (lt_of_lt_of_le hfull hready)
            intro hlaterCrowded
            rw [← hdouble]
            exact hlater hlaterCrowded
          · simp only [hfull, if_false, zero_add] at hcrowded ⊢
            calc poller.eventListSize * 2 ^ _
                ≤ poller.sizeAfter wait * 2 ^ _ :=
                  Nat.mul_le_mul_right _ (poller.le_sizeAfter wait)
              _ < most := hlater hcrowded

/-- Where no more than `most` channels are ever in use together, a wait leaves out a channel
that is ready at most `log₂ (most / 16) + 1` times in a whole run. -/
theorem crowded_of_run (fd : ι → ℕ) (activities : List (Activity ι)) (most : ℕ)
    (hallowed : AllAllowed fd activities)
    (hmost : AtMost most (fun _ => .unused) activities)
    (hcrowded : 0 < EPollList.crowded fd {} activities) :
    kInitEventListSize * 2 ^ (EPollList.crowded fd {} activities - 1) < most :=
  (EPollList.Invariant.start fd).lt_of_crowded hmost hallowed hcrowded

end Growth

/-- Seventeen channels are ready at once. -/
def manyActivities : List (Activity (Fin 17)) :=
  (List.finRange 17).map (fun i => .operate ⟨i, .enableReading⟩) ++
    [.poll { ready := fun _ _ => 1, order := List.range 17 }]

theorem manyActivities_crowded :
    kInitEventListSize * 2 ^ (EPollList.crowded Fin.val {} manyActivities - 1) < 17 :=
  crowded_of_run Fin.val manyActivities 17 (by unfold AllAllowed; decide +kernel)
    (fun before _ channels hdistinct _ =>
      hdistinct.length_le_card.trans_eq (Fintype.card_fin 17)) (by decide +kernel)

end Cuber.Pollers
