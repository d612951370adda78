import Cuber.Core.Refinement

/-!
# The two pollers

A channel says which events of its file descriptor it is interested in, and a
poller waits for them.  `EPollPoller` hands the interest over to the kernel,
and marks in the channel whether it has done so.  `PollPoller` keeps a row of
descriptors for `poll`, and the channel knows its place in it; a channel that
leaves the row is replaced by the last one.

Both are run with the same operations of channels here, and watch for the same
events.
-/

namespace Cuber.Pollers

open Cuber.Execution
open Cuber.Refinement
open Cuber.Runs

universe u

/-! ## Channels -/

structure Interest where
  reading : Bool
  writing : Bool
  deriving DecidableEq

def kNoneEvent : Interest := { reading := false, writing := false }

structure Channel where
  events : Interest := kNoneEvent
  index : ℤ := -1

inductive Operation where
  | enableReading
  | disableReading
  | enableWriting
  | disableWriting
  | disableAll
  | remove
  deriving DecidableEq

/-- The change that an operation makes to the flags before `update`. -/
def Operation.change (operation : Operation) (events : Interest) : Interest :=
  match operation with
  | .enableReading => { events with reading := true }
  | .disableReading => { events with reading := false }
  | .enableWriting => { events with writing := true }
  | .disableWriting => { events with writing := false }
  | .disableAll => kNoneEvent
  | .remove => events

def Operation.enables : Operation → Bool
  | .enableReading | .enableWriting => true
  | _ => false

inductive PollerFault where
  | assertionFailed
  /-- An `epoll_ctl` that adds or modifies is rejected. -/
  | sysFatal
  | nullChannel
  deriving DecidableEq

/-- An operation of a channel with these events, which calls the poller: `Channel::remove`
wants no events, and the others go through `Channel::update`. -/
def Operation.run {P : Type u} (operation : Operation) (events : Interest)
    (update : Interest → Exec PollerFault P) (remove : Exec PollerFault P) :
    Exec PollerFault P :=
  if operation = .remove then
    if events = kNoneEvent then remove else .fault .assertionFailed
  else update (operation.change events)

structure Event (ι : Type u) where
  channel : ι
  operation : Operation

/-- Channels and the map from descriptors to channels of a poller. -/
structure Poller (ι : Type u) where
  channel : ι → Channel := fun _ => {}
  channels : ℕ → Option ι := fun _ => none

namespace Poller

variable {ι : Type u} [DecidableEq ι]

def setEvents (poller : Poller ι) (i : ι) (events : Interest) : Poller ι :=
  { poller with
    channel := Function.update poller.channel i { poller.channel i with events } }

def setIndex (poller : Poller ι) (i : ι) (index : ℤ) : Poller ι :=
  { poller with
    channel := Function.update poller.channel i { poller.channel i with index } }

end Poller

/-! ## `EPollPoller` -/

inductive ControlOperation where
  | add
  | modify
  | delete
  deriving DecidableEq

/-- An operation adds what has no interest in the kernel yet, and modifies or deletes what
has. -/
def ControlOperation.accepts (operation : ControlOperation) (interest : Option Interest) :
    Bool :=
  match operation with
  | .add => interest.isNone
  | .modify | .delete => interest.isSome

def ControlOperation.leaves (operation : ControlOperation) (events : Interest) :
    Option Interest :=
  match operation with
  | .add | .modify => some events
  | .delete => none

structure ControlCall where
  operation : ControlOperation
  fd : ℕ
  accepted : Bool
  deriving DecidableEq

def kNew : ℤ := -1
def kAdded : ℤ := 1
def kDeleted : ℤ := 2

structure EPollPoller (ι : Type u) extends Poller ι where
  /-- The interest list of the kernel. -/
  registered : ℕ → Option Interest := fun _ => none
  /-- The calls of `epoll_ctl` so far. -/
  calls : List ControlCall := []

namespace EPollPoller

variable {ι : Type u} [DecidableEq ι]

/-- The poller after an `epoll_ctl` that is accepted. -/
def controlled (poller : EPollPoller ι) (operation : ControlOperation) (fd : ℕ)
    (events : Interest) : EPollPoller ι :=
  { poller with
    registered := Function.update poller.registered fd (operation.leaves events)
    calls := poller.calls ++ [{ operation, fd, accepted := true }] }

def epollCtl (poller : EPollPoller ι) (operation : ControlOperation) (fd : ℕ)
    (events : Interest) : EPollPoller ι × Bool :=
  if operation.accepts (poller.registered fd) then
    (poller.controlled operation fd events, true)
  else
    ({ poller with
        calls := poller.calls ++ [{ operation, fd, accepted := false }] }, false)

/-- `EPollPoller::update`.  A failure to delete is only logged. -/
def update (poller : EPollPoller ι) (operation : ControlOperation) (fd : ℕ)
    (events : Interest) : Exec PollerFault (EPollPoller ι) :=
  let (poller, accepted) := poller.epollCtl operation fd events
  if accepted ∨ operation = .delete then .ret poller else .fault .sysFatal

def setEvents (poller : EPollPoller ι) (i : ι) (events : Interest) : EPollPoller ι :=
  { poller with toPoller := poller.toPoller.setEvents i events }

def setIndex (poller : EPollPoller ι) (i : ι) (index : ℤ) : EPollPoller ι :=
  { poller with toPoller := poller.toPoller.setIndex i index }

def updateChannel (fd : ι → ℕ) (poller : EPollPoller ι) (i : ι) :
    Exec PollerFault (EPollPoller ι) :=
  let channel := poller.channel i
  if channel.index = kNew then
    if poller.channels (fd i) = none then
      let poller := { poller with
        channels := Function.update poller.channels (fd i) (some i) }
      (poller.setIndex i kAdded).update .add (fd i) channel.events
    else .fault .assertionFailed
  else if channel.index = kDeleted then
    if poller.channels (fd i) = some i then
      (poller.setIndex i kAdded).update .add (fd i) channel.events
    else .fault .assertionFailed
  else if poller.channels (fd i) = some i ∧ channel.index = kAdded then
    if channel.events = kNoneEvent then
      (poller.update .delete (fd i) channel.events).bind fun poller =>
        .ret (poller.setIndex i kDeleted)
    else poller.update .modify (fd i) channel.events
  else .fault .assertionFailed

def removeChannel (fd : ι → ℕ) (poller : EPollPoller ι) (i : ι) :
    Exec PollerFault (EPollPoller ι) :=
  let channel := poller.channel i
  if poller.channels (fd i) = some i ∧ channel.events = kNoneEvent ∧
      (channel.index = kAdded ∨ channel.index = kDeleted) then
    let poller := { poller with channels := Function.update poller.channels (fd i) none }
    (if channel.index = kAdded then poller.update .delete (fd i) channel.events
      else .ret poller).bind fun poller => .ret (poller.setIndex i kNew)
  else .fault .assertionFailed

def step (fd : ι → ℕ) (poller : EPollPoller ι) (event : Event ι) :
    Exec PollerFault (EPollPoller ι) :=
  event.operation.run (poller.channel event.channel).events
    (fun events => (poller.setEvents event.channel events).updateChannel fd event.channel)
    (poller.removeChannel fd event.channel)

/-- The descriptors and events that are monitored, where there are events. -/
def Monitors (poller : EPollPoller ι) (fd : ℕ) (events : Interest) : Prop :=
  poller.registered fd = some events ∧ events ≠ kNoneEvent

end EPollPoller

/-! ## `PollPoller` -/

structure PollFd where
  fd : ℤ
  events : Interest
  deriving DecidableEq

structure PollPoller (ι : Type u) extends Poller ι where
  pollfds : List PollFd := []

/-- The number that stands for a descriptor that is ignored. -/
def ignored (fd : ℤ) : ℤ := -fd - 1

namespace PollPoller

variable {ι : Type u} [DecidableEq ι]

def setEvents (poller : PollPoller ι) (i : ι) (events : Interest) : PollPoller ι :=
  { poller with toPoller := poller.toPoller.setEvents i events }

def setIndex (poller : PollPoller ι) (i : ι) (index : ℤ) : PollPoller ι :=
  { poller with toPoller := poller.toPoller.setIndex i index }

def updateChannel (fd : ι → ℕ) (poller : PollPoller ι) (i : ι) :
    Exec PollerFault (PollPoller ι) :=
  let channel := poller.channel i
  if channel.index < 0 then
    if poller.channels (fd i) = none then
      let poller := { poller with
        pollfds := poller.pollfds ++ [(⟨fd i, channel.events⟩ : PollFd)] }
      let poller := poller.setIndex i ((poller.pollfds.length : ℤ) - 1)
      .ret { poller with channels := Function.update poller.channels (fd i) (some i) }
    else .fault .assertionFailed
  else if poller.channels (fd i) = some i then
    match poller.pollfds[channel.index.toNat]? with
    | none => .fault .assertionFailed
    | some pfd =>
        if pfd.fd = fd i ∨ pfd.fd = ignored (fd i) then
          let pfd : PollFd := {
            fd := if channel.events = kNoneEvent then ignored (fd i) else fd i
            events := channel.events }
          .ret { poller with pollfds := poller.pollfds.set channel.index.toNat pfd }
        else .fault .assertionFailed
  else .fault .assertionFailed

/-- What is left of the row when the slot at `index` is taken out: the last slot takes its
place. -/
def swapRemove (slots : List PollFd) (index : ℕ) (last : PollFd) : List PollFd :=
  (slots.set index last).dropLast

def removeChannel (fd : ι → ℕ) (poller : PollPoller ι) (i : ι) :
    Exec PollerFault (PollPoller ι) :=
  let channel := poller.channel i
  let index := channel.index.toNat
  if poller.channels (fd i) = some i ∧ channel.events = kNoneEvent ∧ 0 ≤ channel.index then
    match poller.pollfds[index]?, poller.pollfds.getLast? with
    | some pfd, some last =>
        if pfd.fd = ignored (fd i) ∧ pfd.events = channel.events then
          let poller := { poller with channels := Function.update poller.channels (fd i) none }
          if index = poller.pollfds.length - 1 then
            .ret { poller with pollfds := poller.pollfds.dropLast }
          else
            let channelAtEnd := if last.fd < 0 then ignored last.fd else last.fd
            match poller.channels channelAtEnd.toNat with
            | none => .fault .nullChannel
            | some other =>
                .ret { poller.setIndex other index with
                  pollfds := swapRemove poller.pollfds index last }
        else .fault .assertionFailed
    | _, _ => .fault .assertionFailed
  else .fault .assertionFailed

def step (fd : ι → ℕ) (poller : PollPoller ι) (event : Event ι) :
    Exec PollerFault (PollPoller ι) :=
  event.operation.run (poller.channel event.channel).events
    (fun events => (poller.setEvents event.channel events).updateChannel fd event.channel)
    (poller.removeChannel fd event.channel)

def Monitors (poller : PollPoller ι) (fd : ℕ) (events : Interest) : Prop :=
  (⟨fd, events⟩ : PollFd) ∈ poller.pollfds ∧ events ≠ kNoneEvent

end PollPoller

/-! ## What the pollers are for -/

inductive Usage where
  | unused
  | used (events : Interest)
  | removed
  deriving DecidableEq

def Usage.isUsed : Usage → Bool
  | .used _ => true
  | .unused | .removed => false

def Usage.events : Usage → Interest
  | .used events => events
  | .unused | .removed => kNoneEvent

section Usage

variable {ι : Type u} [DecidableEq ι]

def next (usage : ι → Usage) (event : Event ι) : ι → Usage :=
  Function.update usage event.channel
    (if event.operation = .remove then .removed
      else .used (event.operation.change (usage event.channel).events))

/-- A channel is used first to enable an event, when no other has its descriptor; it is
removed without events enabled, and not used again. -/
def Allowed (fd : ι → ℕ) (usage : ι → Usage) (event : Event ι) : Prop :=
  match usage event.channel with
  | .unused =>
      event.operation.enables = true ∧
        ∀ other, (usage other).isUsed = true → fd other ≠ fd event.channel
  | .used events => event.operation = .remove → events = kNoneEvent
  | .removed => False

instance [Fintype ι] (fd : ι → ℕ) (usage : ι → Usage) (event : Event ι) :
    Decidable (Allowed fd usage event) :=
  match husage : usage event.channel with
  | .unused =>
      decidable_of_iff
        (event.operation.enables = true ∧
          ∀ other, (usage other).isUsed = true → fd other ≠ fd event.channel)
        (by simp only [Allowed, husage])
  | .used events =>
      decidable_of_iff (event.operation = .remove → events = kNoneEvent)
        (by simp only [Allowed, husage])
  | .removed => .isFalse (by simp only [Allowed, husage, not_false_iff])

/-- What is monitored for the channels in use. -/
def Monitored (fd : ι → ℕ) (usage : ι → Usage) (descriptor : ℕ) (events : Interest) : Prop :=
  ∃ i, fd i = descriptor ∧ usage i = .used events ∧ events ≠ kNoneEvent

end Usage

/-! ## Channels in use -/

section Maps

variable {ι : Type u} {fd : ι → ℕ} {poller poller' : Poller ι}
  {usage : ι → Usage} {i : ι} {events : Interest}

/-- The fields after an update of a channel, which may be its first. -/
def Poller.updated [DecidableEq ι] (fd : ι → ℕ) (poller : Poller ι) (i : ι)
    (events : Interest) (index : ℤ) : Poller ι where
  channel := Function.update poller.channel i { events, index }
  channels := Function.update poller.channels (fd i) (some i)

/-- Both pollers know the channels in use, and no others. -/
structure Poller.Maps (fd : ι → ℕ) (poller : Poller ι) (usage : ι → Usage) : Prop where
  unused : ∀ i, usage i = .unused →
    (poller.channel i).events = kNoneEvent ∧ (poller.channel i).index = -1
  used : ∀ i events, usage i = .used events →
    (poller.channel i).events = events ∧ poller.channels (fd i) = some i
  mapped : ∀ descriptor i, poller.channels descriptor = some i →
    fd i = descriptor ∧ ∃ events, usage i = .used events

/-- No other channel in use has the descriptor of this one. -/
def Distinct (fd : ι → ℕ) (usage : ι → Usage) (i : ι) : Prop :=
  ∀ other events, usage other = .used events → fd other = fd i → other = i

/-- What the removal of a channel does.  It may change the indices of channels in use. -/
structure Poller.Removes (fd : ι → ℕ) (poller poller' : Poller ι) (i : ι) : Prop where
  unmapped : poller'.channels (fd i) = none
  channels : ∀ descriptor, descriptor ≠ fd i →
    poller'.channels descriptor = poller.channels descriptor
  events : ∀ other, (poller'.channel other).events = (poller.channel other).events
  index : ∀ other, poller.channels (fd other) ≠ some other →
    (poller'.channel other).index = (poller.channel other).index

namespace Poller.Maps

theorem start (fd : ι → ℕ) : Poller.Maps fd {} fun _ => .unused where
  unused _ _ := ⟨rfl, rfl⟩
  used i events hused := by cases hused
  mapped descriptor i hmapped := by cases hmapped

theorem distinct_of_used (hmaps : poller.Maps fd usage) (hused : usage i = .used events) :
    Distinct fd usage i := by
  intro other events' hother hfd
  have hi := (hmaps.used i events hused).2
  have hj := (hmaps.used other events' hother).2
  rw [hfd, hi] at hj
  exact (Option.some.inj hj).symm

theorem unmapped_of_unused (hmaps : poller.Maps fd usage) (hdistinct : Distinct fd usage i)
    (hunused : usage i = .unused) : poller.channels (fd i) = none := by
  cases hmapped : poller.channels (fd i) with
  | none => rfl
  | some other =>
      obtain ⟨hfd, events', hused⟩ := hmaps.mapped _ other hmapped
      rw [hdistinct other events' hused hfd, hunused] at hused
      cases hused

theorem updated [DecidableEq ι] (hmaps : poller.Maps fd usage)
    (hdistinct : Distinct fd usage i) (events : Interest) (index : ℤ) :
    (poller.updated fd i events index).Maps fd (Function.update usage i (.used events)) := by
  constructor
  · intro other hother
    by_cases hne : other = i
    · subst hne
      simp at hother
    · rw [Function.update_of_ne hne] at hother
      simp only [Poller.updated, Function.update_of_ne hne]
      exact hmaps.unused other hother
  · intro other events' hother
    by_cases hne : other = i
    · subst hne
      rw [Function.update_self] at hother
      cases hother
      simp [Poller.updated]
    · rw [Function.update_of_ne hne] at hother
      have hfd : fd other ≠ fd i := fun hfd => hne (hdistinct other _ hother hfd)
      simp only [Poller.updated, Function.update_of_ne hne, Function.update_of_ne hfd]
      exact hmaps.used other events' hother
  · intro descriptor other hother
    by_cases hfd : descriptor = fd i
    · simp only [Poller.updated, hfd, Function.update_self, Option.some.injEq] at hother
      subst hother
      exact ⟨hfd.symm, events, Function.update_self ..⟩
    · simp only [Poller.updated, Function.update_of_ne hfd] at hother
      obtain ⟨hdescriptor, events', hused⟩ := hmaps.mapped descriptor other hother
      have hne : other ≠ i := fun heq => hfd (by rw [← hdescriptor, heq])
      exact ⟨hdescriptor, events', by rw [Function.update_of_ne hne, hused]⟩

theorem remove [DecidableEq ι] (hmaps : poller.Maps fd usage) (hused : usage i = .used events)
    (hremoves : poller.Removes fd poller' i) :
    poller'.Maps fd (Function.update usage i .removed) := by
  have hother : ∀ other, Function.update usage i .removed other ≠ .removed →
      other ≠ i ∧ Function.update usage i .removed other = usage other := by
    intro other hother
    have hne : other ≠ i := fun heq => hother (by rw [heq, Function.update_self])
    exact ⟨hne, Function.update_of_ne hne ..⟩
  constructor
  · intro other hunused
    rw [(hother other (by simp [hunused])).2] at hunused
    have hunmapped : poller.channels (fd other) ≠ some other := by
      intro hmapped
      obtain ⟨-, events', hused'⟩ := hmaps.mapped _ other hmapped
      rw [hunused] at hused'
      cases hused'
    rw [hremoves.events, hremoves.index other hunmapped]
    exact hmaps.unused other hunused
  · intro other events' hother'
    obtain ⟨hne, hsame⟩ := hother other (by simp [hother'])
    rw [hsame] at hother'
    rw [hremoves.events,
      hremoves.channels _ fun hfd => hne (hmaps.distinct_of_used hused other _ hother' hfd)]
    exact hmaps.used other events' hother'
  · intro descriptor other hknown
    by_cases hfd : descriptor = fd i
    · rw [hfd, hremoves.unmapped] at hknown
      cases hknown
    · rw [hremoves.channels descriptor hfd] at hknown
      obtain ⟨hdescriptor, events', hused'⟩ := hmaps.mapped descriptor other hknown
      have hne : other ≠ i := fun heq => hfd (by rw [← hdescriptor, heq])
      exact ⟨hdescriptor, events', by rw [Function.update_of_ne hne, hused']⟩

end Poller.Maps

end Maps

theorem Operation.change_ne_of_enables {operation : Operation}
    (henables : operation.enables = true) (events : Interest) :
    operation.change events ≠ kNoneEvent := by
  cases operation <;> simp [Operation.enables, Operation.change, kNoneEvent] at henables ⊢

theorem Operation.ne_remove_of_enables {operation : Operation}
    (henables : operation.enables = true) : operation ≠ .remove := by
  intro hremove
  rw [hremove] at henables
  cases henables

/-- An operation that is allowed comes down to an update of a channel that is not removed, or
to a removal of one that is used without events. -/
theorem Poller.Maps.run_of_allowed {ι : Type u} [DecidableEq ι] {fd : ι → ℕ}
    {poller : Poller ι} {usage : ι → Usage} {event : Event ι} {P : Type u}
    {holds : P → (ι → Usage) → Prop} {update : Interest → Exec PollerFault P}
    {remove : Exec PollerFault P} (hmaps : poller.Maps fd usage)
    (hallowed : Allowed fd usage event)
    (hunused : ∀ events, usage event.channel = .unused → Distinct fd usage event.channel →
      events ≠ kNoneEvent →
      ∃ after, update events = .ret after ∧
        holds after (Function.update usage event.channel (.used events)))
    (hused : ∀ before events, usage event.channel = .used before →
      ∃ after, update events = .ret after ∧
        holds after (Function.update usage event.channel (.used events)))
    (hremove : usage event.channel = .used kNoneEvent →
      ∃ after, remove = .ret after ∧
        holds after (Function.update usage event.channel .removed)) :
    ∃ after, event.operation.run (poller.channel event.channel).events update remove =
      .ret after ∧ holds after (next usage event) := by
  cases husage : usage event.channel with
  | unused =>
      simp only [Allowed, husage] at hallowed
      obtain ⟨henables, hothers⟩ := hallowed
      have hne := Operation.ne_remove_of_enables henables
      have hevents := (hmaps.unused _ husage).1
      have hdistinct : Distinct fd usage event.channel := fun other events hother hfd =>
        absurd hfd (hothers other (by rw [hother, Usage.isUsed]))
      rw [Operation.run, if_neg hne, next, if_neg hne, husage, hevents]
      exact hunused _ husage hdistinct (Operation.change_ne_of_enables henables _)
  | used before =>
      simp only [Allowed, husage] at hallowed
      have hevents := (hmaps.used _ before husage).1
      by_cases hoperation : event.operation = .remove
      · rw [hallowed hoperation] at husage hevents
        rw [Operation.run, if_pos hoperation, if_pos hevents, next, if_pos hoperation]
        exact hremove husage
      · rw [Operation.run, if_neg hoperation, next, if_neg hoperation, husage, hevents]
        exact hused before _ husage
  | removed => simp [Allowed, husage] at hallowed

/-! ## `EPollPoller` keeps track of the interest list -/

namespace EPollPoller

variable {ι : Type u} {fd : ι → ℕ} {poller poller' : EPollPoller ι}
  {usage : ι → Usage} {i : ι} {events : Interest}

/-- What the index of a channel with these events says about the interest list. -/
def Tracks (index : ℤ) (interest : Option Interest) (events : Interest) : Prop :=
  index = kAdded ∧ interest = some events ∨
    index = kDeleted ∧ interest = none ∧ events = kNoneEvent

structure Invariant (fd : ι → ℕ) (poller : EPollPoller ι) (usage : ι → Usage) : Prop where
  maps : poller.Maps fd usage
  tracks : ∀ i events, usage i = .used events →
    Tracks (poller.channel i).index (poller.registered (fd i)) events
  listed : ∀ descriptor, poller.channels descriptor = none → poller.registered descriptor = none
  accepted : ∀ call ∈ poller.calls, call.accepted = true

theorem Invariant.start (fd : ι → ℕ) : Invariant fd {} fun _ => .unused where
  maps := Poller.Maps.start fd
  tracks i events hused := by cases hused
  listed _ _ := rfl
  accepted call hcall := by cases hcall

theorem update_eq_controlled {operation : ControlOperation} {descriptor : ℕ}
    (haccepts : operation.accepts (poller.registered descriptor) = true) :
    poller.update operation descriptor events =
      .ret (poller.controlled operation descriptor events) := by
  simp [update, epollCtl, haccepts]

section Steps

variable [DecidableEq ι]

def updated (fd : ι → ℕ) (poller : EPollPoller ι) (i : ι) (events : Interest) (index : ℤ)
    (operation : ControlOperation) : EPollPoller ι :=
  { poller with toPoller := poller.toPoller.updated fd i events index }.controlled operation
    (fd i) events

/-- Updating a channel keeps what the kernel monitors and the map in step. -/
theorem Invariant.updated {operation : ControlOperation} {index : ℤ}
    (hinvariant : Invariant fd poller usage) (hdistinct : Distinct fd usage i)
    (htracks : Tracks index (operation.leaves events) events) :
    Invariant fd (poller.updated fd i events index operation)
      (Function.update usage i (.used events)) where
  maps := hinvariant.maps.updated hdistinct events index
  tracks other events' hother := by
    by_cases hne : other = i
    · subst hne
      rw [Function.update_self] at hother
      cases hother
      simpa [EPollPoller.updated, controlled, Poller.updated] using htracks
    · rw [Function.update_of_ne hne] at hother
      have hfd : fd other ≠ fd i := fun hfd => hne (hdistinct other _ hother hfd)
      simp only [EPollPoller.updated, controlled, Poller.updated, Function.update_of_ne hne,
        Function.update_of_ne hfd]
      exact hinvariant.tracks other events' hother
  listed descriptor hnone := by
    by_cases hfd : descriptor = fd i
    · simp [EPollPoller.updated, controlled, Poller.updated, hfd] at hnone
    · simp only [EPollPoller.updated, controlled, Poller.updated,
        Function.update_of_ne hfd] at hnone ⊢
      exact hinvariant.listed descriptor hnone
  accepted call hcall := by
    rcases List.mem_append.mp hcall with hcall | hcall
    · exact hinvariant.accepted call hcall
    · rw [List.mem_singleton.mp hcall]

theorem updated_of_mapped (hmapped : poller.channels (fd i) = some i) (index : ℤ)
    (operation : ControlOperation) :
    poller.updated fd i events index operation =
      { poller with
        channel := Function.update poller.channel i { events, index } }.controlled operation
          (fd i) events := by
  have hchannels : Function.update poller.channels (fd i) (some i) = poller.channels := by
    rw [Function.update_eq_self_iff, hmapped]
  simp [updated, Poller.updated, hchannels]

@[simp]
theorem setEvents_channel (poller : EPollPoller ι) (i : ι) (events : Interest) :
    (poller.setEvents i events).channel i = { poller.channel i with events } := by
  simp [setEvents, Poller.setEvents]

/-- The first update of a channel adds it. -/
theorem updateChannel_unused (hindex : (poller.channel i).index = kNew)
    (hunmapped : poller.channels (fd i) = none) (hregistered : poller.registered (fd i) = none) :
    (poller.setEvents i events).updateChannel fd i =
      .ret (poller.updated fd i events kAdded .add) := by
  have hfresh : (poller.setEvents i events).channels (fd i) = none := hunmapped
  simp only [updateChannel, setEvents_channel, hindex, hfresh, if_true]
  rw [update_eq_controlled]
  · simp [setEvents, setIndex, Poller.setEvents, Poller.setIndex, controlled, updated,
      Poller.updated]
  · change Option.isNone (poller.registered (fd i)) = true
    rw [hregistered, Option.isNone_none]

/-- A channel that was deleted is added again, also without events. -/
theorem updateChannel_deleted (hmapped : poller.channels (fd i) = some i)
    (hindex : (poller.channel i).index = kDeleted) (hregistered : poller.registered (fd i) = none) :
    (poller.setEvents i events).updateChannel fd i =
      .ret (poller.updated fd i events kAdded .add) := by
  have hknown : (poller.setEvents i events).channels (fd i) = some i := hmapped
  have hnew : kDeleted ≠ kNew := by decide
  simp only [updateChannel, setEvents_channel, hindex, hknown, hnew, if_true, if_false]
  rw [update_eq_controlled, updated_of_mapped hmapped]
  · simp [setEvents, setIndex, Poller.setEvents, Poller.setIndex, controlled]
  · change Option.isNone (poller.registered (fd i)) = true
    rw [hregistered, Option.isNone_none]

/-- A channel that was added is modified, or deleted where no events are left. -/
theorem updateChannel_added (hmapped : poller.channels (fd i) = some i)
    (hindex : (poller.channel i).index = kAdded)
    (hregistered : (poller.registered (fd i)).isSome = true) (events : Interest) :
    (poller.setEvents i events).updateChannel fd i =
      .ret (if events = kNoneEvent then poller.updated fd i events kDeleted .delete
        else poller.updated fd i events kAdded .modify) := by
  have hknown : (poller.setEvents i events).channels (fd i) = some i := hmapped
  have hnew : kAdded ≠ kNew := by decide
  have hdeleted : kAdded ≠ kDeleted := by decide
  have hcall : ∀ operation, operation ≠ ControlOperation.add →
      (poller.setEvents i events).update operation (fd i) events =
        .ret ((poller.setEvents i events).controlled operation (fd i) events) := by
    intro operation hoperation
    apply update_eq_controlled
    cases operation with
    | add => exact absurd rfl hoperation
    | modify => exact hregistered
    | delete => exact hregistered
  simp only [updateChannel, setEvents_channel, hindex, hknown, hnew, hdeleted, and_self, if_true,
    if_false]
  by_cases hnone : events = kNoneEvent
  · rw [if_pos hnone, if_pos hnone, hcall .delete (by decide), updated_of_mapped hmapped]
    simp [setEvents, setIndex, Poller.setEvents, Poller.setIndex, controlled]
  · rw [if_neg hnone, if_neg hnone, hcall .modify (by decide), updated_of_mapped hmapped]
    simp [setEvents, Poller.setEvents, controlled, hindex]

/-- A channel that is in use is modified, added again, or deleted. -/
theorem updateChannel_used (hinvariant : Invariant fd poller usage) {before : Interest}
    (hused : usage i = .used before) (events : Interest) :
    ∃ index operation, Tracks index (operation.leaves events) events ∧
      (poller.setEvents i events).updateChannel fd i =
        .ret (poller.updated fd i events index operation) := by
  have hmapped := (hinvariant.maps.used i before hused).2
  rcases hinvariant.tracks i before hused with ⟨hindex, hregistered⟩ | ⟨hindex, hregistered, -⟩
  · have hret := updateChannel_added hmapped hindex (by simp [hregistered]) events
    by_cases hnone : events = kNoneEvent
    · rw [if_pos hnone] at hret
      exact ⟨kDeleted, .delete, .inr ⟨rfl, rfl, hnone⟩, hret⟩
    · rw [if_neg hnone] at hret
      exact ⟨kAdded, .modify, .inl ⟨rfl, rfl⟩, hret⟩
  · exact ⟨kAdded, .add, .inl ⟨rfl, rfl⟩, updateChannel_deleted hmapped hindex hregistered⟩

def removed (fd : ι → ℕ) (poller : EPollPoller ι) (i : ι) (calls : List ControlCall) :
    EPollPoller ι where
  channel := Function.update poller.channel i { poller.channel i with index := kNew }
  channels := Function.update poller.channels (fd i) none
  registered := Function.update poller.registered (fd i) none
  calls := poller.calls ++ calls

/-- Removing a channel takes it out of the map and of the kernel. -/
theorem Invariant.removed (hinvariant : Invariant fd poller usage)
    (hused : usage i = .used events) {calls : List ControlCall}
    (hcalls : ∀ call ∈ calls, call.accepted = true) :
    Invariant fd (poller.removed fd i calls) (Function.update usage i .removed) where
  maps := by
    apply hinvariant.maps.remove hused
    constructor
    · exact Function.update_self ..
    · intro descriptor hfd
      exact Function.update_of_ne hfd ..
    · intro other
      by_cases hne : other = i
      · simp [EPollPoller.removed, hne]
      · simp [EPollPoller.removed, hne]
    · intro other hunmapped
      have hne : other ≠ i := by
        intro heq
        rw [heq] at hunmapped
        exact hunmapped (hinvariant.maps.used i events hused).2
      simp [EPollPoller.removed, hne]
  tracks other events' hother := by
    by_cases hne : other = i
    · rw [hne, Function.update_self] at hother
      cases hother
    · rw [Function.update_of_ne hne] at hother
      have hfd : fd other ≠ fd i := fun hfd =>
        hne (hinvariant.maps.distinct_of_used hused other _ hother hfd)
      simp only [EPollPoller.removed, Function.update_of_ne hne, Function.update_of_ne hfd]
      exact hinvariant.tracks other events' hother
  listed descriptor hnone := by
    by_cases hfd : descriptor = fd i
    · simp [EPollPoller.removed, hfd]
    · simp only [EPollPoller.removed, Function.update_of_ne hfd] at hnone ⊢
      exact hinvariant.listed descriptor hnone
  accepted call hcall := by
    rcases List.mem_append.mp hcall with hcall | hcall
    · exact hinvariant.accepted call hcall
    · exact hcalls call hcall

/-- A channel that is removed is deleted first, unless it is already. -/
theorem removeChannel_used (hinvariant : Invariant fd poller usage)
    (hused : usage i = .used kNoneEvent) :
    ∃ calls, (∀ call ∈ calls, call.accepted = true) ∧
      poller.removeChannel fd i = .ret (poller.removed fd i calls) := by
  obtain ⟨hevents, hmapped⟩ := hinvariant.maps.used i _ hused
  rcases hinvariant.tracks i _ hused with ⟨hindex, hregistered⟩ | ⟨hindex, hregistered, -⟩
  · refine ⟨[{ operation := .delete, fd := fd i, accepted := true }], by simp, ?_⟩
    simp only [removeChannel, hmapped, hevents, hindex, true_or, and_self, if_true]
    rw [update_eq_controlled]
    · simp [setIndex, Poller.setIndex, controlled, removed, ControlOperation.leaves]
    · change Option.isSome (poller.registered (fd i)) = true
      rw [hregistered, Option.isSome_some]
  · have hadded : kDeleted ≠ kAdded := by decide
    have hsame : Function.update poller.registered (fd i) none = poller.registered := by
      rw [Function.update_eq_self_iff, hregistered]
    refine ⟨[], by simp, ?_⟩
    simp only [removeChannel, hmapped, hevents, hindex, or_true, and_self, if_true, hadded,
      if_false]
    simp [setIndex, Poller.setIndex, removed, hsame]

/-- An operation that is allowed succeeds and keeps the invariant. -/
theorem step_invariant {event : Event ι} (hinvariant : Invariant fd poller usage)
    (hallowed : Allowed fd usage event) :
    ∃ poller', poller.step fd event = .ret poller' ∧ Invariant fd poller' (next usage event) := by
  apply hinvariant.maps.run_of_allowed hallowed
  · intro events hunused hdistinct _
    have hunmapped := hinvariant.maps.unmapped_of_unused hdistinct hunused
    have hindex := (hinvariant.maps.unused _ hunused).2
    exact ⟨_, updateChannel_unused hindex hunmapped (hinvariant.listed _ hunmapped),
      hinvariant.updated hdistinct (.inl ⟨rfl, rfl⟩)⟩
  · intro before events hused
    obtain ⟨index, operation, htracks, hret⟩ :=
      updateChannel_used hinvariant hused events
    exact ⟨_, hret, hinvariant.updated (hinvariant.maps.distinct_of_used hused) htracks⟩
  · intro hused
    obtain ⟨calls, hcalls, hret⟩ := removeChannel_used hinvariant hused
    exact ⟨_, hret, hinvariant.removed hused hcalls⟩

end Steps

/-- The poller watches for the events of the channels in use. -/
theorem Invariant.monitors_iff (hinvariant : Invariant fd poller usage) {descriptor : ℕ} :
    poller.Monitors descriptor events ↔ Monitored fd usage descriptor events := by
  constructor
  · intro hmonitors
    obtain ⟨hregistered, hevents⟩ := hmonitors
    cases hchannel : poller.channels descriptor with
    | none =>
        rw [hinvariant.listed descriptor hchannel] at hregistered
        cases hregistered
    | some i =>
        obtain ⟨hfd, before, hused⟩ := hinvariant.maps.mapped descriptor i hchannel
        subst hfd
        rcases hinvariant.tracks i before hused with ⟨-, htracked⟩ | ⟨-, htracked, -⟩
        · rw [htracked] at hregistered
          cases hregistered
          exact ⟨i, rfl, hused, hevents⟩
        · rw [htracked] at hregistered
          cases hregistered
  · intro hmonitored
    obtain ⟨i, rfl, hused, hevents⟩ := hmonitored
    rcases hinvariant.tracks i events hused with ⟨-, htracked⟩ | ⟨-, -, hnone⟩
    · exact ⟨htracked, hevents⟩
    · exact absurd hnone hevents

end EPollPoller

/-! ## `PollPoller` keeps its row -/

namespace PollPoller

variable {ι : Type u} {fd : ι → ℕ} {poller poller' : PollPoller ι}
  {usage : ι → Usage} {i : ι} {events : Interest}

/-- The slot of a descriptor, which is ignored without events. -/
def slotOf (fd : ℕ) (events : Interest) : PollFd where
  fd := if events = kNoneEvent then ignored fd else fd
  events := events

structure Invariant (fd : ι → ℕ) (poller : PollPoller ι) (usage : ι → Usage) : Prop where
  maps : poller.Maps fd usage
  slots : ∀ i events, usage i = .used events →
    ∃ k : ℕ, (poller.channel i).index = k ∧ poller.pollfds[k]? = some (slotOf (fd i) events)
  filled : ∀ (k : ℕ) (slot : PollFd), poller.pollfds[k]? = some slot →
    ∃ i events, usage i = .used events ∧ (poller.channel i).index = k

theorem Invariant.start (fd : ι → ℕ) : Invariant fd {} fun _ => .unused where
  maps := Poller.Maps.start fd
  slots i events hused := by cases hused
  filled k slot hslot := by cases hslot

theorem ignored_ignored (fd : ℤ) : ignored (ignored fd) = fd := by
  simp only [ignored]
  omega

theorem slotOf_fd_eq_or (fd : ℕ) (events : Interest) :
    (slotOf fd events).fd = fd ∨ (slotOf fd events).fd = ignored fd := by
  by_cases hnone : events = kNoneEvent
  · exact .inr (if_pos hnone)
  · exact .inl (if_neg hnone)

/-- The descriptor can be read off its slot. -/
theorem descriptor_slotOf (fd : ℕ) (events : Interest) :
    (if (slotOf fd events).fd < 0 then ignored (slotOf fd events).fd
      else (slotOf fd events).fd).toNat = fd := by
  rcases slotOf_fd_eq_or fd events with hfd | hfd
  · have hnatural : ¬ (fd : ℤ) < 0 := by omega
    rw [hfd, if_neg hnatural, Int.toNat_natCast]
  · have hnegative : ignored (fd : ℤ) < 0 := by
      simp only [ignored]
      omega
    rw [hfd, if_pos hnegative, ignored_ignored, Int.toNat_natCast]

/-- Different channels have different places. -/
theorem Invariant.eq_of_index (hinvariant : Invariant fd poller usage) {other : ι}
    {events' : Interest} (hused : usage i = .used events) (hother : usage other = .used events')
    (hindex : (poller.channel other).index = (poller.channel i).index) : other = i := by
  obtain ⟨k, hk, hslot⟩ := hinvariant.slots i events hused
  obtain ⟨k', hk', hslot'⟩ := hinvariant.slots other events' hother
  have hsame : k' = k := by
    rw [hk, hk'] at hindex
    exact Int.ofNat.inj hindex
  rw [hsame, hslot] at hslot'
  apply hinvariant.maps.distinct_of_used hused other events' hother
  rw [← descriptor_slotOf (fd i) events, Option.some.inj hslot', descriptor_slotOf]

/-- The slots but one are those of the other channels. -/
theorem Invariant.other_of_slot (hinvariant : Invariant fd poller usage) {k place : ℕ}
    {slot : PollFd} (hindex : (poller.channel i).index = k) (hplace : place ≠ k)
    (hslot : poller.pollfds[place]? = some slot) :
    ∃ other events, usage other = .used events ∧ other ≠ i ∧
      (poller.channel other).index = place := by
  obtain ⟨other, events, hother, hindex'⟩ := hinvariant.filled place slot hslot
  refine ⟨other, events, hother, ?_, hindex'⟩
  intro heq
  rw [heq, hindex] at hindex'
  exact hplace (Int.ofNat.inj hindex').symm

section Steps

variable [DecidableEq ι]

/-- A channel was updated at its place, which no other has. -/
theorem Invariant.updated (hinvariant : Invariant fd poller usage)
    (hdistinct : Distinct fd usage i) (k : ℕ) (pollfds : List PollFd)
    (hplace : ∀ other events', usage other = .used events' →
      ((poller.channel other).index = k ↔ other = i))
    (hslot : pollfds[k]? = some (slotOf (fd i) events))
    (hpollfds : ∀ k', k' ≠ k → pollfds[k']? = poller.pollfds[k']?) :
    Invariant fd { toPoller := poller.toPoller.updated fd i events k, pollfds }
      (Function.update usage i (.used events)) where
  maps := hinvariant.maps.updated hdistinct events k
  slots other events' hother := by
    by_cases hne : other = i
    · subst hne
      rw [Function.update_self] at hother
      cases hother
      exact ⟨k, by simp [Poller.updated], hslot⟩
    · rw [Function.update_of_ne hne] at hother
      obtain ⟨k', hk', hslot'⟩ := hinvariant.slots other events' hother
      have hk'ne : k' ≠ k := by
        intro heq
        rw [heq, hplace other events' hother] at hk'
        exact hne hk'
      exact ⟨k', by simp [Poller.updated, hne, hk'], by rw [hpollfds k' hk'ne, hslot']⟩
  filled k' slot hk' := by
    by_cases heq : k' = k
    · exact ⟨i, events, Function.update_self .., by simp [Poller.updated, heq]⟩
    · rw [hpollfds k' heq] at hk'
      obtain ⟨other, events', hother, hindex⟩ := hinvariant.filled k' slot hk'
      have hne : other ≠ i := by
        intro hsame
        rw [(hplace other events' hother).mpr hsame] at hindex
        exact heq (Int.ofNat.inj hindex).symm
      exact ⟨other, events', by rw [Function.update_of_ne hne, hother],
        by simp [Poller.updated, hne, hindex]⟩

@[simp]
theorem setEvents_channel (poller : PollPoller ι) (i : ι) (events : Interest) :
    (poller.setEvents i events).channel i = { poller.channel i with events } := by
  simp [setEvents, Poller.setEvents]

/-- The first update of a channel puts it at the end of the row. -/
theorem updateChannel_unused (hindex : (poller.channel i).index = -1)
    (hunmapped : poller.channels (fd i) = none) (hevents : events ≠ kNoneEvent) :
    (poller.setEvents i events).updateChannel fd i =
      .ret {
        toPoller := poller.toPoller.updated fd i events poller.pollfds.length
        pollfds := poller.pollfds ++ [slotOf (fd i) events] } := by
  have hfresh : (poller.setEvents i events).channels (fd i) = none := hunmapped
  have hnegative : (-1 : ℤ) < 0 := by decide
  simp only [updateChannel, setEvents_channel, hindex, hfresh, hnegative, if_true]
  simp [setEvents, setIndex, Poller.setEvents, Poller.setIndex, Poller.updated, slotOf, hevents]

/-- Further updates change the slot. -/
theorem updateChannel_used {k : ℕ} {before : Interest}
    (hmapped : poller.channels (fd i) = some i) (hindex : (poller.channel i).index = k)
    (hslot : poller.pollfds[k]? = some (slotOf (fd i) before)) :
    (poller.setEvents i events).updateChannel fd i =
      .ret {
        toPoller := poller.toPoller.updated fd i events k
        pollfds := poller.pollfds.set k (slotOf (fd i) events) } := by
  have hknown : (poller.setEvents i events).channels (fd i) = some i := hmapped
  have hpollfds : (poller.setEvents i events).pollfds = poller.pollfds := rfl
  have hnatural : ¬ (k : ℤ) < 0 := by omega
  have hchannels : Function.update poller.channels (fd i) (some i) = poller.channels := by
    rw [Function.update_eq_self_iff, hmapped]
  simp only [updateChannel, setEvents_channel, hindex, hknown, hpollfds, hnatural, if_true,
    if_false, Int.toNat_natCast, hslot, slotOf_fd_eq_or]
  simp [setEvents, Poller.setEvents, Poller.updated, slotOf, hchannels, hindex]

/-- A new channel gets the slot at the end. -/
theorem Invariant.updateChannel_unused (hinvariant : Invariant fd poller usage)
    (hdistinct : Distinct fd usage i) (hunused : usage i = .unused) :
    Invariant fd {
        toPoller := poller.toPoller.updated fd i events poller.pollfds.length
        pollfds := poller.pollfds ++ [slotOf (fd i) events] }
      (Function.update usage i (.used events)) := by
  apply hinvariant.updated hdistinct
  · intro other events' hother
    obtain ⟨k', hk', hslot'⟩ := hinvariant.slots other events' hother
    have hlt : k' < poller.pollfds.length := (List.getElem?_eq_some_iff.mp hslot').1
    have hne : other ≠ i := by
      intro heq
      rw [heq, hunused] at hother
      cases hother
    rw [hk']
    exact iff_of_false (by omega) hne
  · simp
  · intro k' hk'
    rcases Nat.lt_or_ge k' poller.pollfds.length with hlt | hge
    · exact List.getElem?_append_left hlt
    · rw [List.getElem?_eq_none hge, List.getElem?_eq_none]
      simp
      omega

/-- A channel that is in use keeps its slot. -/
theorem Invariant.updateChannel_used (hinvariant : Invariant fd poller usage)
    {before : Interest} (hused : usage i = .used before) {k : ℕ}
    (hindex : (poller.channel i).index = k) (hlt : k < poller.pollfds.length) :
    Invariant fd {
        toPoller := poller.toPoller.updated fd i events k
        pollfds := poller.pollfds.set k (slotOf (fd i) events) }
      (Function.update usage i (.used events)) := by
  apply hinvariant.updated (hinvariant.maps.distinct_of_used hused)
  · intro other events' hother
    constructor
    · intro hplace
      exact hinvariant.eq_of_index hused hother (by rw [hplace, hindex])
    · intro heq
      rw [heq, hindex]
  · exact List.getElem?_set_self hlt
  · intro k' hk'
    exact List.getElem?_set_ne (Ne.symm hk')

theorem getElem?_swapRemove {slots : List PollFd} {k : ℕ} (hlt : k < slots.length)
    (last : PollFd) (k' : ℕ) :
    (swapRemove slots k last)[k']? =
      if k' < slots.length - 1 then if k' = k then some last else slots[k']? else none := by
  rw [swapRemove, List.getElem?_dropLast, List.length_set]
  by_cases hk' : k' < slots.length - 1
  · rw [if_pos hk', if_pos hk']
    by_cases heq : k' = k
    · rw [if_pos heq, heq, List.getElem?_set_self hlt]
    · rw [if_neg heq, List.getElem?_set_ne (Ne.symm heq)]
  · rw [if_neg hk', if_neg hk']

theorem swapRemove_end {slots : List PollFd} {k : ℕ} (hend : k = slots.length - 1)
    (last : PollFd) : swapRemove slots k last = slots.dropLast := by
  rw [swapRemove, List.dropLast_eq_take, List.dropLast_eq_take, List.length_set,
    List.take_set_of_le (Nat.le_of_eq hend.symm)]

/-- A channel was removed, and the channel at the end of the row has its place. -/
theorem Invariant.removed (hinvariant : Invariant fd poller usage)
    (hused : usage i = .used events) {k : ℕ} {last : PollFd}
    (hindex : (poller.channel i).index = k) (hlt : k < poller.pollfds.length)
    (hlast : poller.pollfds[poller.pollfds.length - 1]? = some last)
    (hremoves : poller.Removes fd poller'.toPoller i)
    (hmoved : ∀ other, poller.channels (fd other) = some other → other ≠ i →
      (poller'.channel other).index =
        if (poller.channel other).index = (poller.pollfds.length - 1 : ℕ) then (k : ℤ)
        else (poller.channel other).index)
    (hpollfds : poller'.pollfds = swapRemove poller.pollfds k last) :
    Invariant fd poller' (Function.update usage i .removed) where
  maps := hinvariant.maps.remove hused hremoves
  slots other events' hother := by
    have hne : other ≠ i := by
      intro heq
      rw [heq, Function.update_self] at hother
      cases hother
    rw [Function.update_of_ne hne] at hother
    obtain ⟨k', hk', hslot'⟩ := hinvariant.slots other events' hother
    have hlt' : k' < poller.pollfds.length := (List.getElem?_eq_some_iff.mp hslot').1
    have hkne : k' ≠ k := by
      intro heq
      exact hne (hinvariant.eq_of_index hused hother (by rw [hk', hindex, heq]))
    rw [hmoved other (hinvariant.maps.used other events' hother).2 hne, hk', hpollfds]
    by_cases hend : k' = poller.pollfds.length - 1
    · refine ⟨k, if_pos (by rw [hend]), ?_⟩
      rw [getElem?_swapRemove hlt, if_pos (by omega), if_pos rfl, ← hlast, ← hend, hslot']
    · refine ⟨k', if_neg fun heq => hend (Int.ofNat.inj heq), ?_⟩
      rw [getElem?_swapRemove hlt, if_pos (by omega), if_neg hkne, hslot']
  filled k' slot hk' := by
    rw [hpollfds, getElem?_swapRemove hlt] at hk'
    split_ifs at hk' with hend heq
    · obtain ⟨other, events', hother, hne, hplace⟩ :=
        hinvariant.other_of_slot hindex (show poller.pollfds.length - 1 ≠ k by omega) hlast
      refine ⟨other, events', by rw [Function.update_of_ne hne, hother], ?_⟩
      rw [hmoved other (hinvariant.maps.used other events' hother).2 hne, hplace, if_pos rfl, heq]
    · obtain ⟨other, events', hother, hne, hplace⟩ := hinvariant.other_of_slot hindex heq hk'
      refine ⟨other, events', by rw [Function.update_of_ne hne, hother], ?_⟩
      rw [hmoved other (hinvariant.maps.used other events' hother).2 hne, hplace, if_neg]
      intro hsame
      exact absurd (Int.ofNat.inj hsame) (Nat.ne_of_lt hend)

/-- The poller after the removal of a channel whose place goes to another. -/
def moved (fd : ι → ℕ) (poller : PollPoller ι) (i other : ι) (k : ℕ) (last : PollFd) :
    PollPoller ι :=
  { ({ poller with
      channels := Function.update poller.channels (fd i) none } : PollPoller ι).setIndex other k
    with pollfds := swapRemove poller.pollfds k last }

/-- A removed channel has its place at the end of the row, or gives it to the channel that
is there. -/
theorem removeChannel_used {k : ℕ} {last : PollFd}
    (hmapped : poller.channels (fd i) = some i) (hevents : (poller.channel i).events = kNoneEvent)
    (hindex : (poller.channel i).index = k)
    (hslot : poller.pollfds[k]? = some (slotOf (fd i) kNoneEvent))
    (hlast : poller.pollfds[poller.pollfds.length - 1]? = some last) :
    poller.removeChannel fd i =
      if k = poller.pollfds.length - 1 then
        .ret { poller with
          channels := Function.update poller.channels (fd i) none
          pollfds := poller.pollfds.dropLast }
      else
        match Function.update poller.channels (fd i) none
          (if last.fd < 0 then ignored last.fd else last.fd).toNat with
        | none => .fault .nullChannel
        | some other => .ret (poller.moved fd i other k last) := by
  have hnatural : 0 ≤ (k : ℤ) := Int.natCast_nonneg k
  have hignored : (slotOf (fd i) kNoneEvent).fd = ignored (fd i) := by simp [slotOf]
  have hslotEvents : (slotOf (fd i) kNoneEvent).events = kNoneEvent := rfl
  have hget : poller.pollfds.getLast? = some last := by
    rw [List.getLast?_eq_getElem?, hlast]
  simp only [removeChannel, hmapped, hevents, hindex, hnatural, and_self, if_true,
    Int.toNat_natCast, hslot, hget, hignored, hslotEvents]
  rfl

/-- The last slot is dropped. -/
theorem Invariant.removeChannel_end (hinvariant : Invariant fd poller usage)
    (hused : usage i = .used events)
    (hindex : (poller.channel i).index = (poller.pollfds.length - 1 : ℕ)) {last : PollFd}
    (hlast : poller.pollfds[poller.pollfds.length - 1]? = some last) :
    Invariant fd { poller with
        channels := Function.update poller.channels (fd i) none
        pollfds := poller.pollfds.dropLast }
      (Function.update usage i .removed) := by
  have hlt : poller.pollfds.length - 1 < poller.pollfds.length :=
    (List.getElem?_eq_some_iff.mp hlast).1
  apply hinvariant.removed hused hindex hlt hlast
  · constructor
    · exact Function.update_self ..
    · intro descriptor hfd
      exact Function.update_of_ne hfd ..
    · intro other
      rfl
    · intro other _
      rfl
  · intro other _ _
    by_cases hother : (poller.channel other).index = (poller.pollfds.length - 1 : ℕ)
    · rw [if_pos hother]
      exact hother
    · rw [if_neg hother]
  · rw [swapRemove_end rfl]

/-- Another slot is filled with the last one. -/
theorem Invariant.removeChannel_moved (hinvariant : Invariant fd poller usage)
    (hused : usage i = .used events) {k : ℕ} (hindex : (poller.channel i).index = k)
    (hlt : k < poller.pollfds.length) {last : PollFd}
    (hlast : poller.pollfds[poller.pollfds.length - 1]? = some last) {other : ι}
    {events' : Interest} (hother : usage other = .used events')
    (hend : (poller.channel other).index = (poller.pollfds.length - 1 : ℕ)) :
    Invariant fd (poller.moved fd i other k last) (Function.update usage i .removed) := by
  apply hinvariant.removed hused hindex hlt hlast
  · constructor
    · exact Function.update_self ..
    · intro descriptor hfd
      exact Function.update_of_ne hfd ..
    · intro third
      by_cases hthird : third = other
      · simp [moved, setIndex, Poller.setIndex, hthird]
      · simp [moved, setIndex, Poller.setIndex, hthird]
    · intro third hunmapped
      have hthird : third ≠ other := by
        intro heq
        rw [heq] at hunmapped
        exact hunmapped (hinvariant.maps.used other events' hother).2
      simp [moved, setIndex, Poller.setIndex, hthird]
  · intro third hmapped hne
    by_cases hthird : third = other
    · rw [hthird, if_pos hend]
      simp [moved, setIndex, Poller.setIndex]
    · have hplace : (poller.channel third).index ≠ (poller.pollfds.length - 1 : ℕ) := by
        intro hsame
        obtain ⟨-, events'', hused'⟩ := hinvariant.maps.mapped _ third hmapped
        exact hthird (hinvariant.eq_of_index hother hused' (by rw [hsame, hend]))
      rw [if_neg hplace]
      simp [moved, setIndex, Poller.setIndex, hthird]
  · rfl

/-- An operation that is allowed succeeds and keeps the invariant. -/
theorem step_invariant {event : Event ι} (hinvariant : Invariant fd poller usage)
    (hallowed : Allowed fd usage event) :
    ∃ poller', poller.step fd event = .ret poller' ∧ Invariant fd poller' (next usage event) := by
  apply hinvariant.maps.run_of_allowed hallowed
  · intro events hunused hdistinct hevents
    exact ⟨_, updateChannel_unused (hinvariant.maps.unused _ hunused).2
      (hinvariant.maps.unmapped_of_unused hdistinct hunused) hevents,
      hinvariant.updateChannel_unused hdistinct hunused⟩
  · intro before events hused
    obtain ⟨k, hindex, hslot⟩ := hinvariant.slots _ before hused
    have hlt : k < poller.pollfds.length := (List.getElem?_eq_some_iff.mp hslot).1
    exact ⟨_, updateChannel_used (hinvariant.maps.used _ before hused).2 hindex hslot,
      hinvariant.updateChannel_used hused hindex hlt⟩
  · intro hused
    obtain ⟨hevents, hmapped⟩ := hinvariant.maps.used _ _ hused
    obtain ⟨k, hindex, hslot⟩ := hinvariant.slots _ _ hused
    have hlt : k < poller.pollfds.length := (List.getElem?_eq_some_iff.mp hslot).1
    obtain ⟨last, hlast⟩ : ∃ last, poller.pollfds[poller.pollfds.length - 1]? = some last :=
      ⟨_, List.getElem?_eq_getElem (by omega)⟩
    rw [removeChannel_used hmapped hevents hindex hslot hlast]
    by_cases hend : k = poller.pollfds.length - 1
    · rw [if_pos hend]
      exact ⟨_, rfl, hinvariant.removeChannel_end hused (by rw [hindex, hend]) hlast⟩
    · obtain ⟨other, events', hother, hne, hplace⟩ :=
        hinvariant.other_of_slot hindex (Ne.symm hend) hlast
      obtain ⟨k', hk', hslot'⟩ := hinvariant.slots other events' hother
      have hsame : k' = poller.pollfds.length - 1 := Int.ofNat.inj (hk'.symm.trans hplace)
      rw [hsame, hlast, Option.some.injEq] at hslot'
      have hfd : fd other ≠ fd event.channel := fun hfd =>
        hne (hinvariant.maps.distinct_of_used hused other events' hother hfd)
      rw [if_neg hend, hslot', descriptor_slotOf, Function.update_of_ne hfd,
        (hinvariant.maps.used other events' hother).2]
      rw [← hslot']
      exact ⟨_, rfl, hinvariant.removeChannel_moved hused hindex hlt hlast hother hplace⟩

end Steps

/-- Each channel that is known has a slot of its own, with its descriptor or the number that
stands for it while it is ignored, and there are no other slots. -/
structure OneSlotEach (fd : ι → ℕ) (poller : PollPoller ι) : Prop where
  slot : ∀ descriptor i, poller.channels descriptor = some i →
    fd i = descriptor ∧ ∃ k : ℕ, (poller.channel i).index = k ∧
      ∃ slot, poller.pollfds[k]? = some slot ∧ (slot.fd = fd i ∨ slot.fd = ignored (fd i))
  distinct : ∀ descriptor i descriptor' other, poller.channels descriptor = some i →
    poller.channels descriptor' = some other →
    (poller.channel other).index = (poller.channel i).index → other = i
  known : ∀ (k : ℕ) (slot : PollFd), poller.pollfds[k]? = some slot →
    ∃ i, poller.channels (fd i) = some i ∧ (poller.channel i).index = k

/-- Every channel in use has one slot, and every slot one channel. -/
theorem Invariant.oneSlotEach (hinvariant : Invariant fd poller usage) :
    poller.OneSlotEach fd where
  slot descriptor i hmapped := by
    obtain ⟨hfd, events, hused⟩ := hinvariant.maps.mapped descriptor i hmapped
    obtain ⟨k, hindex, hslot⟩ := hinvariant.slots i events hused
    exact ⟨hfd, k, hindex, _, hslot, slotOf_fd_eq_or (fd i) events⟩
  distinct descriptor i descriptor' other hmapped hmapped' hindex := by
    obtain ⟨-, events, hused⟩ := hinvariant.maps.mapped descriptor i hmapped
    obtain ⟨-, events', hother⟩ := hinvariant.maps.mapped descriptor' other hmapped'
    exact hinvariant.eq_of_index hused hother hindex
  known k slot hslot := by
    obtain ⟨i, events, hused, hindex⟩ := hinvariant.filled k slot hslot
    exact ⟨i, (hinvariant.maps.used i events hused).2, hindex⟩

/-- The poller watches for the events of the channels in use. -/
theorem Invariant.monitors_iff (hinvariant : Invariant fd poller usage) {descriptor : ℕ} :
    poller.Monitors descriptor events ↔ Monitored fd usage descriptor events := by
  constructor
  · intro hmonitors
    obtain ⟨hmem, hevents⟩ := hmonitors
    obtain ⟨k, hk⟩ := List.mem_iff_getElem?.mp hmem
    obtain ⟨i, before, hused, hindex⟩ := hinvariant.filled k _ hk
    obtain ⟨k', hk', hslot⟩ := hinvariant.slots i before hused
    have hsame : k' = k := Int.ofNat.inj (hk'.symm.trans hindex)
    rw [hsame, hk, Option.some.injEq] at hslot
    have hbefore : before = events := congrArg PollFd.events hslot.symm
    have hfd : fd i = descriptor := by
      have heq := congrArg PollFd.fd hslot
      rw [hbefore, slotOf, if_neg hevents] at heq
      exact (Int.ofNat.inj heq).symm
    exact ⟨i, hfd, by rw [hused, hbefore], hevents⟩
  · intro hmonitored
    obtain ⟨i, rfl, hused, hevents⟩ := hmonitored
    obtain ⟨k, -, hslot⟩ := hinvariant.slots i events hused
    rw [slotOf, if_neg hevents] at hslot
    exact ⟨List.mem_iff_getElem?.mpr ⟨k, hslot⟩, hevents⟩

end PollPoller

/-! ## Both pollers agree -/

section Agreement

variable {ι : Type u} [DecidableEq ι]

/-- The same operations go through with both pollers.  The kernel accepts what `EPollPoller`
asks for, `PollPoller` keeps a slot for each channel, and both monitor the same. -/
theorem pollers_agree (fd : ι → ℕ) (events : List (Event ι))
    (hallowed : Meets
      (fun usage event => (.ret (next usage event) : Exec PollerFault (ι → Usage)))
      (Allowed fd) (fun _ => .unused) events) :
    ∃ (epoll : EPollPoller ι) (poll : PollPoller ι),
      runFrom (EPollPoller.step fd) {} events = .ret epoll ∧
      runFrom (PollPoller.step fd) {} events = .ret poll ∧
      (∀ call ∈ epoll.calls, call.accepted = true) ∧
      poll.OneSlotEach fd ∧
      ∀ descriptor interest,
        epoll.Monitors descriptor interest ↔ poll.Monitors descriptor interest := by
  have hepoll := refines_of_next_meets (fun _ _ => id)
    (fun poller usage event => EPollPoller.step_invariant)
    (EPollPoller.Invariant.start fd) hallowed
  have hpoll := refines_of_next_meets (fun _ _ => id)
    (fun poller usage event => PollPoller.step_invariant)
    (PollPoller.Invariant.start fd) hallowed
  obtain ⟨epoll, hrun, hinvariant⟩ := hepoll events List.prefix_rfl
  obtain ⟨poll, hrun', hinvariant'⟩ := hpoll events List.prefix_rfl
  refine ⟨epoll, poll, hrun, hrun', hinvariant.accepted, hinvariant'.oneSlotEach, ?_⟩
  intro descriptor interest
  rw [hinvariant.monitors_iff, hinvariant'.monitors_iff]

end Agreement

/-- A channel that is disabled twice and removed, while another takes its place in the row. -/
def someEvents : List (Event Bool) :=
  [⟨true, .enableReading⟩, ⟨false, .enableReading⟩, ⟨true, .disableReading⟩,
    ⟨true, .disableAll⟩, ⟨false, .enableWriting⟩, ⟨true, .disableWriting⟩, ⟨true, .remove⟩,
    ⟨false, .disableReading⟩]

theorem someEvents_agree :
    ∃ (epoll : EPollPoller Bool) (poll : PollPoller Bool),
      runFrom (EPollPoller.step Bool.toNat) {} someEvents = .ret epoll ∧
      runFrom (PollPoller.step Bool.toNat) {} someEvents = .ret poll ∧
      (∀ call ∈ epoll.calls, call.accepted = true) ∧
      poll.OneSlotEach Bool.toNat ∧
      ∀ descriptor interest,
        epoll.Monitors descriptor interest ↔ poll.Monitors descriptor interest :=
  pollers_agree Bool.toNat someEvents (by decide)

end Cuber.Pollers
