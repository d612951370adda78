import Cuber.Core.OrderedSets
import Cuber.Core.Refinement

/-!
# The timer queue

`TimerQueue` keeps its timers in two sets: by expiration, to find those that
are due, and by pointer and sequence number, to find one that is cancelled.
When the timerfd fires it takes the timers that are due out of both, runs
their callbacks, and puts back those that repeat and were not cancelled.

The callbacks add and cancel timers themselves, so the parts of `handleRead`
are steps of their own: it takes the timers out, runs one after the other, and
resets what is left.
-/

namespace Cuber.Timers

open Cuber.Execution
open Cuber.OrderedSets
open Cuber.Refinement
open Cuber.Runs

/-! ## The queue -/

inductive TimerFault where
  | assertionFailed
  /-- A pointer to a timer that was deleted is followed. -/
  | danglingPointer
  deriving DecidableEq

/-- Times and intervals are in microseconds; they and their sums are taken to be below `2 ^ 63`,
the range of `int64_t`. -/
structure Timer where
  expiration : ℕ
  interval : ℕ
  repeats : Bool
  sequence : ℕ
  deriving DecidableEq

def Timer.restart (timer : Timer) (now : ℕ) : Timer :=
  { timer with expiration := if timer.repeats then now + timer.interval else 0 }

abbrev Entry := ℕ ×ₗ ℕ

/-- The address of a timer and its sequence number. -/
abbrev ActiveTimer := ℕ × ℕ

def uintptrMax : ℕ := 2 ^ 64 - 1

/-- The queue, the timers in memory and the timerfd. -/
structure TimerQueue where
  timers : Finset Entry := ∅
  activeTimers : Finset ActiveTimer := ∅
  callingExpiredTimers : Bool := false
  cancelingTimers : Finset ActiveTimer := ∅
  /-- What is at an address. -/
  heap : ℕ → Option Timer := fun _ => none
  numCreated : ℕ := 0
  /-- The pointer in the `TimerId` with a sequence number. -/
  pointer : ℕ → ℕ := fun _ => 0
  /-- The timers for which `addTimerInLoop` is still to be called. -/
  posted : Finset ℕ := ∅
  /-- When the timerfd fires, or has fired and was not read. -/
  alarm : Option ℕ := none
  lastArmed : ℕ := 0
  /-- The time at which the `handleRead` in progress began. -/
  reading : Option ℕ := none
  expired : List Entry := []
  /-- The entries of `expired` that are still to be run. -/
  waiting : List Entry := []
  /-- The expirations and sequence numbers of the timers that the last `handleRead` ran. -/
  ran : List (ℕ × ℕ) := []

namespace TimerQueue

def deref (queue : TimerQueue) (address : ℕ) : Exec TimerFault Timer :=
  match queue.heap address with
  | some timer => .ret timer
  | none => .fault .danglingPointer

/-- The assertion that both sets have the same size. -/
def checkSizes (queue : TimerQueue) : Exec TimerFault TimerQueue :=
  if queue.timers.card = queue.activeTimers.card then .ret queue else .fault .assertionFailed

def howMuchTimeFromNow (expiration now : ℕ) : ℤ :=
  if (expiration : ℤ) - now < 100 then 100 else (expiration : ℤ) - now

/-- The timerfd is armed at the time `now`. -/
def resetTimerfd (queue : TimerQueue) (expiration now : ℕ) : TimerQueue :=
  { queue with
    alarm := some (now + howMuchTimeFromNow expiration now).toNat
    lastArmed := now }

def readTimerfd (queue : TimerQueue) (now : ℕ) : TimerQueue :=
  { queue with alarm := queue.alarm.filter (now < ·) }

/-- `TimerQueue::insert`, which tells whether the first expiration has changed. -/
def insert (queue : TimerQueue) (address : ℕ) : Exec TimerFault (TimerQueue × Bool) :=
  queue.checkSizes.bind fun queue =>
    (queue.deref address).bind fun timer =>
      let earliestChanged :=
        match first queue.timers with
        | none => true
        | some entry => decide (timer.expiration < (ofLex entry).1)
      if toLex (timer.expiration, address) ∈ queue.timers then .fault .assertionFailed
      else if (address, timer.sequence) ∈ queue.activeTimers then .fault .assertionFailed
      else
        (TimerQueue.checkSizes { queue with
          timers := Insert.insert (toLex (timer.expiration, address)) queue.timers
          activeTimers := Insert.insert (address, timer.sequence) queue.activeTimers }).bind
          fun queue => .ret (queue, earliestChanged)

def addTimerInLoop (queue : TimerQueue) (address now : ℕ) : Exec TimerFault TimerQueue :=
  (queue.insert address).bind fun (queue, earliestChanged) =>
    if earliestChanged then
      (queue.deref address).bind fun timer => .ret (queue.resetTimerfd timer.expiration now)
    else .ret queue

def cancelInLoop (queue : TimerQueue) (timer : ActiveTimer) : Exec TimerFault TimerQueue :=
  queue.checkSizes.bind fun queue =>
    (if timer ∈ queue.activeTimers then
      (queue.deref timer.1).bind fun found =>
        if toLex (found.expiration, timer.1) ∈ queue.timers then
          .ret { queue with
            timers := queue.timers.erase (toLex (found.expiration, timer.1))
            heap := Function.update queue.heap timer.1 none
            activeTimers := queue.activeTimers.erase timer }
        else .fault .assertionFailed
    else if queue.callingExpiredTimers then
      .ret { queue with cancelingTimers := Insert.insert timer queue.cancelingTimers }
    else .ret queue).bind checkSizes

/-- The loop of `getExpired` over what it has taken out of `timers_`. -/
def eraseActive (queue : TimerQueue) : List Entry → Exec TimerFault TimerQueue
  | [] => .ret queue
  | entry :: entries =>
      (queue.deref (ofLex entry).2).bind fun timer =>
        if ((ofLex entry).2, timer.sequence) ∈ queue.activeTimers then
          ({ queue with
            activeTimers :=
              queue.activeTimers.erase ((ofLex entry).2, timer.sequence) } : TimerQueue).eraseActive
            entries
        else .fault .assertionFailed

def getExpired (queue : TimerQueue) (now : ℕ) : Exec TimerFault (List Entry × TimerQueue) :=
  queue.checkSizes.bind fun queue =>
    let sentry : Entry := toLex (now, uintptrMax)
    let expired := inOrder (queue.timers.filter (· < sentry))
    let later := queue.timers.filter (sentry ≤ ·)
    if (first later).all fun entry => now < (ofLex entry).1 then
      (({ queue with timers := later } : TimerQueue).eraseActive expired).bind fun queue =>
        queue.checkSizes.bind fun queue => .ret (expired, queue)
    else .fault .assertionFailed

/-- `TimerQueue::handleRead` up to the callbacks. -/
def handleRead (queue : TimerQueue) (now : ℕ) : Exec TimerFault TimerQueue :=
  ((queue.readTimerfd now).getExpired now).bind fun (expired, queue) =>
    .ret { queue with
      callingExpiredTimers := true
      cancelingTimers := ∅
      reading := some now
      expired
      waiting := expired
      ran := [] }

def run (queue : TimerQueue) : Exec TimerFault TimerQueue :=
  match queue.waiting with
  | [] => .ret queue
  | entry :: entries =>
      (queue.deref (ofLex entry).2).bind fun timer =>
        .ret { queue with
          waiting := entries
          ran := queue.ran ++ [((ofLex entry).1, timer.sequence)] }

/-- The loop of `reset` over the timers that were run. -/
def resetEach (queue : TimerQueue) (now : ℕ) : List Entry → Exec TimerFault TimerQueue
  | [] => .ret queue
  | entry :: entries =>
      (queue.deref (ofLex entry).2).bind fun timer =>
        if timer.repeats ∧
            ((ofLex entry).2, timer.sequence) ∉ queue.cancelingTimers then
          (({ queue with
            heap := Function.update queue.heap (ofLex entry).2
              (some (timer.restart now)) } : TimerQueue).insert (ofLex entry).2).bind
            fun (queue, _) => queue.resetEach now entries
        else
          ({ queue with
            heap := Function.update queue.heap (ofLex entry).2 none } : TimerQueue).resetEach now
            entries

/-- `TimerQueue::reset`, at the time `armingTime`. -/
def reset (queue : TimerQueue) (now armingTime : ℕ) : Exec TimerFault TimerQueue :=
  (queue.resetEach now queue.expired).bind fun queue =>
    match first queue.timers with
    | none => .ret queue
    | some entry =>
        (queue.deref (ofLex entry).2).bind fun timer =>
          if 0 < timer.expiration then .ret (queue.resetTimerfd timer.expiration armingTime)
          else .ret queue

/-- `TimerQueue::handleRead` from the last callback on. -/
def finish (queue : TimerQueue) (armingTime : ℕ) : Exec TimerFault TimerQueue :=
  match queue.reading with
  | none => .ret queue
  | some now =>
      (({ queue with callingExpiredTimers := false } : TimerQueue).reset now armingTime).bind
        fun queue => .ret { queue with reading := none, expired := [] }

end TimerQueue

abbrev Time := { time : ℕ // 0 < time }

inductive Event where
  /-- A timer is created, by any thread. -/
  | create (address : ℕ) (expiration : Time) (interval : ℕ) (repeats : Bool)
  /-- A timer that was created is added. -/
  | add (sequence : ℕ) (now : Time)
  | cancel (sequence : ℕ)
  | handleRead (now : Time)
  | run
  | finish (now : Time)

namespace TimerQueue

/-- The constructor of `Timer`, and the post of `addTimerInLoop`. -/
def create (queue : TimerQueue) (address : ℕ) (timer : Timer) : TimerQueue :=
  { queue with
    heap := Function.update queue.heap address (some timer)
    numCreated := timer.sequence
    pointer := Function.update queue.pointer timer.sequence address
    posted := Insert.insert timer.sequence queue.posted }

def step (queue : TimerQueue) : Event → Exec TimerFault TimerQueue
  | .create address expiration interval repeats =>
      .ret (queue.create address
        { expiration, interval, repeats, sequence := queue.numCreated + 1 })
  | .add sequence now =>
      (queue.addTimerInLoop (queue.pointer sequence) now).bind fun queue =>
        .ret { queue with posted := queue.posted.erase sequence }
  | .cancel sequence => queue.cancelInLoop (queue.pointer sequence, sequence)
  | .handleRead now => queue.handleRead now
  | .run => queue.run
  | .finish now => queue.finish now

/-- Memory for a timer is free and does not end at the last address; a timer is added once;
and the parts of `handleRead` follow each other. -/
def Allowed (queue : TimerQueue) : Event → Prop
  | .create address _ _ _ => queue.heap address = none ∧ address < uintptrMax
  | .add sequence _ => sequence ∈ queue.posted
  | .cancel _ => True
  | .handleRead _ => queue.reading = none
  | .run => queue.waiting ≠ []
  | .finish _ => queue.reading ≠ none ∧ queue.waiting = []

instance (queue : TimerQueue) : ∀ event, Decidable (queue.Allowed event)
  | .create _ _ _ _ => inferInstanceAs (Decidable (_ ∧ _))
  | .add _ _ => inferInstanceAs (Decidable (_ ∈ _))
  | .cancel _ => inferInstanceAs (Decidable True)
  | .handleRead _ => inferInstanceAs (Decidable (_ = _))
  | .run => inferInstanceAs (Decidable (_ ≠ _))
  | .finish _ => inferInstanceAs (Decidable (_ ∧ _))

end TimerQueue

/-! ## What the queue is for -/

/-- The timers that are to expire, by sequence number. -/
structure Schedule where
  live : ℕ → Option Timer := fun _ => none
  /-- Timers that are yet to be added. -/
  posted : ℕ → Option Timer := fun _ => none
  created : ℕ := 0
  /-- The timers that were due at the last `handleRead`. -/
  due : ℕ → Option Timer := fun _ => none

/-- What becomes of a timer that was due: it is gone, or repeats. -/
def Timer.again (timer : Timer) (now : ℕ) : Option Timer :=
  if timer.repeats then some (timer.restart now) else none

namespace Schedule

/-- How the queue goes on: a cancel passes by a timer that is yet to be added. -/
def next (schedule : Schedule) : Event → Schedule
  | .create _ expiration interval repeats =>
      { schedule with
        posted := Function.update schedule.posted (schedule.created + 1)
          (some { expiration, interval, repeats, sequence := schedule.created + 1 })
        created := schedule.created + 1 }
  | .add sequence _ =>
      { schedule with
        live := Function.update schedule.live sequence (schedule.posted sequence)
        posted := Function.update schedule.posted sequence none }
  | .cancel sequence =>
      { schedule with live := Function.update schedule.live sequence none }
  | .handleRead now =>
      { schedule with
        live := fun sequence => (schedule.live sequence).bind fun timer =>
          if timer.expiration ≤ now then timer.again now else some timer
        due := fun sequence =>
          (schedule.live sequence).filter fun timer => timer.expiration ≤ now }
  | .run | .finish _ => schedule

/-- What the events ask for: a timer that is cancelled before it is added is not to expire
either. -/
def asked (schedule : Schedule) : Event → Schedule
  | .cancel sequence =>
      { schedule.next (.cancel sequence) with
        posted := Function.update schedule.posted sequence none }
  | .create address expiration interval repeats =>
      schedule.next (.create address expiration interval repeats)
  | .add sequence now => schedule.next (.add sequence now)
  | .handleRead now => schedule.next (.handleRead now)
  | .run | .finish _ => schedule

/-- A timer is added only if it was not cancelled since it was created. -/
def AddsAsked (schedule : Schedule) : Event → Prop
  | .add sequence _ => (schedule.posted sequence).isSome = true
  | .create _ _ _ _ | .cancel _ | .handleRead _ | .run | .finish _ => True

instance (schedule : Schedule) : ∀ event, Decidable (schedule.AddsAsked event)
  | .add _ _ => inferInstanceAs (Decidable (_ = _))
  | .create _ _ _ _ | .cancel _ | .handleRead _ | .run | .finish _ => .isTrue trivial

end Schedule

/-- Timers have run in the order of their expirations, each once, and they are those that
were due. -/
structure RanDue (ran : List (ℕ × ℕ)) (due : ℕ → Option Timer) : Prop where
  sorted : ran.Pairwise fun earlier later => earlier.1 ≤ later.1
  once : (ran.map Prod.snd).Nodup
  exact : ∀ expiration sequence, (expiration, sequence) ∈ ran ↔
    ∃ timer, due sequence = some timer ∧ timer.expiration = expiration

/-- Outside `handleRead` both sets have exactly the timers that are to expire, the last
`handleRead` has run those that were due, and the timerfd is armed for the first timer. -/
structure Consistent (queue : TimerQueue) (schedule : Schedule) : Prop where
  timers : queue.reading = none → ∀ entry, entry ∈ queue.timers ↔
    ∃ sequence timer, schedule.live sequence = some timer ∧
      entry = toLex (timer.expiration, queue.pointer sequence)
  activeTimers : queue.reading = none → ∀ active, active ∈ queue.activeTimers ↔
    ∃ sequence timer, schedule.live sequence = some timer ∧
      active = (queue.pointer sequence, sequence)
  /-- Every timer is there once. -/
  distinct : queue.reading = none → ∀ sequence timer other timer',
    schedule.live sequence = some timer → schedule.live other = some timer' →
      queue.pointer sequence = queue.pointer other → sequence = other
  ran : queue.reading = none → RanDue queue.ran schedule.due
  armed : queue.reading = none → ∀ entry, first queue.timers = some entry →
    ∃ alarm, queue.alarm = some alarm ∧
      alarm ≤ max (ofLex entry).1 (queue.lastArmed + 100)

end Cuber.Timers
