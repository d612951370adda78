import Cuber.Core.Execution

/-!
# The tasks of an event loop

Any thread may ask an `EventLoop` to run a functor.  It is put at the end of a
list, under a mutex, and the loop takes the list over after each poll.  A poll
may last long; to end it, the eventfd of the loop is written to.  The loop
thread itself does so for functors that come up while others are run, since it
has taken the list over already; for those that come up while events are
handled it need not.

A run is any interleaving of the steps of the loop thread with those of other
threads.  An event that is not possible in a state leaves it as it is.
-/

namespace Cuber.EventLoops

universe u v

inductive Phase where
  /-- About to test `quit_`. -/
  | tests
  /-- Blocked in `poll`. -/
  | polls
  /-- In the handlers of the active channels. -/
  | handles
  /-- In `doPendingFunctors`, about to take the list over. -/
  | swaps
  | runs
  /-- `loop` has returned. -/
  | returned
  deriving DecidableEq

def counterMax : ℕ := 2 ^ 64 - 2

/-- The loop, the eventfd, and what the threads are about to do. -/
structure EventLoop (Thread : Type u) (Functor : Type v) where
  phase : Phase := .tests
  quit : Bool := false
  callingPendingFunctors : Bool := false
  pendingFunctors : List Functor := []
  /-- What is left of the list that was taken over. -/
  functors : List Functor := []
  /-- The loop thread is in `queueInLoop`, past the push. -/
  queueing : Bool := false
  /-- Other threads that are in `queueInLoop`, past the push. -/
  owing : Finset Thread := ∅
  /-- The value of the eventfd. -/
  counter : ℕ := 0
  /-- All functors that were run, or are being run. -/
  executed : List Functor := []

inductive Event (Thread : Type u) (Functor : Type v) where
  /-- The loop thread goes on. -/
  | advance
  /-- The handler of the eventfd is called. -/
  | handleRead
  /-- The loop thread pushes a functor, in a handler or in a functor. -/
  | push (functor : Functor)
  /-- The loop thread leaves `queueInLoop`. -/
  | leave
  /-- Another thread pushes a functor. -/
  | pushFrom (thread : Thread) (functor : Functor)
  /-- It leaves `queueInLoop`. -/
  | leaveFrom (thread : Thread)
  /-- Some thread calls `quit`, up to its wakeup. -/
  | quit
  /-- A wakeup for another reason. -/
  | wakeup

namespace EventLoop

variable {Thread : Type u} {Functor : Type v}

/-- `EventLoop::wakeup`.  The write fails when the eventfd is full. -/
def wakeup (loop : EventLoop Thread Functor) : EventLoop Thread Functor :=
  { loop with counter := if loop.counter < counterMax then loop.counter + 1 else loop.counter }

def handleRead (loop : EventLoop Thread Functor) : EventLoop Thread Functor :=
  { loop with counter := 0 }

/-- The first half of `queueInLoop`. -/
def pushBack (loop : EventLoop Thread Functor) (functor : Functor) : EventLoop Thread Functor :=
  { loop with pendingFunctors := loop.pendingFunctors ++ [functor] }

def advance (loop : EventLoop Thread Functor) : EventLoop Thread Functor :=
  match loop.phase with
  | .tests => { loop with phase := if loop.quit then .returned else .polls }
  | .polls => { loop with phase := .handles }
  | .handles => { loop with phase := .swaps, callingPendingFunctors := true }
  | .swaps =>
      { loop with
        phase := .runs
        functors := loop.pendingFunctors
        pendingFunctors := [] }
  | .runs =>
      match loop.functors with
      | [] => { loop with phase := .tests, callingPendingFunctors := false }
      | functor :: functors =>
          { loop with functors, executed := loop.executed ++ [functor] }
  | .returned => loop

def step [DecidableEq Thread] (loop : EventLoop Thread Functor) :
    Event Thread Functor → EventLoop Thread Functor
  | .advance => if loop.queueing then loop else loop.advance
  | .handleRead =>
      if loop.phase = .handles ∧ loop.queueing = false then loop.handleRead else loop
  | .push functor =>
      if (loop.phase = .handles ∨ loop.phase = .runs) ∧ loop.queueing = false then
        { loop.pushBack functor with queueing := true }
      else loop
  | .leave =>
      if loop.queueing then
        if loop.callingPendingFunctors then { loop.wakeup with queueing := false }
        else { loop with queueing := false }
      else loop
  | .pushFrom thread functor =>
      if thread ∈ loop.owing then loop
      else { loop.pushBack functor with owing := insert thread loop.owing }
  | .leaveFrom thread =>
      if thread ∈ loop.owing then { loop.wakeup with owing := loop.owing.erase thread }
      else loop
  | .quit => { loop with quit := true }
  | .wakeup => loop.wakeup

/-- The functor that an event pushes, if its thread can push in this state. -/
def pushedBy [DecidableEq Thread] (loop : EventLoop Thread Functor) :
    Event Thread Functor → List Functor
  | .push functor =>
      if (loop.phase = .handles ∨ loop.phase = .runs) ∧ loop.queueing = false then [functor]
      else []
  | .pushFrom thread functor => if thread ∈ loop.owing then [] else [functor]
  | .advance | .handleRead | .leave | .leaveFrom _ | .quit | .wakeup => []

/-- The functors that the threads push, in the order of the events. -/
def pushes [DecidableEq Thread] :
    EventLoop Thread Functor → List (Event Thread Functor) → List Functor
  | _, [] => []
  | loop, event :: events => loop.pushedBy event ++ (loop.step event).pushes events

/-- All functors that the loop knows of: those that were run, and those that are to be. -/
def tasks (loop : EventLoop Thread Functor) : List Functor :=
  loop.executed ++ loop.functors ++ loop.pendingFunctors

/-- The loop takes the list over before it polls again. -/
def TakesOver (loop : EventLoop Thread Functor) : Prop :=
  loop.phase = .handles ∨ loop.phase = .swaps ∨ loop.phase = .returned

def WakesUp (loop : EventLoop Thread Functor) : Prop :=
  loop.counter ≠ 0 ∨ loop.owing.Nonempty ∨ loop.queueing = true

structure Invariant (loop : EventLoop Thread Functor) : Prop where
  calling : loop.callingPendingFunctors = true ↔ loop.phase = .swaps ∨ loop.phase = .runs
  queueing : loop.queueing = true → loop.phase = .handles ∨ loop.phase = .runs
  batch : loop.phase ≠ .runs → loop.functors = []
  wakes : ¬ loop.TakesOver → loop.pendingFunctors ≠ [] → loop.WakesUp

section Steps

variable {loop : EventLoop Thread Functor}

theorem counter_wakeup (loop : EventLoop Thread Functor) : loop.wakeup.counter ≠ 0 := by
  change (if loop.counter < counterMax then loop.counter + 1 else loop.counter) ≠ 0
  split_ifs with hroom
  · exact Nat.succ_ne_zero _
  · intro hzero
    rw [hzero] at hroom
    exact hroom (by decide)

/-- A wakeup changes the eventfd only. -/
theorem Invariant.wakeup (hinvariant : Invariant loop) : Invariant loop.wakeup where
  calling := hinvariant.calling
  queueing := hinvariant.queueing
  batch := hinvariant.batch
  wakes := fun _ _ => Or.inl (counter_wakeup loop)

theorem tasks_pushBack (loop : EventLoop Thread Functor) (functor : Functor) :
    (loop.pushBack functor).tasks = loop.tasks ++ [functor] :=
  (List.append_assoc _ _ _).symm

/-- The loop thread runs what it takes over, and keeps the rest. -/
theorem tasks_advance (hinvariant : Invariant loop) : loop.advance.tasks = loop.tasks := by
  cases hphase : loop.phase with
  | tests | polls | handles =>
      rw [advance, hphase]
      rfl
  | returned => rw [advance, hphase]
  | swaps =>
      have hbatch : loop.functors = [] := hinvariant.batch (by simp [hphase])
      rw [advance, hphase]
      dsimp only
      rw [tasks, tasks, hbatch, List.append_nil, List.append_nil]
  | runs =>
      rw [advance, hphase]
      dsimp only
      cases hfunctors : loop.functors with
      | nil => rw [tasks, tasks, hfunctors]
      | cons functor functors =>
          dsimp only
          rw [tasks, tasks, hfunctors, ← List.append_cons]

/-- A step adds what it pushes at the end, and nothing else. -/
theorem tasks_step [DecidableEq Thread] (hinvariant : Invariant loop)
    (event : Event Thread Functor) :
    (loop.step event).tasks = loop.tasks ++ loop.pushedBy event := by
  cases event with
  | advance =>
      rw [step, pushedBy, List.append_nil]
      split_ifs
      · rfl
      · exact tasks_advance hinvariant
  | push functor =>
      rw [step, pushedBy]
      split_ifs
      · exact tasks_pushBack loop functor
      · exact (List.append_nil _).symm
  | pushFrom thread functor =>
      rw [step, pushedBy]
      split_ifs
      · exact (List.append_nil _).symm
      · exact tasks_pushBack loop functor
  | handleRead | leave | leaveFrom thread =>
      rw [step, pushedBy, List.append_nil]
      split_ifs <;> rfl
  | quit | wakeup => exact (List.append_nil _).symm

/-- The loop thread takes over all there is, and then runs it. -/
theorem Invariant.advance (hinvariant : Invariant loop) (hidle : loop.queueing = false) :
    Invariant loop.advance := by
  have hqueueing : ∀ phases : Prop, loop.queueing = true → phases := by
    intro phases hqueues
    rw [hidle] at hqueues
    cases hqueues
  cases hphase : loop.phase with
  | tests =>
      have hbatch : loop.functors = [] := hinvariant.batch (by simp [hphase])
      have hcalling : loop.callingPendingFunctors ≠ true :=
        hinvariant.calling.not.mpr (by simp [hphase])
      rw [EventLoop.advance, hphase]
      refine ⟨?_, hqueueing _, fun _ => hbatch, ?_⟩
      · cases hquit : loop.quit with
        | true => simp [hcalling]
        | false => simp [hcalling]
      · exact fun _ => hinvariant.wakes (by simp [TakesOver, hphase])
  | polls =>
      have hbatch : loop.functors = [] := hinvariant.batch (by simp [hphase])
      have hcalling : loop.callingPendingFunctors ≠ true :=
        hinvariant.calling.not.mpr (by simp [hphase])
      rw [EventLoop.advance, hphase]
      refine ⟨?_, hqueueing _, fun _ => hbatch, ?_⟩
      · simp [hcalling]
      · exact fun hnot => absurd (Or.inl rfl) hnot
  | handles =>
      have hbatch : loop.functors = [] := hinvariant.batch (by simp [hphase])
      rw [EventLoop.advance, hphase]
      refine ⟨?_, hqueueing _, fun _ => hbatch, ?_⟩
      · simp
      · exact fun hnot => absurd (Or.inr (Or.inl rfl)) hnot
  | swaps =>
      have hbatch : loop.functors = [] := hinvariant.batch (by simp [hphase])
      have hcalling : loop.callingPendingFunctors = true :=
        hinvariant.calling.mpr (Or.inl hphase)
      rw [EventLoop.advance, hphase]
      refine ⟨?_, hqueueing _, ?_, ?_⟩
      · simp [hcalling]
      · exact fun hother => absurd rfl hother
      · exact fun _ hpending => absurd rfl hpending
  | runs =>
      have hcalling : loop.callingPendingFunctors = true :=
        hinvariant.calling.mpr (Or.inr hphase)
      have hwakes := hinvariant.wakes (by simp [TakesOver, hphase])
      cases hfunctors : loop.functors with
      | nil =>
          rw [EventLoop.advance, hphase]
          dsimp only
          rw [hfunctors]
          refine ⟨?_, hqueueing _, fun _ => rfl, fun _ => hwakes⟩
          simp
      | cons functor functors =>
          rw [EventLoop.advance, hphase]
          dsimp only
          rw [hfunctors]
          refine ⟨?_, hqueueing _, ?_, fun _ => hwakes⟩
          · simp [hcalling]
          · exact fun hother => absurd rfl hother
  | returned =>
      rw [EventLoop.advance, hphase]
      exact hinvariant

/-- A step of the loop or of another thread keeps the invariant. -/
theorem Invariant.step [DecidableEq Thread] (hinvariant : Invariant loop)
    (event : Event Thread Functor) : Invariant (loop.step event) := by
  cases event with
  | advance =>
      rw [EventLoop.step]
      split_ifs with hqueueing
      · exact hinvariant
      · exact hinvariant.advance (Bool.eq_false_iff.mpr hqueueing)
  | handleRead =>
      rw [EventLoop.step]
      split_ifs with hreads
      · exact ⟨hinvariant.calling, hinvariant.queueing, hinvariant.batch,
          fun hnot => absurd (Or.inl hreads.1) hnot⟩
      · exact hinvariant
  | push functor =>
      rw [EventLoop.step]
      split_ifs with hpushes
      · exact ⟨hinvariant.calling, fun _ => hpushes.1,
          hinvariant.batch, fun _ _ => Or.inr (Or.inr rfl)⟩
      · exact hinvariant
  | leave =>
      rw [EventLoop.step]
      split_ifs with hqueueing hcalling
      · -- In a functor: the wakeup is what ends the next poll.
        exact ⟨hinvariant.calling, fun hfalse => absurd hfalse Bool.false_ne_true,
          hinvariant.batch, fun _ _ => Or.inl (counter_wakeup loop)⟩
      · -- In a handler: the list is taken over after the handlers.
        have hhandles : loop.phase = .handles := by
          rcases hinvariant.queueing hqueueing with hhandles | hruns
          · exact hhandles
          · exact absurd (hinvariant.calling.mpr (Or.inr hruns)) hcalling
        exact ⟨hinvariant.calling, fun hfalse => absurd hfalse Bool.false_ne_true,
          hinvariant.batch, fun hnot => absurd (Or.inl hhandles) hnot⟩
      · exact hinvariant
  | pushFrom thread functor =>
      rw [EventLoop.step]
      split_ifs with howes
      · exact hinvariant
      · exact ⟨hinvariant.calling, hinvariant.queueing,
          hinvariant.batch, fun _ _ => Or.inr (Or.inl (Finset.insert_nonempty _ _))⟩
  | leaveFrom thread =>
      rw [EventLoop.step]
      split_ifs with howes
      · exact ⟨hinvariant.calling, hinvariant.queueing, hinvariant.batch,
          fun _ _ => Or.inl (counter_wakeup loop)⟩
      · exact hinvariant
  | quit =>
      exact ⟨hinvariant.calling, hinvariant.queueing, hinvariant.batch,
        hinvariant.wakes⟩
  | wakeup => exact hinvariant.wakeup

/-- The loop thread is not in `queueInLoop` while it waits. -/
theorem Invariant.not_queueing (hinvariant : Invariant loop) (hpolls : loop.phase = .polls) :
    loop.queueing = false := by
  rw [Bool.eq_false_iff]
  intro hqueueing
  rcases hinvariant.queueing hqueueing with hhandles | hruns
  · simp [hpolls] at hhandles
  · simp [hpolls] at hruns

/-- The loop does not wait with functors to run unless it is to be woken up. -/
theorem Invariant.wakes_of_polls (hinvariant : Invariant loop) (hpolls : loop.phase = .polls)
    (hpending : loop.pendingFunctors ≠ []) : loop.counter ≠ 0 ∨ loop.owing.Nonempty := by
  rcases hinvariant.wakes (by simp [TakesOver, hpolls]) hpending with hcounter | howing | hqueues
  · exact Or.inl hcounter
  · exact Or.inr howing
  · simp [hinvariant.not_queueing hpolls] at hqueues

theorem initial_invariant : Invariant ({} : EventLoop Thread Functor) where
  calling := by simp
  queueing := fun hfalse => by cases hfalse
  batch := fun _ => rfl
  wakes := fun _ hpending => absurd rfl hpending

theorem Invariant.run [DecidableEq Thread] (hinvariant : Invariant loop)
    (events : List (Event Thread Functor)) : Invariant (events.foldl EventLoop.step loop) := by
  induction events generalizing loop with
  | nil => exact hinvariant
  | cons event events ih => exact ih (hinvariant.step event)

theorem tasks_foldl [DecidableEq Thread] (hinvariant : Invariant loop)
    (events : List (Event Thread Functor)) :
    (events.foldl EventLoop.step loop).tasks = loop.tasks ++ loop.pushes events := by
  induction events generalizing loop with
  | nil => exact (List.append_nil _).symm
  | cons event events ih =>
      rw [List.foldl_cons, ih (hinvariant.step event), tasks_step hinvariant, pushes,
        List.append_assoc]

end Steps

/-- Whatever the threads do, the functors are run in the order in which they were pushed,
none is left out, and the loop is not blocked with functors to run unless something ends
the poll or another thread is about to. -/
theorem tasks_of_run [DecidableEq Thread] (events : List (Event Thread Functor)) :
    let loop := events.foldl step {}
    loop.executed ++ loop.functors ++ loop.pendingFunctors =
        ({} : EventLoop Thread Functor).pushes events ∧
      (loop.phase = .polls → loop.pendingFunctors ≠ [] →
        loop.counter ≠ 0 ∨ loop.owing.Nonempty) := by
  have hinvariant := initial_invariant.run events
  exact ⟨tasks_foldl initial_invariant events, hinvariant.wakes_of_polls⟩

end EventLoop

end Cuber.EventLoops
