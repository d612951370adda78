import Cuber.Net.ActiveChannels
import Cuber.Net.EventLoop

/-!
# Iterations of an event loop

`EventLoop::loop` waits for active channels, handles all of them, and then runs
the functors that were queued.  The loop over the channels and the tasks of the
loop are put together here: an activity is a step of the one, of the other, or
of both at once.  The handler of the eventfd is where they meet again, since
what a thread writes to it makes its channel active.
-/

namespace Cuber.Iterations

open Cuber.Execution
open Cuber.Pollers (Allowed PollerFault Usage Wait newDefaultPoller)
open Cuber.Refinement
open Cuber.Runs

universe u v w

/-- The active channels, with the usage of all channels beside them, and the tasks. -/
structure Loop (ι : Type u) (Thread : Type v) (Functor : Type w) where
  channels : Pollers.EventLoop ι × (ι → Usage)
  tasks : EventLoops.EventLoop Thread Functor := {}

inductive Activity (ι : Type u) (Thread : Type v) (Functor : Type w) where
  /-- `poll` returns. -/
  | poll (wait : Wait)
  /-- The loop over the active channels goes on, or ends. -/
  | handle
  /-- A callback or a functor calls a channel. -/
  | operate (event : Pollers.Event ι)
  /-- Any other step of the loop thread, or a step of another one. -/
  | task (event : EventLoops.Event Thread Functor)

/-- `POLLIN`, `POLLPRI` and `POLLRDHUP`, on which `Channel` calls its read callback. -/
def readable (revents : ℕ) : Bool := revents &&& 0x2003 ≠ 0

variable {ι : Type u} {Thread : Type v} {Functor : Type w} [DecidableEq ι] [DecidableEq Thread]

namespace Loop

/-- The loop thread is between two handlers, or about to leave the last one. -/
def isHandling (loop : Loop ι Thread Functor) : Bool :=
  loop.tasks.phase = .handles && !loop.tasks.queueing

/-- A callback or a functor may run, or what sets channels up before `quit_` is tested. -/
def runsCode (loop : Loop ι Thread Functor) : Bool :=
  (loop.tasks.phase = .tests || loop.tasks.phase = .handles || loop.tasks.phase = .runs) &&
    !loop.tasks.queueing

/-- What an activity is for the channels. -/
def channelActivities (loop : Loop ι Thread Functor) :
    Activity ι Thread Functor → List (Pollers.Activity ι)
  | .poll wait => if loop.tasks.phase = .polls then [.poll wait] else []
  | .handle => if loop.isHandling then [.handle] else []
  | .operate event => if loop.runsCode then [.operate event] else []
  | .task _ => []

/-- What an activity is for the tasks. -/
def taskEvents (wakeupChannel : ι) (loop : Loop ι Thread Functor) :
    Activity ι Thread Functor → List (EventLoops.Event Thread Functor)
  | .poll _ => if loop.tasks.phase = .polls then [.advance] else []
  | .handle =>
      if loop.isHandling then
        match loop.channels.1.remaining with
        | [] => [.advance]
        | (i, revents) :: _ =>
            if i = wakeupChannel ∧ readable revents then [.handleRead] else []
      else []
  | .operate _ => []
  | .task .advance =>
      if loop.tasks.phase = .polls ∨ loop.tasks.phase = .handles then [] else [.advance]
  | .task .handleRead => []
  | .task event => [event]

def step (fd : ι → ℕ) (wakeupChannel : ι) (loop : Loop ι Thread Functor)
    (activity : Activity ι Thread Functor) : Exec PollerFault (Loop ι Thread Functor) :=
  (runFrom (Pollers.EventLoop.watch fd) loop.channels (loop.channelActivities activity)).bind
    fun channels => .ret {
      channels
      tasks := (loop.taskEvents wakeupChannel activity).foldl EventLoops.EventLoop.step
        loop.tasks }

/-- An `EventLoop` without channels and without functors. -/
def initial (usePoll : Bool) : Loop ι Thread Functor where
  channels := ({ poller := newDefaultPoller usePoll }, fun _ => .unused)

/-- Channels are used as they may be. -/
def Permits (fd : ι → ℕ) (loop : Loop ι Thread Functor) : Activity ι Thread Functor → Prop
  | .operate event => loop.runsCode = true → Allowed fd loop.channels.2 event
  | .poll _ | .handle | .task _ => True

instance [Fintype ι] (fd : ι → ℕ) (loop : Loop ι Thread Functor) :
    (activity : Activity ι Thread Functor) → Decidable (loop.Permits fd activity)
  | .operate event =>
      inferInstanceAs (Decidable (loop.runsCode = true → Allowed fd loop.channels.2 event))
  | .poll _ | .handle | .task _ => .isTrue trivial

/-- A callback removes its own channel, or one that is not active. -/
def RemovesOwn (loop : Loop ι Thread Functor) : Activity ι Thread Functor → Prop
  | .operate event =>
      loop.runsCode = true → event.operation = .remove → loop.channels.1.MayRemove event.channel
  | .poll _ | .handle | .task _ => True

instance (loop : Loop ι Thread Functor) :
    (activity : Activity ι Thread Functor) → Decidable (loop.RemovesOwn activity)
  | .operate event =>
      inferInstanceAs (Decidable (loop.runsCode = true → event.operation = .remove →
        loop.channels.1.MayRemove event.channel))
  | .poll _ | .handle | .task _ => .isTrue trivial

/-- The steps of the tasks in a run. -/
def taskRun (fd : ι → ℕ) (wakeupChannel : ι) :
    Loop ι Thread Functor → List (Activity ι Thread Functor) →
      List (EventLoops.Event Thread Functor)
  | _, [] => []
  | loop, activity :: activities =>
      loop.taskEvents wakeupChannel activity ++
        match loop.step fd wakeupChannel activity with
        | .ret loop' => taskRun fd wakeupChannel loop' activities
        | .hang | .fault _ => []

/-- Each part keeps its own invariant, and channels are handled in the phase that is for it. -/
structure Invariant (fd : ι → ℕ) (loop : Loop ι Thread Functor) : Prop where
  channels : Pollers.EventLoop.Invariant fd loop.channels
  tasks : EventLoops.EventLoop.Invariant loop.tasks
  handling : loop.channels.1.eventHandling = true ↔ loop.tasks.phase = .handles

section Steps

variable {fd : ι → ℕ} {wakeupChannel : ι} {loop loop' : Loop ι Thread Functor}

omit [DecidableEq ι] [DecidableEq Thread] in
theorem initial_invariant (fd : ι → ℕ) (usePoll : Bool) :
    Invariant fd (initial usePoll : Loop ι Thread Functor) where
  channels := Pollers.EventLoop.Invariant.start fd usePoll
  tasks := EventLoops.EventLoop.initial_invariant
  handling := by simp [initial]

/-- The end of the channels' loop ends the handling of events, and nothing else does. -/
theorem eventHandling_of_watch {state state' : Pollers.EventLoop ι × (ι → Usage)}
    {activity : Pollers.Activity ι}
    (hwatch : Pollers.EventLoop.watch fd state activity = .ret state') :
    state'.1.eventHandling =
      match activity with
      | .poll _ => true
      | .handle => state.1.eventHandling && !state.1.remaining.isEmpty
      | .operate _ => state.1.eventHandling := by
  rw [Pollers.EventLoop.watch] at hwatch
  obtain ⟨after, hstep, hret⟩ := Exec.bind_eq_ret_iff.mp hwatch
  cases hret
  cases activity with
  | poll wait =>
      obtain ⟨polled, -, hpolled⟩ := Exec.bind_eq_ret_iff.mp hstep
      cases hpolled
      rfl
  | handle =>
      rw [Pollers.EventLoop.step] at hstep
      split at hstep
      · rename_i hnone
        cases hstep
        simp [hnone]
      · rename_i hmore
        cases hstep
        simp [hmore]
  | operate event =>
      rw [Pollers.EventLoop.step] at hstep
      split_ifs at hstep
      obtain ⟨poller, -, hpoller⟩ := Exec.bind_eq_ret_iff.mp hstep
      cases hpoller
      rfl

omit [DecidableEq ι] in
theorem phase_step {tasks : EventLoops.EventLoop Thread Functor}
    {event : EventLoops.Event Thread Functor} (hevent : event ≠ .advance) :
    (tasks.step event).phase = tasks.phase := by
  cases event with
  | advance => exact absurd rfl hevent
  | quit | wakeup => rfl
  | handleRead | push | leave | pushFrom | leaveFrom =>
      rw [EventLoops.EventLoop.step]
      split_ifs <;> rfl

omit [DecidableEq Thread] in
/-- The other steps of the loop thread do not lead to the handlers. -/
theorem phase_advance {tasks : EventLoops.EventLoop Thread Functor}
    (hpolls : tasks.phase ≠ .polls) (hhandles : tasks.phase ≠ .handles) :
    tasks.advance.phase ≠ .handles := by
  cases hphase : tasks.phase with
  | polls => exact absurd hphase hpolls
  | handles => exact absurd hphase hhandles
  | tests =>
      rw [EventLoops.EventLoop.advance, hphase]
      dsimp only
      split_ifs <;> simp
  | swaps =>
      rw [EventLoops.EventLoop.advance, hphase]
      simp
  | runs =>
      rw [EventLoops.EventLoop.advance, hphase]
      cases tasks.functors <;> simp
  | returned =>
      rw [EventLoops.EventLoop.advance, hphase]
      simp [hphase]

/-- A step of the tasks alone neither begins nor ends the handlers. -/
theorem handles_task_iff (loop : Loop ι Thread Functor)
    (event : EventLoops.Event Thread Functor) :
    ((loop.taskEvents wakeupChannel (.task event)).foldl EventLoops.EventLoop.step
      loop.tasks).phase = .handles ↔ loop.tasks.phase = .handles := by
  cases event with
  | advance =>
      rw [taskEvents]
      split_ifs with hphase
      · rfl
      · rw [not_or] at hphase
        refine iff_of_false ?_ hphase.2
        rw [List.foldl_cons, List.foldl_nil, EventLoops.EventLoop.step]
        split_ifs
        · exact hphase.2
        · exact phase_advance hphase.1 hphase.2
  | handleRead => rfl
  | push | leave | pushFrom | leaveFrom | quit | wakeup =>
      simp [taskEvents, phase_step]

/-- What is nothing for the channels leaves them as they are. -/
theorem step_of_nil {activity : Activity ι Thread Functor}
    (hnone : loop.channelActivities activity = []) :
    loop.step fd wakeupChannel activity = .ret ⟨loop.channels,
      (loop.taskEvents wakeupChannel activity).foldl EventLoops.EventLoop.step loop.tasks⟩ := by
  rw [step, hnone]
  rfl

theorem step_of_watch {activity : Activity ι Thread Functor}
    {channelActivity : Pollers.Activity ι} {channels : Pollers.EventLoop ι × (ι → Usage)}
    (hactivity : loop.channelActivities activity = [channelActivity])
    (hwatch : Pollers.EventLoop.watch fd loop.channels channelActivity = .ret channels) :
    loop.step fd wakeupChannel activity = .ret ⟨channels,
      (loop.taskEvents wakeupChannel activity).foldl EventLoops.EventLoop.step loop.tasks⟩ := by
  rw [step, hactivity, runFrom, hwatch]
  rfl

theorem Invariant.poll (hinvariant : Invariant fd loop) (wait : Wait)
    (hpolls : loop.tasks.phase = .polls) :
    ∃ channels, Pollers.EventLoop.watch fd loop.channels (.poll wait) = .ret channels ∧
      Invariant fd ⟨channels, loop.tasks.step .advance⟩ := by
  have hidle : loop.channels.1.eventHandling = false := by
    rw [Bool.eq_false_iff]
    intro hhandling
    simp [hinvariant.handling.mp hhandling] at hpolls
  obtain ⟨channels, hwatch, hchannels⟩ := hinvariant.channels.poll hidle wait
  refine ⟨channels, hwatch, hchannels, hinvariant.tasks.step .advance, ?_⟩
  rw [eventHandling_of_watch hwatch]
  simp [EventLoops.EventLoop.step, EventLoops.EventLoop.advance, hpolls,
    hinvariant.tasks.not_queueing hpolls]

theorem Invariant.handle (hinvariant : Invariant fd loop) (hhandling : loop.isHandling = true)
    (wakeupChannel : ι) :
    ∃ channels, Pollers.EventLoop.watch fd loop.channels .handle = .ret channels ∧
      Invariant fd ⟨channels, (loop.taskEvents wakeupChannel .handle).foldl
        EventLoops.EventLoop.step loop.tasks⟩ := by
  obtain ⟨channels, hwatch, hchannels⟩ := hinvariant.channels.handle
  refine ⟨channels, hwatch, hchannels, hinvariant.tasks.run _, ?_⟩
  have hphases : loop.tasks.phase = .handles ∧ loop.tasks.queueing = false := by
    simpa [isHandling] using hhandling
  have heventHandling := hinvariant.handling.mpr hphases.1
  rw [eventHandling_of_watch hwatch, taskEvents, if_pos hhandling]
  cases hremaining : loop.channels.1.remaining with
  | nil =>
      simp [EventLoops.EventLoop.step, EventLoops.EventLoop.advance, hphases]
  | cons channel remaining =>
      dsimp only
      split_ifs
      · simp [phase_step, hphases, heventHandling]
      · simp [hphases, heventHandling]

/-- An activity fails nothing, and keeps channels and tasks in step. -/
theorem Invariant.step (hinvariant : Invariant fd loop) (wakeupChannel : ι)
    {activity : Activity ι Thread Functor} (hpermits : loop.Permits fd activity)
    (hremoves : loop.RemovesOwn activity) :
    ∃ loop', loop.step fd wakeupChannel activity = .ret loop' ∧ Invariant fd loop' := by
  cases activity with
  | poll wait =>
      by_cases hpolls : loop.tasks.phase = .polls
      · obtain ⟨channels, hwatch, hafter⟩ := hinvariant.poll wait hpolls
        refine ⟨_, step_of_watch (if_pos hpolls) hwatch, ?_⟩
        rw [taskEvents, if_pos hpolls]
        exact hafter
      · refine ⟨_, step_of_nil (if_neg hpolls), ?_⟩
        rw [taskEvents, if_neg hpolls]
        exact hinvariant
  | handle =>
      by_cases hhandling : loop.isHandling = true
      · obtain ⟨channels, hwatch, hafter⟩ := hinvariant.handle hhandling wakeupChannel
        exact ⟨_, step_of_watch (if_pos hhandling) hwatch, hafter⟩
      · refine ⟨_, step_of_nil (if_neg hhandling), ?_⟩
        rw [taskEvents, if_neg hhandling]
        exact hinvariant
  | operate event =>
      by_cases hruns : loop.runsCode = true
      · obtain ⟨channels, hwatch, hchannels⟩ :=
          hinvariant.channels.operate (hpermits hruns) (hremoves hruns)
        refine ⟨_, step_of_watch (if_pos hruns) hwatch, hchannels, hinvariant.tasks, ?_⟩
        rw [eventHandling_of_watch hwatch]
        exact hinvariant.handling
      · exact ⟨_, step_of_nil (if_neg hruns), hinvariant⟩
  | task event =>
      refine ⟨_, step_of_nil rfl, hinvariant.channels, hinvariant.tasks.run _, ?_⟩
      rw [handles_task_iff]
      exact hinvariant.handling

theorem tasks_of_step {activity : Activity ι Thread Functor}
    (hstep : loop.step fd wakeupChannel activity = .ret loop') :
    loop'.tasks = (loop.taskEvents wakeupChannel activity).foldl EventLoops.EventLoop.step
      loop.tasks := by
  obtain ⟨channels, -, hret⟩ := Exec.bind_eq_ret_iff.mp hstep
  cases hret
  rfl

/-- The tasks of a run have made the steps that were theirs. -/
theorem tasks_eq_foldl {activities : List (Activity ι Thread Functor)}
    (hrun : runFrom (step fd wakeupChannel) loop activities = .ret loop') :
    loop'.tasks = (taskRun fd wakeupChannel loop activities).foldl EventLoops.EventLoop.step
      loop.tasks := by
  induction activities generalizing loop with
  | nil =>
      cases hrun
      rfl
  | cons activity activities ih =>
      obtain ⟨middle, hstep, hrest⟩ := runFrom_cons_eq_ret_iff.mp hrun
      rw [ih hrest, taskRun, hstep, List.foldl_append, tasks_of_step hstep]

/-- The loop waits and runs functors only when all active channels were handled, and does not
wait with functors to run unless the eventfd is readable or another thread is about to write
to it. -/
structure Iterates (loop : Loop ι Thread Functor) : Prop where
  handles : Pollers.EventLoop.Handles loop.channels
  handled : loop.tasks.phase ≠ .handles →
    loop.channels.1.remaining = [] ∧ loop.channels.1.currentActiveChannel = none
  wakes : loop.tasks.phase = .polls → loop.tasks.pendingFunctors ≠ [] →
    loop.tasks.counter ≠ 0 ∨ loop.tasks.owing.Nonempty

omit [DecidableEq ι] [DecidableEq Thread] in
theorem Invariant.iterates (hinvariant : Invariant fd loop) : Iterates loop where
  handles := hinvariant.channels.handles
  handled hphase := by
    apply hinvariant.channels.handling
    rw [Bool.eq_false_iff]
    exact fun hhandling => hphase (hinvariant.handling.mp hhandling)
  wakes := hinvariant.tasks.wakes_of_polls

/-- Any other active channel cannot be removed. -/
theorem step_of_not_removesOwn {activity : Activity ι Thread Functor}
    (hremoves : ¬ loop.RemovesOwn activity) :
    loop.step fd wakeupChannel activity = .fault .assertionFailed := by
  cases activity with
  | poll | handle | task => exact absurd trivial hremoves
  | operate event =>
      obtain ⟨hruns, hother⟩ := Classical.not_imp.mp hremoves
      have hwatch : Pollers.EventLoop.watch fd loop.channels (.operate event) =
          .fault .assertionFailed := Pollers.EventLoop.watch_of_not_removesOwn hother
      rw [step, channelActivities, if_pos hruns, runFrom, hwatch]
      rfl

end Steps

/-- Another thread has the loop run a functor, which wakes it up. -/
def someIteration : List (Activity Bool ℕ Char) :=
  [.operate ⟨false, .enableReading⟩, .task .advance, .task (.pushFrom 1 'a'),
    .task (.leaveFrom 1), .poll { ready := fun _ _ => 1, order := [0] }, .handle, .handle,
    .task .advance, .task .advance]

end Loop

end Cuber.Iterations
