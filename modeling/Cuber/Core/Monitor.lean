import Mathlib

/-!
# Objects behind one mutex

The calls of a monitor run under one mutex.  A call whose guard does not hold
waits on a condition variable and tests the guard again when it is woken, so a
thread may be woken for no reason.  A call that goes on changes the object and
may notify one condition variable.  Since a wait gives the mutex back, the steps
of a run are the critical sections between two waits, in any order.

The history of the completed calls is a history of the object alone, and a
notification is never lost if each condition variable has as much room as calls
that wait on it can use up.
-/

namespace Cuber.Monitors

universe u v w x y

/-- What a critical section does to the condition variables at its end. -/
inductive Signal (Condition : Type u) where
  | none
  | notify (condition : Condition)
  | notifyAll (condition : Condition)
  deriving DecidableEq

structure Monitor (State : Type u) (Call : Type v) (Result : Type w)
    (Condition : Type x) where
  /-- The condition variable on which a call has to wait in a state. -/
  blockedOn : State → Call → Option Condition
  next : State → Call → State
  result : State → Call → Result
  signal : State → Call → Signal Condition

/-- A thread that has called `wait`, with what it will try again. -/
structure Waiter (Thread : Type u) (Call : Type v) (Condition : Type w) where
  thread : Thread
  call : Call
  condition : Condition
  deriving DecidableEq

structure Completed (Thread : Type u) (Call : Type v) (Result : Type w) where
  thread : Thread
  call : Call
  result : Result
  deriving DecidableEq

/-- The object, the threads inside `wait`, and the calls that have returned. -/
structure System (State : Type u) (Call : Type v) (Result : Type w) (Condition : Type x)
    (Thread : Type y) where
  object : State
  asleep : List (Waiter Thread Call Condition) := []
  /-- Woken, but not yet in possession of the mutex. -/
  awake : List (Waiter Thread Call Condition) := []
  history : List (Completed Thread Call Result) := []

variable {State : Type u} {Call : Type v} {Result : Type w} {Condition : Type x}
  {Thread : Type y}

/-- No thread is inside a call, and none has been. -/
def System.initial (object : State) : System State Call Result Condition Thread := { object }

/-- Threads that may call anything at any time. -/
def unrestricted (_ : List (Completed Thread Call Result)) (_ : Thread) (_ : Call) : Bool :=
  true

/-- The steps of the threads.  Where a step notifies a condition variable, `chosen` is the
waiter that the notification reaches. -/
inductive Event (Call : Type v) (Condition : Type x) (Thread : Type y) where
  /-- A thread that is not inside a call gets the mutex for a new one. -/
  | call (thread : Thread) (call : Call) (chosen : Option (Waiter Thread Call Condition))
  /-- A woken thread gets the mutex again. -/
  | resume (waiter : Waiter Thread Call Condition)
      (chosen : Option (Waiter Thread Call Condition))
  /-- A thread wakes up without a notification. -/
  | wakeup (waiter : Waiter Thread Call Condition)

namespace System

variable [DecidableEq Call] [DecidableEq Condition] [DecidableEq Thread]

def waiters (system : System State Call Result Condition Thread) :
    List (Waiter Thread Call Condition) :=
  system.asleep ++ system.awake

def wake (system : System State Call Result Condition Thread)
    (waiter : Waiter Thread Call Condition) : System State Call Result Condition Thread :=
  { system with asleep := system.asleep.erase waiter, awake := waiter :: system.awake }

def sleepsOn (system : System State Call Result Condition Thread) (condition : Condition) :
    Bool :=
  system.asleep.any fun waiter => waiter.condition = condition

/-- Nothing comes of a choice that is not a waiter of the condition variable. -/
def notify (system : System State Call Result Condition Thread) (condition : Condition)
    (chosen : Option (Waiter Thread Call Condition)) :
    Option (System State Call Result Condition Thread) :=
  if system.sleepsOn condition then
    match chosen with
    | some waiter =>
        if waiter ∈ system.asleep ∧ waiter.condition = condition then some (system.wake waiter)
        else none
    | none => none
  else some system

def notifyAll (system : System State Call Result Condition Thread) (condition : Condition) :
    System State Call Result Condition Thread :=
  { system with
    asleep := system.asleep.filter fun waiter => waiter.condition ≠ condition
    awake := system.asleep.filter (fun waiter => waiter.condition = condition) ++
      system.awake }

def signalled (system : System State Call Result Condition Thread) (signal : Signal Condition)
    (chosen : Option (Waiter Thread Call Condition)) :
    Option (System State Call Result Condition Thread) :=
  match signal with
  | .none => some system
  | .notify condition => system.notify condition chosen
  | .notifyAll condition => some (system.notifyAll condition)

def complete (monitor : Monitor State Call Result Condition)
    (system : System State Call Result Condition Thread) (thread : Thread) (call : Call) :
    System State Call Result Condition Thread :=
  { system with
    object := monitor.next system.object call
    history := system.history ++ [⟨thread, call, monitor.result system.object call⟩] }

/-- A thread that has the mutex tests the guard of its call. -/
def attempt (monitor : Monitor State Call Result Condition)
    (system : System State Call Result Condition Thread) (thread : Thread) (call : Call)
    (chosen : Option (Waiter Thread Call Condition)) :
    Option (System State Call Result Condition Thread) :=
  match monitor.blockedOn system.object call with
  | some condition => some { system with asleep := ⟨thread, call, condition⟩ :: system.asleep }
  | none =>
      (system.complete monitor thread call).signalled
        (monitor.signal system.object call) chosen

/-- An event that is not possible leaves the system as it is.  What a thread may call depends
on `allows`, and with it on the calls that have returned. -/
def step (monitor : Monitor State Call Result Condition)
    (allows : List (Completed Thread Call Result) → Thread → Call → Bool)
    (system : System State Call Result Condition Thread) :
    Event Call Condition Thread → System State Call Result Condition Thread
  | .call thread call chosen =>
      if thread ∉ system.waiters.map Waiter.thread ∧ allows system.history thread call = true then
        (system.attempt monitor thread call chosen).getD system
      else system
  | .resume waiter chosen =>
      if waiter ∈ system.awake then
        (attempt monitor { system with awake := system.awake.erase waiter }
          waiter.thread waiter.call chosen).getD system
      else system
  | .wakeup waiter => if waiter ∈ system.asleep then system.wake waiter else system

def run (monitor : Monitor State Call Result Condition)
    (allows : List (Completed Thread Call Result) → Thread → Call → Bool)
    (system : System State Call Result Condition Thread)
    (events : List (Event Call Condition Thread)) : System State Call Result Condition Thread :=
  events.foldl (step monitor allows) system

end System

/-- The calls, one after the other and without any other thread, lead from one state to the
other with these results, and none of them has to wait. -/
def Follows (monitor : Monitor State Call Result Condition) :
    State → List (Completed Thread Call Result) → State → Prop
  | before, [], after => after = before
  | before, entry :: entries, after =>
      monitor.blockedOn before entry.call = none ∧
        entry.result = monitor.result before entry.call ∧
          Follows monitor (monitor.next before entry.call) entries after

theorem follows_append {monitor : Monitor State Call Result Condition} {before middle after : State}
    {first second : List (Completed Thread Call Result)}
    (hfirst : Follows monitor before first middle)
    (hsecond : Follows monitor middle second after) :
    Follows monitor before (first ++ second) after := by
  induction first generalizing before with
  | nil =>
      cases hfirst
      exact hsecond
  | cons entry entries ih => exact ⟨hfirst.1, hfirst.2.1, ih hfirst.2.2⟩

theorem exists_of_follows_append {monitor : Monitor State Call Result Condition}
    {before after : State} {first second : List (Completed Thread Call Result)}
    (hfollows : Follows monitor before (first ++ second) after) :
    ∃ middle, Follows monitor before first middle ∧ Follows monitor middle second after := by
  induction first generalizing before with
  | nil => exact ⟨before, rfl, hfollows⟩
  | cons entry entries ih =>
      obtain ⟨hopen, hresult, hrest⟩ := hfollows
      obtain ⟨middle, hfirst, hsecond⟩ := ih hrest
      exact ⟨middle, ⟨hopen, hresult, hfirst⟩, hsecond⟩

/-- What every completed call preserves holds after a history. -/
theorem invariant_of_follows {monitor : Monitor State Call Result Condition}
    (invariant : List (Completed Thread Call Result) → State → Prop)
    (hpreserved : ∀ entries object thread call, invariant entries object →
      monitor.blockedOn object call = none →
      invariant (entries ++ [⟨thread, call, monitor.result object call⟩])
        (monitor.next object call))
    {before after : State} {entries later : List (Completed Thread Call Result)}
    (hbefore : invariant entries before) (hfollows : Follows monitor before later after) :
    invariant (entries ++ later) after := by
  induction later generalizing before entries with
  | nil =>
      cases hfollows
      rw [List.append_nil]
      exact hbefore
  | cons entry later ih =>
      obtain ⟨hopen, hresult, hrest⟩ := hfollows
      have hnext := hpreserved entries before entry.thread entry.call hbefore hopen
      rw [← hresult] at hnext
      rw [List.append_cons]
      exact ih hnext hrest

/-- How many calls that wait on a condition variable can go on, one after the other, in a
state that is `valid`. -/
structure Room (monitor : Monitor State Call Result Condition) (valid : State → Prop)
    (room : Condition → State → ℕ∞) : Prop where
  valid_next : ∀ object call, valid object → monitor.blockedOn object call = none →
    valid (monitor.next object call)
  /-- A call waits on one condition variable only. -/
  same : ∀ object object' call condition condition',
    monitor.blockedOn object call = some condition →
      monitor.blockedOn object' call = some condition' → condition' = condition
  /-- A call waits only where there is no room. -/
  closed : ∀ object call condition, valid object →
    monitor.blockedOn object call = some condition → room condition object = 0
  /-- A call that may have waited uses room up. -/
  used : ∀ object object' call condition, valid object →
    monitor.blockedOn object' call = some condition →
      monitor.blockedOn object call = none →
        room condition (monitor.next object call) + 1 ≤ room condition object
  /-- Room for one more call is made known to one waiter, other room to all of them. -/
  announced : ∀ object call condition, valid object → monitor.blockedOn object call = none →
    room condition (monitor.next object call) ≤ room condition object ∨
      monitor.signal object call = .notify condition ∧
        room condition (monitor.next object call) ≤ room condition object + 1 ∨
      monitor.signal object call = .notifyAll condition

namespace System

variable [DecidableEq Call] [DecidableEq Condition] [DecidableEq Thread]

variable {monitor : Monitor State Call Result Condition}
  {system system' base : System State Call Result Condition Thread}
  {waiter : Waiter Thread Call Condition} {thread : Thread} {call : Call}
  {condition : Condition} {signal : Signal Condition}
  {chosen : Option (Waiter Thread Call Condition)}
  {allows : List (Completed Thread Call Result) → Thread → Call → Bool}

/-- How many woken threads have waited on a condition variable. -/
def wokenOn (system : System State Call Result Condition Thread) (condition : Condition) : ℕ :=
  system.awake.countP fun waiter => waiter.condition = condition

omit [DecidableEq Call] [DecidableEq Thread] in
theorem sleepsOn_iff :
    system.sleepsOn condition = true ↔ ∃ waiter ∈ system.asleep, waiter.condition = condition := by
  simp [sleepsOn]

/-- Some waiters have been woken, and nothing else has happened. -/
structure Woken (system system' : System State Call Result Condition Thread) : Prop where
  object : system'.object = system.object
  history : system'.history = system.history
  waiters : system'.waiters.Perm system.waiters
  asleep : system'.asleep ⊆ system.asleep
  awake : system.awake.Sublist system'.awake

omit [DecidableEq Call] [DecidableEq Condition] [DecidableEq Thread] in
theorem Woken.refl (system : System State Call Result Condition Thread) :
    Woken system system :=
  ⟨rfl, rfl, List.Perm.refl _, fun _ hwaiter => hwaiter, List.Sublist.refl _⟩

theorem woken_wake (hwaiter : waiter ∈ system.asleep) : Woken system (system.wake waiter) where
  object := rfl
  history := rfl
  waiters :=
    calc
      (system.asleep.erase waiter ++ waiter :: system.awake).Perm
          (waiter :: (system.asleep.erase waiter ++ system.awake)) := List.perm_middle
      _ |>.Perm (system.asleep ++ system.awake) :=
        ((List.perm_cons_erase hwaiter).symm.append_right system.awake)
  asleep := List.erase_subset
  awake := List.sublist_cons_self waiter system.awake

theorem wokenOn_wake :
    (system.wake waiter).wokenOn waiter.condition = system.wokenOn waiter.condition + 1 := by
  rw [wokenOn, wake, List.countP_cons_of_pos (by simp)]
  rfl

omit [DecidableEq Call] [DecidableEq Thread] in
theorem woken_notifyAll : Woken system (system.notifyAll condition) where
  object := rfl
  history := rfl
  waiters := by
    have hsplit := List.filter_append_perm (fun waiter => decide (waiter.condition = condition))
      system.asleep
    have hswap := (List.perm_append_comm.trans hsplit).append_right system.awake
    simpa [waiters, notifyAll] using hswap
  asleep := fun _ hwaiter => List.mem_of_mem_filter hwaiter
  awake := List.sublist_append_right _ _

omit [DecidableEq Call] [DecidableEq Thread] in
theorem not_sleepsOn_notifyAll : (system.notifyAll condition).sleepsOn condition = false := by
  rw [Bool.eq_false_iff, Ne, sleepsOn_iff]
  rintro ⟨waiter, hwaiter, hcondition⟩
  simp [notifyAll, hcondition] at hwaiter

/-- A notification reaches a waiter if there is one. -/
theorem notify_cases (hnotify : system.notify condition chosen = some system') :
    system.sleepsOn condition = false ∧ system' = system ∨
      ∃ waiter ∈ system.asleep, waiter.condition = condition ∧ system' = system.wake waiter := by
  unfold notify at hnotify
  split_ifs at hnotify with hsleeps
  · cases chosen with
    | none => cases hnotify
    | some waiter =>
        simp only at hnotify
        split_ifs at hnotify with hwaiter
        cases hnotify
        exact Or.inr ⟨waiter, hwaiter.1, hwaiter.2, rfl⟩
  · cases hnotify
    exact Or.inl ⟨Bool.eq_false_iff.mpr hsleeps, rfl⟩

theorem woken_signalled (hsignalled : system.signalled signal chosen = some system') :
    Woken system system' := by
  cases signal with
  | none =>
      cases hsignalled
      exact Woken.refl system
  | notify condition =>
      rcases notify_cases hsignalled with ⟨_, rfl⟩ | ⟨waiter, hwaiter, _, rfl⟩
      · exact Woken.refl _
      · exact woken_wake hwaiter
  | notifyAll condition =>
      cases hsignalled
      exact woken_notifyAll

omit [DecidableEq Call] [DecidableEq Thread] in
theorem Woken.wokenOn_le (hwoken : Woken system system') (condition : Condition) :
    system.wokenOn condition ≤ system'.wokenOn condition :=
  hwoken.awake.countP_le

omit [DecidableEq Call] [DecidableEq Thread] in
theorem Woken.sleepsOn (hwoken : Woken system system')
    (hsleeps : system'.sleepsOn condition = true) : system.sleepsOn condition = true := by
  obtain ⟨waiter, hwaiter, hcondition⟩ := sleepsOn_iff.mp hsleeps
  exact sleepsOn_iff.mpr ⟨waiter, hwoken.asleep hwaiter, hcondition⟩

/-- A thread gets the mutex: for a new call, or after it was woken. -/
inductive Enters (allows : List (Completed Thread Call Result) → Thread → Call → Bool)
    (system : System State Call Result Condition Thread) :
    System State Call Result Condition Thread → Thread → Call → Prop where
  | call (thread : Thread) (call : Call)
      (houtside : thread ∉ system.waiters.map Waiter.thread)
      (hallowed : allows system.history thread call = true) :
      Enters allows system system thread call
  | resume (waiter : Waiter Thread Call Condition) (hawake : waiter ∈ system.awake) :
      Enters allows system { system with awake := system.awake.erase waiter } waiter.thread
        waiter.call

/-- All that a step can do. -/
inductive Steps (monitor : Monitor State Call Result Condition)
    (allows : List (Completed Thread Call Result) → Thread → Call → Bool)
    (system : System State Call Result Condition Thread) :
    System State Call Result Condition Thread → Prop where
  | idle : Steps monitor allows system system
  | wakeup (waiter : Waiter Thread Call Condition) (hasleep : waiter ∈ system.asleep) :
      Steps monitor allows system (system.wake waiter)
  | waits (base : System State Call Result Condition Thread) (thread : Thread) (call : Call)
      (condition : Condition) (henters : Enters allows system base thread call)
      (hblocked : monitor.blockedOn base.object call = some condition) :
      Steps monitor allows system { base with asleep := ⟨thread, call, condition⟩ :: base.asleep }
  | completes (base system' : System State Call Result Condition Thread) (thread : Thread)
      (call : Call) (chosen : Option (Waiter Thread Call Condition))
      (henters : Enters allows system base thread call)
      (hopen : monitor.blockedOn base.object call = none)
      (hsignalled : (base.complete monitor thread call).signalled
        (monitor.signal base.object call) chosen = some system') :
      Steps monitor allows system system'

theorem steps_of_attempt (henters : Enters allows system base thread call)
    (chosen : Option (Waiter Thread Call Condition)) :
    Steps monitor allows system ((base.attempt monitor thread call chosen).getD system) := by
  rw [attempt]
  cases hblocked : monitor.blockedOn base.object call with
  | some condition => exact Steps.waits base thread call condition henters hblocked
  | none =>
      dsimp only
      cases hsignalled : (base.complete monitor thread call).signalled
          (monitor.signal base.object call) chosen with
      | none => exact Steps.idle
      | some system' =>
          exact Steps.completes base system' thread call chosen henters hblocked hsignalled

/-- Every step is one of those listed. -/
theorem steps_step (monitor : Monitor State Call Result Condition)
    (allows : List (Completed Thread Call Result) → Thread → Call → Bool)
    (system : System State Call Result Condition Thread) (event : Event Call Condition Thread) :
    Steps monitor allows system (system.step monitor allows event) := by
  cases event with
  | call thread call chosen =>
      rw [step]
      split_ifs with hmay
      · exact steps_of_attempt (Enters.call thread call hmay.1 hmay.2) chosen
      · exact Steps.idle
  | resume waiter chosen =>
      rw [step]
      split_ifs with hawake
      · exact steps_of_attempt (Enters.resume waiter hawake) chosen
      · exact Steps.idle
  | wakeup waiter =>
      rw [step]
      split_ifs with hasleep
      · exact Steps.wakeup waiter hasleep
      · exact Steps.idle

theorem Enters.object (henters : Enters allows system base thread call) :
    base.object = system.object ∧ base.history = system.history ∧
      base.asleep = system.asleep := by
  cases henters <;> exact ⟨rfl, rfl, rfl⟩

/-- The history is one of the object alone. -/
theorem follows_step {before : State}
    (hfollows : Follows monitor before system.history system.object)
    (event : Event Call Condition Thread) :
    Follows monitor before (system.step monitor allows event).history
      (system.step monitor allows event).object := by
  have hsteps := steps_step monitor allows system event
  generalize system.step monitor allows event = next at hsteps
  cases hsteps with
  | idle => exact hfollows
  | wakeup waiter hasleep => exact hfollows
  | waits base thread call condition henters hblocked =>
      obtain ⟨hobject, hhistory, -⟩ := henters.object
      change Follows monitor before base.history base.object
      rw [hobject, hhistory]
      exact hfollows
  | completes base _ thread call chosen henters hopen hsignalled =>
      obtain ⟨hobject, hhistory, -⟩ := henters.object
      have hwoken := woken_signalled hsignalled
      rw [hwoken.object, hwoken.history]
      change Follows monitor before (base.history ++ [_]) (monitor.next base.object call)
      rw [hobject] at hopen ⊢
      rw [hhistory]
      exact follows_append hfollows ⟨hopen, rfl, rfl⟩

/-- Any interleaving of the threads does what the completed calls do to the object when they
are made one after the other. -/
theorem follows_run (monitor : Monitor State Call Result Condition)
    (allows : List (Completed Thread Call Result) → Thread → Call → Bool) (object : State)
    (events : List (Event Call Condition Thread)) :
    Follows monitor object ((initial object).run monitor allows events).history
      ((initial object).run monitor allows events).object := by
  have hrun : ∀ system : System State Call Result Condition Thread,
      Follows monitor object system.history system.object →
        Follows monitor object (system.run monitor allows events).history
          (system.run monitor allows events).object := by
    induction events with
    | nil => exact fun system hfollows => hfollows
    | cons event events ih => exact fun system hfollows => ih _ (follows_step hfollows event)
  exact hrun (initial object) rfl

theorem Enters.nodup (henters : Enters allows system base thread call)
    (hnodup : (system.waiters.map Waiter.thread).Nodup) :
    (base.waiters.map Waiter.thread).Nodup ∧ thread ∉ base.waiters.map Waiter.thread := by
  cases henters with
  | call thread call houtside hallowed => exact ⟨hnodup, houtside⟩
  | resume waiter hawake =>
      have hperm : system.waiters.Perm (waiter :: (system.asleep ++ system.awake.erase waiter)) :=
        ((List.perm_cons_erase hawake).append_left system.asleep).trans List.perm_middle
      have hcons := (hperm.map Waiter.thread).nodup_iff.mp hnodup
      rw [List.map_cons, List.nodup_cons] at hcons
      exact ⟨hcons.2, hcons.1⟩

/-- A thread waits in one call at a time, and only in a call that it may make. -/
structure Disciplined (allows : List (Completed Thread Call Result) → Thread → Call → Bool)
    (system : System State Call Result Condition Thread) : Prop where
  single : (system.waiters.map Waiter.thread).Nodup
  allowed : ∀ waiter ∈ system.waiters, allows system.history waiter.thread waiter.call = true

/-- What a thread may call depends on its own calls. -/
def OwnCalls (allows : List (Completed Thread Call Result) → Thread → Call → Bool) : Prop :=
  ∀ history entry thread call, entry.thread ≠ thread →
    allows (history ++ [entry]) thread call = allows history thread call

theorem Disciplined.allows_of_enters (hdisciplined : Disciplined allows system)
    (henters : Enters allows system base thread call) :
    allows system.history thread call = true := by
  cases henters with
  | call thread call houtside hallowed => exact hallowed
  | resume waiter hawake =>
      exact hdisciplined.allowed waiter (List.mem_append_right _ hawake)

/-- What remains when a thread has the mutex is disciplined. -/
theorem Disciplined.enters (hdisciplined : Disciplined allows system)
    (henters : Enters allows system base thread call) : Disciplined allows base := by
  refine ⟨(henters.nodup hdisciplined.single).1, ?_⟩
  cases henters with
  | call thread call houtside hallowed => exact hdisciplined.allowed
  | resume waiter hawake =>
      intro other hother
      apply hdisciplined.allowed other
      rcases List.mem_append.mp hother with hasleep | hrest
      · exact List.mem_append_left _ hasleep
      · exact List.mem_append_right _ (List.mem_of_mem_erase hrest)

omit [DecidableEq Call] [DecidableEq Condition] [DecidableEq Thread] in
theorem Disciplined.woken (hdisciplined : Disciplined allows system)
    (hwoken : Woken system system') : Disciplined allows system' := by
  refine ⟨(hwoken.waiters.map _).nodup_iff.mpr hdisciplined.single, fun waiter hwaiter => ?_⟩
  rw [hwoken.history]
  exact hdisciplined.allowed waiter (hwoken.waiters.mem_iff.mp hwaiter)

/-- A step leaves every thread in one call at most. -/
theorem Disciplined.step (hown : OwnCalls allows) (hdisciplined : Disciplined allows system)
    (event : Event Call Condition Thread) :
    Disciplined allows (system.step monitor allows event) := by
  have hsteps := steps_step monitor allows system event
  generalize system.step monitor allows event = next at hsteps
  cases hsteps with
  | idle => exact hdisciplined
  | wakeup waiter hasleep => exact hdisciplined.woken (woken_wake hasleep)
  | waits base thread call condition henters hblocked =>
      have hbase := hdisciplined.enters henters
      refine ⟨List.nodup_cons.mpr ⟨(henters.nodup hdisciplined.single).2, hbase.single⟩, ?_⟩
      intro waiter hwaiter
      rcases List.mem_cons.mp hwaiter with rfl | hwaiter
      · change allows base.history thread call = true
        rw [henters.object.2.1]
        exact hdisciplined.allows_of_enters henters
      · exact hbase.allowed waiter hwaiter
  | completes base _ thread call chosen henters hopen hsignalled =>
      have hbase := hdisciplined.enters henters
      have hcomplete : Disciplined allows (base.complete monitor thread call) := by
        refine ⟨hbase.single, fun waiter hwaiter => ?_⟩
        -- the thread that completes its call is not among those that wait
        have hother : thread ≠ waiter.thread := by
          rintro rfl
          exact (henters.nodup hdisciplined.single).2 (List.mem_map_of_mem hwaiter)
        exact (hown _ _ _ _ hother).trans (hbase.allowed waiter hwaiter)
      exact hcomplete.woken (woken_signalled hsignalled)

theorem Disciplined.run (hown : OwnCalls allows) (hdisciplined : Disciplined allows system)
    (events : List (Event Call Condition Thread)) :
    Disciplined allows (system.run monitor allows events) := by
  induction events generalizing system with
  | nil => exact hdisciplined
  | cons event events ih => exact ih (hdisciplined.step hown event)

omit [DecidableEq Call] [DecidableEq Condition] [DecidableEq Thread] in
theorem disciplined_initial (object : State) :
    Disciplined allows (initial object : System State Call Result Condition Thread) :=
  ⟨List.nodup_nil, fun _ hwaiter => absurd hwaiter List.not_mem_nil⟩

/-- What every call preserves that a thread may make and that need not wait holds after every
run of disciplined threads. -/
theorem invariant_of_run (hown : OwnCalls allows)
    (invariant : List (Completed Thread Call Result) → State → Prop)
    (hpreserved : ∀ entries object thread call, invariant entries object →
      allows entries thread call = true → monitor.blockedOn object call = none →
      invariant (entries ++ [⟨thread, call, monitor.result object call⟩])
        (monitor.next object call))
    (hdisciplined : Disciplined allows system) (hsystem : invariant system.history system.object)
    (events : List (Event Call Condition Thread)) :
    invariant (system.run monitor allows events).history
      (system.run monitor allows events).object := by
  induction events generalizing system with
  | nil => exact hsystem
  | cons event events ih =>
      refine ih (hdisciplined.step hown event) ?_
      have hsteps := steps_step monitor allows system event
      generalize system.step monitor allows event = next at hsteps
      cases hsteps with
      | idle => exact hsystem
      | wakeup waiter hasleep => exact hsystem
      | waits base thread call condition henters hblocked =>
          obtain ⟨hobject, hhistory, -⟩ := henters.object
          change invariant base.history base.object
          rw [hobject, hhistory]
          exact hsystem
      | completes base _ thread call chosen henters hopen hsignalled =>
          obtain ⟨hobject, hhistory, -⟩ := henters.object
          have hwoken := woken_signalled hsignalled
          rw [hwoken.object, hwoken.history]
          change invariant (base.history ++ [_]) (monitor.next base.object call)
          rw [hobject] at hopen ⊢
          rw [hhistory]
          exact hpreserved _ _ _ _ hsystem (hdisciplined.allows_of_enters henters) hopen

/-- What holds between the steps: no condition variable with sleepers has more room than it
has woken waiters. -/
structure Invariant (monitor : Monitor State Call Result Condition) (valid : State → Prop)
    (room : Condition → State → ℕ∞) (system : System State Call Result Condition Thread) :
    Prop where
  valid : valid system.object
  waits : ∀ waiter ∈ system.waiters,
    ∃ object, monitor.blockedOn object waiter.call = some waiter.condition
  announced : ∀ condition, system.sleepsOn condition = true →
    room condition system.object ≤ system.wokenOn condition

section Steps

variable {valid : State → Prop} {room : Condition → State → ℕ∞}

/-- A thread that gets the mutex was woken on the condition variable of its call, if at all. -/
theorem Enters.wokenOn_le (hinvariant : Invariant monitor valid room system)
    (henters : Enters allows system base thread call) (condition : Condition) :
    system.wokenOn condition ≤ base.wokenOn condition ∨
      (∃ object, monitor.blockedOn object call = some condition) ∧
        system.wokenOn condition ≤ base.wokenOn condition + 1 := by
  cases henters with
  | call thread call houtside hallowed => exact Or.inl le_rfl
  | resume waiter hawake =>
      have hsplit : system.wokenOn condition = List.countP
          (fun other => decide (other.condition = condition))
            (waiter :: system.awake.erase waiter) :=
        (List.perm_cons_erase hawake).countP_eq _
      rw [hsplit, List.countP_cons]
      by_cases hcondition : waiter.condition = condition
      · have hwaits := hinvariant.waits waiter (List.mem_append_right _ hawake)
        rw [hcondition] at hwaits
        simp only [hcondition, decide_true, if_true]
        exact Or.inr ⟨hwaits, le_rfl⟩
      · simp only [hcondition, decide_false]
        exact Or.inl le_rfl

theorem Enters.waits (hinvariant : Invariant monitor valid room system)
    (henters : Enters allows system base thread call) :
    ∀ waiter ∈ base.waiters,
      ∃ object, monitor.blockedOn object waiter.call = some waiter.condition := by
  cases henters with
  | call thread call houtside hallowed => exact hinvariant.waits
  | resume waiter hawake =>
      intro other hother
      apply hinvariant.waits other
      rcases List.mem_append.mp hother with hasleep | hrest
      · exact List.mem_append_left _ hasleep
      · exact List.mem_append_right _ (List.mem_of_mem_erase hrest)

/-- A call goes to sleep only where there is no room. -/
theorem Invariant.sleeps (hroom : Room monitor valid room)
    (hinvariant : Invariant monitor valid room system)
    (henters : Enters allows system base thread call)
    (hblocked : monitor.blockedOn base.object call = some condition) :
    Invariant monitor valid room
      { base with asleep := ⟨thread, call, condition⟩ :: base.asleep } := by
  obtain ⟨hobject, -, hasleep⟩ := henters.object
  rw [hobject] at hblocked
  refine ⟨?_, ?_, ?_⟩
  · change valid base.object
    rw [hobject]
    exact hinvariant.valid
  · intro waiter hwaiter
    rcases List.mem_cons.mp hwaiter with rfl | hwaiter
    · exact ⟨_, hblocked⟩
    · exact henters.waits hinvariant waiter hwaiter
  · intro other hsleeps
    change room other base.object ≤ (base.wokenOn other : ℕ∞)
    rw [hobject]
    by_cases hother : other = condition
    · rw [hother, hroom.closed _ _ _ hinvariant.valid hblocked]
      exact zero_le
    · have hbefore : system.sleepsOn other = true := by
        obtain ⟨waiter, hwaiter, hcondition⟩ := sleepsOn_iff.mp hsleeps
        rcases List.mem_cons.mp hwaiter with rfl | hwaiter
        · exact absurd hcondition.symm hother
        · rw [hasleep] at hwaiter
          exact sleepsOn_iff.mpr ⟨waiter, hwaiter, hcondition⟩
      have hannounced := hinvariant.announced other hbefore
      rcases henters.wokenOn_le hinvariant other with hle | ⟨⟨object, hwaits⟩, -⟩
      · exact hannounced.trans (Nat.cast_le.mpr hle)
      · exact absurd (hroom.same _ _ _ _ _ hblocked hwaits) hother

/-- A call that goes on takes room away, or makes the new room known. -/
theorem Invariant.completes (hroom : Room monitor valid room)
    (hinvariant : Invariant monitor valid room system)
    (henters : Enters allows system base thread call)
    (hopen : monitor.blockedOn base.object call = none)
    (hsignalled : (base.complete monitor thread call).signalled
      (monitor.signal base.object call) chosen = some system') :
    Invariant monitor valid room system' := by
  obtain ⟨hobject, -, hasleep⟩ := henters.object
  have hwoken := woken_signalled hsignalled
  rw [hobject] at hopen hsignalled
  have hnext : system'.object = monitor.next system.object call := by
    rw [hwoken.object]
    exact congrArg (fun object => monitor.next object call) hobject
  refine ⟨?_, fun waiter hwaiter => ?_, fun condition hsleeps => ?_⟩
  · rw [hnext]
    exact hroom.valid_next _ _ hinvariant.valid hopen
  · exact henters.waits hinvariant waiter (hwoken.waiters.mem_iff.mp hwaiter)
  · have hbetween : (base.complete monitor thread call).sleepsOn condition = true :=
      hwoken.sleepsOn hsleeps
    have hbefore : system.sleepsOn condition = true := by
      rw [sleepsOn, ← hasleep]
      exact hbetween
    have hannounced := hinvariant.announced condition hbefore
    rw [hnext]
    rcases henters.wokenOn_le hinvariant condition with hle | ⟨⟨object, hwaits⟩, hle⟩
    · have hroomBefore : room condition system.object ≤ (base.wokenOn condition : ℕ∞) :=
        hannounced.trans (Nat.cast_le.mpr hle)
      rcases hroom.announced _ _ condition hinvariant.valid hopen with
        hless | ⟨hsignal, hmore⟩ | hsignal
      · exact (hless.trans hroomBefore).trans (Nat.cast_le.mpr (hwoken.wokenOn_le condition))
      · rw [hsignal] at hsignalled
        rcases notify_cases hsignalled with ⟨hnone, -⟩ | ⟨waiter, -, rfl, rfl⟩
        · rw [hbetween] at hnone
          cases hnone
        · rw [wokenOn_wake, Nat.cast_succ]
          exact hmore.trans (add_le_add_left hroomBefore 1)
      · rw [hsignal] at hsignalled
        cases hsignalled
        rw [not_sleepsOn_notifyAll] at hsleeps
        cases hsleeps
    · -- a woken thread goes on, and uses up the room it was woken for
      have hsum : room condition (monitor.next system.object call) + 1 ≤
          (base.wokenOn condition : ℕ∞) + 1 :=
        calc
          room condition (monitor.next system.object call) + 1 ≤
              room condition system.object := hroom.used _ _ _ _ hinvariant.valid hwaits hopen
          _ ≤ (system.wokenOn condition : ℕ∞) := hannounced
          _ ≤ ((base.wokenOn condition + 1 : ℕ) : ℕ∞) := Nat.cast_le.mpr hle
          _ = (base.wokenOn condition : ℕ∞) + 1 := Nat.cast_succ _
      exact ((ENat.add_le_add_iff_right ENat.one_ne_top).mp hsum).trans
        (Nat.cast_le.mpr (hwoken.wokenOn_le condition))

/-- A thread that wakes up for no reason takes nothing from the others. -/
theorem Invariant.wakeup (hinvariant : Invariant monitor valid room system)
    (hasleep : waiter ∈ system.asleep) : Invariant monitor valid room (system.wake waiter) := by
  have hwoken := woken_wake hasleep
  refine ⟨hinvariant.valid, fun other hother => ?_, fun condition hsleeps => ?_⟩
  · exact hinvariant.waits other (hwoken.waiters.mem_iff.mp hother)
  · exact (hinvariant.announced condition (hwoken.sleepsOn hsleeps)).trans
      (Nat.cast_le.mpr (hwoken.wokenOn_le condition))

theorem Invariant.step (hroom : Room monitor valid room)
    (hinvariant : Invariant monitor valid room system) (event : Event Call Condition Thread) :
    Invariant monitor valid room (system.step monitor allows event) := by
  have hsteps := steps_step monitor allows system event
  generalize system.step monitor allows event = next at hsteps
  cases hsteps with
  | idle => exact hinvariant
  | wakeup waiter hasleep => exact hinvariant.wakeup hasleep
  | waits base thread call condition henters hblocked =>
      exact hinvariant.sleeps hroom henters hblocked
  | completes base _ thread call chosen henters hopen hsignalled =>
      exact hinvariant.completes hroom henters hopen hsignalled

theorem Invariant.run (hroom : Room monitor valid room)
    (hinvariant : Invariant monitor valid room system)
    (events : List (Event Call Condition Thread)) :
    Invariant monitor valid room (system.run monitor allows events) := by
  induction events generalizing system with
  | nil => exact hinvariant
  | cons event events ih => exact ih (hinvariant.step hroom event)

omit [DecidableEq Call] [DecidableEq Thread] in
theorem initial_invariant {object : State} (hvalid : valid object) :
    Invariant monitor valid room
      (initial object : System State Call Result Condition Thread) where
  valid := hvalid
  waits := fun _ hwaiter => absurd hwaiter List.not_mem_nil
  announced := fun _ hsleeps => by cases hsleeps

omit [DecidableEq Call] [DecidableEq Thread] in
/-- Where calls that have waited may go on for ever, nobody is asleep. -/
theorem Invariant.not_sleepsOn (hinvariant : Invariant monitor valid room system)
    (htop : room condition system.object = ⊤) : system.sleepsOn condition = false := by
  by_contra hsleeps
  have hannounced := hinvariant.announced condition (Bool.eq_true_of_not_eq_false hsleeps)
  rw [htop, top_le_iff] at hannounced
  exact ENat.natCast_ne_top _ hannounced

omit [DecidableEq Call] [DecidableEq Thread] in
/-- No wakeup is lost: where a sleeping call could go on, a call that waited on the same
condition variable is awake and will go on when it gets the mutex. -/
theorem Invariant.exists_awake (hroom : Room monitor valid room)
    (hinvariant : Invariant monitor valid room system) (hasleep : waiter ∈ system.asleep)
    (hopen : monitor.blockedOn system.object waiter.call = none) :
    ∃ other ∈ system.awake, other.condition = waiter.condition ∧
      monitor.blockedOn system.object other.call = none := by
  obtain ⟨object, hwaits⟩ := hinvariant.waits waiter (List.mem_append_left _ hasleep)
  have hspace : room waiter.condition system.object ≠ 0 := by
    intro hnone
    have hused := hroom.used _ _ _ _ hinvariant.valid hwaits hopen
    rw [hnone] at hused
    simp at hused
  have hcount : 0 < system.wokenOn waiter.condition := by
    apply Nat.pos_of_ne_zero
    intro hnone
    have hannounced := hinvariant.announced waiter.condition
      (sleepsOn_iff.mpr ⟨waiter, hasleep, rfl⟩)
    rw [hnone] at hannounced
    exact hspace (le_antisymm hannounced zero_le)
  obtain ⟨other, hawake, hsame⟩ := List.countP_pos_iff.mp hcount
  refine ⟨other, hawake, of_decide_eq_true hsame, ?_⟩
  obtain ⟨object', hother⟩ := hinvariant.waits other (List.mem_append_right _ hawake)
  cases hblocked : monitor.blockedOn system.object other.call with
  | none => rfl
  | some condition =>
      have hcondition := hroom.same _ _ _ _ _ hother hblocked
      rw [of_decide_eq_true hsame] at hcondition
      have hclosed := hroom.closed _ _ _ hinvariant.valid hblocked
      rw [hcondition] at hclosed
      exact absurd hclosed hspace

omit [DecidableEq Call] [DecidableEq Thread] in
/-- Where nobody is awake, every sleeper is held back by its guard. -/
theorem Invariant.blockedOn_of_idle (hroom : Room monitor valid room)
    (hinvariant : Invariant monitor valid room system) (hidle : system.awake = [])
    (hasleep : waiter ∈ system.asleep) :
    monitor.blockedOn system.object waiter.call = some waiter.condition := by
  cases hguard : monitor.blockedOn system.object waiter.call with
  | none =>
      obtain ⟨other, hawake, -⟩ := hinvariant.exists_awake hroom hasleep hguard
      rw [hidle] at hawake
      cases hawake
  | some condition =>
      obtain ⟨object, hwaits⟩ := hinvariant.waits waiter (List.mem_append_left _ hasleep)
      rw [hroom.same _ _ _ _ _ hwaits hguard]

end Steps

end System

end Cuber.Monitors
