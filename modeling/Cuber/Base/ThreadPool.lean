import Cuber.Base.BlockingQueue

/-!
# Thread pool

A `ThreadPool` has a queue of tasks, which may be bounded, and worker threads
that take tasks from it while the pool is running.  A worker tests `running_`
without the mutex, takes a task, runs it, and starts over.  `stop` wakes the
workers; it does not wake the threads that wait in `run` for room.
-/

namespace Cuber.ThreadPools

open Cuber.Monitors
open Cuber.BlockingQueues (QueueCondition)

universe u v

structure PoolState (A : Type u) where
  queue : List A := []
  running : Bool := true
  deriving DecidableEq

inductive PoolCall (A : Type u) where
  | run (task : A)
  | take
  | stop
  | queueSize
  /-- The test of `running_` in `runInThread`. -/
  | test
  deriving DecidableEq

inductive PoolResult (A : Type u) where
  | done
  | task (task : A)
  /-- `take` was left with an empty queue. -/
  | noTask
  | number (n : ℕ)
  | flag (b : Bool)
  deriving DecidableEq

def isFull {A : Type u} (maxQueueSize : ℕ) (queue : List A) : Bool :=
  maxQueueSize > 0 && queue.length ≥ maxQueueSize

/-- The pool behind its mutex, once it was started with at least one worker; without any, `run`
calls the task itself. -/
def poolMonitor {A : Type u} (maxQueueSize : ℕ) :
    Monitor (PoolState A) (PoolCall A) (PoolResult A) QueueCondition where
  blockedOn pool
    | .run _ => if isFull maxQueueSize pool.queue then some .notFull else none
    | .take => if pool.queue = [] ∧ pool.running then some .notEmpty else none
    | .stop | .queueSize | .test => none
  next pool
    | .run task => { pool with queue := pool.queue ++ [task] }
    | .take => { pool with queue := pool.queue.tail }
    | .stop => { pool with running := false }
    | .queueSize | .test => pool
  result pool
    | .run _ | .stop => .done
    | .take =>
        match pool.queue with
        | task :: _ => .task task
        | [] => .noTask
    | .queueSize => .number pool.queue.length
    | .test => .flag pool.running
  signal pool
    | .run _ => .notify .notEmpty
    | .take => if pool.queue ≠ [] ∧ maxQueueSize > 0 then .notify .notFull else .none
    | .stop => .notifyAll .notEmpty
    | .queueSize | .test => .none

abbrev Entry (A : Type u) (Thread : Type v) := Completed Thread (PoolCall A) (PoolResult A)

abbrev PoolEvent (A : Type u) (Thread : Type v) := Event (PoolCall A) QueueCondition Thread

variable {A : Type u} {Thread : Type v}

/-- A call that belongs to the loop of `runInThread`. -/
def PoolCall.ofLoop : PoolCall A → Bool
  | .take | .test => true
  | .run _ | .stop | .queueSize => false

section Workers

variable [DecidableEq Thread]

/-- Where a worker is in its loop: the last call of the loop that has returned. -/
def lastOfLoop (history : List (Entry A Thread)) (thread : Thread) : Option (Entry A Thread) :=
  (history.filter fun entry => entry.thread = thread && entry.call.ofLoop).getLast?

def tests : Option (Entry A Thread) → Bool
  | none | some ⟨_, .take, _⟩ => true
  | _ => false

/-- The worker has found the pool running, and is about to take a task. -/
def takes : Option (Entry A Thread) → Bool
  | some ⟨_, .test, .flag true⟩ => true
  | _ => false

def executes : Option (Entry A Thread) → Bool
  | some ⟨_, .take, .task _⟩ => true
  | _ => false

def exited : Option (Entry A Thread) → Bool
  | some ⟨_, .test, .flag false⟩ => true
  | _ => false

/-- What a thread can call next: a worker follows its loop, and any thread that is not in it,
or is in a task, may use the pool. -/
def mayCall (workers : List Thread) (history : List (Entry A Thread)) (thread : Thread) :
    PoolCall A → Bool
  | .test => thread ∈ workers && tests (lastOfLoop history thread)
  | .take => thread ∈ workers && takes (lastOfLoop history thread)
  | .run _ | .queueSize => thread ∉ workers || executes (lastOfLoop history thread)
  | .stop => thread ∉ workers

/-- The last call of the loop changes when a call of the loop returns. -/
theorem lastOfLoop_append (history : List (Entry A Thread)) (entry : Entry A Thread)
    (thread : Thread) :
    lastOfLoop (history ++ [entry]) thread =
      if entry.thread = thread ∧ entry.call.ofLoop = true then some entry
      else lastOfLoop history thread := by
  rw [lastOfLoop, List.filter_append, List.filter_singleton]
  by_cases hentry : entry.thread = thread ∧ entry.call.ofLoop = true
  · rw [if_pos hentry]
    simp [hentry]
  · rw [if_neg hentry]
    have hfalse : (decide (entry.thread = thread) && entry.call.ofLoop) = false := by
      simpa using hentry
    simp [hfalse, lastOfLoop]

theorem ownCalls_mayCall (workers : List Thread) :
    System.OwnCalls (mayCall workers : List (Entry A Thread) → Thread → PoolCall A → Bool) := by
  intro history entry thread call hother
  have hlast : lastOfLoop (history ++ [entry]) thread = lastOfLoop history thread := by
    rw [lastOfLoop_append, if_neg fun hentry => hother hentry.1]
  cases call <;> simp only [mayCall, hlast]

end Workers

def submitted (history : List (Entry A Thread)) : List A :=
  history.filterMap fun entry =>
    match entry.call with
    | .run task => some task
    | _ => none

/-- The tasks that workers were given, in order. -/
def taken (history : List (Entry A Thread)) : List A :=
  history.filterMap fun entry =>
    match entry.result with
    | .task task => some task
    | _ => none

section Queue

variable {maxQueueSize : ℕ}

/-- The tasks are taken in the order in which they were accepted, and the rest is queued. -/
def InOrder (maxQueueSize : ℕ) (history : List (Entry A Thread)) (pool : PoolState A) : Prop :=
  taken history ++ pool.queue = submitted history ∧
    (maxQueueSize > 0 → pool.queue.length ≤ maxQueueSize)

/-- A call that goes on keeps the order and the bound. -/
theorem inOrder_next {history : List (Entry A Thread)} {pool : PoolState A}
    (hinOrder : InOrder maxQueueSize history pool) (thread : Thread) {call : PoolCall A}
    (hopen : (poolMonitor maxQueueSize).blockedOn pool call = none) :
    InOrder maxQueueSize (history ++ [⟨thread, call, (poolMonitor maxQueueSize).result pool call⟩])
      ((poolMonitor maxQueueSize).next pool call) := by
  obtain ⟨horder, hbound⟩ := hinOrder
  rw [InOrder, taken, submitted, List.filterMap_append, List.filterMap_append]
  rw [taken, submitted] at horder
  cases call with
  | run task =>
      refine ⟨by simp [poolMonitor, ← horder], fun hpos => ?_⟩
      have hroom : isFull maxQueueSize pool.queue = false := by
        simpa [poolMonitor] using hopen
      simp only [isFull, hpos, decide_true, Bool.true_and, decide_eq_false_iff_not] at hroom
      simp only [poolMonitor, List.length_append, List.length_singleton]
      omega
  | take =>
      cases hqueue : pool.queue with
      | nil =>
          rw [hqueue] at horder
          simpa [poolMonitor, hqueue] using horder
      | cons task queue =>
          rw [hqueue] at horder hbound
          refine ⟨by simpa [poolMonitor, hqueue] using horder, fun hpos => ?_⟩
          have hlength := hbound hpos
          simp only [poolMonitor, hqueue, List.tail_cons]
          rw [List.length_cons] at hlength
          omega
  | stop | queueSize | test =>
      refine ⟨?_, hbound⟩
      simpa [poolMonitor] using horder

/-- How many takers can go on, and for how many tasks there is room. -/
def poolRoom (maxQueueSize : ℕ) : QueueCondition → PoolState A → ℕ∞
  | .notEmpty, pool => if pool.running then (pool.queue.length : ℕ∞) else ⊤
  | .notFull, pool =>
      if maxQueueSize > 0 then ((maxQueueSize - pool.queue.length : ℕ) : ℕ∞) else ⊤

theorem blockedOn_notEmpty_iff {pool : PoolState A} {call : PoolCall A} :
    (poolMonitor maxQueueSize).blockedOn pool call = some .notEmpty ↔
      call = .take ∧ pool.queue = [] ∧ pool.running = true := by
  cases call <;> simp [poolMonitor]

theorem blockedOn_notFull_iff {pool : PoolState A} {call : PoolCall A} :
    (poolMonitor maxQueueSize).blockedOn pool call = some .notFull ↔
      (∃ task, call = .run task) ∧ isFull maxQueueSize pool.queue = true := by
  cases call <;> simp [poolMonitor]

theorem isFull_iff {queue : List A} :
    isFull maxQueueSize queue = true ↔ maxQueueSize > 0 ∧ maxQueueSize ≤ queue.length := by
  simp [isFull]

theorem poolRoom_used_take {pool : PoolState A}
    (hopen : (poolMonitor maxQueueSize).blockedOn pool .take = none) :
    poolRoom maxQueueSize .notEmpty ((poolMonitor maxQueueSize).next pool .take) + 1 ≤
      poolRoom maxQueueSize .notEmpty pool := by
  cases hrunning : pool.running with
  | false => simp [poolRoom, poolMonitor, hrunning]
  | true =>
      cases hqueue : pool.queue with
      | nil => simp [poolMonitor, hqueue, hrunning] at hopen
      | cons task queue => simp [poolRoom, poolMonitor, hrunning, hqueue]

/-- A call of `run` takes one place. -/
theorem poolRoom_used_run {pool : PoolState A} {task : A}
    (hopen : (poolMonitor maxQueueSize).blockedOn pool (.run task) = none) :
    poolRoom maxQueueSize .notFull ((poolMonitor maxQueueSize).next pool (.run task)) + 1 ≤
      poolRoom maxQueueSize .notFull pool := by
  by_cases hpos : maxQueueSize > 0
  · have hroom : isFull maxQueueSize pool.queue = false := by
      simpa [poolMonitor] using hopen
    have hlength : pool.queue.length < maxQueueSize := by
      simpa [isFull, hpos] using hroom
    simp only [poolRoom, hpos, if_true]
    calc
      ((maxQueueSize - (pool.queue ++ [task]).length : ℕ) : ℕ∞) + 1 =
          ((maxQueueSize - (pool.queue ++ [task]).length + 1 : ℕ) : ℕ∞) := (Nat.cast_succ _).symm
      _ ≤ ((maxQueueSize - pool.queue.length : ℕ) : ℕ∞) := by
        apply Nat.cast_le.mpr
        rw [List.length_append, List.length_singleton]
        omega
  · simp [poolRoom, hpos]

/-- Each call says what room it makes: one task, one free place, or the end of the pool. -/
theorem poolRoom_announced (maxQueueSize : ℕ) (pool : PoolState A) (call : PoolCall A)
    (condition : QueueCondition) :
    poolRoom maxQueueSize condition ((poolMonitor maxQueueSize).next pool call) ≤
        poolRoom maxQueueSize condition pool ∨
      (poolMonitor maxQueueSize).signal pool call = .notify condition ∧
          poolRoom maxQueueSize condition ((poolMonitor maxQueueSize).next pool call) ≤
            poolRoom maxQueueSize condition pool + 1 ∨
        (poolMonitor maxQueueSize).signal pool call = .notifyAll condition := by
  cases condition with
  | notEmpty =>
      cases call with
      | run task =>
          refine Or.inr (Or.inl ⟨rfl, ?_⟩)
          cases hrunning : pool.running <;> simp [poolRoom, poolMonitor, hrunning]
      | take =>
          refine Or.inl ?_
          cases hrunning : pool.running <;> simp [poolRoom, poolMonitor, hrunning]
      | stop => exact Or.inr (Or.inr rfl)
      | queueSize | test => exact Or.inl le_rfl
  | notFull =>
      cases call with
      | run task =>
          refine Or.inl ?_
          by_cases hpos : maxQueueSize > 0
          · simp only [poolRoom, hpos, if_true, poolMonitor]
            apply Nat.cast_le.mpr
            rw [List.length_append]
            omega
          · simp [poolRoom, hpos]
      | take =>
          by_cases hpos : maxQueueSize > 0
          · cases hqueue : pool.queue with
            | nil => exact Or.inl (by simp [poolRoom, poolMonitor, hqueue])
            | cons task queue =>
                refine Or.inr (Or.inl ⟨by simp [poolMonitor, hqueue, hpos], ?_⟩)
                simp only [poolRoom, hpos, if_true, poolMonitor, hqueue, List.tail_cons]
                rw [← Nat.cast_succ]
                apply Nat.cast_le.mpr
                rw [List.length_cons]
                omega
          · exact Or.inl (by simp [poolRoom, hpos])
      | stop | queueSize | test => exact Or.inl le_rfl

/-- The guards and the signals of a pool agree with the room that it has. -/
theorem room_pool :
    Room (poolMonitor (A := A) maxQueueSize) (fun _ => True) (poolRoom maxQueueSize) where
  valid_next := fun _ _ _ _ => trivial
  same := by
    intro pool pool' call condition condition' hblocked hblocked'
    cases call with
    | run task => cases condition <;> cases condition' <;> simp [poolMonitor] at *
    | take => cases condition <;> cases condition' <;> simp [poolMonitor] at *
    | stop | queueSize | test => cases hblocked
  closed := by
    intro pool call condition _ hblocked
    cases condition with
    | notEmpty =>
        obtain ⟨-, hqueue, hrunning⟩ := blockedOn_notEmpty_iff.mp hblocked
        simp [poolRoom, hqueue, hrunning]
    | notFull =>
        obtain ⟨hpos, hfull⟩ := isFull_iff.mp (blockedOn_notFull_iff.mp hblocked).2
        simp [poolRoom, hpos, Nat.sub_eq_zero_of_le hfull]
  used := by
    intro pool pool' call condition _ hblocked hopen
    cases condition with
    | notEmpty =>
        obtain ⟨rfl, -⟩ := blockedOn_notEmpty_iff.mp hblocked
        exact poolRoom_used_take hopen
    | notFull =>
        obtain ⟨⟨task, rfl⟩, -⟩ := blockedOn_notFull_iff.mp hblocked
        exact poolRoom_used_run hopen
  announced := fun pool call condition _ _ => poolRoom_announced maxQueueSize pool call condition

end Queue

section Runs

variable [DecidableEq A] [DecidableEq Thread]

/-- Whatever the threads do, the workers take the tasks in the order in which `run` accepted
them, none of them twice, a bounded queue keeps its bound, and no thread that could go on
sleeps unless a woken one goes on in its place. -/
theorem taken_of_run (first : Thread) (others : List Thread) (maxQueueSize : ℕ)
    (events : List (PoolEvent A Thread)) :
    let pool :=
      (System.initial {}).run (poolMonitor maxQueueSize) (mayCall (first :: others)) events
    (taken pool.history ++ pool.object.queue = submitted pool.history ∧
      (maxQueueSize > 0 → pool.object.queue.length ≤ maxQueueSize)) ∧
      ∀ waiter ∈ pool.asleep,
        (poolMonitor maxQueueSize).blockedOn pool.object waiter.call = none →
          ∃ other ∈ pool.awake, other.condition = waiter.condition ∧
            (poolMonitor maxQueueSize).blockedOn pool.object other.call = none := by
  intro pool
  refine ⟨?_, fun waiter hasleep hopen => ?_⟩
  · exact System.invariant_of_run (ownCalls_mayCall _) (InOrder maxQueueSize)
      (fun entries object thread call hbefore _ hopen => inOrder_next hbefore thread hopen)
      (System.disciplined_initial {}) ⟨rfl, fun _ => Nat.zero_le _⟩ events
  · have hinvariant : System.Invariant (poolMonitor maxQueueSize) (fun _ => True)
        (poolRoom maxQueueSize) pool :=
      System.Invariant.run room_pool (System.initial_invariant trivial) events
    exact hinvariant.exists_awake room_pool hasleep hopen

def takesOf (thread : Thread) (entries : List (Entry A Thread)) : ℕ :=
  entries.countP fun entry => entry.thread = thread && entry.call = .take

/-- Since a stop, no worker has taken more than one task, and one that is about to take has
taken none. -/
def Stopping (history : List (Entry A Thread)) (pool : PoolState A) : Prop :=
  ∀ before entry after, history = before ++ entry :: after → entry.call = .stop →
    pool.running = false ∧ ∀ worker, takesOf worker after ≤ 1 ∧
      (takes (lastOfLoop history worker) = true → takesOf worker after = 0)

theorem takesOf_concat (worker : Thread) (after : List (Entry A Thread))
    (entry : Entry A Thread) :
    takesOf worker (after ++ [entry]) =
      takesOf worker after + if entry.thread = worker ∧ entry.call = .take then 1 else 0 := by
  rw [takesOf, List.countP_append, List.countP_singleton]
  simp [takesOf]

/-- After a stop each worker is on its way out. -/
theorem stopping_next {workers : List Thread} {maxQueueSize : ℕ}
    {history : List (Entry A Thread)} {pool : PoolState A} (hstopping : Stopping history pool)
    {thread : Thread} {call : PoolCall A}
    (hallowed : mayCall workers history thread call = true) :
    Stopping (history ++ [⟨thread, call, (poolMonitor maxQueueSize).result pool call⟩])
      ((poolMonitor maxQueueSize).next pool call) := by
  intro before entry after hsplit hstop
  rcases List.eq_nil_or_concat after with rfl | ⟨after, last, rfl⟩
  · obtain ⟨rfl, hlast⟩ := List.append_inj' hsplit rfl
    cases hlast
    cases hstop
    exact ⟨rfl, fun worker => ⟨Nat.zero_le _, fun _ => rfl⟩⟩
  · rw [List.concat_eq_append, ← List.cons_append, ← List.append_assoc] at hsplit
    obtain ⟨hbefore, hlast⟩ := List.append_inj' hsplit rfl
    cases hlast
    obtain ⟨hrunning, hworkers⟩ := hstopping before entry after hbefore hstop
    refine ⟨by cases call <;> simp [poolMonitor, hrunning], fun worker => ?_⟩
    obtain ⟨hone, hnone⟩ := hworkers worker
    rw [List.concat_eq_append, takesOf_concat, lastOfLoop_append]
    by_cases hworker : thread = worker
    · subst hworker
      cases call with
      | take =>
          -- it was about to take, so this is its first task since the stop
          have hfirst : takesOf thread after = 0 := by
            apply hnone
            rw [mayCall, Bool.and_eq_true] at hallowed
            exact hallowed.2
          simp [hfirst, PoolCall.ofLoop, takes]
      | test => simp [hone, PoolCall.ofLoop, poolMonitor, hrunning, takes]
      | run | stop | queueSize => simpa [PoolCall.ofLoop] using ⟨hone, hnone⟩
    · simpa [hworker] using ⟨hone, hnone⟩

/-- After `stop`, no worker sleeps in `take`, and each takes at most one more task. -/
theorem stop_of_run (first : Thread) (others : List Thread) (maxQueueSize : ℕ)
    (events : List (PoolEvent A Thread)) :
    let pool :=
      (System.initial {}).run (poolMonitor maxQueueSize) (mayCall (first :: others)) events
    ∀ before entry after, pool.history = before ++ entry :: after → entry.call = .stop →
      pool.sleepsOn .notEmpty = false ∧ ∀ worker, takesOf worker after ≤ 1 := by
  intro pool before entry after hsplit hstop
  have hstopping : Stopping pool.history pool.object :=
    System.invariant_of_run (ownCalls_mayCall _) Stopping
      (fun entries object thread call hbefore hallowed _ => stopping_next hbefore hallowed)
      (System.disciplined_initial {})
      (fun before entry after hnil _ => by simp [System.initial] at hnil) events
  obtain ⟨hrunning, hworkers⟩ := hstopping before entry after hsplit hstop
  have hinvariant : System.Invariant (poolMonitor maxQueueSize) (fun _ => True)
      (poolRoom maxQueueSize) pool :=
    System.Invariant.run room_pool (System.initial_invariant trivial) events
  refine ⟨hinvariant.not_sleepsOn ?_, fun worker => (hworkers worker).1⟩
  rw [poolRoom, hrunning]
  rfl

/-- A worker finds the pool running, and takes a task when it was stopped. -/
def stopWhileTaking : List (PoolEvent ℕ ℕ) :=
  [.call 0 .test none, .call 1 (.run 7) none, .call 1 .stop none, .call 0 .take none]

theorem stop_of_run_stopWhileTaking :
    let pool := (System.initial {}).run (poolMonitor 1) (mayCall [0]) stopWhileTaking
    pool.sleepsOn .notEmpty = false ∧ ∀ worker, takesOf worker [⟨0, .take, .task 7⟩] ≤ 1 :=
  stop_of_run 0 [] 1 stopWhileTaking [⟨0, .test, .flag true⟩, ⟨1, .run 7, .done⟩]
    ⟨1, .stop, .done⟩ [⟨0, .take, .task 7⟩] (by decide) rfl

/-- All workers have left, with a full queue that holds these tasks. -/
def Abandoned (workers : List Thread) (maxQueueSize : ℕ) (accepted given queue : List A)
    (history : List (Entry A Thread)) (pool : PoolState A) : Prop :=
  (∀ worker ∈ workers, exited (lastOfLoop history worker) = true) ∧
    isFull maxQueueSize queue = true ∧ pool.queue = queue ∧ submitted history = accepted ∧
      taken history = given

omit [DecidableEq A] in
/-- No call changes the queue of an abandoned pool. -/
theorem abandoned_next {workers : List Thread} {maxQueueSize : ℕ} {accepted given queue : List A}
    {history : List (Entry A Thread)} {pool : PoolState A}
    (habandoned : Abandoned workers maxQueueSize accepted given queue history pool)
    {thread : Thread} {call : PoolCall A}
    (hallowed : mayCall workers history thread call = true)
    (hopen : (poolMonitor maxQueueSize).blockedOn pool call = none) :
    Abandoned workers maxQueueSize accepted given queue
      (history ++ [⟨thread, call, (poolMonitor maxQueueSize).result pool call⟩])
      ((poolMonitor maxQueueSize).next pool call) := by
  obtain ⟨hexited, hfull, hqueue, haccepted, hgiven⟩ := habandoned
  cases call with
  | run task => simp [poolMonitor, hqueue, hfull] at hopen
  | take | test =>
      -- no worker is left to make the call
      rw [mayCall, Bool.and_eq_true, decide_eq_true_iff] at hallowed
      have hleft := hexited thread hallowed.1
      revert hallowed
      unfold exited at hleft
      split at hleft <;> simp_all [takes, tests]
  | stop | queueSize =>
      refine ⟨fun worker hworker => ?_, hfull, hqueue, ?_, ?_⟩
      · rw [lastOfLoop_append, if_neg (by simp [PoolCall.ofLoop])]
        exact hexited worker hworker
      · simpa [submitted] using haccepted
      · simpa [taken, poolMonitor] using hgiven

/-- Once every worker has left a pool with a full queue, no call of `run` ever returns and the
queued tasks are never taken: nobody is left to make room. -/
theorem run_never_returns (first : Thread) (others : List Thread) (maxQueueSize : ℕ)
    (events later : List (PoolEvent A Thread)) :
    let pool :=
      (System.initial {}).run (poolMonitor maxQueueSize) (mayCall (first :: others)) events
    let pool' := pool.run (poolMonitor maxQueueSize) (mayCall (first :: others)) later
    (∀ worker ∈ first :: others, exited (lastOfLoop pool.history worker) = true) →
      isFull maxQueueSize pool.object.queue = true →
        submitted pool'.history = submitted pool.history ∧
          taken pool'.history = taken pool.history ∧
            pool'.object.queue = pool.object.queue := by
  intro pool pool' hexited hfull
  have hdisciplined : System.Disciplined (mayCall (first :: others)) pool :=
    System.Disciplined.run (ownCalls_mayCall _) (System.disciplined_initial _) events
  have habandoned : Abandoned (first :: others) maxQueueSize (submitted pool.history)
      (taken pool.history) pool.object.queue pool'.history pool'.object :=
    System.invariant_of_run (ownCalls_mayCall _) _
      (fun entries object thread call hbefore hallowed hopen =>
        abandoned_next hbefore hallowed hopen)
      hdisciplined ⟨hexited, hfull, rfl, rfl, rfl⟩ later
  obtain ⟨-, -, hqueue, hsubmitted, htaken⟩ := habandoned
  exact ⟨hsubmitted, htaken, hqueue⟩

/-- One worker, room for one task: a second task waits for room, the pool is stopped, and the
worker leaves without a look at the queue. -/
def stopWhileFull : List (PoolEvent ℕ ℕ) :=
  [.call 1 (.run 7) none, .call 2 (.run 8) none, .call 1 .stop none, .call 0 .test none]

/-- The thread that waits for room wakes up for no reason, and goes back to sleep. -/
def wakeupInRun : List (PoolEvent ℕ ℕ) :=
  [.wakeup ⟨2, .run 8, .notFull⟩, .resume ⟨2, .run 8, .notFull⟩ none]

theorem run_never_returns_stopWhileFull :
    let pool := (System.initial {}).run (poolMonitor 1) (mayCall [0]) stopWhileFull
    let pool' := pool.run (poolMonitor 1) (mayCall [0]) wakeupInRun
    submitted pool'.history = submitted pool.history ∧
      taken pool'.history = taken pool.history ∧
        pool'.object.queue = pool.object.queue :=
  run_never_returns 0 [] 1 stopWhileFull wakeupInRun (by decide) (by decide)

end Runs

end Cuber.ThreadPools
