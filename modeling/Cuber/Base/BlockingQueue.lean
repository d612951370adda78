import Cuber.Core.Monitor

/-!
# Queues and latches between threads

`BlockingQueue` and `BoundedBlockingQueue` hand elements from the threads that
put them to the threads that take them; `CountDownLatch` holds threads back
until others have counted down to zero.  Each is an object behind one mutex
whose calls wait in a loop, and a run is any interleaving of any number of
threads, with wakeups that nobody asked for.
-/

namespace Cuber.BlockingQueues

open Cuber.Monitors

universe u v

inductive QueueCall (A : Type u) where
  | put (x : A)
  | take
  | size
  | empty
  | full
  deriving DecidableEq

inductive QueueResult (A : Type u) where
  | done
  | front (x : A)
  | number (n : ℕ)
  | flag (b : Bool)
  deriving DecidableEq

inductive QueueCondition where
  | notEmpty
  | notFull
  deriving DecidableEq

/-- The queue behind its mutex.  `BlockingQueue` has no capacity, and nobody
waits for room in it. -/
def queueMonitor {A : Type u} (maxSize : Option ℕ) :
    Monitor (List A) (QueueCall A) (QueueResult A) QueueCondition where
  blockedOn queue
    | .put _ => if maxSize = some queue.length then some .notFull else none
    | .take => if queue = [] then some .notEmpty else none
    | .size | .empty | .full => none
  next queue
    | .put x => queue ++ [x]
    | .take => queue.tail
    | .size | .empty | .full => queue
  result queue
    | .put _ => .done
    | .take =>
        match queue with
        | x :: _ => .front x
        | [] => .done
    | .size => .number queue.length
    | .empty => .flag queue.isEmpty
    | .full => .flag (maxSize = some queue.length)
  signal _
    | .put _ => .notify .notEmpty
    | .take => if maxSize = none then .none else .notify .notFull
    | .size | .empty | .full => .none

def blockingQueue {A : Type u} : Monitor (List A) (QueueCall A) (QueueResult A) QueueCondition :=
  queueMonitor none

def boundedBlockingQueue {A : Type u} (maxSize : ℕ) :
    Monitor (List A) (QueueCall A) (QueueResult A) QueueCondition :=
  queueMonitor (some maxSize)

variable {A : Type u} {Thread : Type v}

def puts (history : List (Completed Thread (QueueCall A) (QueueResult A))) : List A :=
  history.filterMap fun entry =>
    match entry.call with
    | .put x => some x
    | _ => none

def taken (history : List (Completed Thread (QueueCall A) (QueueResult A))) : List A :=
  history.filterMap fun entry =>
    match entry.result with
    | .front x => some x
    | _ => none

section Queue

variable {maxSize : Option ℕ}

def withinBound (maxSize : Option ℕ) (queue : List A) : Prop :=
  ∀ bound ∈ maxSize, queue.length ≤ bound

theorem withinBound_put {queue : List A} (hbound : withinBound maxSize queue)
    (hroom : maxSize ≠ some queue.length) (x : A) : withinBound maxSize (queue ++ [x]) := by
  intro bound hmax
  have hne : queue.length ≠ bound := fun heq => hroom (by rw [heq]; exact hmax)
  rw [List.length_append, List.length_singleton]
  exact Nat.lt_of_le_of_ne (hbound bound hmax) hne

theorem withinBound_tail {queue : List A} (hbound : withinBound maxSize queue) :
    withinBound maxSize queue.tail := by
  intro bound hmax
  rw [List.length_tail]
  exact (Nat.sub_le _ _).trans (hbound bound hmax)

/-- What was put in is handed out first in, first out, and the rest is queued. -/
def InOrder (maxSize : Option ℕ)
    (history : List (Completed Thread (QueueCall A) (QueueResult A))) (queue : List A) : Prop :=
  taken history ++ queue = puts history ∧ withinBound maxSize queue

/-- A call that goes on keeps the order and the bound. -/
theorem inOrder_next {history : List (Completed Thread (QueueCall A) (QueueResult A))}
    {queue : List A} (hinOrder : InOrder maxSize history queue) (thread : Thread)
    {call : QueueCall A} (hopen : (queueMonitor maxSize).blockedOn queue call = none) :
    InOrder maxSize (history ++ [⟨thread, call, (queueMonitor maxSize).result queue call⟩])
      ((queueMonitor maxSize).next queue call) := by
  obtain ⟨horder, hbound⟩ := hinOrder
  rw [InOrder, taken, puts, List.filterMap_append, List.filterMap_append]
  rw [taken, puts] at horder
  cases call with
  | put x =>
      refine ⟨?_, withinBound_put hbound (fun hfull => ?_) x⟩
      · simp [queueMonitor, ← horder]
      · simp [queueMonitor, hfull] at hopen
  | take =>
      cases queue with
      | nil => simp [queueMonitor] at hopen
      | cons x queue =>
          refine ⟨?_, withinBound_tail hbound⟩
          simpa [queueMonitor] using horder
  | size | empty | full =>
      refine ⟨?_, hbound⟩
      simpa [queueMonitor] using horder

theorem inOrder_of_follows {history : List (Completed Thread (QueueCall A) (QueueResult A))}
    {queue : List A} (hfollows : Follows (queueMonitor maxSize) [] history queue) :
    InOrder maxSize history queue := by
  apply @invariant_of_follows _ _ _ _ _ _ (InOrder maxSize) _ [] queue [] history _ hfollows
  · exact fun entries queue thread call hinOrder hopen => inOrder_next hinOrder thread hopen
  · exact ⟨rfl, fun bound _ => Nat.zero_le bound⟩

theorem blockedOn_notEmpty_iff {queue : List A} {call : QueueCall A} :
    (queueMonitor maxSize).blockedOn queue call = some .notEmpty ↔ call = .take ∧ queue = [] := by
  cases call <;> simp [queueMonitor]

theorem blockedOn_notFull_iff {queue : List A} {call : QueueCall A} :
    (queueMonitor maxSize).blockedOn queue call = some .notFull ↔
      (∃ x, call = .put x) ∧ maxSize = some queue.length := by
  cases call <;> simp [queueMonitor]

/-- How many calls on each condition variable can go on. -/
def queueRoom (maxSize : Option ℕ) : QueueCondition → List A → ℕ∞
  | .notEmpty, queue => queue.length
  | .notFull, queue =>
      match maxSize with
      | some bound => (bound - queue.length : ℕ)
      | none => ⊤

theorem withinBound_next {queue : List A} {call : QueueCall A}
    (hbound : withinBound maxSize queue)
    (hopen : (queueMonitor maxSize).blockedOn queue call = none) :
    withinBound maxSize ((queueMonitor maxSize).next queue call) := by
  cases call with
  | put x => exact withinBound_put hbound (fun hfull => by simp [queueMonitor, hfull] at hopen) x
  | take => exact withinBound_tail hbound
  | size | empty | full => exact hbound

/-- A call adds or removes at most one element, and says so. -/
theorem queueRoom_next (maxSize : Option ℕ) (queue : List A) (call : QueueCall A)
    (condition : QueueCondition) :
    queueRoom maxSize condition ((queueMonitor maxSize).next queue call) ≤
        queueRoom maxSize condition queue ∨
      (queueMonitor maxSize).signal queue call = .notify condition ∧
        queueRoom maxSize condition ((queueMonitor maxSize).next queue call) ≤
          queueRoom maxSize condition queue + 1 := by
  cases condition with
  | notEmpty =>
      cases call with
      | put x =>
          refine Or.inr ⟨rfl, ?_⟩
          simp [queueRoom, queueMonitor]
      | take =>
          refine Or.inl ?_
          simp [queueRoom, queueMonitor]
      | size | empty | full => exact Or.inl le_rfl
  | notFull =>
      cases maxSize with
      | none => exact Or.inl le_rfl
      | some bound =>
          cases call with
          | put x =>
              refine Or.inl (Nat.cast_le.mpr ?_)
              simp only [queueMonitor, List.length_append, List.length_singleton]
              omega
          | take =>
              refine Or.inr ⟨rfl, ?_⟩
              have hless : bound - queue.tail.length ≤ bound - queue.length + 1 := by
                rw [List.length_tail]
                omega
              calc
                ((bound - queue.tail.length : ℕ) : ℕ∞) ≤ ((bound - queue.length + 1 : ℕ) : ℕ∞) :=
                  Nat.cast_le.mpr hless
                _ = ((bound - queue.length : ℕ) : ℕ∞) + 1 := Nat.cast_succ _
          | size | empty | full => exact Or.inl le_rfl

/-- The guards and the signals of a queue agree with the room that it has. -/
theorem room_queue :
    Room (queueMonitor (A := A) maxSize) (withinBound maxSize) (queueRoom maxSize) where
  valid_next := fun _ _ hbound hopen => withinBound_next hbound hopen
  same := by
    intro queue queue' call condition condition' hblocked hblocked'
    cases call with
    | put x => cases condition <;> cases condition' <;> simp [queueMonitor] at *
    | take => cases condition <;> cases condition' <;> simp [queueMonitor] at *
    | size | empty | full => cases hblocked
  closed := by
    intro queue call condition _ hblocked
    cases condition with
    | notEmpty =>
        rw [(blockedOn_notEmpty_iff.mp hblocked).2]
        rfl
    | notFull =>
        rw [(blockedOn_notFull_iff.mp hblocked).2]
        simp [queueRoom]
  used := by
    intro queue queue' call condition hbound hblocked hopen
    cases condition with
    | notEmpty =>
        obtain ⟨rfl, -⟩ := blockedOn_notEmpty_iff.mp hblocked
        cases queue with
        | nil => simp [queueMonitor] at hopen
        | cons x queue => simp [queueRoom, queueMonitor]
    | notFull =>
        obtain ⟨⟨x, rfl⟩, hmax⟩ := blockedOn_notFull_iff.mp hblocked
        subst hmax
        have hle : queue.length + 1 ≤ queue'.length := by
          have hnext := withinBound_next hbound hopen queue'.length rfl
          simpa [queueMonitor] using hnext
        calc
          ((queue'.length - (queue ++ [x]).length : ℕ) : ℕ∞) + 1 =
              ((queue'.length - (queue ++ [x]).length + 1 : ℕ) : ℕ∞) := (Nat.cast_succ _).symm
          _ ≤ ((queue'.length - queue.length : ℕ) : ℕ∞) := by
            apply Nat.cast_le.mpr
            rw [List.length_append, List.length_singleton]
            omega
  announced := by
    intro queue call condition _ _
    rcases queueRoom_next maxSize queue call condition with hless | hnotified
    · exact Or.inl hless
    · exact Or.inr (Or.inl hnotified)

variable [DecidableEq A] [DecidableEq Thread]

/-- Whatever the threads do, no element is lost, none is handed out twice or out of turn, and
the queue never holds more than its capacity. -/
theorem fifo_of_run (maxSize : Option ℕ)
    (events : List (Event (QueueCall A) QueueCondition Thread)) :
    let system := (System.initial []).run (queueMonitor maxSize) unrestricted events
    taken system.history ++ system.object = puts system.history ∧
      ∀ before, before <+: system.history → taken before <+: puts before ∧
        ∀ bound ∈ maxSize, (puts before).length ≤ (taken before).length + bound := by
  have hfollows := System.follows_run (queueMonitor maxSize) unrestricted [] events
  refine ⟨(inOrder_of_follows hfollows).1, fun before hbefore => ?_⟩
  obtain ⟨later, hlater⟩ := hbefore
  rw [← hlater] at hfollows
  obtain ⟨queue, hfirst, -⟩ := exists_of_follows_append hfollows
  obtain ⟨horder, hbound⟩ := inOrder_of_follows hfirst
  refine ⟨⟨queue, horder⟩, fun bound hmax => ?_⟩
  rw [← horder, List.length_append]
  exact Nat.add_le_add_left (hbound bound hmax) _

/-- A thread that could go on does not sleep unless a woken thread goes on in its place; and
where nobody is awake, the takers asleep face an empty queue, the putters a full one, and
never both. -/
theorem wakeups_of_run (maxSize : Option ℕ)
    (events : List (Event (QueueCall A) QueueCondition Thread)) :
    let system := (System.initial []).run (queueMonitor maxSize) unrestricted events
    (∀ waiter ∈ system.asleep,
      (queueMonitor maxSize).blockedOn system.object waiter.call = none →
        ∃ other ∈ system.awake, other.condition = waiter.condition ∧
          (queueMonitor maxSize).blockedOn system.object other.call = none) ∧
      (system.awake = [] →
        (system.sleepsOn .notEmpty = true → system.object = []) ∧
          (system.sleepsOn .notFull = true → maxSize = some system.object.length) ∧
            (maxSize ≠ some 0 →
              ¬ (system.sleepsOn .notEmpty = true ∧ system.sleepsOn .notFull = true))) := by
  intro system
  have hinvariant : System.Invariant (queueMonitor maxSize) (withinBound maxSize)
      (queueRoom maxSize) system :=
    System.Invariant.run room_queue (System.initial_invariant fun _ _ => Nat.zero_le _) events
  refine ⟨fun waiter hasleep hopen => hinvariant.exists_awake room_queue hasleep hopen,
    fun hnone => ?_⟩
  have hempty : system.sleepsOn .notEmpty = true → system.object = [] := by
    intro hsleeps
    obtain ⟨waiter, hasleep, hcondition⟩ := System.sleepsOn_iff.mp hsleeps
    have hblocked := hinvariant.blockedOn_of_idle room_queue hnone hasleep
    rw [hcondition] at hblocked
    exact (blockedOn_notEmpty_iff.mp hblocked).2
  have hfull : system.sleepsOn .notFull = true → maxSize = some system.object.length := by
    intro hsleeps
    obtain ⟨waiter, hasleep, hcondition⟩ := System.sleepsOn_iff.mp hsleeps
    have hblocked := hinvariant.blockedOn_of_idle room_queue hnone hasleep
    rw [hcondition] at hblocked
    exact (blockedOn_notFull_iff.mp hblocked).2
  refine ⟨hempty, hfull, fun hmax hboth => hmax ?_⟩
  rw [hfull hboth.2, hempty hboth.1]
  rfl

end Queue

/-! ## `CountDownLatch` -/

inductive LatchCall where
  | wait
  | countDown
  | getCount
  deriving DecidableEq

inductive LatchResult where
  | done
  | count (n : ℤ)
  deriving DecidableEq

/-- `CountDownLatch` behind its mutex; the object is `count_`, an `int` that would take 2 ^ 31
calls of `countDown` from zero on to overflow. -/
def countDownLatch : Monitor ℤ LatchCall LatchResult Unit where
  blockedOn count
    | .wait => if count > 0 then some () else none
    | .countDown | .getCount => none
  next count
    | .countDown => count - 1
    | .wait | .getCount => count
  result count
    | .getCount => .count count
    | .wait | .countDown => .done
  signal count
    | .countDown => if count - 1 = 0 then .notifyAll () else .none
    | .wait | .getCount => .none

section Latch

def countDowns (history : List (Completed Thread LatchCall LatchResult)) : ℕ :=
  history.countP fun entry => entry.call = .countDown

theorem countDowns_of_follows {history : List (Completed Thread LatchCall LatchResult)}
    {before after : ℤ} (hfollows : Follows countDownLatch before history after) :
    after = before - countDowns history := by
  apply @invariant_of_follows _ _ _ _ _ _
    (fun entries count => count = before - countDowns entries) _ before after [] history _ hfollows
  · intro entries count thread call hcount _
    rw [countDowns, List.countP_append]
    rw [countDowns] at hcount
    cases call with
    | countDown => simp [countDownLatch, hcount, Int.sub_sub]
    | wait | getCount => simpa [countDownLatch] using hcount
  · simp [countDowns]

/-- Once the count is zero, any number of calls of `wait` can go on. -/
def latchRoom (_ : Unit) (count : ℤ) : ℕ∞ := if count ≤ 0 then ⊤ else 0

/-- The guard and the signal of a latch agree with its count. -/
theorem room_latch : Room countDownLatch (fun _ => True) latchRoom where
  valid_next := fun _ _ _ _ => trivial
  same := fun _ _ _ _ _ _ _ => rfl
  closed := by
    intro count call condition _ hblocked
    cases call with
    | wait =>
        simp only [countDownLatch, ite_eq_left_iff, reduceCtorEq, imp_false, not_not] at hblocked
        exact if_neg (Int.not_le.mpr hblocked)
    | countDown | getCount => cases hblocked
  used := by
    intro count count' call condition _ hblocked hopen
    cases call with
    | wait =>
        simp only [countDownLatch, ite_eq_right_iff, reduceCtorEq, imp_false, not_lt,
          gt_iff_lt] at hopen
        have htop : latchRoom condition count = ⊤ := if_pos hopen
        rw [htop]
        exact le_top
    | countDown | getCount => cases hblocked
  announced := by
    intro count call condition _ _
    cases call with
    | wait | getCount => exact Or.inl le_rfl
    | countDown =>
        by_cases hlast : count - 1 = 0
        · exact Or.inr (Or.inr (if_pos hlast))
        · refine Or.inl (le_of_eq ?_)
          change (if count - 1 ≤ 0 then ⊤ else 0) = if count ≤ 0 then (⊤ : ℕ∞) else 0
          have hsame : count - 1 ≤ 0 ↔ count ≤ 0 := by omega
          rw [if_congr hsame rfl rfl]

/-- A thread gets past `wait` only after `count` threads have counted down, and once that many
have, no thread is asleep in `wait`. -/
theorem latch_of_run [DecidableEq Thread] (count : ℤ)
    (events : List (Event LatchCall Unit Thread)) :
    let system := (System.initial count).run countDownLatch unrestricted events
    (∀ before thread, before ++ [⟨thread, .wait, .done⟩] <+: system.history →
      count ≤ countDowns before) ∧
      (count ≤ countDowns system.history → system.asleep = []) := by
  have hfollows := System.follows_run countDownLatch unrestricted count events
  refine ⟨fun before thread hbefore => ?_, fun hcounted => ?_⟩
  · obtain ⟨later, hlater⟩ := hbefore
    rw [← hlater, List.append_assoc] at hfollows
    obtain ⟨middle, hfirst, hrest⟩ := exists_of_follows_append hfollows
    have hopen : countDownLatch.blockedOn middle .wait = none := hrest.1
    have hmiddle := countDowns_of_follows hfirst
    simp only [countDownLatch, ite_eq_right_iff, reduceCtorEq, imp_false] at hopen
    omega
  · have hinvariant : System.Invariant countDownLatch (fun _ => True) latchRoom
        ((System.initial count).run countDownLatch unrestricted events) :=
      System.Invariant.run room_latch (System.initial_invariant trivial) events
    have hopen : ((System.initial count).run countDownLatch unrestricted events).object ≤ 0 := by
      have hobject := countDowns_of_follows hfollows
      omega
    have hnone :
        ((System.initial count).run countDownLatch unrestricted events).sleepsOn () = false :=
      hinvariant.not_sleepsOn (if_pos hopen)
    rw [System.sleepsOn, List.any_eq_false] at hnone
    exact List.eq_nil_iff_forall_not_mem.mpr fun waiter hasleep =>
      hnone waiter hasleep (decide_eq_true rfl)

end Latch

end Cuber.BlockingQueues
