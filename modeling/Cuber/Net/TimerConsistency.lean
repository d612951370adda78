import Cuber.Net.TimerQueue

/-!
# The timer queue keeps its schedule

The two sets of the queue are images of one set of sequence numbers, and
timers taken out by `handleRead` are in neither.  What a timer in memory is
good for follows from where its number is: it was posted, it is queued, or it
belongs to the batch that is being run.
-/

namespace Cuber.Timers

open Cuber.Execution
open Cuber.OrderedSets
open Cuber.Refinement
open Cuber.Runs

namespace TimerQueue

/-- The timer with this number was not deleted. -/
def InMemory (queue : TimerQueue) (sequence : ℕ) : Prop :=
  ∃ timer, queue.heap (queue.pointer sequence) = some timer ∧ timer.sequence = sequence

def expirationOf (queue : TimerQueue) (sequence : ℕ) : ℕ :=
  ((queue.heap (queue.pointer sequence)).map Timer.expiration).getD 0

def entryOf (queue : TimerQueue) (sequence : ℕ) : Entry :=
  toLex (queue.expirationOf sequence, queue.pointer sequence)

def activeOf (queue : TimerQueue) (sequence : ℕ) : ActiveTimer :=
  (queue.pointer sequence, sequence)

def stamp (queue : TimerQueue) (sequence : ℕ) : ℕ × ℕ :=
  (queue.expirationOf sequence, sequence)

/-- Memory is in order: a pointer to a timer was handed out with its number. -/
def Memory (queue : TimerQueue) : Prop :=
  ∀ address timer, queue.heap address = some timer →
    queue.pointer timer.sequence = address ∧ timer.sequence ≤ queue.numCreated ∧
      address < uintptrMax ∧ 0 < timer.expiration

/-- Both sets are about the same timers. -/
structure Sets (queue : TimerQueue) (queued : Finset ℕ) : Prop where
  inMemory : ∀ sequence ∈ queued, queue.InMemory sequence
  timers : queue.timers = queued.image queue.entryOf
  activeTimers : queue.activeTimers = queued.image queue.activeOf

section Sets

variable {queue queue' : TimerQueue} {queued : Finset ℕ} {sequence other : ℕ} {timer : Timer}

theorem expirationOf_eq (hheap : queue.heap (queue.pointer sequence) = some timer) :
    queue.expirationOf sequence = timer.expiration := by
  rw [expirationOf, hheap, Option.map_some, Option.getD_some]

theorem deref_eq {address : ℕ} (hheap : queue.heap address = some timer) :
    queue.deref address = .ret timer := by
  rw [deref, hheap]

theorem entryOf_eq (hheap : queue.heap (queue.pointer sequence) = some timer) :
    queue.entryOf sequence = toLex (timer.expiration, queue.pointer sequence) := by
  rw [entryOf, expirationOf_eq hheap]

/-- A timer is known by its address. -/
theorem InMemory.ext (hsequence : queue.InMemory sequence) (hother : queue.InMemory other)
    (hpointer : queue.pointer sequence = queue.pointer other) : sequence = other := by
  obtain ⟨timer, hheap, hnumber⟩ := hsequence
  obtain ⟨timer', hheap', hnumber'⟩ := hother
  rw [hpointer, hheap'] at hheap
  cases hheap
  exact hnumber.symm.trans hnumber'

theorem activeOf_injective (queue : TimerQueue) : Function.Injective queue.activeOf := by
  intro sequence other hsame
  exact congrArg Prod.snd hsame

theorem InMemory.entryOf_ne (hsequence : queue.InMemory sequence) (hother : queue.InMemory other)
    (hne : sequence ≠ other) : queue.entryOf sequence ≠ queue.entryOf other := by
  intro hsame
  apply hne
  exact hsequence.ext hother (congrArg (fun entry => (ofLex entry).2) hsame)

theorem Sets.injOn (hsets : queue.Sets queued) : Set.InjOn queue.entryOf queued := by
  intro first hfirst second hsecond hsame
  by_contra hne
  exact (hsets.inMemory first hfirst).entryOf_ne (hsets.inMemory second hsecond) hne hsame

theorem Sets.checkSizes (hsets : queue.Sets queued) : queue.checkSizes = .ret queue := by
  rw [TimerQueue.checkSizes, if_pos]
  rw [hsets.timers, hsets.activeTimers, Finset.card_image_of_injOn hsets.injOn,
    Finset.card_image_of_injective _ queue.activeOf_injective]

/-- The sets depend on the timers that they are about. -/
theorem Sets.congr (hsets : queue.Sets queued) (htimers : queue'.timers = queue.timers)
    (hactive : queue'.activeTimers = queue.activeTimers)
    (hpointer : ∀ sequence ∈ queued, queue'.pointer sequence = queue.pointer sequence)
    (hheap : ∀ sequence ∈ queued,
      queue'.heap (queue.pointer sequence) = queue.heap (queue.pointer sequence)) :
    queue'.Sets queued where
  inMemory := by
    intro sequence hsequence
    rw [InMemory, hpointer sequence hsequence, hheap sequence hsequence]
    exact hsets.inMemory sequence hsequence
  timers := by
    rw [htimers, hsets.timers]
    apply Finset.image_congr
    intro sequence hsequence
    rw [entryOf, entryOf, expirationOf, expirationOf, hpointer sequence hsequence,
      hheap sequence hsequence]
  activeTimers := by
    rw [hactive, hsets.activeTimers]
    apply Finset.image_congr
    intro sequence hsequence
    rw [activeOf, activeOf, hpointer sequence hsequence]

theorem Sets.entryOf_mem_iff (hsets : queue.Sets queued) (hsequence : queue.InMemory sequence) :
    queue.entryOf sequence ∈ queue.timers ↔ sequence ∈ queued := by
  rw [hsets.timers, Finset.mem_image]
  constructor
  · rintro ⟨other, hother, hsame⟩
    by_contra hnot
    refine (hsets.inMemory other hother).entryOf_ne hsequence ?_ hsame
    rintro rfl
    exact hnot hother
  · exact fun hmem => ⟨sequence, hmem, rfl⟩

theorem Sets.activeOf_mem_iff (hsets : queue.Sets queued) :
    queue.activeOf sequence ∈ queue.activeTimers ↔ sequence ∈ queued := by
  rw [hsets.activeTimers]
  exact queue.activeOf_injective.mem_finset_image

def inserted (queue : TimerQueue) (sequence : ℕ) : TimerQueue :=
  { queue with
    timers := Insert.insert (queue.entryOf sequence) queue.timers
    activeTimers := Insert.insert (queue.activeOf sequence) queue.activeTimers }

theorem Sets.inserted (hsets : queue.Sets queued) (hsequence : queue.InMemory sequence) :
    (queue.inserted sequence).Sets (Insert.insert sequence queued) where
  inMemory := by
    intro other hother
    rcases Finset.mem_insert.mp hother with rfl | hqueued
    · exact hsequence
    · exact hsets.inMemory other hqueued
  timers := by
    rw [Finset.image_insert, TimerQueue.inserted, hsets.timers]
    rfl
  activeTimers := by
    rw [Finset.image_insert, TimerQueue.inserted, hsets.activeTimers]
    rfl

/-- A timer that was in neither set is then in both, and the first expiration changes if
and only if the new one is earlier than all others. -/
theorem insert_spec (hsets : queue.Sets queued) (hnew : sequence ∉ queued)
    (hheap : queue.heap (queue.pointer sequence) = some timer)
    (hnumber : timer.sequence = sequence) :
    ∃ changed, queue.insert (queue.pointer sequence) = .ret (queue.inserted sequence, changed) ∧
      (changed = true → ∀ entry ∈ queue.timers, timer.expiration ≤ (ofLex entry).1) ∧
      (changed = false → ∃ entry ∈ queue.timers, (ofLex entry).1 ≤ timer.expiration) := by
  have hmemory : queue.InMemory sequence := ⟨timer, hheap, hnumber⟩
  have hentry : toLex (timer.expiration, queue.pointer sequence) ∉ queue.timers := by
    rw [← entryOf_eq hheap, hsets.entryOf_mem_iff hmemory]
    exact hnew
  have hactive : (queue.pointer sequence, timer.sequence) ∉ queue.activeTimers := by
    rw [hnumber]
    exact hsets.activeOf_mem_iff.not.mpr hnew
  have hinserted := (hsets.inserted hmemory).checkSizes
  rw [TimerQueue.inserted, entryOf_eq hheap, activeOf] at hinserted
  rw [insert, hsets.checkSizes, Exec.ret_bind, deref_eq hheap, Exec.ret_bind,
    TimerQueue.inserted, entryOf_eq hheap, activeOf]
  dsimp only
  rw [if_neg hentry, if_neg hactive, hnumber, hinserted, Exec.ret_bind]
  refine ⟨_, rfl, ?_, ?_⟩
  · intro hchanged entry hmem
    cases hfirst : first queue.timers with
    | none =>
        rw [first_eq_none_iff.mp hfirst] at hmem
        exact absurd hmem (Finset.notMem_empty entry)
    | some least =>
        rw [hfirst] at hchanged
        have hless : timer.expiration < (ofLex least).1 := of_decide_eq_true hchanged
        have hle := Prod.Lex.monotone_fst least entry ((first_spec hfirst).2 entry hmem)
        exact hless.le.trans hle
  · intro hchanged
    cases hfirst : first queue.timers with
    | none =>
        rw [hfirst] at hchanged
        cases hchanged
    | some least =>
        rw [hfirst] at hchanged
        have hless : ¬ timer.expiration < (ofLex least).1 := of_decide_eq_false hchanged
        exact ⟨least, (first_spec hfirst).1, Nat.not_lt.mp hless⟩

/-- The timer taken out of both sets. -/
theorem Sets.erased (hsets : queue.Sets queued) (hsequence : sequence ∈ queued)
    (hpointer : queue'.pointer = queue.pointer)
    (hheap : ∀ other ∈ queued, other ≠ sequence →
      queue'.heap (queue.pointer other) = queue.heap (queue.pointer other))
    (htimers : queue'.timers = queue.timers.erase (queue.entryOf sequence))
    (hactive : queue'.activeTimers = queue.activeTimers.erase (queue.activeOf sequence)) :
    queue'.Sets (queued.erase sequence) := by
  have hsmaller : ({ queue with
      timers := queue.timers.erase (queue.entryOf sequence)
      activeTimers := queue.activeTimers.erase (queue.activeOf sequence) } : TimerQueue).Sets
        (queued.erase sequence) := by
    refine ⟨fun other hother => hsets.inMemory other (Finset.mem_of_mem_erase hother), ?_, ?_⟩
    · change queue.timers.erase (queue.entryOf sequence) =
        (queued.erase sequence).image queue.entryOf
      rw [hsets.timers, ← Finset.sdiff_singleton_eq_erase, ← Finset.sdiff_singleton_eq_erase,
        Finset.image_sdiff_of_injOn hsets.injOn (Finset.singleton_subset_iff.mpr hsequence),
        Finset.image_singleton]
    · change queue.activeTimers.erase (queue.activeOf sequence) =
        (queued.erase sequence).image queue.activeOf
      rw [Finset.image_erase queue.activeOf_injective, hsets.activeTimers]
  refine hsmaller.congr htimers hactive (fun other _ => congrFun hpointer other) ?_
  intro other hother
  rw [Finset.mem_erase] at hother
  exact hheap other hother.2 hother.1

end Sets

/-! ## Where a timer is -/

/-- What the queue has to offer of a timer: its record if it is queued, and if it belongs to
the batch what is put back of it. -/
def liveOf (queue : TimerQueue) (now : ℕ) (queued : Finset ℕ) (batch : List ℕ)
    (sequence : ℕ) : Option Timer :=
  if sequence ∈ queued then queue.heap (queue.pointer sequence)
  else if sequence ∈ batch ∧ queue.activeOf sequence ∉ queue.cancelingTimers then
    (queue.heap (queue.pointer sequence)).bind fun timer => timer.again now
  else none

/-- The timers that are queued, and those of the batch of the `handleRead` that began at
`now`, make up the schedule. -/
structure Stored (queue : TimerQueue) (schedule : Schedule) (now : ℕ) (queued : Finset ℕ)
    (batch : List ℕ) : Prop where
  memory : queue.Memory
  sets : queue.Sets queued
  created : schedule.created = queue.numCreated
  postedInMemory : ∀ sequence ∈ queue.posted, queue.InMemory sequence
  batchInMemory : ∀ sequence ∈ batch, queue.InMemory sequence
  nodup : batch.Nodup
  apart : ∀ sequence ∈ queue.posted, sequence ∉ queued ∧ sequence ∉ batch
  taken : ∀ sequence ∈ queued, sequence ∉ batch
  posted : ∀ sequence, schedule.posted sequence =
    if sequence ∈ queue.posted then queue.heap (queue.pointer sequence) else none
  live : ∀ sequence, schedule.live sequence = queue.liveOf now queued batch sequence

section Stored

variable {queue queue' : TimerQueue} {schedule : Schedule} {now : ℕ} {queued : Finset ℕ}
  {batch : List ℕ} {sequence address : ℕ} {timer : Timer}

theorem liveOf_queued (hqueued : sequence ∈ queued) :
    queue.liveOf now queued batch sequence = queue.heap (queue.pointer sequence) :=
  if_pos hqueued

theorem liveOf_batch (hqueued : sequence ∉ queued) (hbatch : sequence ∈ batch)
    (hkept : queue.activeOf sequence ∉ queue.cancelingTimers) :
    queue.liveOf now queued batch sequence =
      (queue.heap (queue.pointer sequence)).bind fun timer => timer.again now := by
  rw [liveOf, if_neg hqueued, if_pos ⟨hbatch, hkept⟩]

theorem liveOf_none (hqueued : sequence ∉ queued)
    (hbatch : sequence ∈ batch → queue.activeOf sequence ∈ queue.cancelingTimers) :
    queue.liveOf now queued batch sequence = none := by
  rw [liveOf, if_neg hqueued, if_neg fun hboth => hboth.2 (hbatch hboth.1)]

/-- What the queue has to offer depends on the timers in it and in the batch. -/
theorem liveOf_congr (hcanceling : queue'.cancelingTimers = queue.cancelingTimers)
    (hpointer : ∀ sequence, sequence ∈ queued ∨ sequence ∈ batch →
      queue'.pointer sequence = queue.pointer sequence)
    (hheap : ∀ sequence, sequence ∈ queued ∨ sequence ∈ batch →
      queue'.heap (queue.pointer sequence) = queue.heap (queue.pointer sequence)) :
    queue'.liveOf now queued batch sequence = queue.liveOf now queued batch sequence := by
  rw [liveOf, liveOf]
  by_cases hqueued : sequence ∈ queued
  · rw [if_pos hqueued, if_pos hqueued, hpointer sequence (Or.inl hqueued),
      hheap sequence (Or.inl hqueued)]
  · rw [if_neg hqueued, if_neg hqueued]
    by_cases hbatch : sequence ∈ batch
    · rw [activeOf, activeOf, hcanceling, hpointer sequence (Or.inr hbatch),
        hheap sequence (Or.inr hbatch)]
    · rw [if_neg fun hboth => hbatch hboth.1, if_neg fun hboth => hbatch hboth.1]

theorem InMemory.le_numCreated (hmemory : queue.Memory) (hsequence : queue.InMemory sequence) :
    sequence ≤ queue.numCreated := by
  obtain ⟨timer, hheap, rfl⟩ := hsequence
  exact (hmemory _ timer hheap).2.1

/-- A new timer does not get in the way of those in memory. -/
theorem create_frame (hmemory : queue.Memory) (hfree : queue.heap address = none)
    (hnumber : timer.sequence = queue.numCreated + 1) (hsequence : queue.InMemory sequence) :
    (queue.create address timer).pointer sequence = queue.pointer sequence ∧
      (queue.create address timer).heap (queue.pointer sequence) =
        queue.heap (queue.pointer sequence) := by
  constructor
  · apply Function.update_of_ne
    have hle := hsequence.le_numCreated hmemory
    omega
  · apply Function.update_of_ne
    obtain ⟨other, hheap, _⟩ := hsequence
    rintro rfl
    rw [hfree] at hheap
    cases hheap

theorem create_inMemory (hmemory : queue.Memory) (hfree : queue.heap address = none)
    (hnumber : timer.sequence = queue.numCreated + 1) (hsequence : queue.InMemory sequence) :
    (queue.create address timer).InMemory sequence := by
  obtain ⟨hpointer, hheap⟩ := create_frame hmemory hfree hnumber hsequence
  rw [InMemory, hpointer, hheap]
  exact hsequence

/-- A new timer is kept in memory beside the others. -/
theorem create_memory (hmemory : queue.Memory) (hfree : queue.heap address = none)
    (hfits : address < uintptrMax) (hpositive : 0 < timer.expiration)
    (hnumber : timer.sequence = queue.numCreated + 1) :
    (queue.create address timer).Memory := by
  intro place found hfound
  change Function.update queue.heap address (some timer) place = some found at hfound
  change Function.update queue.pointer timer.sequence address found.sequence = place ∧
    found.sequence ≤ timer.sequence ∧ _
  by_cases hplace : place = address
  · subst hplace
    rw [Function.update_self] at hfound
    cases hfound
    rw [Function.update_self]
    exact ⟨rfl, le_rfl, hfits, hpositive⟩
  · rw [Function.update_of_ne hplace] at hfound
    obtain ⟨hpointer, hle, hbound, hlater⟩ := hmemory place found hfound
    rw [Function.update_of_ne (by omega)]
    exact ⟨hpointer, by omega, hbound, hlater⟩

/-- Creating a timer leaves the sets as they are. -/
theorem Stored.create (hstored : queue.Stored schedule now queued batch)
    (hfree : queue.heap address = none) (hfits : address < uintptrMax) {expiration : Time}
    {interval : ℕ} {repeats : Bool} :
    (queue.create address
        { expiration, interval, repeats, sequence := queue.numCreated + 1 }).Stored
      (schedule.next (.create address expiration interval repeats)) now queued batch := by
  obtain ⟨timer, htimer⟩ : ∃ timer : Timer, timer =
    { expiration, interval, repeats, sequence := queue.numCreated + 1 } := ⟨_, rfl⟩
  have hnumber : timer.sequence = queue.numCreated + 1 := by rw [htimer]
  have hpositive : 0 < timer.expiration := by
    rw [htimer]
    exact expiration.2
  have hframe := fun sequence =>
    @create_frame queue sequence address timer hstored.memory hfree hnumber
  have hnew : (queue.create address timer).heap
      ((queue.create address timer).pointer timer.sequence) = some timer := by
    change Function.update queue.heap address (some timer)
      (Function.update queue.pointer timer.sequence address timer.sequence) = some timer
    rw [Function.update_self, Function.update_self]
  have hfresh : ¬ queue.InMemory timer.sequence := by
    intro hmemory
    have hle := hmemory.le_numCreated hstored.memory
    omega
  rw [← htimer]
  refine ⟨create_memory hstored.memory hfree hfits hpositive hnumber, ?_, ?_, ?_, ?_,
    hstored.nodup, ?_, hstored.taken, ?_, ?_⟩
  · refine @Sets.congr queue (queue.create address timer) queued hstored.sets rfl rfl ?_ ?_
    · exact fun sequence hqueued => (hframe sequence (hstored.sets.inMemory _ hqueued)).1
    · exact fun sequence hqueued => (hframe sequence (hstored.sets.inMemory _ hqueued)).2
  · exact (congrArg (· + 1) hstored.created).trans hnumber.symm
  · intro sequence hposted
    rcases Finset.mem_insert.mp hposted with rfl | hposted
    · exact ⟨timer, hnew, rfl⟩
    · exact create_inMemory hstored.memory hfree hnumber
        (hstored.postedInMemory sequence hposted)
  · exact fun sequence hbatch =>
      create_inMemory hstored.memory hfree hnumber (hstored.batchInMemory sequence hbatch)
  · intro sequence hposted
    rcases Finset.mem_insert.mp hposted with rfl | hposted
    · constructor
      · exact fun hqueued => hfresh (hstored.sets.inMemory _ hqueued)
      · exact fun hbatch => hfresh (hstored.batchInMemory _ hbatch)
    · exact hstored.apart sequence hposted
  · intro sequence
    change Function.update schedule.posted (schedule.created + 1) _ sequence =
      if sequence ∈ Insert.insert timer.sequence queue.posted then _ else none
    rw [hstored.created, ← htimer, ← hnumber]
    by_cases hsame : sequence = timer.sequence
    · rw [hsame, Function.update_self, if_pos (Finset.mem_insert_self _ _), hnew]
    · rw [Function.update_of_ne hsame, hstored.posted sequence]
      by_cases hposted : sequence ∈ queue.posted
      · obtain ⟨hpointer, hheap⟩ := hframe sequence (hstored.postedInMemory sequence hposted)
        rw [if_pos hposted, if_pos (Finset.mem_insert_of_mem hposted), hpointer, hheap]
      · rw [if_neg hposted, if_neg]
        simp [hsame, hposted]
  · intro sequence
    have hmemory : ∀ sequence, sequence ∈ queued ∨ sequence ∈ batch → queue.InMemory sequence :=
      fun sequence => Or.rec (hstored.sets.inMemory sequence) (hstored.batchInMemory sequence)
    have hsame : (queue.create address timer).liveOf now queued batch sequence =
        queue.liveOf now queued batch sequence := by
      apply liveOf_congr
      · rfl
      · exact fun sequence hmem => (hframe sequence (hmemory sequence hmem)).1
      · exact fun sequence hmem => (hframe sequence (hmemory sequence hmem)).2
    exact (hstored.live sequence).trans hsame.symm

/-- The timerfd has no part in the schedule. -/
theorem Stored.resetTimerfd (hstored : queue.Stored schedule now queued batch)
    (expiration armingTime : ℕ) :
    (queue.resetTimerfd expiration armingTime).Stored schedule now queued batch where
  memory := hstored.memory
  sets := ⟨hstored.sets.inMemory, hstored.sets.timers, hstored.sets.activeTimers⟩
  created := hstored.created
  postedInMemory := hstored.postedInMemory
  batchInMemory := hstored.batchInMemory
  nodup := hstored.nodup
  apart := hstored.apart
  taken := hstored.taken
  posted := hstored.posted
  live := hstored.live

/-- A timer goes from those that were posted to those that are queued. -/
theorem Stored.inserted (hstored : queue.Stored schedule now queued batch)
    (hposted : sequence ∈ queue.posted) (armingTime : Time) :
    ({ queue.inserted sequence with
      posted := queue.posted.erase sequence } : TimerQueue).Stored
        (schedule.next (.add sequence armingTime)) now (Insert.insert sequence queued) batch := by
  have hmemory := hstored.postedInMemory sequence hposted
  obtain ⟨hnotQueued, hnotBatch⟩ := hstored.apart sequence hposted
  have hsets := hstored.sets.inserted hmemory
  refine ⟨hstored.memory, ⟨hsets.inMemory, hsets.timers, hsets.activeTimers⟩, hstored.created,
    ?_, hstored.batchInMemory, hstored.nodup, ?_, ?_, ?_, ?_⟩
  · exact fun other hother => hstored.postedInMemory other (Finset.mem_of_mem_erase hother)
  · intro other hother
    obtain ⟨hne, hother⟩ := Finset.mem_erase.mp hother
    obtain ⟨hqueued, hbatch⟩ := hstored.apart other hother
    refine ⟨?_, hbatch⟩
    simp [hne, hqueued]
  · intro other hother
    rcases Finset.mem_insert.mp hother with rfl | hqueued
    · exact hnotBatch
    · exact hstored.taken other hqueued
  · intro other
    change Function.update schedule.posted sequence none other =
      if other ∈ queue.posted.erase sequence then queue.heap (queue.pointer other) else none
    by_cases hsame : other = sequence
    · rw [hsame, Function.update_self, if_neg (Finset.notMem_erase _ _)]
    · rw [Function.update_of_ne hsame, hstored.posted other]
      simp [hsame]
  · intro other
    change Function.update schedule.live sequence (schedule.posted sequence) other =
      queue.liveOf now (Insert.insert sequence queued) batch other
    by_cases hsame : other = sequence
    · rw [hsame, Function.update_self, hstored.posted, if_pos hposted, liveOf,
        if_pos (Finset.mem_insert_self _ _)]
    · rw [Function.update_of_ne hsame, hstored.live other, liveOf, liveOf]
      simp [hsame]

/-- The timerfd fires soon enough for each of the timers. -/
def Armed (queue : TimerQueue) : Prop :=
  ∀ entry ∈ queue.timers, ∃ alarm, queue.alarm = some alarm ∧
    alarm ≤ max (ofLex entry).1 (queue.lastArmed + 100)

theorem alarm_resetTimerfd (queue : TimerQueue) (expiration armingTime : ℕ) :
    (queue.resetTimerfd expiration armingTime).alarm =
      some (max expiration (armingTime + 100)) := by
  apply congrArg some
  rw [howMuchTimeFromNow]
  split_ifs with hsoon
  · omega
  · omega

theorem armed_resetTimerfd {expiration : ℕ} (armingTime : ℕ)
    (hfirst : ∀ entry ∈ queue.timers, expiration ≤ (ofLex entry).1) :
    (queue.resetTimerfd expiration armingTime).Armed :=
  fun entry hentry => ⟨_, alarm_resetTimerfd queue expiration armingTime,
    max_le_max_right _ (hfirst entry hentry)⟩

/-- The actions of a callback leave the `handleRead` in progress alone. -/
structure Frame (queue queue' : TimerQueue) (batch : List ℕ) : Prop where
  reading : queue'.reading = queue.reading
  calling : queue'.callingExpiredTimers = queue.callingExpiredTimers
  expired : queue'.expired = queue.expired
  waiting : queue'.waiting = queue.waiting
  ran : queue'.ran = queue.ran
  entries : ∀ sequence ∈ batch, queue'.entryOf sequence = queue.entryOf sequence

/-- Adding a timer puts it in both sets, and arms the timerfd in time. -/
theorem Stored.add (hstored : queue.Stored schedule now queued batch)
    (hposted : sequence ∈ queue.posted) (armingTime : Time) :
    ∃ after, queue.step (.add sequence armingTime) = .ret after ∧
      after.Stored (schedule.next (.add sequence armingTime)) now
        (Insert.insert sequence queued) batch ∧
      queue.Frame after batch ∧ (queue.Armed → after.Armed) := by
  obtain ⟨timer, hheap, hnumber⟩ := hstored.postedInMemory sequence hposted
  obtain ⟨changed, hinsert, hearlier, hlater⟩ :=
    insert_spec hstored.sets (hstored.apart sequence hposted).1 hheap hnumber
  have hinserted := hstored.inserted hposted armingTime
  have hentries : ∀ entry ∈ (queue.inserted sequence).timers,
      (ofLex entry).1 = timer.expiration ∨ entry ∈ queue.timers := by
    intro entry hentry
    rcases Finset.mem_insert.mp hentry with rfl | hentry
    · left
      rw [entryOf_eq hheap]
      rfl
    · exact Or.inr hentry
  cases changed with
  | true =>
      refine ⟨{ (queue.inserted sequence).resetTimerfd timer.expiration armingTime with
        posted := queue.posted.erase sequence }, ?_,
        hinserted.resetTimerfd timer.expiration armingTime, ⟨rfl, rfl, rfl, rfl, rfl, ?_⟩, ?_⟩
      · have hderef : (queue.inserted sequence).deref (queue.pointer sequence) = .ret timer :=
          deref_eq hheap
        rw [step, addTimerInLoop, hinsert, Exec.ret_bind]
        dsimp only
        rw [if_pos rfl, hderef, Exec.ret_bind, Exec.ret_bind]
        rfl
      · exact fun _ _ => rfl
      · intro _
        apply armed_resetTimerfd armingTime
        intro entry hentry
        rcases hentries entry hentry with hsame | hentry
        · exact hsame.ge
        · exact hearlier rfl entry hentry
  | false =>
      refine ⟨{ queue.inserted sequence with posted := queue.posted.erase sequence }, ?_,
        hinserted, ⟨rfl, rfl, rfl, rfl, rfl, fun _ _ => rfl⟩, ?_⟩
      · rw [step, addTimerInLoop, hinsert, Exec.ret_bind]
        dsimp only
        rw [if_neg Bool.false_ne_true, Exec.ret_bind]
        rfl
      · intro harmed entry hentry
        rcases hentries entry hentry with hsame | hentry
        · obtain ⟨first, hfirst, hle⟩ := hlater rfl
          obtain ⟨alarm, halarm, hsoon⟩ := harmed first hfirst
          refine ⟨alarm, halarm, hsoon.trans ?_⟩
          rw [hsame]
          exact max_le_max_right _ hle
        · exact harmed entry hentry

def put (queue : TimerQueue) (sequence : ℕ) (value : Option Timer) : TimerQueue :=
  { queue with heap := Function.update queue.heap (queue.pointer sequence) value }

/-- The other timers are as before. -/
theorem heap_put {other : ℕ} {value : Option Timer} (hsequence : queue.InMemory sequence)
    (hother : queue.InMemory other) (hne : other ≠ sequence) :
    (queue.put sequence value).heap (queue.pointer other) =
      queue.heap (queue.pointer other) := by
  apply Function.update_of_ne
  intro hsame
  exact hne (hother.ext hsequence hsame)

theorem inMemory_put {other : ℕ} {value : Option Timer} (hsequence : queue.InMemory sequence)
    (hother : queue.InMemory other) (hne : other ≠ sequence) :
    (queue.put sequence value).InMemory other := by
  change ∃ timer, (queue.put sequence value).heap (queue.pointer other) = some timer ∧ _
  rw [heap_put hsequence hother hne]
  exact hother

theorem entryOf_put {other : ℕ} {value : Option Timer} (hsequence : queue.InMemory sequence)
    (hother : queue.InMemory other) (hne : other ≠ sequence) :
    (queue.put sequence value).entryOf other = queue.entryOf other := by
  rw [entryOf, entryOf, expirationOf, expirationOf]
  change toLex ((((queue.put sequence value).heap (queue.pointer other)).map _).getD 0, _) = _
  rw [heap_put hsequence hother hne]
  rfl

theorem memory_put {value : Option Timer} (hmemory : queue.Memory)
    (hsequence : queue.InMemory sequence)
    (hvalue : ∀ timer ∈ value, timer.sequence = sequence ∧ 0 < timer.expiration) :
    (queue.put sequence value).Memory := by
  intro place found hfound
  change Function.update queue.heap (queue.pointer sequence) value place = some found at hfound
  by_cases hplace : place = queue.pointer sequence
  · rw [hplace, Function.update_self] at hfound
    obtain ⟨hnumber, hpositive⟩ := hvalue found hfound
    obtain ⟨timer, hheap, rfl⟩ := hsequence
    obtain ⟨_, hle, hbound, _⟩ := hmemory _ timer hheap
    rw [hnumber, hplace]
    exact ⟨rfl, hle, hbound, hpositive⟩
  · rw [Function.update_of_ne hplace] at hfound
    exact hmemory place found hfound

def deleted (queue : TimerQueue) (sequence : ℕ) : TimerQueue :=
  { queue with
    timers := queue.timers.erase (queue.entryOf sequence)
    heap := Function.update queue.heap (queue.pointer sequence) none
    activeTimers := queue.activeTimers.erase (queue.activeOf sequence) }

/-- A timer that is deleted leaves both sets. -/
theorem Stored.deleted (hstored : queue.Stored schedule now queued batch)
    (hqueued : sequence ∈ queued) :
    (queue.deleted sequence).Stored (schedule.next (.cancel sequence)) now
      (queued.erase sequence) batch := by
  have hmemory := hstored.sets.inMemory sequence hqueued
  have hkeeps : ∀ other, queue.InMemory other → other ≠ sequence →
      (queue.deleted sequence).heap (queue.pointer other) = queue.heap (queue.pointer other) :=
    fun other => @heap_put queue sequence other none hmemory
  have hremains : ∀ other, queue.InMemory other → other ≠ sequence →
      (queue.deleted sequence).InMemory other :=
    fun other => @inMemory_put queue sequence other none hmemory
  have hposted : ∀ other ∈ queue.posted, other ≠ sequence := by
    rintro other hother rfl
    exact (hstored.apart other hother).1 hqueued
  have hbatch : ∀ other ∈ batch, other ≠ sequence := by
    rintro other hother rfl
    exact hstored.taken other hqueued hother
  refine ⟨?_, ?_, hstored.created, ?_, ?_, hstored.nodup, ?_, ?_, ?_, ?_⟩
  · exact @memory_put queue sequence none hstored.memory hmemory (by simp)
  · refine @Sets.erased queue (queue.deleted sequence) queued sequence hstored.sets hqueued rfl
      ?_ rfl rfl
    exact fun other hother hne => hkeeps other (hstored.sets.inMemory other hother) hne
  · exact fun other hother =>
      hremains other (hstored.postedInMemory other hother) (hposted other hother)
  · exact fun other hother =>
      hremains other (hstored.batchInMemory other hother) (hbatch other hother)
  · intro other hother
    obtain ⟨hnotQueued, hnotBatch⟩ := hstored.apart other hother
    exact ⟨fun hmem => hnotQueued (Finset.mem_of_mem_erase hmem), hnotBatch⟩
  · exact fun other hother => hstored.taken other (Finset.mem_of_mem_erase hother)
  · intro other
    refine (hstored.posted other).trans ?_
    change (if other ∈ queue.posted then queue.heap (queue.pointer other) else none) =
      if other ∈ queue.posted then
        (queue.deleted sequence).heap (queue.pointer other) else none
    split_ifs with hother
    · exact (hkeeps other (hstored.postedInMemory other hother) (hposted other hother)).symm
    · rfl
  · intro other
    change Function.update schedule.live sequence none other =
      (queue.deleted sequence).liveOf now (queued.erase sequence) batch other
    by_cases hsame : other = sequence
    · rw [hsame, Function.update_self, liveOf_none (Finset.notMem_erase _ _)]
      exact fun hmem => absurd hmem (hstored.taken sequence hqueued)
    · have herase : (queue.deleted sequence).liveOf now (queued.erase sequence) batch other =
          (queue.deleted sequence).liveOf now queued batch other := by
        rw [liveOf, liveOf]
        simp [hsame]
      rw [Function.update_of_ne hsame, hstored.live other, herase, liveOf, liveOf]
      change _ = if other ∈ queued then (queue.deleted sequence).heap (queue.pointer other)
        else if other ∈ batch ∧ queue.activeOf other ∉ queue.cancelingTimers then
          ((queue.deleted sequence).heap (queue.pointer other)).bind _ else none
      split_ifs with hother hboth
      · exact (hkeeps other (hstored.sets.inMemory other hother) hsame).symm
      · rw [hkeeps other (hstored.batchInMemory other hboth.1) hsame]
      · rfl

/-- A timer of the batch that is cancelled is not put back. -/
theorem Stored.live_canceling (hstored : queue.Stored schedule now queued batch)
    (hqueued : sequence ∉ queued) (other : ℕ) :
    Function.update schedule.live sequence none other =
      ({ queue with
        cancelingTimers := Insert.insert (queue.activeOf sequence)
          queue.cancelingTimers } : TimerQueue).liveOf now queued batch other := by
  rw [liveOf]
  change _ = if other ∈ queued then queue.heap (queue.pointer other)
    else if other ∈ batch ∧ queue.activeOf other ∉
      Insert.insert (queue.activeOf sequence) queue.cancelingTimers then _ else none
  by_cases hsame : other = sequence
  · rw [hsame, Function.update_self, if_neg hqueued, if_neg]
    exact fun hboth => hboth.2 (Finset.mem_insert_self _ _)
  · have hne : queue.activeOf other ≠ queue.activeOf sequence :=
      fun heq => hsame (queue.activeOf_injective heq)
    rw [Function.update_of_ne hsame, hstored.live other, liveOf]
    simp only [Finset.mem_insert, hne, false_or]

theorem Stored.live_absent (hstored : queue.Stored schedule now queued batch)
    (hqueued : sequence ∉ queued) (hbatch : sequence ∉ batch) (other : ℕ) :
    Function.update schedule.live sequence none other =
      queue.liveOf now queued batch other := by
  by_cases hsame : other = sequence
  · rw [hsame, Function.update_self, liveOf_none hqueued]
    exact fun hmem => absurd hmem hbatch
  · rw [Function.update_of_ne hsame, hstored.live other]

/-- Cancelling deletes a timer, or notes that it is not to repeat. -/
theorem Stored.cancel (hstored : queue.Stored schedule now queued batch)
    (hidle : queue.callingExpiredTimers = false → batch = []) (sequence : ℕ) :
    ∃ after queued', queue.step (.cancel sequence) = .ret after ∧
      after.Stored (schedule.next (.cancel sequence)) now queued' batch ∧
      queue.Frame after batch ∧ (queue.Armed → after.Armed) := by
  rw [step, cancelInLoop, hstored.sets.checkSizes, Exec.ret_bind]
  change ∃ after queued', (if queue.activeOf sequence ∈ queue.activeTimers then _ else
    _ : Exec _ _).bind _ = _ ∧ _
  by_cases hqueued : sequence ∈ queued
  · obtain ⟨timer, hheap, hnumber⟩ := hstored.sets.inMemory sequence hqueued
    have hentry := (hstored.sets.entryOf_mem_iff ⟨timer, hheap, hnumber⟩).mpr hqueued
    have hdeleted := hstored.deleted hqueued
    refine ⟨queue.deleted sequence, queued.erase sequence, ?_, hdeleted,
      ⟨rfl, rfl, rfl, rfl, rfl, ?_⟩, ?_⟩
    · have hderef : queue.deref (queue.pointer sequence, sequence).1 = .ret timer :=
        deref_eq hheap
      have hcheck := hdeleted.sets.checkSizes
      rw [TimerQueue.deleted] at hcheck ⊢
      rw [entryOf_eq hheap] at hentry hcheck ⊢
      rw [if_pos (hstored.sets.activeOf_mem_iff.mpr hqueued), hderef, Exec.ret_bind]
      change (if toLex (timer.expiration, queue.pointer sequence) ∈ queue.timers then _
        else _ : Exec _ _).bind _ = _
      rw [if_pos hentry, Exec.ret_bind]
      exact hcheck
    · intro other hother
      have hne : other ≠ sequence := by
        rintro rfl
        exact hstored.taken other hqueued hother
      exact @entryOf_put queue sequence other none ⟨timer, hheap, hnumber⟩
        (hstored.batchInMemory other hother) hne
    · exact fun harmed entry hentry => harmed entry (Finset.mem_of_mem_erase hentry)
  · rw [if_neg (hstored.sets.activeOf_mem_iff.not.mpr hqueued)]
    by_cases hcalling : queue.callingExpiredTimers = true
    · refine ⟨{ queue with
        cancelingTimers :=
          Insert.insert (queue.activeOf sequence) queue.cancelingTimers }, queued, ?_, ?_,
        ⟨rfl, rfl, rfl, rfl, rfl, fun _ _ => rfl⟩, id⟩
      · rw [if_pos hcalling, Exec.ret_bind]
        have hsets := hstored.sets
        exact @Sets.checkSizes { queue with
          cancelingTimers := Insert.insert (queue.activeOf sequence) queue.cancelingTimers }
          queued ⟨hsets.inMemory, hsets.timers, hsets.activeTimers⟩
      · exact { hstored with
          sets := ⟨hstored.sets.inMemory, hstored.sets.timers, hstored.sets.activeTimers⟩
          live := hstored.live_canceling hqueued }
    · refine ⟨queue, queued, ?_, ?_, ⟨rfl, rfl, rfl, rfl, rfl, fun _ _ => rfl⟩, id⟩
      · rw [if_neg hcalling, Exec.ret_bind]
        exact hstored.sets.checkSizes
      · have hbatch := hidle (Bool.eq_false_iff.mpr hcalling)
        exact { hstored with live := hstored.live_absent hqueued (by simp [hbatch]) }

end Stored

/-! ## Taking the timers out that are due -/

section Expired

variable {queue : TimerQueue} {schedule : Schedule} {now : ℕ} {queued : Finset ℕ}
  {batch : List ℕ} {sequence : ℕ}

/-- The number of the timer at the address of an entry. -/
def numberAt (queue : TimerQueue) (entry : Entry) : ℕ :=
  ((queue.heap (ofLex entry).2).map Timer.sequence).getD 0

theorem numberAt_entryOf (hsequence : queue.InMemory sequence) :
    queue.numberAt (queue.entryOf sequence) = sequence := by
  obtain ⟨timer, hheap, hnumber⟩ := hsequence
  change ((queue.heap (queue.pointer sequence)).map Timer.sequence).getD 0 = sequence
  rw [hheap, Option.map_some, Option.getD_some, hnumber]

/-- No timer is at the address of the sentry, so that the entries before it are those that
expire in time. -/
theorem entryOf_lt_iff (hmemory : queue.Memory) (hsequence : queue.InMemory sequence) :
    queue.entryOf sequence < toLex (now, uintptrMax) ↔ queue.expirationOf sequence ≤ now := by
  obtain ⟨timer, hheap, hnumber⟩ := hsequence
  obtain ⟨_, _, hbound, _⟩ := hmemory _ timer hheap
  rw [entryOf, Prod.Lex.toLex_lt_toLex]
  dsimp only
  omega

/-- The timers that expire in time, in the order in which they do. -/
def dueTimers (queue : TimerQueue) (now : ℕ) : List ℕ :=
  (inOrder (queue.timers.filter (· < toLex (now, uintptrMax)))).map queue.numberAt

theorem entries_dueTimers (hsets : queue.Sets queued) (now : ℕ) :
    (queue.dueTimers now).map queue.entryOf =
      inOrder (queue.timers.filter (· < toLex (now, uintptrMax))) := by
  rw [dueTimers, List.map_map]
  refine (List.map_congr_left fun entry hentry => ?_).trans (List.map_id _)
  have hmem := (Finset.mem_filter.mp (mem_inOrder.mp hentry)).1
  rw [hsets.timers] at hmem
  obtain ⟨sequence, hqueued, rfl⟩ := Finset.mem_image.mp hmem
  rw [Function.comp_apply, numberAt_entryOf (hsets.inMemory sequence hqueued), id]

/-- The timers that are due are those of the sets that expire in time. -/
theorem mem_dueTimers_iff (hmemory : queue.Memory) (hsets : queue.Sets queued) :
    sequence ∈ queue.dueTimers now ↔
      sequence ∈ queued ∧ queue.expirationOf sequence ≤ now := by
  rw [dueTimers, List.mem_map]
  constructor
  · rintro ⟨entry, hentry, rfl⟩
    obtain ⟨hmem, hless⟩ := Finset.mem_filter.mp (mem_inOrder.mp hentry)
    rw [hsets.timers] at hmem
    obtain ⟨other, hother, rfl⟩ := Finset.mem_image.mp hmem
    have hother' := hsets.inMemory other hother
    rw [numberAt_entryOf hother']
    exact ⟨hother, (entryOf_lt_iff hmemory hother').mp hless⟩
  · rintro ⟨hqueued, hdue⟩
    have hsequence := hsets.inMemory sequence hqueued
    refine ⟨queue.entryOf sequence, ?_, numberAt_entryOf hsequence⟩
    rw [mem_inOrder, Finset.mem_filter, entryOf_lt_iff hmemory hsequence]
    exact ⟨(hsets.entryOf_mem_iff hsequence).mpr hqueued, hdue⟩

theorem nodup_dueTimers (hsets : queue.Sets queued) : (queue.dueTimers now).Nodup := by
  apply List.Nodup.of_map queue.entryOf
  rw [entries_dueTimers hsets]
  exact nodup_inOrder _

/-- Erasing a batch leaves the other timers. -/
theorem eraseActive_spec {members : Finset ℕ}
    (hactive : queue.activeTimers = members.image queue.activeOf)
    (hbatch : ∀ sequence ∈ batch, sequence ∈ members ∧ queue.InMemory sequence)
    (hnodup : batch.Nodup) :
    queue.eraseActive (batch.map queue.entryOf) =
      .ret { queue with
        activeTimers := (members.filter (· ∉ batch)).image queue.activeOf } := by
  induction batch generalizing queue members with
  | nil =>
      simp only [List.map_nil, eraseActive, List.not_mem_nil, not_false_eq_true,
        Finset.filter_true, ← hactive]
  | cons sequence batch ih =>
      obtain ⟨hmember, timer, hheap, hnumber⟩ := hbatch sequence List.mem_cons_self
      obtain ⟨hnot, hrest⟩ := List.nodup_cons.mp hnodup
      have hderef : queue.deref (ofLex (queue.entryOf sequence)).2 = .ret timer :=
        deref_eq hheap
      have hmem : ((ofLex (queue.entryOf sequence)).2, timer.sequence) ∈ queue.activeTimers := by
        rw [hnumber, hactive]
        exact Finset.mem_image_of_mem queue.activeOf hmember
      rw [List.map_cons, eraseActive, hderef, Exec.ret_bind, if_pos hmem]
      have herase : queue.activeTimers.erase
          ((ofLex (queue.entryOf sequence)).2, timer.sequence) =
            (members.erase sequence).image queue.activeOf := by
        rw [hnumber, hactive, Finset.image_erase queue.activeOf_injective]
        rfl
      rw [herase]
      have hlater := @ih { queue with
        activeTimers := (members.erase sequence).image queue.activeOf } (members.erase sequence)
        rfl ?_ hrest
      · refine hlater.trans ?_
        have hfilter : (members.erase sequence).filter (· ∉ batch) =
            members.filter (· ∉ sequence :: batch) := by
          ext other
          simp only [Finset.mem_filter, Finset.mem_erase, List.mem_cons, not_or]
          tauto
        rw [hfilter]
        rfl
      · intro other hother
        obtain ⟨hmember', hmemory'⟩ := hbatch other (List.mem_cons_of_mem _ hother)
        refine ⟨Finset.mem_erase.mpr ⟨?_, hmember'⟩, hmemory'⟩
        rintro rfl
        exact hnot hother

def withoutDue (queue : TimerQueue) (queued : Finset ℕ) (now : ℕ) : TimerQueue :=
  { queue with
    timers := (queued.filter (now < queue.expirationOf ·)).image queue.entryOf
    activeTimers := (queued.filter (now < queue.expirationOf ·)).image queue.activeOf }

theorem Sets.withoutDue (hsets : queue.Sets queued) (now : ℕ) :
    (queue.withoutDue queued now).Sets (queued.filter (now < queue.expirationOf ·)) where
  inMemory := fun sequence hmem => hsets.inMemory sequence (Finset.mem_filter.mp hmem).1
  timers := rfl
  activeTimers := rfl

/-- `getExpired` takes out the timers that are due, in their order. -/
theorem getExpired_spec (hmemory : queue.Memory) (hsets : queue.Sets queued) (now : ℕ) :
    queue.getExpired now =
      .ret ((queue.dueTimers now).map queue.entryOf, queue.withoutDue queued now) := by
  have hlater : queue.timers.filter (toLex (now, uintptrMax) ≤ ·) =
      (queued.filter (now < queue.expirationOf ·)).image queue.entryOf := by
    rw [hsets.timers, Finset.filter_image]
    congr 1
    apply Finset.filter_congr
    intro sequence hqueued
    rw [← not_lt, entryOf_lt_iff hmemory (hsets.inMemory sequence hqueued), Nat.not_le]
  have hassert : (first (queue.timers.filter (toLex (now, uintptrMax) ≤ ·))).all
      (fun entry => now < (ofLex entry).1) = true := by
    cases hfirst : first (queue.timers.filter (toLex (now, uintptrMax) ≤ ·)) with
    | none => rfl
    | some entry =>
        have hmem := (first_spec hfirst).1
        rw [hlater] at hmem
        obtain ⟨sequence, hfiltered, rfl⟩ := Finset.mem_image.mp hmem
        exact decide_eq_true (Finset.mem_filter.mp hfiltered).2
  have hmembers : queued.filter (· ∉ queue.dueTimers now) =
      queued.filter (now < queue.expirationOf ·) := by
    apply Finset.filter_congr
    intro sequence hqueued
    rw [mem_dueTimers_iff hmemory hsets, and_iff_right hqueued, Nat.not_le]
  have herase := @eraseActive_spec
    { queue with timers := queue.timers.filter (toLex (now, uintptrMax) ≤ ·) }
    (queue.dueTimers now) queued hsets.activeTimers
    (fun sequence hdue => by
      have hqueued := ((mem_dueTimers_iff hmemory hsets).mp hdue).1
      exact ⟨hqueued, hsets.inMemory sequence hqueued⟩)
    (nodup_dueTimers hsets)
  change ({ queue with timers := _ } : TimerQueue).eraseActive
    ((queue.dueTimers now).map queue.entryOf) = _ at herase
  have hwithout : ({ queue with
      timers := queue.timers.filter (toLex (now, uintptrMax) ≤ ·)
      activeTimers := (queued.filter (· ∉ queue.dueTimers now)).image
        queue.activeOf } : TimerQueue) = queue.withoutDue queued now := by
    rw [hlater, hmembers, TimerQueue.withoutDue]
  rw [getExpired, hsets.checkSizes, Exec.ret_bind]
  dsimp only
  rw [if_pos hassert, ← entries_dueTimers hsets, herase, Exec.ret_bind]
  change (checkSizes { queue with
    timers := queue.timers.filter (toLex (now, uintptrMax) ≤ ·)
    activeTimers := (queued.filter (· ∉ queue.dueTimers now)).image queue.activeOf }).bind _ = _
  rw [hwithout, (hsets.withoutDue now).checkSizes, Exec.ret_bind]

/-- What was taken out is sorted by its expirations and has just the timers that were
due. -/
theorem ranDue_dueTimers (hstored : queue.Stored schedule now queued []) (time : Time) :
    RanDue ((queue.dueTimers time).map queue.stamp) (schedule.next (.handleRead time)).due where
  sorted := by
    have hsorted := pairwise_inOrder (queue.timers.filter (· < toLex (time.val, uintptrMax)))
    rw [← entries_dueTimers hstored.sets, List.pairwise_map] at hsorted
    rw [List.pairwise_map]
    exact hsorted.imp fun hle => Prod.Lex.monotone_fst _ _ hle
  once := by
    rw [List.map_map]
    have hsnd : Prod.snd ∘ queue.stamp = id := rfl
    rw [hsnd, List.map_id]
    exact nodup_dueTimers hstored.sets
  exact := by
    intro expiration sequence
    rw [List.mem_map]
    change _ ↔ ∃ timer, (schedule.live sequence).filter
      (fun timer => timer.expiration ≤ time.val) = some timer ∧ _
    rw [hstored.live, liveOf]
    constructor
    · rintro ⟨other, hother, hstamp⟩
      cases hstamp
      obtain ⟨hqueued, hdue⟩ := (mem_dueTimers_iff hstored.memory hstored.sets).mp hother
      obtain ⟨timer, hheap, hnumber⟩ := hstored.sets.inMemory _ hqueued
      rw [expirationOf_eq hheap] at hdue ⊢
      rw [if_pos hqueued, hheap]
      exact ⟨timer, Option.filter_some_pos (decide_eq_true hdue), rfl⟩
    · rintro ⟨timer, hfilter, rfl⟩
      obtain ⟨hlive, hdue⟩ := Option.filter_eq_some_iff.mp hfilter
      split_ifs at hlive with hqueued hbatch
      · refine ⟨sequence, ?_, ?_⟩
        · rw [mem_dueTimers_iff hstored.memory hstored.sets, expirationOf_eq hlive]
          exact ⟨hqueued, of_decide_eq_true hdue⟩
        · rw [stamp, expirationOf_eq hlive]
      · exact absurd hbatch.1 List.not_mem_nil

/-- The queue while the timers that were due are run. -/
def took (queue : TimerQueue) (queued : Finset ℕ) (now : ℕ) : TimerQueue :=
  { (queue.readTimerfd now).withoutDue queued now with
    callingExpiredTimers := true
    cancelingTimers := ∅
    reading := some now
    expired := (queue.dueTimers now).map queue.entryOf
    waiting := (queue.dueTimers now).map queue.entryOf
    ran := [] }

/-- A timer that was due is gone, or goes on with its next expiration. -/
theorem Stored.live_took (hstored : queue.Stored schedule now queued []) (time : Time)
    (sequence : ℕ) :
    (schedule.next (.handleRead time)).live sequence =
      (queue.took queued time).liveOf time (queued.filter (time < queue.expirationOf ·))
        (queue.dueTimers time) sequence := by
  have hdueTimers := @mem_dueTimers_iff queue time queued sequence hstored.memory hstored.sets
  change (schedule.live sequence).bind (fun timer =>
    if timer.expiration ≤ time then timer.again time else some timer) = _
  rw [hstored.live]
  by_cases hqueued : sequence ∈ queued
  · obtain ⟨timer, hheap, hnumber⟩ := hstored.sets.inMemory sequence hqueued
    have htook : (queue.took queued time).heap ((queue.took queued time).pointer sequence) =
        some timer := hheap
    rw [liveOf_queued hqueued, hheap, Option.bind_some]
    rw [expirationOf_eq hheap] at hdueTimers
    by_cases hdue : timer.expiration ≤ time
    · have hout : sequence ∉ queued.filter (time.val < queue.expirationOf ·) := by
        rw [Finset.mem_filter, expirationOf_eq hheap]
        exact fun hlate => Nat.not_lt.mpr hdue hlate.2
      rw [if_pos hdue, liveOf_batch hout (hdueTimers.mpr ⟨hqueued, hdue⟩)
        (Finset.notMem_empty _), htook, Option.bind_some]
    · have hin : sequence ∈ queued.filter (time.val < queue.expirationOf ·) := by
        rw [Finset.mem_filter, expirationOf_eq hheap]
        exact ⟨hqueued, Nat.not_le.mp hdue⟩
      rw [if_neg hdue, liveOf_queued hin, htook]
  · have hout : sequence ∉ queued.filter (time.val < queue.expirationOf ·) :=
      fun hmem => hqueued (Finset.mem_filter.mp hmem).1
    rw [liveOf_none hqueued fun hmem => absurd hmem List.not_mem_nil, Option.bind_none,
      liveOf_none hout fun hmem => absurd (hdueTimers.mp hmem).1 hqueued]

/-- `handleRead` begins with the timers that are due. -/
theorem Stored.handleRead (hstored : queue.Stored schedule now queued []) (time : Time) :
    queue.step (.handleRead time) = .ret (queue.took queued time) ∧
      (queue.took queued time).Stored (schedule.next (.handleRead time)) time
        (queued.filter (time < queue.expirationOf ·)) (queue.dueTimers time) := by
  have hsets : (queue.readTimerfd time).Sets queued :=
    ⟨hstored.sets.inMemory, hstored.sets.timers, hstored.sets.activeTimers⟩
  have hmemory : (queue.readTimerfd time).Memory := hstored.memory
  constructor
  · rw [step, TimerQueue.handleRead, getExpired_spec hmemory hsets, Exec.ret_bind]
    rfl
  refine ⟨hstored.memory, ⟨?_, rfl, rfl⟩, hstored.created, hstored.postedInMemory, ?_,
    nodup_dueTimers hstored.sets, ?_, ?_, hstored.posted, hstored.live_took time⟩
  · exact fun sequence hmem =>
      hstored.sets.inMemory sequence (Finset.mem_filter.mp hmem).1
  · exact fun sequence hmem => hstored.sets.inMemory sequence
      ((mem_dueTimers_iff hstored.memory hstored.sets).mp hmem).1
  · intro sequence hposted
    have hnot := (hstored.apart sequence hposted).1
    constructor
    · exact fun hmem => hnot (Finset.mem_filter.mp hmem).1
    · exact fun hmem => hnot ((mem_dueTimers_iff hstored.memory hstored.sets).mp hmem).1
  · intro sequence hmem hbatch
    have hlate := (Finset.mem_filter.mp hmem).2
    have hsoon := ((mem_dueTimers_iff hstored.memory hstored.sets).mp hbatch).2
    omega

end Expired

/-! ## Putting timers back -/

section Resetting

variable {queue queue' : TimerQueue} {schedule : Schedule} {now : ℕ} {queued queued' : Finset ℕ}
  {batch : List ℕ} {sequence other : ℕ} {timer : Timer} {value : Option Timer}

/-- What becomes of one timer of the batch does not matter to the others. -/
theorem Stored.live_put (hstored : queue.Stored schedule now queued (sequence :: batch))
    (hne : other ≠ sequence) (hqueued : other ∈ queued' ↔ other ∈ queued)
    (hheap : ∀ other, queue.InMemory other → other ≠ sequence →
      queue'.heap (queue.pointer other) = queue.heap (queue.pointer other))
    (hpointer : queue'.pointer = queue.pointer)
    (hcanceling : queue'.cancelingTimers = queue.cancelingTimers) :
    schedule.live other = queue'.liveOf now queued' batch other := by
  rw [hstored.live, liveOf, liveOf, activeOf, activeOf, hpointer, hcanceling]
  by_cases hmem : other ∈ queued
  · rw [if_pos hmem, if_pos (hqueued.mpr hmem),
      hheap other (hstored.sets.inMemory other hmem) hne]
  · rw [if_neg hmem, if_neg (hqueued.not.mpr hmem)]
    by_cases hbatch : other ∈ batch
    · rw [hheap other (hstored.batchInMemory other (List.mem_cons_of_mem _ hbatch)) hne]
      simp only [List.mem_cons, hbatch, or_true]
    · have hnot : other ∉ sequence :: batch :=
        fun hmem => hbatch ((List.mem_cons.mp hmem).resolve_left hne)
      rw [if_neg fun hboth => hnot hboth.1, if_neg fun hboth => hbatch hboth.1]

/-- The first timer of the batch is none of the others. -/
theorem Stored.ne_head (hstored : queue.Stored schedule now queued (sequence :: batch)) :
    (∀ other ∈ queued, other ≠ sequence) ∧ (∀ other ∈ queue.posted, other ≠ sequence) ∧
      ∀ other ∈ batch, other ≠ sequence := by
  refine ⟨?_, ?_, ?_⟩
  · rintro other hother rfl
    exact hstored.taken other hother List.mem_cons_self
  · rintro other hother rfl
    exact (hstored.apart other hother).2 List.mem_cons_self
  · rintro other hother rfl
    exact (List.nodup_cons.mp hstored.nodup).1 hother

/-- The others stay where they are. -/
theorem Stored.put_frame (hstored : queue.Stored schedule now queued (sequence :: batch)) :
    (queue.put sequence value).Sets queued ∧
      (∀ other ∈ queue.posted, (queue.put sequence value).InMemory other) ∧
      (∀ other ∈ batch, (queue.put sequence value).InMemory other) ∧
      ∀ other, schedule.posted other =
        if other ∈ queue.posted then
          (queue.put sequence value).heap (queue.pointer other) else none := by
  have hsequence := hstored.batchInMemory sequence List.mem_cons_self
  obtain ⟨hqueued, hposted, hbatch⟩ := hstored.ne_head
  refine ⟨?_, ?_, ?_, ?_⟩
  · refine @Sets.congr queue (queue.put sequence value) queued hstored.sets rfl rfl
      (fun _ _ => rfl) ?_
    exact fun other hother =>
      heap_put hsequence (hstored.sets.inMemory other hother) (hqueued other hother)
  · exact fun other hother =>
      inMemory_put hsequence (hstored.postedInMemory other hother) (hposted other hother)
  · exact fun other hother => inMemory_put hsequence
      (hstored.batchInMemory other (List.mem_cons_of_mem _ hother)) (hbatch other hother)
  · intro other
    rw [hstored.posted other]
    split_ifs with hother
    · exact (heap_put hsequence (hstored.postedInMemory other hother)
        (hposted other hother)).symm
    · rfl

/-- A timer that does not repeat, or was cancelled, is deleted. -/
theorem Stored.put_none (hstored : queue.Stored schedule now queued (sequence :: batch))
    (hgone : schedule.live sequence = none) :
    (queue.put sequence none).Stored schedule now queued batch := by
  have hsequence := hstored.batchInMemory sequence List.mem_cons_self
  obtain ⟨hsets, hposted, hbatch, hschedule⟩ := @Stored.put_frame _ _ _ _ _ _ none hstored
  obtain ⟨hnotQueued, _, hnotBatch⟩ := hstored.ne_head
  refine ⟨memory_put hstored.memory hsequence (by simp), hsets, hstored.created, hposted, hbatch,
    hstored.nodup.of_cons, ?_, ?_, hschedule, ?_⟩
  · intro other hother
    obtain ⟨hqueued, hnot⟩ := hstored.apart other hother
    exact ⟨hqueued, fun hmem => hnot (List.mem_cons_of_mem _ hmem)⟩
  · exact fun other hother hmem => hstored.taken other hother (List.mem_cons_of_mem _ hmem)
  · intro other
    by_cases hsame : other = sequence
    · rw [hsame, hgone, liveOf_none]
      · exact fun hmem => hnotQueued sequence hmem rfl
      · exact fun hmem => absurd rfl (hnotBatch sequence hmem)
    · exact hstored.live_put hsame Iff.rfl (fun other => heap_put hsequence) rfl rfl

/-- A timer that repeats is put back with its next expiration. -/
theorem Stored.put_restart (hstored : queue.Stored schedule now queued (sequence :: batch))
    (hnow : 0 < now) (hheap : queue.heap (queue.pointer sequence) = some timer)
    (hnumber : timer.sequence = sequence) (hrepeats : timer.repeats = true)
    (hkept : queue.activeOf sequence ∉ queue.cancelingTimers) :
    ((queue.put sequence (some (timer.restart now))).inserted sequence).Stored schedule now
      (Insert.insert sequence queued) batch := by
  have hsequence := hstored.batchInMemory sequence List.mem_cons_self
  obtain ⟨hsets, hposted, hbatch, hschedule⟩ :=
    @Stored.put_frame _ _ _ _ _ _ (some (timer.restart now)) hstored
  obtain ⟨hnotQueued, hnotPosted, hnotBatch⟩ := hstored.ne_head
  have hput : (queue.put sequence (some (timer.restart now))).heap (queue.pointer sequence) =
      some (timer.restart now) := Function.update_self _ _ _
  have hmemory : (queue.put sequence (some (timer.restart now))).Memory := by
    apply memory_put hstored.memory hsequence
    rintro restarted hrestarted
    cases hrestarted
    refine ⟨hnumber, ?_⟩
    rw [Timer.restart, if_pos hrepeats]
    exact Nat.add_pos_left hnow _
  have hinserted := hsets.inserted ⟨timer.restart now, hput, hnumber⟩
  refine ⟨hmemory, hinserted, hstored.created, hposted, hbatch, hstored.nodup.of_cons, ?_, ?_,
    hschedule, ?_⟩
  · intro other hother
    obtain ⟨hqueued, hnot⟩ := hstored.apart other hother
    refine ⟨?_, fun hmem => hnot (List.mem_cons_of_mem _ hmem)⟩
    rw [Finset.mem_insert, not_or]
    exact ⟨hnotPosted other hother, hqueued⟩
  · intro other hother hmem
    rcases Finset.mem_insert.mp hother with rfl | hqueued
    · exact hnotBatch other hmem rfl
    · exact hstored.taken other hqueued (List.mem_cons_of_mem _ hmem)
  · intro other
    by_cases hsame : other = sequence
    · have hout : sequence ∉ queued := fun hmem => hnotQueued sequence hmem rfl
      rw [hsame, hstored.live, liveOf_batch hout List.mem_cons_self hkept, hheap,
        Option.bind_some, Timer.again, if_pos hrepeats,
        liveOf_queued (Finset.mem_insert_self _ _)]
      exact hput.symm
    · apply hstored.live_put hsame _ (fun other => heap_put hsequence) rfl rfl
      rw [Finset.mem_insert, or_iff_right hsame]

/-- After the loop the batch is empty. -/
theorem Stored.resetEach (hstored : queue.Stored schedule now queued batch) (hnow : 0 < now) :
    ∃ after queued', queue.resetEach now (batch.map queue.entryOf) = .ret after ∧
      after.Stored schedule now queued' [] ∧ after.waiting = queue.waiting ∧
      after.callingExpiredTimers = queue.callingExpiredTimers ∧ after.ran = queue.ran := by
  induction batch generalizing queue queued with
  | nil => exact ⟨queue, queued, rfl, hstored, rfl, rfl, rfl⟩
  | cons sequence batch ih =>
      obtain ⟨timer, hheap, hnumber⟩ := hstored.batchInMemory sequence List.mem_cons_self
      have hout : sequence ∉ queued := fun hmem => hstored.ne_head.1 sequence hmem rfl
      have hderef : queue.deref (ofLex (queue.entryOf sequence)).2 = .ret timer :=
        deref_eq hheap
      have hentries : ∀ value, batch.map queue.entryOf =
          batch.map (queue.put sequence value).entryOf := by
        intro value
        apply List.map_congr_left
        intro other hother
        exact (entryOf_put ⟨timer, hheap, hnumber⟩
          (hstored.batchInMemory other (List.mem_cons_of_mem _ hother))
          (hstored.ne_head.2.2 other hother)).symm
      rw [List.map_cons, TimerQueue.resetEach, hderef, Exec.ret_bind, hnumber]
      change ∃ after queued', (if timer.repeats ∧
          queue.activeOf sequence ∉ queue.cancelingTimers then
        ((queue.put sequence (some (timer.restart now))).insert (queue.pointer sequence)).bind
          fun pair => pair.1.resetEach now _
        else (queue.put sequence none).resetEach now _) = _ ∧ _
      split_ifs with hback
      · obtain ⟨hrepeats, hkept⟩ := hback
        have hput : (queue.put sequence (some (timer.restart now))).heap
            (queue.pointer sequence) = some (timer.restart now) := Function.update_self _ _ _
        have hsets := (@Stored.put_frame _ _ _ _ _ _ (some (timer.restart now)) hstored).1
        obtain ⟨changed, hinsert, _⟩ := insert_spec hsets hout hput hnumber
        obtain ⟨after, queued', hreset, hafter, hframe⟩ :=
          ih (hstored.put_restart hnow hheap hnumber hrepeats hkept)
        refine ⟨after, queued', ?_, hafter, hframe⟩
        have hinsert' : (queue.put sequence (some (timer.restart now))).insert
            (queue.pointer sequence) = _ := hinsert
        rw [hinsert', Exec.ret_bind, hentries (some (timer.restart now))]
        exact hreset
      · have hgone : schedule.live sequence = none := by
          rw [hstored.live, liveOf, if_neg hout]
          split_ifs with hboth
          · rw [hheap, Option.bind_some, Timer.again, if_neg fun hrepeats => hback
              ⟨hrepeats, hboth.2⟩]
          · rfl
        obtain ⟨after, queued', hreset, hafter, hframe⟩ := ih (hstored.put_none hgone)
        refine ⟨after, queued', ?_, hafter, hframe⟩
        rw [hentries none]
        exact hreset

end Resetting

/-! ## Runs -/

structure Idle (queue : TimerQueue) (schedule : Schedule) : Prop where
  reading : queue.reading = none
  calling : queue.callingExpiredTimers = false
  waiting : queue.waiting = []
  ran : RanDue queue.ran schedule.due
  armed : queue.Armed

structure Calling (queue : TimerQueue) (schedule : Schedule) (now : ℕ) (batch : List ℕ) :
    Prop where
  reading : queue.reading = some now
  positive : 0 < now
  calling : queue.callingExpiredTimers = true
  expired : queue.expired = batch.map queue.entryOf
  order : ∃ before after, batch = before ++ after ∧ queue.ran = before.map queue.stamp ∧
    queue.waiting = after.map queue.entryOf
  due : RanDue (batch.map queue.stamp) schedule.due

def Invariant (queue : TimerQueue) (schedule : Schedule) : Prop :=
  (∃ now queued, queue.Stored schedule now queued [] ∧ queue.Idle schedule) ∨
    ∃ now queued batch, queue.Stored schedule now queued batch ∧
      queue.Calling schedule now batch

section Runs

variable {queue after : TimerQueue} {schedule schedule' : Schedule} {now : ℕ}
  {queued : Finset ℕ} {batch : List ℕ}

theorem Idle.of_frame (hidle : queue.Idle schedule) (hframe : queue.Frame after [])
    (harmed : queue.Armed → after.Armed) (hdue : schedule'.due = schedule.due) :
    after.Idle schedule' where
  reading := hframe.reading.trans hidle.reading
  calling := hframe.calling.trans hidle.calling
  waiting := hframe.waiting.trans hidle.waiting
  ran := by
    rw [hframe.ran, hdue]
    exact hidle.ran
  armed := harmed hidle.armed

/-- A callback that adds or cancels leaves the batch alone. -/
theorem Calling.of_frame (hcalling : queue.Calling schedule now batch)
    (hframe : queue.Frame after batch) (hdue : schedule'.due = schedule.due) :
    after.Calling schedule' now batch := by
  have hentries : ∀ part : List ℕ, (∀ sequence ∈ part, sequence ∈ batch) →
      part.map after.entryOf = part.map queue.entryOf :=
    fun part hpart => List.map_congr_left fun sequence hmem =>
      hframe.entries sequence (hpart sequence hmem)
  have hstamps : ∀ part : List ℕ, (∀ sequence ∈ part, sequence ∈ batch) →
      part.map after.stamp = part.map queue.stamp := by
    intro part hpart
    apply List.map_congr_left
    intro sequence hmem
    have hentry := hframe.entries sequence (hpart sequence hmem)
    exact congrArg (fun entry : Entry => ((ofLex entry).1, sequence)) hentry
  refine ⟨hframe.reading.trans hcalling.reading, hcalling.positive,
    hframe.calling.trans hcalling.calling, ?_, ?_, ?_⟩
  · rw [hframe.expired, hentries batch fun _ hmem => hmem]
    exact hcalling.expired
  · obtain ⟨before, rest, hbatch, hran, hwaiting⟩ := hcalling.order
    refine ⟨before, rest, hbatch, ?_, ?_⟩
    · rw [hframe.ran, hran, hstamps before]
      exact fun sequence hmem => hbatch ▸ List.mem_append_left _ hmem
    · rw [hframe.waiting, hwaiting, hentries rest]
      exact fun sequence hmem => hbatch ▸ List.mem_append_right _ hmem
  · rw [hdue, hstamps batch fun _ hmem => hmem]
    exact hcalling.due

/-- The next timer of the batch is run. -/
theorem run_spec (hstored : queue.Stored schedule now queued batch)
    (hcalling : queue.Calling schedule now batch) (hwaiting : queue.waiting ≠ []) :
    ∃ after, queue.run = .ret after ∧ after.Stored schedule now queued batch ∧
      after.Calling schedule now batch := by
  obtain ⟨before, rest, hbatch, hran, hrest⟩ := hcalling.order
  cases rest with
  | nil => exact absurd hrest hwaiting
  | cons sequence rest =>
      obtain ⟨timer, hheap, hnumber⟩ := hstored.batchInMemory sequence (by simp [hbatch])
      have hderef : queue.deref (ofLex (queue.entryOf sequence)).2 = .ret timer :=
        deref_eq hheap
      refine ⟨{ queue with
        waiting := rest.map queue.entryOf
        ran := queue.ran ++ [queue.stamp sequence] }, ?_, ?_, ?_⟩
      · rw [run, hrest, List.map_cons]
        dsimp only
        rw [hderef, Exec.ret_bind, hnumber]
        rfl
      · exact { hstored with
          sets := ⟨hstored.sets.inMemory, hstored.sets.timers, hstored.sets.activeTimers⟩ }
      · refine { hcalling with
          order := ⟨before ++ [sequence], rest, ?_, ?_, rfl⟩ }
        · rw [hbatch, List.append_assoc, List.singleton_append]
        · rw [List.map_append, hran]
          rfl

theorem finish_eq (hreading : queue.reading = some now) (armingTime : ℕ) :
    queue.finish armingTime =
      (({ queue with callingExpiredTimers := false } : TimerQueue).reset now armingTime).bind
        fun queue => .ret { queue with reading := none, expired := [] } := by
  rw [finish, hreading]

/-- What is left of the batch is put back, and the timerfd armed for the first timer. -/
theorem finish_spec (hstored : queue.Stored schedule now queued batch)
    (hcalling : queue.Calling schedule now batch) (hwaiting : queue.waiting = [])
    (armingTime : ℕ) :
    ∃ after queued', queue.finish armingTime = .ret after ∧
      after.Stored schedule now queued' [] ∧ after.Idle schedule := by
  obtain ⟨before, rest, hbatch, hran, hrest⟩ := hcalling.order
  have hdone : queue.ran = batch.map queue.stamp := by
    rw [hwaiting, eq_comm, List.map_eq_nil_iff] at hrest
    rw [hran, hbatch, hrest, List.append_nil]
  have hstored' : ({ queue with callingExpiredTimers := false } : TimerQueue).Stored schedule now
      queued batch :=
    { hstored with
      sets := ⟨hstored.sets.inMemory, hstored.sets.timers, hstored.sets.activeTimers⟩ }
  obtain ⟨after, queued', hreset, hafter, hwait, hcall, hranAfter⟩ :=
    hstored'.resetEach hcalling.positive
  have hranDue : RanDue after.ran schedule.due := by
    have hsame : after.ran = batch.map queue.stamp := hranAfter.trans hdone
    rw [hsame]
    exact hcalling.due
  have hresetEach : ({ queue with callingExpiredTimers := false } : TimerQueue).resetEach now
      queue.expired = .ret after :=
    (congrArg (TimerQueue.resetEach _ now) hcalling.expired).trans hreset
  rw [finish_eq hcalling.reading, reset, hresetEach, Exec.ret_bind]
  cases hfirst : first after.timers with
  | none =>
      refine ⟨{ after with reading := none, expired := [] }, queued', rfl, ?_,
        ⟨rfl, hcall, hwait.trans hwaiting, hranDue, ?_⟩⟩
      · exact { hafter with
          sets := ⟨hafter.sets.inMemory, hafter.sets.timers, hafter.sets.activeTimers⟩ }
      · intro entry hentry
        change entry ∈ after.timers at hentry
        rw [first_eq_none_iff.mp hfirst] at hentry
        exact absurd hentry (Finset.notMem_empty entry)
  | some entry =>
      obtain ⟨hmem, hleast⟩ := first_spec hfirst
      rw [hafter.sets.timers] at hmem
      obtain ⟨sequence, hqueued, rfl⟩ := Finset.mem_image.mp hmem
      obtain ⟨timer, hheap, hnumber⟩ := hafter.sets.inMemory sequence hqueued
      have hderef : after.deref (ofLex (after.entryOf sequence)).2 = .ret timer :=
        deref_eq hheap
      have hvalid := (hafter.memory _ timer hheap).2.2.2
      refine ⟨{ after.resetTimerfd timer.expiration armingTime with
        reading := none, expired := [] }, queued', ?_, ?_,
        ⟨rfl, hcall, hwait.trans hwaiting, hranDue, ?_⟩⟩
      · dsimp only
        rw [hderef, Exec.ret_bind, if_pos hvalid, Exec.ret_bind]
      · exact { hafter with
          sets := ⟨hafter.sets.inMemory, hafter.sets.timers, hafter.sets.activeTimers⟩ }
      · have harmed : (after.resetTimerfd timer.expiration armingTime).Armed := by
          apply armed_resetTimerfd armingTime
          intro entry hentry
          have hle := Prod.Lex.monotone_fst _ _ (hleast entry hentry)
          rwa [entryOf_eq hheap] at hle
        exact harmed

/-- A step follows the schedule. -/
theorem step_spec (hinvariant : queue.Invariant schedule) (event : Event)
    (hallowed : queue.Allowed event) :
    ∃ after, queue.step event = .ret after ∧ after.Invariant (schedule.next event) := by
  rcases hinvariant with ⟨now, queued, hstored, hidle⟩ | ⟨now, queued, batch, hstored, hcalling⟩
  · cases event with
    | create address expiration interval repeats =>
        have hcreated := @Stored.create _ _ _ _ _ _ hstored hallowed.1 hallowed.2 expiration
          interval repeats
        refine ⟨_, rfl, Or.inl ⟨now, queued, hcreated, ?_⟩⟩
        exact hidle.of_frame ⟨rfl, rfl, rfl, rfl, rfl, by simp⟩ id rfl
    | add sequence armingTime =>
        obtain ⟨after, hadd, hafter, hframe, harmed⟩ := hstored.add hallowed armingTime
        exact ⟨after, hadd, Or.inl ⟨now, _, hafter, hidle.of_frame hframe harmed rfl⟩⟩
    | cancel sequence =>
        obtain ⟨after, queued', hcancel, hafter, hframe, harmed⟩ :=
          hstored.cancel (fun _ => rfl) sequence
        exact ⟨after, hcancel, Or.inl ⟨now, queued', hafter, hidle.of_frame hframe harmed rfl⟩⟩
    | handleRead time =>
        obtain ⟨hread, hafter⟩ := hstored.handleRead time
        refine ⟨_, hread, Or.inr ⟨time, _, _, hafter, rfl, time.2, rfl, rfl, ?_, ?_⟩⟩
        · exact ⟨[], queue.dueTimers time, rfl, rfl, rfl⟩
        · exact ranDue_dueTimers hstored time
    | run => exact absurd hidle.waiting hallowed
    | finish armingTime => exact absurd hidle.reading hallowed.1
  · cases event with
    | create address expiration interval repeats =>
        have hcreated := @Stored.create _ _ _ _ _ _ hstored hallowed.1 hallowed.2 expiration
          interval repeats
        refine ⟨_, rfl, Or.inr ⟨now, queued, batch, hcreated, ?_⟩⟩
        refine hcalling.of_frame ⟨rfl, rfl, rfl, rfl, rfl, ?_⟩ rfl
        intro sequence hmem
        obtain ⟨hpointer, hheap⟩ := @create_frame queue sequence address
          { expiration, interval, repeats, sequence := queue.numCreated + 1 } hstored.memory
          hallowed.1 rfl (hstored.batchInMemory sequence hmem)
        rw [entryOf, expirationOf, hpointer, hheap]
        rfl
    | add sequence armingTime =>
        obtain ⟨after, hadd, hafter, hframe, _⟩ := hstored.add hallowed armingTime
        exact ⟨after, hadd, Or.inr ⟨now, _, batch, hafter, hcalling.of_frame hframe rfl⟩⟩
    | cancel sequence =>
        obtain ⟨after, queued', hcancel, hafter, hframe, _⟩ :=
          hstored.cancel (fun hfalse => by simp [hcalling.calling] at hfalse) sequence
        exact ⟨after, hcancel,
          Or.inr ⟨now, queued', batch, hafter, hcalling.of_frame hframe rfl⟩⟩
    | handleRead time =>
        rw [Allowed, hcalling.reading] at hallowed
        cases hallowed
    | run =>
        obtain ⟨after, hrun, hafter, hcalls⟩ := run_spec hstored hcalling hallowed
        exact ⟨after, hrun, Or.inr ⟨now, queued, batch, hafter, hcalls⟩⟩
    | finish armingTime =>
        obtain ⟨after, queued', hfinish, hafter, hidle⟩ :=
          finish_spec hstored hcalling hallowed.2 armingTime
        exact ⟨after, hfinish, Or.inl ⟨now, queued', hafter, hidle⟩⟩

/-- The queue has the timers of its schedule. -/
theorem Invariant.consistent (hinvariant : queue.Invariant schedule) :
    Consistent queue schedule := by
  rcases hinvariant with ⟨now, queued, hstored, hidle⟩ | ⟨now, queued, batch, _, hcalling⟩
  · have hlive : ∀ sequence timer, schedule.live sequence = some timer ↔
        sequence ∈ queued ∧ queue.heap (queue.pointer sequence) = some timer := by
      intro sequence timer
      rw [hstored.live, liveOf]
      split_ifs with hqueued hbatch
      · simp [hqueued]
      · exact absurd hbatch.1 List.not_mem_nil
      · simp [hqueued]
    refine ⟨fun _ entry => ?_, fun _ active => ?_, ?_, fun _ => hidle.ran, ?_⟩
    · rw [hstored.sets.timers, Finset.mem_image]
      constructor
      · rintro ⟨sequence, hqueued, rfl⟩
        obtain ⟨timer, hheap, _⟩ := hstored.sets.inMemory sequence hqueued
        exact ⟨sequence, timer, (hlive sequence timer).mpr ⟨hqueued, hheap⟩, entryOf_eq hheap⟩
      · rintro ⟨sequence, timer, hsome, rfl⟩
        obtain ⟨hqueued, hheap⟩ := (hlive sequence timer).mp hsome
        exact ⟨sequence, hqueued, entryOf_eq hheap⟩
    · rw [hstored.sets.activeTimers, Finset.mem_image]
      constructor
      · rintro ⟨sequence, hqueued, rfl⟩
        obtain ⟨timer, hheap, _⟩ := hstored.sets.inMemory sequence hqueued
        exact ⟨sequence, timer, (hlive sequence timer).mpr ⟨hqueued, hheap⟩, rfl⟩
      · rintro ⟨sequence, timer, hsome, rfl⟩
        exact ⟨sequence, ((hlive sequence timer).mp hsome).1, rfl⟩
    · intro _ sequence timer other timer' hsequence hother hpointer
      have hfirst := hstored.sets.inMemory sequence ((hlive sequence timer).mp hsequence).1
      have hsecond := hstored.sets.inMemory other ((hlive other timer').mp hother).1
      exact hfirst.ext hsecond hpointer
    · exact fun _ entry hfirst => hidle.armed entry (first_spec hfirst).1
  · have hreading : queue.reading ≠ none := by
      rw [hcalling.reading]
      exact Option.some_ne_none now
    exact ⟨fun hnone => absurd hnone hreading, fun hnone => absurd hnone hreading,
      fun hnone => absurd hnone hreading, fun hnone => absurd hnone hreading,
      fun hnone => absurd hnone hreading⟩

theorem initial_invariant : Invariant {} {} := by
  left
  refine ⟨0, ∅, ⟨?_, ⟨by simp, rfl, rfl⟩, rfl, by simp, by simp, List.nodup_nil, by simp,
    by simp, ?_, ?_⟩, rfl, rfl, rfl, ?_, ?_⟩
  · intro address timer hheap
    cases hheap
  · intro sequence
    rfl
  · intro sequence
    rw [liveOf_none (Finset.notMem_empty _) fun hmem => absurd hmem List.not_mem_nil]
  · exact ⟨List.Pairwise.nil, List.nodup_nil, by simp⟩
  · intro entry hentry
    exact absurd hentry (Finset.notMem_empty entry)

end Runs

/-! ## What was asked for -/

section Asked

variable {queue : TimerQueue} {schedule asked : Schedule}

/-- A schedule differs from the one asked for in timers that were cancelled before they were
added. -/
structure Agrees (schedule asked : Schedule) : Prop where
  live : asked.live = schedule.live
  due : asked.due = schedule.due
  created : asked.created = schedule.created
  posted : ∀ sequence, asked.posted sequence = schedule.posted sequence ∨
    asked.posted sequence = none

/-- They agree as long as no such timer is added. -/
theorem Agrees.next (hagrees : Agrees schedule asked) {event : Event}
    (hasked : asked.AddsAsked event) : Agrees (schedule.next event) (asked.asked event) := by
  obtain ⟨hlive, hdue, hcreated, hposted⟩ := hagrees
  cases event with
  | create address expiration interval repeats =>
      refine ⟨hlive, hdue, congrArg (· + 1) hcreated, fun other => ?_⟩
      simp only [Schedule.asked, Schedule.next, Function.update_apply, hcreated]
      split_ifs
      · exact Or.inl rfl
      · exact hposted other
  | add sequence now =>
      have hsame : asked.posted sequence = schedule.posted sequence := by
        refine (hposted sequence).resolve_right fun hnone => ?_
        rw [Schedule.AddsAsked, hnone] at hasked
        cases hasked
      refine ⟨?_, hdue, hcreated, fun other => ?_⟩
      · simp only [Schedule.asked, Schedule.next, hlive, hsame]
      · simp only [Schedule.asked, Schedule.next, Function.update_apply]
        split_ifs
        · exact Or.inl rfl
        · exact hposted other
  | cancel sequence =>
      refine ⟨?_, hdue, hcreated, fun other => ?_⟩
      · simp only [Schedule.asked, Schedule.next, hlive]
      · simp only [Schedule.asked, Schedule.next, Function.update_apply]
        split_ifs
        · exact Or.inr rfl
        · exact hposted other
  | handleRead now =>
      refine ⟨?_, ?_, hcreated, hposted⟩
      · simp only [Schedule.asked, Schedule.next, hlive]
      · simp only [Schedule.asked, Schedule.next, hlive]
  | run | finish => exact ⟨hlive, hdue, hcreated, hposted⟩

theorem Agrees.consistent (hagrees : Agrees schedule asked)
    (hconsistent : Consistent queue schedule) : Consistent queue asked := by
  obtain ⟨htimers, hactive, hdistinct, hran, harmed⟩ := hconsistent
  rw [← hagrees.live] at htimers hactive hdistinct
  rw [← hagrees.due] at hran
  exact ⟨htimers, hactive, hdistinct, hran, harmed⟩

theorem Invariant.refines_asked {events : List Event} (hinvariant : queue.Invariant schedule)
    (hagrees : Agrees schedule asked) (hallowed : Meets step Allowed queue events)
    (hasked : Meets (fun asked event => (.ret (asked.asked event) : Exec TimerFault Schedule))
      Schedule.AddsAsked asked events) :
    Refines step Schedule.asked Consistent queue asked events := by
  induction events generalizing queue schedule asked with
  | nil => exact refines_nil_iff.mpr (hagrees.consistent hinvariant.consistent)
  | cons event events ih =>
      obtain ⟨hevent, hlater⟩ := hallowed
      obtain ⟨hadds, hrest⟩ := hasked
      obtain ⟨after, hstep, hafter⟩ := step_spec hinvariant event hevent
      rw [refines_cons_iff hstep]
      exact ⟨hagrees.consistent hinvariant.consistent,
        ih hafter (hagrees.next hadds) (hlater after hstep) (hrest _ rfl)⟩

end Asked

/-- Whatever timers are created, added and cancelled, by callbacks too, no assertion fails
and no timer is used after it was deleted; and whenever no `handleRead` is in progress the
queue has the timers that were asked for, as long as none is added that was cancelled
before. -/
theorem consistent_of_asked (events : List Event) (hallowed : Meets step Allowed {} events)
    (hasked : Meets (fun asked event => (.ret (asked.asked event) : Exec TimerFault Schedule))
      Schedule.AddsAsked {} events) :
    Refines step Schedule.asked Consistent {} {} events :=
  initial_invariant.refines_asked ⟨rfl, rfl, rfl, fun _ => Or.inl rfl⟩ hallowed hasked

/-- Two timers are due at once.  The callback of the first, which repeats, adds a third and
cancels itself. -/
def someEvents : List Event :=
  [.create 160 ⟨500, by decide⟩ 200 true, .add 1 ⟨10, by decide⟩,
    .create 96 ⟨600, by decide⟩ 0 false, .add 2 ⟨20, by decide⟩,
    .handleRead ⟨700, by decide⟩, .run,
    .create 224 ⟨900, by decide⟩ 0 false, .add 3 ⟨710, by decide⟩, .cancel 1,
    .run, .finish ⟨720, by decide⟩]

theorem someEvents_consistent : Refines step Schedule.asked Consistent {} {} someEvents :=
  consistent_of_asked someEvents (by decide) (by decide)

/-- A timer is cancelled in the loop while its `addTimerInLoop` is still queued. -/
def cancelledEarly : List Event :=
  [.create 160 ⟨500, by decide⟩ 0 false, .cancel 1, .add 1 ⟨10, by decide⟩]

/-- The timer that was cancelled is added, and will expire. -/
theorem cancelledEarly_inconsistent : Meets step Allowed {} cancelledEarly ∧
    ¬ Refines step Schedule.asked Consistent {} {} cancelledEarly := by
  refine ⟨by decide, fun hrefines => ?_⟩
  obtain ⟨queue, hrun, hconsistent⟩ := hrefines cancelledEarly List.prefix_rfl
  cases hrun
  obtain ⟨sequence, timer, hlive, -⟩ :=
    (hconsistent.timers rfl (toLex (500, 160))).mp (by decide)
  have hnone : (cancelledEarly.foldl Schedule.asked {}).live sequence = none := by
    simp [cancelledEarly, Schedule.asked, Schedule.next]
  cases hnone.symm.trans hlive

end TimerQueue

end Cuber.Timers
