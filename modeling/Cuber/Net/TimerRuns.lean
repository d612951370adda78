import Cuber.Net.TimerConsistency

/-!
# When a timer runs

The queue follows its schedule step by step; here it is followed over a whole
run.  The `handleRead`s that run the callback of one timer are those at whose
start the schedule makes it due, so a timer is never early, one that does not
repeat runs once at most, one that repeats leaves its interval between two of
them, and one that was cancelled is run at most by the one that was in progress.
-/

namespace Cuber.Timers

open Cuber.Execution
open Cuber.Runs

/-! ## The schedule -/

namespace Schedule

def dueAt (schedule : Schedule) (sequence : ℕ) : Event → List ℕ
  | .handleRead now =>
      if (schedule.live sequence).any (fun timer => timer.expiration ≤ now.val) then [now.val]
      else []
  | _ => []

def times (sequence : ℕ) : Schedule → List Event → List ℕ
  | _, [] => []
  | schedule, event :: events =>
      schedule.dueAt sequence event ++ times sequence (schedule.next event) events

/-- The timer was created, and is to be added, or is to expire, or neither. -/
structure Holds (schedule : Schedule) (sequence : ℕ) (posted live : Option Timer) : Prop where
  created : sequence ≤ schedule.created
  posted : schedule.posted sequence = posted
  live : schedule.live sequence = live

section Times

variable {schedule : Schedule} {sequence : ℕ} {timer : Timer} {posted live : Option Timer}

def creations (events : List Event) : ℕ :=
  events.countP fun event =>
    match event with
    | .create _ _ _ _ => true
    | _ => false

theorem creations_cons (event : Event) (events : List Event) :
    creations (event :: events) = creations [event] + creations events := by
  rw [creations, creations, creations, List.countP_cons, List.countP_singleton, Nat.add_comm]

theorem created_next (schedule : Schedule) (event : Event) :
    (schedule.next event).created = schedule.created + creations [event] := by
  cases event <;> rfl

theorem created_foldl (schedule : Schedule) (events : List Event) :
    (events.foldl next schedule).created = schedule.created + creations events := by
  induction events generalizing schedule with
  | nil => rfl
  | cons event events ih =>
      rw [List.foldl_cons, ih, created_next, creations_cons event events, Nat.add_assoc]

theorem times_append (sequence : ℕ) (schedule : Schedule) (before after : List Event) :
    times sequence schedule (before ++ after) =
      times sequence schedule before ++ times sequence (before.foldl next schedule) after := by
  induction before generalizing schedule with
  | nil => rfl
  | cons event before ih =>
      rw [List.cons_append, times, times, ih, List.foldl_cons, List.append_assoc]

/-- What an event makes of a timer, and the times at which it makes it due. -/
inductive Fate (posted live : Option Timer) : List ℕ → Option Timer → Option Timer → Prop where
  | kept : Fate posted live [] posted live
  | added : Fate posted live [] none posted
  | cancelled : Fate posted live [] posted none
  | due (now : ℕ) (timer : Timer) (hlive : live = some timer) (hdue : timer.expiration ≤ now) :
      Fate posted live [now] posted (timer.again now)

/-- What becomes of a timer in one step. -/
theorem Holds.next (hholds : schedule.Holds sequence posted live) (event : Event) :
    ∃ posted' live', Fate posted live (schedule.dueAt sequence event) posted' live' ∧
      (schedule.next event).Holds sequence posted' live' := by
  obtain ⟨hcreated, hposted, hlive⟩ := hholds
  cases event with
  | create address expiration interval repeats =>
      have hother : sequence ≠ schedule.created + 1 := Nat.ne_of_lt (Nat.lt_succ_of_le hcreated)
      refine ⟨posted, live, Fate.kept, Nat.le_succ_of_le hcreated, ?_, hlive⟩
      exact (Function.update_of_ne hother _ _).trans hposted
  | add other now =>
      by_cases hsame : sequence = other
      · subst hsame
        refine ⟨none, posted, Fate.added, hcreated, Function.update_self .., ?_⟩
        exact (Function.update_self ..).trans hposted
      · refine ⟨posted, live, Fate.kept, hcreated, ?_, ?_⟩
        · exact (Function.update_of_ne hsame _ _).trans hposted
        · exact (Function.update_of_ne hsame _ _).trans hlive
  | cancel other =>
      by_cases hsame : sequence = other
      · subst hsame
        exact ⟨posted, none, Fate.cancelled, hcreated, hposted, Function.update_self ..⟩
      · exact ⟨posted, live, Fate.kept, hcreated, hposted,
          (Function.update_of_ne hsame _ _).trans hlive⟩
  | handleRead now =>
      rw [dueAt, hlive]
      cases live with
      | none =>
          refine ⟨posted, none, Fate.kept, hcreated, hposted, ?_⟩
          change (schedule.live sequence).bind _ = none
          rw [hlive, Option.bind_none]
      | some timer =>
          have hnext : (schedule.next (.handleRead now)).live sequence =
              if timer.expiration ≤ now then timer.again now else some timer := by
            change (schedule.live sequence).bind _ = _
            rw [hlive, Option.bind_some]
          by_cases hdue : timer.expiration ≤ now.val
          · rw [if_pos hdue] at hnext
            rw [Option.any_some, decide_eq_true hdue, if_pos rfl]
            exact ⟨posted, _, Fate.due now timer rfl hdue, hcreated, hposted, hnext⟩
          · rw [if_neg hdue] at hnext
            rw [Option.any_some, decide_eq_false hdue, if_neg Bool.false_ne_true]
            exact ⟨posted, _, Fate.kept, hcreated, hposted, hnext⟩
  | run | finish => exact ⟨posted, live, Fate.kept, hcreated, hposted, hlive⟩

/-- A timer that is neither to be added nor to expire is not heard of again. -/
theorem times_of_gone (hholds : schedule.Holds sequence none none) (events : List Event) :
    times sequence schedule events = [] := by
  induction events generalizing schedule with
  | nil => rfl
  | cons event events ih =>
      obtain ⟨posted', live', hfate, hnext⟩ := hholds.next event
      rw [times]
      generalize schedule.dueAt sequence event = due at hfate
      cases hfate with
      | kept | added | cancelled => exact ih hnext
      | due now timer hlive => cases hlive

/-- Nothing is known of a timer that is yet to be created. -/
theorem times_of_uncreated (hlive : schedule.live sequence = none)
    (hposted : schedule.posted sequence = none) (events : List Event)
    (hcreated : schedule.created + creations events < sequence) :
    times sequence schedule events = [] ∧
      (events.foldl next schedule).live sequence = none ∧
        (events.foldl next schedule).posted sequence = none := by
  induction events generalizing schedule with
  | nil => exact ⟨rfl, hlive, hposted⟩
  | cons event events ih =>
      rw [creations_cons, ← Nat.add_assoc, ← created_next] at hcreated
      have hnever : schedule.dueAt sequence event = [] := by
        cases event with
        | handleRead now => simp [dueAt, hlive]
        | create | add | cancel | run | finish => rfl
      have hnext : (schedule.next event).live sequence = none ∧
          (schedule.next event).posted sequence = none := by
        cases event with
        | create address expiration interval repeats =>
            have hother : sequence ≠ schedule.created + 1 :=
              Nat.ne_of_gt ((Nat.le_add_right _ _).trans_lt hcreated)
            exact ⟨hlive, (Function.update_of_ne hother _ _).trans hposted⟩
        | add other now =>
            simp only [next, Function.update_apply]
            split_ifs with hsame
            · rw [← hsame]
              exact ⟨hposted, rfl⟩
            · exact ⟨hlive, hposted⟩
        | cancel other =>
            simp only [next, Function.update_apply]
            split_ifs
            · exact ⟨rfl, hposted⟩
            · exact ⟨hlive, hposted⟩
        | handleRead now => simp [next, hlive, hposted]
        | run | finish => exact ⟨hlive, hposted⟩
      obtain ⟨htimes, hrest⟩ := ih hnext.1 hnext.2 hcreated
      rw [times, hnever, htimes]
      exact ⟨rfl, hrest⟩

/-- Never before its expiration, then with its interval in between, and once if it does not
repeat. -/
structure Punctual (timer : Timer) (times : List ℕ) : Prop where
  late : ∀ time ∈ times, timer.expiration ≤ time
  apart : times.Pairwise fun earlier later => earlier + timer.interval ≤ later
  once : timer.repeats = false → times.length ≤ 1

theorem punctual_nil (timer : Timer) : Punctual timer [] :=
  ⟨fun _ htime => absurd htime List.not_mem_nil, List.Pairwise.nil, fun _ => Nat.zero_le 1⟩

theorem Punctual.left {first second : List ℕ} (hpunctual : Punctual timer (first ++ second)) :
    Punctual timer first where
  late := fun time htime => hpunctual.late time (List.mem_append_left _ htime)
  apart := (List.pairwise_append.mp hpunctual.apart).1
  once := by
    intro hrepeats
    have honce := hpunctual.once hrepeats
    rw [List.length_append] at honce
    exact (Nat.le_add_right _ _).trans honce

/-- After a first time come those of the restarted timer. -/
theorem Punctual.cons {now : ℕ} {rest : List ℕ} (hrest : Punctual (timer.restart now) rest)
    (hdue : timer.expiration ≤ now) (hrepeats : timer.repeats = true) :
    Punctual timer (now :: rest) := by
  have hexpiration : (timer.restart now).expiration = now + timer.interval := if_pos hrepeats
  have hlater : ∀ time ∈ rest, now + timer.interval ≤ time := by
    intro time htime
    rw [← hexpiration]
    exact hrest.late time htime
  refine ⟨fun time htime => ?_, List.pairwise_cons.mpr ⟨hlater, hrest.apart⟩, fun hnot => ?_⟩
  · rcases List.mem_cons.mp htime with rfl | htime
    · exact hdue
    · exact hdue.trans ((Nat.le_add_right _ _).trans (hlater time htime))
  · rw [hrepeats] at hnot
    cases hnot

/-- A timer that is to expire is punctual from then on. -/
theorem punctual_of_live (hholds : schedule.Holds sequence none (some timer))
    (events : List Event) : Punctual timer (times sequence schedule events) := by
  induction events generalizing schedule timer with
  | nil => exact punctual_nil timer
  | cons event events ih =>
      obtain ⟨posted', live', hfate, hnext⟩ := hholds.next event
      rw [times]
      generalize schedule.dueAt sequence event = due at hfate
      cases hfate with
      | kept => exact ih hnext
      | added | cancelled =>
          rw [List.nil_append, times_of_gone hnext]
          exact punctual_nil timer
      | due now found hlive hdue =>
          cases hlive
          cases hrepeats : timer.repeats with
          | true =>
              rw [Timer.again, if_pos hrepeats] at hnext
              exact (ih hnext).cons hdue hrepeats
          | false =>
              rw [Timer.again, if_neg (by simp [hrepeats])] at hnext
              rw [times_of_gone hnext, List.append_nil]
              exact ⟨fun time htime => (List.mem_singleton.mp htime) ▸ hdue,
                List.pairwise_singleton _ _, fun _ => le_rfl⟩

theorem punctual_of_posted (hholds : schedule.Holds sequence (some timer) none)
    (events : List Event) : Punctual timer (times sequence schedule events) := by
  induction events generalizing schedule with
  | nil => exact punctual_nil timer
  | cons event events ih =>
      obtain ⟨posted', live', hfate, hnext⟩ := hholds.next event
      rw [times]
      generalize schedule.dueAt sequence event = due at hfate
      cases hfate with
      | kept | cancelled => exact ih hnext
      | added => exact punctual_of_live hnext events
      | due now found hlive => cases hlive

end Times

end Schedule

/-! ## The queue -/

namespace TimerQueue

/-- The time of the `handleRead` that runs the callback of a timer in a step. -/
def runAt (queue : TimerQueue) (sequence : ℕ) : Event → List ℕ
  | .run =>
      match queue.waiting with
      | [] => []
      | entry :: _ => if queue.numberAt entry = sequence then queue.reading.toList else []
  | _ => []

/-- The times of the `handleRead` calls that run the callback of a timer. -/
def firings (sequence : ℕ) : TimerQueue → List Event → List ℕ
  | _, [] => []
  | queue, event :: events =>
      queue.runAt sequence event ++
        match queue.step event with
        | .ret after => firings sequence after events
        | _ => []

/-- What the `handleRead` in progress has still to run of a timer. -/
def owed (queue : TimerQueue) (sequence : ℕ) : List ℕ :=
  if sequence ∈ queue.waiting.map queue.numberAt then queue.reading.toList else []

section Firings

variable {queue after : TimerQueue} {schedule : Schedule} {sequence now : ℕ}
  {queued : Finset ℕ} {batch rest : List ℕ}

theorem numbers_of_entries (hmemory : ∀ sequence ∈ rest, queue.InMemory sequence) :
    (rest.map queue.entryOf).map queue.numberAt = rest := by
  rw [List.map_map]
  calc
    rest.map (queue.numberAt ∘ queue.entryOf) = rest.map id :=
      List.map_congr_left fun sequence hmem => numberAt_entryOf (hmemory sequence hmem)
    _ = rest := List.map_id rest

theorem owed_of_done (hwaiting : queue.waiting = []) (sequence : ℕ) :
    queue.owed sequence = [] := by
  rw [owed, hwaiting]
  rfl

/-- The actions of a callback do not change what is owed. -/
theorem owed_of_frame (hstored : queue.Stored schedule now queued batch)
    (hcalling : queue.Calling schedule now batch) (hframe : queue.Frame after batch)
    (hmemory : ∀ sequence ∈ batch, after.InMemory sequence) (sequence : ℕ) :
    after.owed sequence = queue.owed sequence := by
  obtain ⟨before, rest, hbatch, -, hwaiting⟩ := hcalling.order
  have hpart : ∀ sequence ∈ rest, sequence ∈ batch :=
    fun sequence hmem => hbatch ▸ List.mem_append_right _ hmem
  have hqueue : queue.waiting.map queue.numberAt = rest := by
    rw [hwaiting]
    exact numbers_of_entries fun sequence hmem => hstored.batchInMemory sequence (hpart _ hmem)
  have hafter : after.waiting.map after.numberAt = rest := by
    have hentries : rest.map queue.entryOf = rest.map after.entryOf :=
      List.map_congr_left fun sequence hmem => (hframe.entries sequence (hpart _ hmem)).symm
    rw [hframe.waiting, hwaiting, hentries]
    exact numbers_of_entries fun sequence hmem => hmemory sequence (hpart _ hmem)
  rw [owed, owed, hqueue, hafter, hframe.reading]

/-- What `handleRead` takes out is what the schedule makes due. -/
theorem owed_of_handleRead (hstored : queue.Stored schedule now queued []) (time : Time)
    (sequence : ℕ) :
    (queue.took queued time).owed sequence = schedule.dueAt sequence (.handleRead time) := by
  obtain ⟨-, hafter⟩ := hstored.handleRead time
  have hnumbers : (queue.took queued time).waiting.map (queue.took queued time).numberAt =
      queue.dueTimers time := numbers_of_entries hafter.batchInMemory
  have hexact := (ranDue_dueTimers hstored time).exact
  have hmem : sequence ∈ queue.dueTimers time ↔
      (schedule.live sequence).any (fun timer => timer.expiration ≤ time.val) = true := by
    rw [Option.any_eq_true]
    constructor
    · intro hmem
      obtain ⟨timer, hdue, -⟩ := (hexact _ sequence).mp
        (List.mem_map_of_mem hmem : queue.stamp sequence ∈ (queue.dueTimers time).map queue.stamp)
      obtain ⟨hlive, hsoon⟩ := Option.filter_eq_some_iff.mp hdue
      exact ⟨timer, hlive, hsoon⟩
    · rintro ⟨timer, hlive, hsoon⟩
      have hdue : (schedule.next (.handleRead time)).due sequence = some timer :=
        Option.filter_eq_some_iff.mpr ⟨hlive, hsoon⟩
      obtain ⟨other, hother, hstamp⟩ := List.mem_map.mp
        ((hexact timer.expiration sequence).mpr ⟨timer, hdue, rfl⟩)
      have hsame : other = sequence := congrArg Prod.snd hstamp
      rw [← hsame]
      exact hother
  rw [owed, hnumbers, Schedule.dueAt]
  exact if_congr hmem rfl rfl

/-- Running a callback pays what is owed. -/
theorem owed_of_run (hstored : queue.Stored schedule now queued batch)
    (hcalling : queue.Calling schedule now batch) (hrun : queue.run = .ret after)
    (hwaiting : queue.waiting ≠ []) (sequence : ℕ) :
    queue.runAt sequence .run ++ after.owed sequence = queue.owed sequence := by
  obtain ⟨before, rest, hbatch, -, hrest⟩ := hcalling.order
  have hpart : ∀ sequence ∈ rest, queue.InMemory sequence :=
    fun sequence hmem => hstored.batchInMemory sequence (hbatch ▸ List.mem_append_right _ hmem)
  have hnumbers : queue.waiting.map queue.numberAt = rest := by
    rw [hrest]
    exact numbers_of_entries hpart
  cases rest with
  | nil => exact absurd hrest hwaiting
  | cons first rest =>
      rw [run, hrest, List.map_cons] at hrun
      obtain ⟨timer, -, hret⟩ := Exec.bind_eq_ret_iff.mp hrun
      cases hret
      have hrestNumbers : (rest.map queue.entryOf).map queue.numberAt = rest :=
        numbers_of_entries fun sequence hmem => hpart sequence (List.mem_cons_of_mem _ hmem)
      have hfirst : queue.numberAt (queue.entryOf first) = first :=
        numberAt_entryOf (hpart first List.mem_cons_self)
      have hafter : ∀ ran, ({ queue with
          waiting := rest.map queue.entryOf, ran := ran } : TimerQueue).owed sequence =
            if sequence ∈ rest then queue.reading.toList else [] := by
        intro ran
        change (if sequence ∈ (rest.map queue.entryOf).map queue.numberAt then _ else _) = _
        rw [hrestNumbers]
      rw [hafter, runAt, hrest, List.map_cons, owed, hnumbers]
      dsimp only
      rw [hfirst]
      -- a timer is in the batch once
      have hnodup : first ∉ rest := by
        have hsuffix : (first :: rest).Nodup := by
          have hwhole := hstored.nodup
          rw [hbatch] at hwhole
          exact (List.nodup_append.mp hwhole).2.1
        exact (List.nodup_cons.mp hsuffix).1
      by_cases hsame : first = sequence
      · subst hsame
        simp [hnodup]
      · simp [hsame, Ne.symm hsame]

/-- Outside `handleRead` nothing is owed, and a `handleRead` owes what is due. -/
theorem owed_of_idle (hstored : queue.Stored schedule now queued [])
    (hidle : queue.Idle schedule) {event : Event} (hallowed : queue.Allowed event)
    (hstep : queue.step event = .ret after) (sequence : ℕ) :
    queue.runAt sequence event ++ after.owed sequence =
      queue.owed sequence ++ schedule.dueAt sequence event := by
  rw [owed_of_done hidle.waiting, List.nil_append]
  cases event with
  | create address expiration interval repeats =>
      cases hstep
      exact @owed_of_done (queue.create address _) hidle.waiting sequence
  | add added armingTime =>
      obtain ⟨other, hadd, -, hframe, -⟩ := hstored.add hallowed armingTime
      cases hstep.symm.trans hadd
      exact owed_of_done (hframe.waiting.trans hidle.waiting) sequence
  | cancel cancelled =>
      obtain ⟨other, queued', hcancel, -, hframe, -⟩ := hstored.cancel (fun _ => rfl) cancelled
      cases hstep.symm.trans hcancel
      exact owed_of_done (hframe.waiting.trans hidle.waiting) sequence
  | handleRead time =>
      obtain ⟨hread, -⟩ := hstored.handleRead time
      cases hstep.symm.trans hread
      exact owed_of_handleRead hstored time sequence
  | run => exact absurd hidle.waiting hallowed
  | finish armingTime => exact absurd hidle.reading hallowed.1

/-- While timers are run nothing becomes due, and what is run was owed. -/
theorem owed_of_calling (hstored : queue.Stored schedule now queued batch)
    (hcalling : queue.Calling schedule now batch) {event : Event}
    (hallowed : queue.Allowed event) (hstep : queue.step event = .ret after) (sequence : ℕ) :
    queue.runAt sequence event ++ after.owed sequence =
      queue.owed sequence ++ schedule.dueAt sequence event := by
  have hnever : schedule.dueAt sequence event = [] := by
    cases event with
    | handleRead time =>
        rw [Allowed, hcalling.reading] at hallowed
        cases hallowed
    | create | add | cancel | run | finish => rfl
  rw [hnever, List.append_nil]
  cases event with
  | create address expiration interval repeats =>
      have hcreated := @Stored.create _ _ _ _ _ _ hstored hallowed.1 hallowed.2 expiration
        interval repeats
      cases hstep
      have hframe : queue.Frame (queue.create address
          { expiration, interval, repeats, sequence := queue.numCreated + 1 }) batch := by
        refine ⟨rfl, rfl, rfl, rfl, rfl, fun other hmem => ?_⟩
        obtain ⟨hpointer, hheap⟩ := @create_frame queue other address
          { expiration, interval, repeats, sequence := queue.numCreated + 1 } hstored.memory
          hallowed.1 rfl (hstored.batchInMemory other hmem)
        rw [entryOf, expirationOf, hpointer, hheap]
        rfl
      exact owed_of_frame hstored hcalling hframe hcreated.batchInMemory sequence
  | add added armingTime =>
      obtain ⟨other, hadd, hafter, hframe, -⟩ := hstored.add hallowed armingTime
      cases hstep.symm.trans hadd
      exact owed_of_frame hstored hcalling hframe hafter.batchInMemory sequence
  | cancel cancelled =>
      obtain ⟨other, queued', hcancel, hafter, hframe, -⟩ :=
        hstored.cancel (fun hfalse => by simp [hcalling.calling] at hfalse) cancelled
      cases hstep.symm.trans hcancel
      exact owed_of_frame hstored hcalling hframe hafter.batchInMemory sequence
  | handleRead time =>
      rw [Allowed, hcalling.reading] at hallowed
      cases hallowed
  | run =>
      exact owed_of_run hstored hcalling hstep hallowed sequence
  | finish armingTime =>
      obtain ⟨other, queued', hfinish, -, hidle⟩ :=
        finish_spec hstored hcalling hallowed.2 armingTime
      cases hstep.symm.trans hfinish
      rw [owed_of_done hidle.waiting, owed_of_done hallowed.2]
      rfl

/-- What a step runs, and what is then owed, was owed or has become due. -/
theorem step_owed (hinvariant : queue.Invariant schedule) (event : Event)
    (hallowed : queue.Allowed event) :
    ∃ after, queue.step event = .ret after ∧ after.Invariant (schedule.next event) ∧
      ∀ sequence, queue.runAt sequence event ++ after.owed sequence =
        queue.owed sequence ++ schedule.dueAt sequence event := by
  obtain ⟨after, hstep, hafter⟩ := step_spec hinvariant event hallowed
  refine ⟨after, hstep, hafter, fun sequence => ?_⟩
  rcases hinvariant with ⟨now, queued, hstored, hidle⟩ | ⟨now, queued, batch, hstored, hcalling⟩
  · exact owed_of_idle hstored hidle hallowed hstep sequence
  · exact owed_of_calling hstored hcalling hallowed hstep sequence

/-- Over a run, the callbacks that were run and those that are still owed are those that the
schedule made due, and those that were owed before. -/
theorem firings_append_owed {events : List Event} (hinvariant : queue.Invariant schedule)
    (hallowed : Meets step Allowed queue events) :
    ∃ after, runFrom step queue events = .ret after ∧
      after.Invariant (events.foldl Schedule.next schedule) ∧
        ∀ sequence, firings sequence queue events ++ after.owed sequence =
          queue.owed sequence ++ Schedule.times sequence schedule events := by
  induction events generalizing queue schedule with
  | nil => exact ⟨queue, rfl, hinvariant, fun sequence => (List.append_nil _).symm⟩
  | cons event events ih =>
      obtain ⟨hevent, hlater⟩ := hallowed
      obtain ⟨middle, hstep, hmiddle, hsame⟩ := step_owed hinvariant event hevent
      obtain ⟨after, hrun, hafter, hrest⟩ := ih hmiddle (hlater middle hstep)
      refine ⟨after, runFrom_cons_eq_ret_iff.mpr ⟨middle, hstep, hrun⟩, hafter,
        fun sequence => ?_⟩
      rw [firings, hstep, Schedule.times]
      calc
        (queue.runAt sequence event ++ firings sequence middle events) ++ after.owed sequence =
            (queue.runAt sequence event ++ middle.owed sequence) ++
              Schedule.times sequence (schedule.next event) events := by
          rw [List.append_assoc, hrest, List.append_assoc]
        _ = queue.owed sequence ++ (schedule.dueAt sequence event ++
              Schedule.times sequence (schedule.next event) events) := by
          rw [hsame, List.append_assoc]

/-- The calls in two parts of a run. -/
theorem firings_append {before later : List Event} {sequence : ℕ}
    (hrun : runFrom step queue before = .ret after) :
    firings sequence queue (before ++ later) =
      firings sequence queue before ++ firings sequence after later := by
  induction before generalizing queue with
  | nil =>
      cases hrun
      rfl
  | cons event before ih =>
      obtain ⟨middle, hstep, hrest⟩ := runFrom_cons_eq_ret_iff.mp hrun
      rw [List.cons_append, firings, firings, hstep]
      dsimp only
      rw [ih hrest, List.append_assoc]

end Firings

/-- In every run, no `handleRead` that starts before the expiration of a timer runs its callback,
an interval lies between the starts of any two that do, and the callback of a timer that does
not repeat is run once at most. -/
theorem punctual_of_run (before later : List Event) (address : ℕ) (expiration : Time)
    (interval : ℕ) (repeats : Bool)
    (hallowed : Meets step Allowed {}
      (before ++ .create address expiration interval repeats :: later)) :
    let fired := firings (Schedule.creations before + 1) {}
      (before ++ .create address expiration interval repeats :: later)
    (∀ time ∈ fired, expiration.val ≤ time) ∧
      fired.Pairwise (fun earlier later => earlier + interval ≤ later) ∧
        (repeats = false → fired.length ≤ 1) := by
  intro fired
  obtain ⟨after, -, -, hfired⟩ := firings_append_owed initial_invariant hallowed
  have htimes := hfired (Schedule.creations before + 1)
  have hnone : ({} : TimerQueue).owed (Schedule.creations before + 1) = [] := rfl
  rw [hnone, List.nil_append, Schedule.times_append] at htimes
  obtain ⟨hbefore, hlive, hposted⟩ := @Schedule.times_of_uncreated {}
    (Schedule.creations before + 1) rfl rfl before (by
      rw [Nat.zero_add]
      exact Nat.lt_succ_self _)
  have hcreated : (before.foldl Schedule.next {}).created = Schedule.creations before := by
    rw [Schedule.created_foldl, Nat.zero_add]
  have hholds : ((before.foldl Schedule.next {}).next
      (.create address expiration interval repeats)).Holds (Schedule.creations before + 1)
        (some ⟨expiration, interval, repeats, Schedule.creations before + 1⟩) none := by
    refine ⟨?_, ?_, hlive⟩
    · change _ ≤ (before.foldl Schedule.next {}).created + 1
      rw [hcreated]
    · change Function.update _ ((before.foldl Schedule.next {}).created + 1) _ _ = _
      rw [hcreated, Function.update_self]
  have hpunctual := Schedule.punctual_of_posted hholds later
  have hnever : (before.foldl Schedule.next {}).dueAt (Schedule.creations before + 1)
      (.create address expiration interval repeats) = [] := rfl
  rw [hbefore, List.nil_append, Schedule.times, hnever, List.nil_append] at htimes
  rw [← htimes] at hpunctual
  exact ⟨hpunctual.left.late, hpunctual.left.apart, hpunctual.left.once⟩

/-- Once a timer that was added is cancelled, its callback is run no more, except by the
`handleRead` in progress if it took the timer out before. -/
theorem cancelled_of_run (before later : List Event) (sequence : ℕ)
    (hallowed : Meets step Allowed {} (before ++ .cancel sequence :: later))
    (queue : TimerQueue) (hrun : runFrom step {} before = .ret queue)
    (hcreated : sequence ≤ queue.numCreated) (hadded : sequence ∉ queue.posted) :
    let fired := firings sequence {} (before ++ .cancel sequence :: later)
    fired = firings sequence {} before ∨
      fired = firings sequence {} before ++ queue.owed sequence := by
  intro fired
  obtain ⟨hbefore, hlater⟩ := meets_of_append hallowed
  obtain ⟨queue', hrun', hinvariant, -⟩ := firings_append_owed initial_invariant hbefore
  cases hrun.symm.trans hrun'
  have hholds : ((before.foldl Schedule.next {}).next (.cancel sequence)).Holds sequence
      none none := by
    have hstored : ∃ now queued batch,
        queue.Stored (before.foldl Schedule.next {}) now queued batch := by
      rcases hinvariant with ⟨now, queued, hstored, -⟩ | ⟨now, queued, batch, hstored, -⟩
      · exact ⟨now, queued, [], hstored⟩
      · exact ⟨now, queued, batch, hstored⟩
    obtain ⟨now, queued, batch, hstored⟩ := hstored
    refine ⟨hstored.created.symm ▸ hcreated, ?_, Function.update_self ..⟩
    exact (hstored.posted sequence).trans (if_neg hadded)
  obtain ⟨after, -, -, hfired⟩ := firings_append_owed hinvariant (hlater queue hrun)
  have htimes := hfired sequence
  have hnever : (before.foldl Schedule.next {}).dueAt sequence (.cancel sequence) = [] := rfl
  rw [Schedule.times, hnever, List.nil_append, Schedule.times_of_gone hholds,
    List.append_nil] at htimes
  have hwhole : fired = firings sequence {} before ++
      firings sequence queue (.cancel sequence :: later) := firings_append hrun
  have hshort : (queue.owed sequence).length ≤ 1 := by
    rw [owed]
    split_ifs
    · cases queue.reading <;> simp
    · exact Nat.zero_le 1
  rw [hwhole]
  generalize firings sequence queue (.cancel sequence :: later) = rest at htimes
  cases rest with
  | nil => exact Or.inl (List.append_nil _)
  | cons time rest =>
      -- at most one call is owed, and it was made
      rw [← htimes, List.cons_append, List.length_cons, List.length_append] at hshort
      have hrest : rest = [] := List.eq_nil_of_length_eq_zero (by omega)
      have howed : after.owed sequence = [] := List.eq_nil_of_length_eq_zero (by omega)
      rw [howed, List.append_nil] at htimes
      exact Or.inr (by rw [htimes])

/-- The first timer of `someEvents` repeats, and is cancelled by its own callback. -/
theorem someEvents_punctual :
    let fired := firings 1 {} someEvents
    (∀ time ∈ fired, 500 ≤ time) ∧
      fired.Pairwise (fun earlier later => earlier + 200 ≤ later) ∧
        (true = false → fired.length ≤ 1) :=
  punctual_of_run [] someEvents.tail 160 ⟨500, by decide⟩ 200 true (by decide)

/-- The queue when the callback of the first timer is about to cancel it. -/
def queueAtCancel : TimerQueue :=
  match runFrom step {} (someEvents.take 8) with
  | .ret queue => queue
  | _ => {}

theorem someEvents_cancelled :
    let fired := firings 1 {} (someEvents.take 8 ++ .cancel 1 :: someEvents.drop 9)
    fired = firings 1 {} (someEvents.take 8) ∨
      fired = firings 1 {} (someEvents.take 8) ++ queueAtCancel.owed 1 :=
  cancelled_of_run (someEvents.take 8) (someEvents.drop 9) 1 (by decide) queueAtCancel rfl
    (by decide) (by decide)

end TimerQueue

end Cuber.Timers
