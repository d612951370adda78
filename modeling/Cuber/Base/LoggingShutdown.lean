import Cuber.Base.AsyncLogging

/-!
# Shutdown of the logging

`AsyncLogging::stop` clears a flag, wakes the logging thread up and waits for
it to return.  The thread tests the flag between two iterations only, and an
iteration writes what it found when it took the buffers.

Lines that were appended since then are written if there is another iteration.
Whether there is one depends on where the thread is when the flag is cleared.
-/

namespace Cuber.Logging

open Cuber.Execution
open Cuber.LogStreams
open Cuber.Runs
open Cuber.Text

inductive Stage where
  /-- About to test `running_`. -/
  | tests
  | iterates
  | returned
  deriving DecidableEq

/-- The object and its thread, as `start` leaves them. -/
structure Shutdown where
  logging : AsyncLogging := {}
  running : Bool := true
  stage : Stage := .tests
  deriving DecidableEq

namespace Shutdown

/-- A step of `threadFunc`.  An iteration ends where the next one would begin. -/
def work (shutdown : Shutdown) (now : Bytes) : Exec LoggingFault Shutdown :=
  match shutdown.stage with
  | .tests =>
      .ret { shutdown with stage := if shutdown.running then .iterates else .returned }
  | .iterates =>
      (shutdown.logging.work now).bind fun logging =>
        .ret { shutdown with
          logging
          stage := if logging.phase = .collects then .tests else .iterates }
  | .returned => .ret shutdown

def step (shutdown : Shutdown) : Event → Exec LoggingFault Shutdown
  | .append line =>
      (shutdown.logging.append line).bind fun logging => .ret { shutdown with logging }
  | .work now => shutdown.work now

/-- `AsyncLogging::stop`, up to the wait for the thread to return. -/
def stop (shutdown : Shutdown) : Shutdown := { shutdown with running := false }

/-! ## What the logging thread has taken -/

/-- What was written, followed by what is left of the buffers being written. -/
def taken (logging : AsyncLogging) : Bytes :=
  logging.output ++ contents (logging.buffersToWrite.drop logging.phase.written)

/-- What the next iteration would find. -/
def waiting (logging : AsyncLogging) : Bytes :=
  contents logging.buffers ++ contents logging.currentBuffer.toList

/-- The thread has tested the flag and not taken the buffers yet, as when it waits for
its condition. -/
def Collects (shutdown : Shutdown) : Prop :=
  shutdown.stage = .iterates ∧ shutdown.logging.phase = .collects

/-- Another iteration will take the buffers, or they hold nothing. -/
def TakesAll (shutdown : Shutdown) : Prop :=
  shutdown.Collects ∨ waiting shutdown.logging = []

instance (shutdown : Shutdown) : Decidable shutdown.Collects :=
  inferInstanceAs (Decidable (_ ∧ _))

instance (shutdown : Shutdown) : Decidable shutdown.TakesAll :=
  inferInstanceAs (Decidable (_ ∨ _))

structure Invariant (shutdown : Shutdown) : Prop where
  logging : AsyncLogging.Invariant shutdown.logging
  /-- The thread leaves an iteration at its end only. -/
  between : shutdown.stage ≠ .iterates → shutdown.logging.phase = .collects

section Steps

variable {logging : AsyncLogging} {shutdown : Shutdown}

theorem log_eq (logging : AsyncLogging) : logging.log = taken logging ++ waiting logging :=
  List.append_assoc _ _ _

/-- Between two iterations everything taken was written. -/
theorem taken_eq_output (hinvariant : AsyncLogging.Invariant logging)
    (hphase : logging.phase = .collects) : taken logging = logging.output := by
  have hspares := hinvariant.spares
  rw [AsyncLogging.HasSpares, if_pos hphase] at hspares
  rw [taken, hspares.2.2, List.drop_nil]
  exact List.append_nil _

/-- The producers do not interfere with what was taken. -/
theorem append_frame {after : AsyncLogging} {line : LogLine}
    (happend : logging.append line = .ret after) :
    taken after = taken logging ∧ after.phase = logging.phase := by
  rw [AsyncLogging.append] at happend
  cases hcurrent : logging.currentBuffer with
  | none =>
      rw [hcurrent] at happend
      cases happend
  | some current =>
      rw [hcurrent] at happend
      dsimp only at happend
      split_ifs at happend
      · cases happend
        exact ⟨rfl, rfl⟩
      · cases happend
        exact ⟨rfl, rfl⟩

/-- The critical section takes the whole log. -/
theorem collect_frame {after : AsyncLogging} (hinvariant : AsyncLogging.Invariant logging)
    (hphase : logging.phase = .collects) (hcollect : logging.collect = .ret after) :
    taken after = logging.log ∧ after.phase = .checks := by
  obtain ⟨other, hother, _, hlog, _⟩ := AsyncLogging.collect_spec hinvariant hphase
  rw [hcollect] at hother
  cases hother
  have hspares := hinvariant.spares
  rw [AsyncLogging.HasSpares, if_pos hphase] at hspares
  obtain ⟨hfirst, hsecond, hnone⟩ := hspares
  obtain ⟨current, hcurrent⟩ := Option.ne_none_iff_exists'.mp hinvariant.current
  simp only [AsyncLogging.collect, hfirst, hsecond, hcurrent, hnone, FixedBuffer.data_new,
    and_self, if_true] at hcollect
  cases hcollect
  refine ⟨?_, rfl⟩
  rw [← hlog, log_eq]
  simp [waiting, contents, FixedBuffer.data_new]

/-- After the critical section an iteration writes what was taken and touches nothing
else. -/
theorem work_frame {after : AsyncLogging} {now : Bytes}
    (hphase : logging.phase ≠ .collects) (hwork : logging.work now = .ret after) :
    waiting after = waiting logging := by
  rw [AsyncLogging.work] at hwork
  cases hat : logging.phase with
  | collects => exact absurd hat hphase
  | checks =>
      rw [hat] at hwork
      dsimp only [AsyncLogging.check] at hwork
      split_ifs at hwork
      · cases hwork
        rfl
      · cases hwork
        rfl
  | writes written =>
      rw [hat] at hwork
      dsimp only at hwork
      cases hbuffer : logging.buffersToWrite[written]? with
      | some buffer =>
          rw [hbuffer] at hwork
          cases hwork
          rfl
      | none =>
          rw [hbuffer] at hwork
          obtain ⟨first, _, hrest⟩ := Exec.bind_eq_ret_iff.mp hwork
          obtain ⟨second, _, hlast⟩ := Exec.bind_eq_ret_iff.mp hrest
          cases hlast
          rfl

/-- A step of `threadFunc` loses no line unless buffers were dropped. -/
theorem work_spec (hinvariant : Invariant shutdown) (now : Bytes) :
    ∃ after, shutdown.work now = .ret after ∧ Invariant after ∧
      after.running = shutdown.running ∧
      (after.logging.dropped = false → shutdown.logging.dropped = false ∧
        after.logging.log = shutdown.logging.log) := by
  rw [work]
  cases hstage : shutdown.stage with
  | tests =>
      refine ⟨_, rfl, ⟨hinvariant.logging, fun _ => ?_⟩, rfl, fun hnone => ⟨hnone, rfl⟩⟩
      exact hinvariant.between (by simp [hstage])
  | returned =>
      exact ⟨shutdown, rfl, hinvariant, rfl, fun hnone => ⟨hnone, rfl⟩⟩
  | iterates =>
      obtain ⟨logging, hwork, hlogging, hlog⟩ :=
        AsyncLogging.work_spec hinvariant.logging now
      simp only [hwork, Exec.ret_bind]
      refine ⟨_, rfl, ⟨hlogging, fun hends => ?_⟩, rfl, hlog⟩
      by_contra hphase
      apply hends
      exact if_neg hphase

/-- A step adds to the log what its event brings, and does not stop the thread. -/
theorem step_spec (hinvariant : Invariant shutdown) (event : Event) :
    ∃ after, shutdown.step event = .ret after ∧ Invariant after ∧
      after.running = shutdown.running ∧
      (after.logging.dropped = false → shutdown.logging.dropped = false ∧
        after.logging.log = shutdown.logging.log ++ event.bytes) := by
  cases event with
  | append line =>
      obtain ⟨logging, happend, hlogging, hlog, hdropped⟩ :=
        AsyncLogging.append_spec hinvariant.logging line
      refine ⟨{ shutdown with logging }, ?_, ⟨hlogging, fun hends => ?_⟩, rfl, fun hnone => ?_⟩
      · rw [step, happend, Exec.ret_bind]
      · exact (append_frame happend).2.trans (hinvariant.between hends)
      · exact ⟨hdropped.symm.trans hnone, hlog⟩
  | work now =>
      rw [Event.bytes, List.append_nil]
      exact work_spec hinvariant now

/-- A run without `stop` keeps the log complete unless buffers were dropped. -/
theorem run_spec (hinvariant : Invariant shutdown) (events : List Event) :
    ∃ after, runFrom step shutdown events = .ret after ∧ Invariant after ∧
      after.running = shutdown.running ∧
      (after.logging.dropped = false → shutdown.logging.dropped = false ∧
        after.logging.log = shutdown.logging.log ++ events.flatMap Event.bytes) := by
  induction events generalizing shutdown with
  | nil =>
      exact ⟨shutdown, rfl, hinvariant, rfl, fun hnone => ⟨hnone, (List.append_nil _).symm⟩⟩
  | cons event events ih =>
      obtain ⟨middle, hstep, hmiddle, hflag, hevent⟩ := step_spec hinvariant event
      obtain ⟨after, hrest, hafter, hrunning, hevents⟩ := ih hmiddle
      refine ⟨after, runFrom_cons_eq_ret_iff.mpr ⟨middle, hstep, hrest⟩, hafter,
        hrunning.trans hflag, fun hnone => ?_⟩
      obtain ⟨hkept, hlater⟩ := hevents hnone
      obtain ⟨hbefore, hfirst⟩ := hevent hkept
      rw [List.flatMap_cons, ← List.append_assoc, ← hfirst]
      exact ⟨hbefore, hlater⟩

/-- Without another iteration nothing more is taken. -/
theorem step_of_not_collects {after : Shutdown} (hinvariant : Invariant shutdown)
    (hstopped : shutdown.running = false) (hnot : ¬ shutdown.Collects)
    {event : Event} (hstep : shutdown.step event = .ret after)
    (hkept : after.logging.dropped = false) :
    ¬ after.Collects ∧ taken after.logging = taken shutdown.logging := by
  obtain ⟨other, hother, hafter, _, hlog⟩ := step_spec hinvariant event
  cases hstep.symm.trans hother
  cases event with
  | append line =>
      rw [step] at hstep
      obtain ⟨logging, happend, hret⟩ := Exec.bind_eq_ret_iff.mp hstep
      cases hret
      obtain ⟨htaken, hphase⟩ := append_frame happend
      refine ⟨?_, htaken⟩
      rintro ⟨hstage, hcollects⟩
      exact hnot ⟨hstage, hphase.symm.trans hcollects⟩
  | work now =>
      rw [step, work] at hstep
      cases hstage : shutdown.stage with
      | tests =>
          rw [hstage, hstopped] at hstep
          cases hstep
          exact ⟨fun hcollects => by simp [Collects] at hcollects, rfl⟩
      | returned =>
          rw [hstage] at hstep
          cases hstep
          exact ⟨hnot, rfl⟩
      | iterates =>
          rw [hstage] at hstep
          obtain ⟨logging, hwork, hret⟩ := Exec.bind_eq_ret_iff.mp hstep
          cases hret
          have hphase : shutdown.logging.phase ≠ .collects :=
            fun hcollects => hnot ⟨hstage, hcollects⟩
          have hwaiting := work_frame hphase hwork
          have hsame := (hlog hkept).2
          rw [Event.bytes, List.append_nil] at hsame
          refine ⟨?_, ?_⟩
          · rintro ⟨hiterates, hcollects⟩
            rw [if_pos hcollects] at hiterates
            cases hiterates
          · apply List.append_cancel_right
            calc
              taken logging ++ waiting logging = logging.log := (log_eq logging).symm
              _ = shutdown.logging.log := hsame
              _ = taken shutdown.logging ++ waiting shutdown.logging := log_eq _
              _ = taken shutdown.logging ++ waiting logging := by rw [hwaiting]

/-- Before the buffers are taken, lines only wait in them; then all of the log is taken. -/
theorem step_of_collects {after : Shutdown} (hinvariant : Invariant shutdown)
    (hcollects : shutdown.Collects) {event : Event}
    (hstep : shutdown.step event = .ret after) :
    after.Collects ∨ ¬ after.Collects ∧ taken after.logging = shutdown.logging.log := by
  obtain ⟨hstage, hphase⟩ := hcollects
  cases event with
  | append line =>
      rw [step] at hstep
      obtain ⟨logging, happend, hret⟩ := Exec.bind_eq_ret_iff.mp hstep
      cases hret
      exact Or.inl ⟨hstage, (append_frame happend).2.trans hphase⟩
  | work now =>
      rw [step, work, hstage] at hstep
      obtain ⟨logging, hwork, hret⟩ := Exec.bind_eq_ret_iff.mp hstep
      cases hret
      rw [AsyncLogging.work, hphase] at hwork
      obtain ⟨htaken, hchecks⟩ := collect_frame hinvariant.logging hphase hwork
      refine Or.inr ⟨?_, htaken⟩
      rintro ⟨_, hagain⟩
      cases hchecks.symm.trans hagain

end Steps

/-! ## After the flag is cleared -/

section Stopped

variable {shutdown final : Shutdown} {events : List Event}

/-- A stopped thread that does not go round again takes no further line. -/
theorem run_of_not_collects (hinvariant : Invariant shutdown)
    (hstopped : shutdown.running = false) (hnot : ¬ shutdown.Collects)
    (hrun : runFrom step shutdown events = .ret final)
    (hkept : final.logging.dropped = false) :
    taken final.logging = taken shutdown.logging := by
  induction events generalizing shutdown with
  | nil =>
      cases hrun
      rfl
  | cons event events ih =>
      obtain ⟨middle, hstep, hrest⟩ := runFrom_cons_eq_ret_iff.mp hrun
      obtain ⟨other, hother, hmiddle, hflag, _⟩ := step_spec hinvariant event
      cases hstep.symm.trans hother
      obtain ⟨last, hlast, _, _, hlater⟩ := run_spec hmiddle events
      cases hrest.symm.trans hlast
      have hdropped := (hlater hkept).1
      obtain ⟨hstill, htaken⟩ := step_of_not_collects hinvariant hstopped hnot hstep hdropped
      exact (ih hmiddle (hflag.trans hstopped) hstill hrest).trans htaken

/-- The iteration that is under way takes every line that is in the log already. -/
theorem run_of_collects (hinvariant : Invariant shutdown)
    (hstopped : shutdown.running = false) (hcollects : shutdown.Collects)
    (hrun : runFrom step shutdown events = .ret final)
    (hkept : final.logging.dropped = false) :
    final.Collects ∨ shutdown.logging.log <+: taken final.logging := by
  induction events generalizing shutdown with
  | nil =>
      cases hrun
      exact Or.inl hcollects
  | cons event events ih =>
      obtain ⟨middle, hstep, hrest⟩ := runFrom_cons_eq_ret_iff.mp hrun
      obtain ⟨other, hother, hmiddle, hflag, hevent⟩ := step_spec hinvariant event
      cases hstep.symm.trans hother
      obtain ⟨last, hlast, _, _, hlater⟩ := run_spec hmiddle events
      cases hrest.symm.trans hlast
      have hdropped := (hlater hkept).1
      have hlog : shutdown.logging.log <+: middle.logging.log :=
        ⟨event.bytes, (hevent hdropped).2.symm⟩
      have hrunning := hflag.trans hstopped
      rcases step_of_collects hinvariant hcollects hstep with hstill | ⟨hnot, htaken⟩
      · rcases ih hmiddle hrunning hstill hrest with hwaits | htakes
        · exact Or.inl hwaits
        · exact Or.inr (hlog.trans htakes)
      · apply Or.inr
        rw [run_of_not_collects hmiddle hrunning hnot hrest hkept, htaken]

end Stopped

/-! ## The thread returns -/

/-- A bound for the steps that the thread takes before it returns. -/
def remaining (shutdown : Shutdown) : ℕ :=
  match shutdown.stage with
  | .returned => 0
  | .tests => 1
  | .iterates =>
      match shutdown.logging.phase with
      | .collects => shutdown.logging.buffers.length + 5
      | .checks => shutdown.logging.buffersToWrite.length + 3
      | .writes written => shutdown.logging.buffersToWrite.length - written + 2

section Returns

variable {shutdown after : Shutdown} {now : Bytes}

/-- Every step of a stopped thread brings it closer to its return. -/
theorem remaining_work_lt (hinvariant : Invariant shutdown) (hstopped : shutdown.running = false)
    (hstage : shutdown.stage ≠ .returned) (hwork : shutdown.work now = .ret after) :
    after.remaining < shutdown.remaining := by
  rw [work] at hwork
  cases hat : shutdown.stage with
  | returned => exact absurd hat hstage
  | tests =>
      rw [hat, hstopped] at hwork
      cases hwork
      simp [remaining, hat]
  | iterates =>
      rw [hat] at hwork
      obtain ⟨logging, hstep, hret⟩ := Exec.bind_eq_ret_iff.mp hwork
      cases hret
      rw [AsyncLogging.work] at hstep
      cases hphase : shutdown.logging.phase with
      | collects =>
          rw [hphase] at hstep
          obtain ⟨current, hcurrent⟩ := Option.ne_none_iff_exists'.mp hinvariant.logging.current
          have hspares := hinvariant.logging.spares
          rw [AsyncLogging.HasSpares, if_pos hphase] at hspares
          obtain ⟨hfirst, hsecond, hnone⟩ := hspares
          simp only [AsyncLogging.collect, hfirst, hsecond, hcurrent, hnone,
            FixedBuffer.data_new, and_self, if_true] at hstep
          cases hstep
          simp [remaining, hat, hphase]
      | checks =>
          rw [hphase] at hstep
          dsimp only [AsyncLogging.check] at hstep
          split_ifs at hstep with hnone hmany
          · cases hstep
            simp only [remaining, hat, hphase, reduceCtorEq, if_false, List.length_take]
            omega
          · cases hstep
            simp only [remaining, hat, hphase, reduceCtorEq, if_false]
            omega
      | writes written =>
          rw [hphase] at hstep
          dsimp only at hstep
          cases hbuffer : shutdown.logging.buffersToWrite[written]? with
          | some buffer =>
              rw [hbuffer] at hstep
              cases hstep
              have hlt := (List.getElem?_eq_some_iff.mp hbuffer).1
              simp only [remaining, hat, hphase, reduceCtorEq, if_false]
              omega
          | none =>
              rw [hbuffer] at hstep
              obtain ⟨first, _, hrest⟩ := Exec.bind_eq_ret_iff.mp hstep
              obtain ⟨second, _, hlast⟩ := Exec.bind_eq_ret_iff.mp hrest
              cases hlast
              simp [remaining, hat, hphase]

/-- The wait in `stop` ends when the thread has taken as many steps. -/
theorem returned_of_work (hinvariant : Invariant shutdown) (hstopped : shutdown.running = false)
    {steps : ℕ} (henough : shutdown.remaining ≤ steps) :
    ∃ final, runFrom step shutdown (List.replicate steps (.work now)) = .ret final ∧
      final.stage = .returned := by
  induction steps generalizing shutdown with
  | zero =>
      refine ⟨shutdown, rfl, ?_⟩
      by_contra hstage
      obtain ⟨next, hnext, _⟩ := work_spec hinvariant now
      have hlt := remaining_work_lt hinvariant hstopped hstage hnext
      omega
  | succ steps ih =>
      obtain ⟨next, hnext, hinv, hflag, _⟩ := work_spec hinvariant now
      have hless : next.remaining ≤ steps := by
        by_cases hstage : shutdown.stage = .returned
        · rw [work, hstage] at hnext
          cases hnext
          rw [remaining, hstage]
          exact Nat.zero_le steps
        · have hlt := remaining_work_lt hinvariant hstopped hstage hnext
          omega
      obtain ⟨final, hrun, hfinal⟩ := ih hinv (hflag.trans hstopped) hless
      exact ⟨final, runFrom_cons_eq_ret_iff.mpr ⟨next, hnext, hrun⟩, hfinal⟩

end Returns

theorem initial_invariant : Invariant {} where
  logging := AsyncLogging.initial_invariant
  between := fun _ => rfl

/-- Whatever the producers and the logging thread do before and after the flag is cleared,
no assertion fails, and once the thread has returned the file has every line that was
appended before if and only if the thread was yet to take the buffers, or found nothing
in them. -/
theorem written_iff_takesAll (before after : List Event) :
    ∃ shutdown final, runFrom step {} before = .ret shutdown ∧
      runFrom step shutdown.stop after = .ret final ∧
      (final.stage = .returned → final.logging.dropped = false →
        (before.flatMap Event.bytes <+: final.logging.output ↔ shutdown.TakesAll)) := by
  obtain ⟨shutdown, hbefore, hinvariant, _, hlog⟩ := run_spec initial_invariant before
  have hstop : Invariant shutdown.stop := ⟨hinvariant.logging, hinvariant.between⟩
  obtain ⟨final, hafter, hfinal, _, hlater⟩ := run_spec hstop after
  refine ⟨shutdown, final, hbefore, hafter, fun hreturned hkept => ?_⟩
  have hlines : shutdown.logging.log = before.flatMap Event.bytes :=
    (hlog (hlater hkept).1).2
  have houtput : taken final.logging = final.logging.output := by
    apply taken_eq_output hfinal.logging
    exact hfinal.between (by simp [hreturned])
  rw [← hlines, ← houtput]
  by_cases hcollects : shutdown.Collects
  · apply iff_of_true ?_ (Or.inl hcollects)
    rcases run_of_collects hstop rfl hcollects hafter hkept with ⟨hiterates, _⟩ | htakes
    · cases hreturned.symm.trans hiterates
    · exact htakes
  · have htaken : taken final.logging = taken shutdown.stop.logging :=
      run_of_not_collects hstop rfl hcollects hafter hkept
    change taken final.logging = taken shutdown.logging at htaken
    rw [htaken, log_eq, TakesAll, or_iff_right hcollects]
    constructor
    · intro hbegins
      have hlength := hbegins.length_le
      rw [List.length_append] at hlength
      exact List.length_eq_zero_iff.mp (by omega)
    · intro hnone
      rw [hnone, List.append_nil]

/-- A line that comes while the thread is in the middle of an iteration. -/
def lateLine : List Event :=
  [.work [], .work [], .append { bytes := ascii "GET / 200\n", short := by decide }]

/-- The thread checks what it took, writes the one buffer, gets its spare buffers back and
tests the flag. -/
def lastIteration : List Event := [.work [], .work [], .work [], .work []]

/-- The late line is never written. -/
theorem lateLine_not_written :
    ∃ shutdown final, runFrom step {} lateLine = .ret shutdown ∧
      runFrom step shutdown.stop lastIteration = .ret final ∧
      final.stage = .returned ∧ final.logging.dropped = false ∧
      ¬ lateLine.flatMap Event.bytes <+: final.logging.output := by
  have hreturns : ((runFrom step {} lateLine).bind fun shutdown =>
      runFrom step shutdown.stop lastIteration).returns (fun final =>
        final.stage = .returned ∧ final.logging.dropped = false ∧
          ¬ lateLine.flatMap Event.bytes <+: final.logging.output) = true := by
    decide
  obtain ⟨final, hrun, hfinal⟩ := Exec.exists_of_returns hreturns
  obtain ⟨shutdown, hbefore, hafter⟩ := Exec.bind_eq_ret_iff.mp hrun
  exact ⟨shutdown, final, hbefore, hafter, of_decide_eq_true hfinal⟩

end Shutdown

end Cuber.Logging
