import Cuber.Base.LogStream
import Cuber.Core.Runs

/-!
# Asynchronous logging

The threads of the server append lines to the current buffer, under a mutex, and
a full buffer is put in a row.  The logging thread takes the row in exchange for
a spare buffer, writes it to the file and keeps two of its buffers as spares.

A run is any interleaving of calls of `append` with the steps of the logging
thread, which are its critical section, what it does about too long a row, the
buffers that it writes one after the other, and the refill of its spare buffers.
-/

namespace Cuber.Logging

open Cuber.Execution
open Cuber.LogStreams
open Cuber.Runs
open Cuber.Text

inductive LoggingFault where
  | assertionFailed
  | nullBuffer
  deriving DecidableEq

abbrev Buffer := FixedBuffer kLargeBuffer

/-- `none` is a null pointer. -/
abbrev BufferPtr := Option Buffer

/-- A line that fits an empty buffer. -/
structure LogLine where
  bytes : Bytes
  short : bytes.length < kLargeBuffer

inductive Phase where
  | collects
  | checks
  /-- `written` of the buffers have been written. -/
  | writes (written : ℕ)
  deriving DecidableEq

structure AsyncLogging where
  currentBuffer : BufferPtr := some .new
  nextBuffer : BufferPtr := some .new
  buffers : List Buffer := []
  newBuffer1 : BufferPtr := some .new
  newBuffer2 : BufferPtr := some .new
  buffersToWrite : List Buffer := []
  phase : Phase := .collects
  /-- What was written to the `LogFile`. -/
  output : Bytes := []
  /-- The logging thread has found more than 25 buffers. -/
  dropped : Bool := false
  deriving DecidableEq

inductive Event where
  | append (line : LogLine)
  /-- A step of the logging thread, with the time that it may print. -/
  | work (now : Bytes)

def dropMessage (now : Bytes) (count : ℕ) : Bytes :=
  cStr (snprintf 256 (ascii "Dropped log messages at " ++ now ++ ascii ", " ++
    decimalText count ++ ascii " larger buffers\n"))

/-- A spare buffer is replaced by the last of the buffers that were written. -/
def refill (newBuffer : BufferPtr) (buffersToWrite : List Buffer) :
    Exec LoggingFault (BufferPtr × List Buffer) :=
  match newBuffer with
  | some buffer => .ret (some buffer, buffersToWrite)
  | none =>
      match buffersToWrite.getLast? with
      | some buffer => .ret (some buffer.reset, buffersToWrite.dropLast)
      | none => .fault .assertionFailed

namespace AsyncLogging

/-- `AsyncLogging::append`. -/
def append (logging : AsyncLogging) (line : LogLine) : Exec LoggingFault AsyncLogging :=
  match logging.currentBuffer with
  | none => .fault .nullBuffer
  | some current =>
      if current.avail > line.bytes.length then
        .ret { logging with currentBuffer := some (current.append line.bytes) }
      else
        .ret { logging with
          buffers := logging.buffers ++ [current]
          currentBuffer := some ((logging.nextBuffer.getD .new).append line.bytes)
          nextBuffer := none }

/-- The critical section of `threadFunc` with the assertions before it. -/
def collect (logging : AsyncLogging) : Exec LoggingFault AsyncLogging :=
  match logging.newBuffer1, logging.newBuffer2, logging.currentBuffer with
  | some newBuffer1, some newBuffer2, some current =>
      if newBuffer1.data = [] ∧ newBuffer2.data = [] ∧ logging.buffersToWrite = [] then
        .ret { logging with
          buffers := logging.buffersToWrite
          buffersToWrite := logging.buffers ++ [current]
          currentBuffer := some newBuffer1
          newBuffer1 := none
          nextBuffer := some (logging.nextBuffer.getD newBuffer2)
          newBuffer2 := if logging.nextBuffer = none then none else some newBuffer2
          phase := .checks }
      else .fault .assertionFailed
  | some _, some _, none => .fault .nullBuffer
  | _, _, _ => .fault .assertionFailed

/-- All buffers but two are dropped where there are too many. -/
def check (logging : AsyncLogging) (now : Bytes) : Exec LoggingFault AsyncLogging :=
  if logging.buffersToWrite = [] then .fault .assertionFailed
  else if logging.buffersToWrite.length > 25 then
    .ret { logging with
      output := logging.output ++ dropMessage now (logging.buffersToWrite.length - 2)
      buffersToWrite := logging.buffersToWrite.take 2
      phase := .writes 0
      dropped := true }
  else .ret { logging with phase := .writes 0 }

def finish (logging : AsyncLogging) : Exec LoggingFault AsyncLogging :=
  let kept :=
    if logging.buffersToWrite.length > 2 then logging.buffersToWrite.take 2
    else logging.buffersToWrite
  (refill logging.newBuffer1 kept).bind fun (newBuffer1, kept) =>
    (refill logging.newBuffer2 kept).bind fun (newBuffer2, _) =>
      .ret { logging with newBuffer1, newBuffer2, buffersToWrite := [], phase := .collects }

/-- What `threadFunc` does until it is interrupted. -/
def work (logging : AsyncLogging) (now : Bytes) : Exec LoggingFault AsyncLogging :=
  match logging.phase with
  | .collects => logging.collect
  | .checks => logging.check now
  | .writes written =>
      match logging.buffersToWrite[written]? with
      | some buffer =>
          .ret { logging with
            output := logging.output ++ buffer.data
            phase := .writes (written + 1) }
      | none => logging.finish

def step (logging : AsyncLogging) : Event → Exec LoggingFault AsyncLogging
  | .append line => logging.append line
  | .work now => logging.work now

end AsyncLogging

/-! ## What a step preserves -/

def contents (buffers : List Buffer) : Bytes := buffers.flatMap FixedBuffer.data

/-- The buffers of `buffersToWrite` that were written. -/
def Phase.written : Phase → ℕ
  | .collects | .checks => 0
  | .writes written => written

namespace AsyncLogging

def log (logging : AsyncLogging) : Bytes :=
  logging.output ++ contents (logging.buffersToWrite.drop logging.phase.written) ++
    contents logging.buffers ++ contents logging.currentBuffer.toList

/-- The spare buffers of the logging thread are there at the start of an iteration, and can
be had from the buffers it writes at the end. -/
def HasSpares (logging : AsyncLogging) : Prop :=
  if logging.phase = .collects then
    logging.newBuffer1 = some .new ∧ logging.newBuffer2 = some .new ∧
      logging.buffersToWrite = []
  else
    logging.newBuffer1 = none ∧ logging.buffersToWrite ≠ [] ∧
      (logging.newBuffer2 = some .new ∨
        logging.newBuffer2 = none ∧ 2 ≤ logging.buffersToWrite.length)

structure Invariant (logging : AsyncLogging) : Prop where
  current : logging.currentBuffer ≠ none
  /-- A line that needed the second buffer of the producers has left one in the row. -/
  next : logging.nextBuffer = some .new ∨ logging.nextBuffer = none ∧ logging.buffers ≠ []
  spares : logging.HasSpares

section Steps

variable {logging : AsyncLogging}

theorem contents_append (front back : List Buffer) :
    contents (front ++ back) = contents front ++ contents back :=
  List.flatMap_append

theorem contents_singleton (buffer : Buffer) : contents [buffer] = buffer.data :=
  List.append_nil buffer.data

/-- A line goes to the end of the log. -/
theorem append_spec (hinvariant : Invariant logging) (line : LogLine) :
    ∃ after, logging.append line = .ret after ∧ Invariant after ∧
      after.log = logging.log ++ line.bytes ∧ after.dropped = logging.dropped := by
  obtain ⟨current, hcurrent⟩ := Option.ne_none_iff_exists'.mp hinvariant.current
  simp only [append, hcurrent]
  split_ifs with hroom
  · refine ⟨_, rfl, ⟨by simp, hinvariant.next, hinvariant.spares⟩, ?_, rfl⟩
    simp only [log, hcurrent, Option.toList_some, contents_singleton,
      FixedBuffer.data_append_of_lt hroom, List.append_assoc]
  · have hfresh : logging.nextBuffer.getD .new = .new := by
      rcases hinvariant.next with hnext | ⟨hnext, _⟩
      · rw [hnext, Option.getD_some]
      · rw [hnext, Option.getD_none]
    have hline : ((logging.nextBuffer.getD .new).append line.bytes).data = line.bytes := by
      rw [hfresh, FixedBuffer.data_append_of_lt line.short, FixedBuffer.data_new,
        List.nil_append]
    refine ⟨_, rfl, ⟨by simp, Or.inr ⟨rfl, by simp⟩, hinvariant.spares⟩, ?_, rfl⟩
    simp only [log, hcurrent, Option.toList_some, contents_append, contents_singleton, hline,
      List.append_assoc]

/-- The row and the current buffer change hands. -/
theorem collect_spec (hinvariant : Invariant logging) (hphase : logging.phase = .collects) :
    ∃ after, logging.collect = .ret after ∧ Invariant after ∧ after.log = logging.log ∧
      after.dropped = logging.dropped := by
  obtain ⟨current, hcurrent⟩ := Option.ne_none_iff_exists'.mp hinvariant.current
  have hspares := hinvariant.spares
  rw [HasSpares, if_pos hphase] at hspares
  obtain ⟨hfirst, hsecond, hwritten⟩ := hspares
  simp only [collect, hfirst, hsecond, hcurrent, hwritten, FixedBuffer.data_new, and_self,
    if_true]
  refine ⟨_, rfl, ⟨by simp, Or.inl ?_, ?_⟩, ?_, rfl⟩
  · rcases hinvariant.next with hnext | ⟨hnext, _⟩
    · rw [hnext, Option.getD_some]
    · rw [hnext, Option.getD_none]
  · refine ⟨rfl, by simp, ?_⟩
    rcases hinvariant.next with hnext | ⟨hnext, hbuffers⟩
    · left
      simp [hnext]
    · right
      refine ⟨by simp [hnext], ?_⟩
      have hpos := List.length_pos_iff.mpr hbuffers
      simp only [List.length_append, List.length_singleton]
      omega
  · simp [log, hcurrent, hwritten, hphase, Phase.written, contents]

/-- The look at the number of buffers keeps the log, or has it on record that some were
dropped. -/
theorem check_spec (hinvariant : Invariant logging) (hphase : logging.phase = .checks)
    (now : Bytes) :
    ∃ after, logging.check now = .ret after ∧ Invariant after ∧
      (after.dropped = false → after.log = logging.log) ∧
      (logging.dropped = true → after.dropped = true) := by
  have hspares := hinvariant.spares
  rw [HasSpares, if_neg (by simp [hphase])] at hspares
  obtain ⟨hfirst, hbuffers, hsecond⟩ := hspares
  rw [check, if_neg hbuffers]
  split_ifs with hmany
  · have hlength : (logging.buffersToWrite.take 2).length = 2 := by
      rw [List.length_take]
      omega
    refine ⟨_, rfl, ⟨hinvariant.current, hinvariant.next, hfirst, ?_, ?_⟩, by simp, by simp⟩
    · exact List.ne_nil_of_length_pos (by simp [hlength])
    · rcases hsecond with hsecond | ⟨hsecond, _⟩
      · exact Or.inl hsecond
      · exact Or.inr ⟨hsecond, hlength.ge⟩
  · refine ⟨_, rfl, ⟨hinvariant.current, hinvariant.next, hfirst, hbuffers, hsecond⟩, ?_, id⟩
    intro _
    simp [log, hphase, Phase.written]

/-- One buffer goes to the file. -/
theorem write_spec (hinvariant : Invariant logging) {written : ℕ}
    (hphase : logging.phase = .writes written) {buffer : Buffer}
    (hbuffer : logging.buffersToWrite[written]? = some buffer) :
    Invariant { logging with
      output := logging.output ++ buffer.data, phase := .writes (written + 1) } ∧
      ({ logging with
        output := logging.output ++ buffer.data
        phase := .writes (written + 1) } : AsyncLogging).log = logging.log := by
  have hspares := hinvariant.spares
  rw [HasSpares, if_neg (by simp [hphase])] at hspares
  refine ⟨⟨hinvariant.current, hinvariant.next, hspares⟩, ?_⟩
  have hnext : contents (logging.buffersToWrite.drop written) =
      buffer.data ++ contents (logging.buffersToWrite.drop (written + 1)) := by
    rw [List.drop_eq_getElem?_toList_append, hbuffer, Option.toList_some, contents_append,
      contents_singleton]
  simp only [log, hphase, Phase.written, hnext, List.append_assoc]

theorem refill_none {buffers : List Buffer} (hbuffers : buffers ≠ []) :
    refill none buffers = .ret (some .new, buffers.dropLast) := by
  rw [refill, List.getLast?_eq_some_getLast hbuffers]
  rfl

/-- The buffers that were written make up for those given away. -/
theorem finish_spec (hinvariant : Invariant logging) {written : ℕ}
    (hphase : logging.phase = .writes written)
    (hall : logging.buffersToWrite[written]? = none) :
    ∃ after, logging.finish = .ret after ∧ Invariant after ∧ after.log = logging.log ∧
      after.dropped = logging.dropped := by
  have hspares := hinvariant.spares
  rw [HasSpares, if_neg (by simp [hphase])] at hspares
  obtain ⟨hfirst, hbuffers, hsecond⟩ := hspares
  have hpos := List.length_pos_iff.mpr hbuffers
  obtain ⟨kept, hkept⟩ : ∃ kept, kept = (if logging.buffersToWrite.length > 2 then
      logging.buffersToWrite.take 2 else logging.buffersToWrite) := ⟨_, rfl⟩
  have hlength : kept.length = min logging.buffersToWrite.length 2 := by
    rw [hkept]
    split_ifs with hmany
    · rw [List.length_take, Nat.min_comm]
    · omega
  have hne : kept ≠ [] := List.ne_nil_of_length_pos (by omega)
  have hrefill : refill logging.newBuffer2 kept.dropLast =
      .ret (some .new, if logging.newBuffer2 = none then kept.dropLast.dropLast
        else kept.dropLast) := by
    rcases hsecond with hsecond | ⟨hsecond, htwo⟩
    · rw [hsecond, if_neg (by simp)]
      rfl
    · have hmore : kept.dropLast ≠ [] := by
        apply List.ne_nil_of_length_pos
        rw [List.length_dropLast]
        omega
      rw [hsecond, refill_none hmore, if_pos rfl]
  have hfinish : logging.finish = .ret { logging with
      newBuffer1 := some .new, newBuffer2 := some .new, buffersToWrite := []
      phase := .collects } := by
    simp only [finish, ← hkept, hfirst, refill_none hne, Exec.ret_bind, hrefill]
  refine ⟨_, hfinish, ⟨hinvariant.current, hinvariant.next, rfl, rfl, rfl⟩, ?_, rfl⟩
  have hdone : logging.buffersToWrite.drop written = [] :=
    List.drop_eq_nil_iff.mpr (List.getElem?_eq_none_iff.mp hall)
  simp only [log, hphase, Phase.written, hdone, List.drop_nil]

/-- A step of the logging thread moves lines on, and loses none unless buffers were dropped. -/
theorem work_spec (hinvariant : Invariant logging) (now : Bytes) :
    ∃ after, logging.work now = .ret after ∧ Invariant after ∧
      (after.dropped = false → logging.dropped = false ∧ after.log = logging.log) := by
  cases hphase : logging.phase with
  | collects =>
      obtain ⟨after, hcollect, hafter, hlog, hdropped⟩ := collect_spec hinvariant hphase
      refine ⟨after, ?_, hafter, fun hnone => ⟨hdropped.symm.trans hnone, hlog⟩⟩
      simpa only [work, hphase] using hcollect
  | checks =>
      obtain ⟨after, hcheck, hafter, hlog, hdropped⟩ := check_spec hinvariant hphase now
      refine ⟨after, ?_, hafter, fun hnone => ⟨?_, hlog hnone⟩⟩
      · simpa only [work, hphase] using hcheck
      · by_contra hsome
        rw [hdropped (by simpa using hsome)] at hnone
        cases hnone
  | writes written =>
      cases hbuffer : logging.buffersToWrite[written]? with
      | some buffer =>
          obtain ⟨hafter, hlog⟩ := write_spec hinvariant hphase hbuffer
          refine ⟨_, ?_, hafter, fun hnone => ⟨hnone, hlog⟩⟩
          simp only [work, hphase, hbuffer]
      | none =>
          obtain ⟨after, hfinish, hafter, hlog, hdropped⟩ :=
            finish_spec hinvariant hphase hbuffer
          refine ⟨after, ?_, hafter, fun hnone => ⟨hdropped.symm.trans hnone, hlog⟩⟩
          simpa only [work, hphase, hbuffer] using hfinish

end Steps

theorem initial_invariant : Invariant {} where
  current := by simp
  next := Or.inl rfl
  spares := ⟨rfl, rfl, rfl⟩

end AsyncLogging

/-! ## Runs -/

def Event.bytes : Event → Bytes
  | .append line => line.bytes
  | .work _ => []

namespace AsyncLogging

/-- A step adds to the log what its event brings. -/
theorem step_spec {logging : AsyncLogging} (hinvariant : Invariant logging) (event : Event) :
    ∃ after, logging.step event = .ret after ∧ Invariant after ∧
      (after.dropped = false →
        logging.dropped = false ∧ after.log = logging.log ++ event.bytes) := by
  cases event with
  | append line =>
      obtain ⟨after, happend, hafter, hlog, hdropped⟩ := append_spec hinvariant line
      exact ⟨after, happend, hafter, fun hnone => ⟨hdropped.symm.trans hnone, hlog⟩⟩
  | work now =>
      obtain ⟨after, hwork, hafter, hlog⟩ := work_spec hinvariant now
      refine ⟨after, hwork, hafter, fun hnone => ?_⟩
      rw [Event.bytes, List.append_nil]
      exact hlog hnone

/-- What holds after a run from a state whose log is known. -/
theorem run_spec {logging : AsyncLogging} (hinvariant : Invariant logging)
    (events : List Event) :
    ∃ after, runFrom step logging events = .ret after ∧ Invariant after ∧
      (after.dropped = false → logging.dropped = false ∧
        after.log = logging.log ++ events.flatMap Event.bytes) := by
  induction events generalizing logging with
  | nil => exact ⟨logging, rfl, hinvariant, fun hnone => ⟨hnone, (List.append_nil _).symm⟩⟩
  | cons event events ih =>
      obtain ⟨middle, hstep, hmiddle, hevent⟩ := step_spec hinvariant event
      obtain ⟨after, hrest, hafter, hevents⟩ := ih hmiddle
      refine ⟨after, runFrom_cons_eq_ret_iff.mpr ⟨middle, hstep, hrest⟩, hafter, fun hnone => ?_⟩
      obtain ⟨hkept, hlater⟩ := hevents hnone
      obtain ⟨hbefore, hfirst⟩ := hevent hkept
      refine ⟨hbefore, ?_⟩
      calc
        after.log = middle.log ++ events.flatMap Event.bytes := hlater
        _ = logging.log ++ event.bytes ++ events.flatMap Event.bytes := by rw [hfirst]
        _ = logging.log ++ (event :: events).flatMap Event.bytes := by
          rw [List.flatMap_cons, List.append_assoc]

/-- No assertion of the logging thread fails, and as long as no buffers were dropped the
file and the buffers have the lines in the order in which they were appended. -/
theorem log_of_run (events : List Event) :
    ∃ logging, runFrom step {} events = .ret logging ∧
      (logging.dropped = false → logging.log = events.flatMap Event.bytes) := by
  obtain ⟨logging, hrun, _, hlog⟩ := run_spec initial_invariant events
  exact ⟨logging, hrun, fun hnone => (hlog hnone).2⟩

end AsyncLogging

end Cuber.Logging
