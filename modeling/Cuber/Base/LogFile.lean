import Cuber.Base.AsyncLogging

/-!
# Log files

A `LogFile` appends to one file after the other.  It turns to a new file when
the file has got too large, and, where it looks at the clock, when another day
has begun; there it flushes the file too, if it did not for a while.  It looks
at the clock once in a number of calls, and it opens no two files in the same
second, so that no file is opened twice.
-/

namespace Cuber.LogFiles

open Cuber.Execution
open Cuber.Runs
open Cuber.Text

/-! ## Appending to a file -/

structure AppendFile where
  /-- The second that is part of the name. -/
  opened : ℤ
  /-- The bytes that `fwrite` took, of which some may still be in the buffer of the stream. -/
  content : Bytes := []
  writtenBytes : ℕ := 0
  /-- How many bytes there were when the file was last flushed. -/
  flushed : ℕ := 0
  deriving DecidableEq

/-- A call of `LogFile::append`, with what the calls of `fwrite` in it return, the clock when
it is read there and in `rollFile`, and whether `fopen` can open a file. -/
structure Append where
  line : Bytes
  writes : List ℕ
  now : ℤ
  rollNow : ℤ
  opens : Bool := true
  deriving DecidableEq

/-- The bytes that the loop in `AppendFile::append` writes. -/
def writeRemaining : List ℕ → Bytes → Bytes
  | _, [] => []
  | [], _ => []
  | n :: writes, remaining =>
      if n = 0 then [] else remaining.take n ++ writeRemaining writes (remaining.drop n)

/-- The bytes of the line that get to the file.  The first call may write nothing. -/
def Append.accepted (append : Append) : Bytes :=
  let n := append.writes.headD 0
  append.line.take n ++ writeRemaining append.writes.tail (append.line.drop n)

namespace AppendFile

/-- `AppendFile::append` counts the bytes that it was given. -/
def append (file : AppendFile) (append : Append) : AppendFile :=
  { file with
    content := file.content ++ append.accepted
    writtenBytes := file.writtenBytes + append.line.length }

def flush (file : AppendFile) : AppendFile := { file with flushed := file.content.length }

end AppendFile

/-! ## Rolling -/

structure Settings where
  rollSize : ℤ
  flushInterval : ℤ := 3
  checkEveryN : ℤ := 1024

def kRollPerSeconds : ℤ := 60 * 60 * 24

def periodOf (now : ℤ) : ℤ := now.tdiv kRollPerSeconds * kRollPerSeconds

inductive LogFileFault where
  | nullFile
  /-- `fopen` has failed, where the constructor of `AppendFile` asserts that it did not. -/
  | assertionFailed
  deriving DecidableEq

structure LogFile where
  count : ℕ := 0
  startOfPeriod : ℤ := 0
  lastRoll : ℤ := 0
  lastFlush : ℤ := 0
  file : Option AppendFile := none
  /-- The files before, oldest first. -/
  closed : List AppendFile := []
  deriving DecidableEq

inductive LogFileEvent where
  | append (append : Append)
  | flush
  deriving DecidableEq

namespace LogFile

/-- `rollFile` does nothing where the clock has not gone on since the last time. -/
def rollFile (log : LogFile) (now : ℤ) (opens : Bool) : Exec LogFileFault LogFile :=
  let start := periodOf now
  if now > log.lastRoll then
    if opens then
      .ret { log with
        lastRoll := now
        lastFlush := now
        startOfPeriod := start
        file := some { opened := now }
        closed := log.closed ++ log.file.toList.map AppendFile.flush }
    else .fault .assertionFailed
  else .ret log

def new (now : ℤ) (opens : Bool) : Exec LogFileFault LogFile := rollFile {} now opens

def appendUnlocked (settings : Settings) (log : LogFile) (append : Append) :
    Exec LogFileFault LogFile :=
  match log.file with
  | none => .fault .nullFile
  | some file =>
      let file := file.append append
      let log := { log with file := some file }
      if (file.writtenBytes : ℤ) > settings.rollSize then
        log.rollFile append.rollNow append.opens
      else
        let log := { log with count := log.count + 1 }
        if (log.count : ℤ) ≥ settings.checkEveryN then
          let log := { log with count := 0 }
          let thisPeriod := periodOf append.now
          if thisPeriod ≠ log.startOfPeriod then
            log.rollFile append.rollNow append.opens
          else if append.now - log.lastFlush > settings.flushInterval then
            .ret { log with lastFlush := append.now, file := some file.flush }
          else .ret log
        else .ret log

def flush (log : LogFile) : Exec LogFileFault LogFile :=
  match log.file with
  | none => .fault .nullFile
  | some file => .ret { log with file := some file.flush }

def step (settings : Settings) (log : LogFile) : LogFileEvent → Exec LogFileFault LogFile
  | .append append => log.appendUnlocked settings append
  | .flush => log.flush

def files (log : LogFile) : List AppendFile := log.closed ++ log.file.toList

end LogFile

/-! ## What a call does -/

/-- The ways in which `appendUnlocked` leaves the log, which had this file. -/
inductive AppendCase (settings : Settings) (log : LogFile) (file : AppendFile)
    (append : Append) : LogFile → Prop
  /-- The file has got too large, or another day has begun. -/
  | rolled (count : ℕ) (hlater : log.lastRoll < append.rollNow)
      (hcount : count = log.count ∧ settings.rollSize < (file.append append).writtenBytes ∨
        count = 0 ∧ settings.checkEveryN ≤ log.count + 1) :
      AppendCase settings log file append
        { count
          startOfPeriod := periodOf append.rollNow
          lastRoll := append.rollNow
          lastFlush := append.rollNow
          file := some { opened := append.rollNow }
          closed := log.closed ++ [(file.append append).flush] }
  /-- The file is too large, and was opened in this second. -/
  | large (hsize : settings.rollSize < (file.append append).writtenBytes)
      (hnow : append.rollNow ≤ log.lastRoll) :
      AppendCase settings log file append { log with file := some (file.append append) }
  | counted (hsize : (file.append append).writtenBytes ≤ settings.rollSize)
      (hcount : (log.count : ℤ) + 1 < settings.checkEveryN) :
      AppendCase settings log file append
        { log with file := some (file.append append), count := log.count + 1 }
  /-- Another day was seen, but the clock went back. -/
  | early (hsize : (file.append append).writtenBytes ≤ settings.rollSize)
      (hperiod : periodOf append.now ≠ log.startOfPeriod)
      (hnow : append.rollNow ≤ log.lastRoll) :
      AppendCase settings log file append
        { log with file := some (file.append append), count := 0 }
  | flushed (hsize : (file.append append).writtenBytes ≤ settings.rollSize)
      (hperiod : periodOf append.now = log.startOfPeriod) :
      AppendCase settings log file append
        { log with
          file := some (file.append append).flush
          count := 0
          lastFlush := append.now }
  | checked (hsize : (file.append append).writtenBytes ≤ settings.rollSize)
      (hperiod : periodOf append.now = log.startOfPeriod)
      (hrecent : append.now ≤ log.lastFlush + settings.flushInterval) :
      AppendCase settings log file append
        { log with file := some (file.append append), count := 0 }

/-- Where files can be opened, `appendUnlocked` leaves the log in one of these ways. -/
theorem appendUnlocked_cases (settings : Settings) {log : LogFile} {file : AppendFile}
    (hfile : log.file = some file) (append : Append) (hopens : append.opens = true) :
    ∃ log', log.appendUnlocked settings append = .ret log' ∧
      AppendCase settings log file append log' := by
  simp only [LogFile.appendUnlocked, hfile, LogFile.rollFile, hopens, if_true]
  by_cases hsize : ((file.append append).writtenBytes : ℤ) > settings.rollSize
  · rw [if_pos hsize]
    by_cases hlater : append.rollNow > log.lastRoll
    · rw [if_pos hlater]
      exact ⟨_, rfl, .rolled log.count hlater (.inl ⟨rfl, hsize⟩)⟩
    · rw [if_neg hlater]
      exact ⟨_, rfl, .large hsize (not_lt.mp hlater)⟩
  · rw [if_neg hsize]
    by_cases hcount : ((log.count + 1 : ℕ) : ℤ) ≥ settings.checkEveryN
    · rw [if_pos hcount]
      by_cases hperiod : periodOf append.now = log.startOfPeriod
      · rw [if_neg (not_not.mpr hperiod)]
        by_cases hlong : append.now - log.lastFlush > settings.flushInterval
        · rw [if_pos hlong]
          exact ⟨_, rfl, .flushed (not_lt.mp hsize) hperiod⟩
        · rw [if_neg hlong]
          exact ⟨_, rfl, .checked (not_lt.mp hsize) hperiod (by omega)⟩
      · rw [if_pos hperiod]
        by_cases hlater : append.rollNow > log.lastRoll
        · rw [if_pos hlater]
          exact ⟨_, rfl, .rolled 0 hlater (.inr ⟨rfl, by omega⟩)⟩
        · rw [if_neg hlater]
          exact ⟨_, rfl, .early (not_lt.mp hsize) hperiod (not_lt.mp hlater)⟩
    · rw [if_neg hcount]
      exact ⟨_, rfl, .counted (not_lt.mp hsize) (by omega)⟩

def LogFile.start (now : ℤ) : LogFile where
  startOfPeriod := periodOf now
  lastRoll := now
  lastFlush := now
  file := some { opened := now }

theorem new_eq {now : ℤ} (hnow : 0 < now) : LogFile.new now true = .ret (.start now) := by
  rw [LogFile.new, LogFile.rollFile, if_pos hnow]
  rfl

/-! ## Every byte is in one file -/

def appendsOf (events : List LogFileEvent) : List Append :=
  events.filterMap fun event =>
    match event with
    | .append append => some append
    | .flush => none

theorem appendsOf_cons (event : LogFileEvent) (events : List LogFileEvent) :
    appendsOf (event :: events) = appendsOf [event] ++ appendsOf events := by
  rw [← List.singleton_append]
  exact List.filterMap_append

/-- The calls of `fwrite` take something, and take the line between them. -/
def Append.Succeeds (append : Append) : Prop :=
  (∀ n ∈ append.writes, n ≠ 0) ∧ append.line.length ≤ append.writes.sum

instance (append : Append) : Decidable append.Succeeds :=
  inferInstanceAs (Decidable (_ ∧ _))

/-- Calls of `fwrite` that each take something, and enough in all, take everything. -/
theorem writeRemaining_eq {writes : List ℕ} {remaining : Bytes} (hwrites : ∀ n ∈ writes, n ≠ 0)
    (hlength : remaining.length ≤ writes.sum) : writeRemaining writes remaining = remaining := by
  induction writes generalizing remaining with
  | nil =>
      have hnil : remaining = [] :=
        List.eq_nil_of_length_eq_zero (Nat.le_zero.mp (by rwa [List.sum_nil] at hlength))
      rw [hnil]
      rfl
  | cons n writes ih =>
      cases hremaining : remaining with
      | nil => rfl
      | cons byte rest =>
          rw [writeRemaining, if_neg (hwrites n List.mem_cons_self), ← hremaining, ih,
            List.take_append_drop]
          · exact fun m hm => hwrites m (List.mem_cons_of_mem _ hm)
          · rw [List.sum_cons] at hlength
            rw [List.length_drop]
            omega
          · intro hnil
            cases hnil

theorem Append.accepted_eq {append : Append} (hsucceeds : append.Succeeds) :
    append.accepted = append.line := by
  obtain ⟨hwrites, hlength⟩ := hsucceeds
  rw [accepted, writeRemaining_eq, List.take_append_drop]
  · exact fun n hn => hwrites n (List.mem_of_mem_tail hn)
  · cases hwritten : append.writes with
    | nil =>
        rw [hwritten] at hlength
        simpa using hlength
    | cons n writes =>
        rw [hwritten, List.sum_cons] at hlength
        rw [List.headD_cons, List.tail_cons, List.length_drop]
        omega

/-- The file has what was taken from these calls. -/
def HasContent (file : AppendFile) (appends : List Append) : Prop :=
  file.content = appends.flatMap Append.accepted

/-- The calls whose lines are in the closed files and in the current one. -/
structure Recorded (log : LogFile) (closed : List (List Append)) (current : List Append) :
    Prop where
  contents : List.Forall₂ HasContent log.closed closed
  latest : ∃ file, log.file = some file ∧ file.opened = log.lastRoll ∧ HasContent file current
  earlier : ∀ file ∈ log.closed, file.opened < log.lastRoll
  increasing : (log.closed.map AppendFile.opened).Pairwise (· < ·)

theorem hasContent_append {file : AppendFile} {appends : List Append}
    (hcontent : HasContent file appends) (append : Append) :
    HasContent (file.append append) (appends ++ [append]) := by
  rw [HasContent, AppendFile.append, hcontent, List.flatMap_append, List.flatMap_singleton]

theorem flatMap_content {files : List AppendFile} {chunks : List (List Append)}
    (hcontents : List.Forall₂ HasContent files chunks) :
    files.flatMap AppendFile.content = chunks.flatten.flatMap Append.accepted := by
  induction hcontents with
  | nil => rfl
  | cons hcontent _ ih =>
      rw [List.flatMap_cons, ih, hcontent, List.flatten_cons, List.flatMap_append]

namespace Recorded

variable {log log' : LogFile} {file file' : AppendFile} {closed : List (List Append)}
  {current current' : List Append}

/-- The file that the constructor opens has nothing yet. -/
theorem of_start (now : ℤ) : Recorded (.start now) [] [] where
  contents := .nil
  latest := ⟨_, rfl, rfl, rfl⟩
  earlier file hfile := by cases hfile
  increasing := .nil

/-- Only the current file has changed. -/
theorem stays (hrecorded : Recorded log closed current) (hclosed : log'.closed = log.closed)
    (hroll : log'.lastRoll = log.lastRoll) (hfile : log'.file = some file')
    (hopened : file'.opened = log.lastRoll) (hcontent : HasContent file' current') :
    Recorded log' closed current' where
  contents := by
    rw [hclosed]
    exact hrecorded.contents
  latest := ⟨file', hfile, by rw [hopened, hroll], hcontent⟩
  earlier := by
    rw [hclosed, hroll]
    exact hrecorded.earlier
  increasing := by
    rw [hclosed]
    exact hrecorded.increasing

/-- The current file was closed, in a later second than that in which it was opened. -/
theorem rolls (hrecorded : Recorded log closed current) {now : ℤ} (hnow : log.lastRoll < now)
    (hclosed : log'.closed = log.closed ++ [file]) (hroll : log'.lastRoll = now)
    (hfile : log'.file = some { opened := now }) (hopened : file.opened = log.lastRoll)
    (hcontent : HasContent file current') :
    Recorded log' (closed ++ [current']) [] where
  contents := by
    rw [hclosed]
    exact List.rel_append hrecorded.contents (.cons hcontent .nil)
  latest := ⟨_, hfile, hroll.symm, rfl⟩
  earlier other hother := by
    rw [hclosed, List.mem_append, List.mem_singleton] at hother
    rw [hroll]
    rcases hother with hother | rfl
    · exact (hrecorded.earlier other hother).trans hnow
    · rwa [hopened]
  increasing := by
    rw [hclosed, List.map_append, List.pairwise_append]
    refine ⟨hrecorded.increasing, List.pairwise_singleton .., ?_⟩
    intro opened hother opened' hfile'
    obtain ⟨other, hmem, rfl⟩ := List.mem_map.mp hother
    rw [List.map_singleton, List.mem_singleton] at hfile'
    rw [hfile', hopened]
    exact hrecorded.earlier other hmem

/-- A call of `append` is recorded for the current file, which it may close. -/
theorem append {settings : Settings} {append : Append}
    (hrecorded : Recorded log closed current) (hfile : log.file = some file)
    (hcase : AppendCase settings log file append log') :
    Recorded log' closed (current ++ [append]) ∨
      Recorded log' (closed ++ [current ++ [append]]) [] := by
  obtain ⟨other, hother, hopened, hcontent⟩ := hrecorded.latest
  rw [hfile, Option.some.injEq] at hother
  subst hother
  have happended := hasContent_append hcontent append
  cases hcase with
  | rolled count hlater hcount =>
      exact .inr (hrecorded.rolls hlater rfl rfl rfl hopened happended)
  | large hsize hnow => exact .inl (hrecorded.stays rfl rfl rfl hopened happended)
  | counted hsize hcount => exact .inl (hrecorded.stays rfl rfl rfl hopened happended)
  | early hsize hperiod hnow => exact .inl (hrecorded.stays rfl rfl rfl hopened happended)
  | flushed hsize hperiod => exact .inl (hrecorded.stays rfl rfl rfl hopened happended)
  | checked hsize hperiod hrecent =>
      exact .inl (hrecorded.stays rfl rfl rfl hopened happended)

theorem flush (hrecorded : Recorded log closed current) :
    ∃ log', log.flush = .ret log' ∧ Recorded log' closed current := by
  obtain ⟨file, hfile, hopened, hcontent⟩ := hrecorded.latest
  refine ⟨{ log with file := some file.flush }, ?_, ?_⟩
  · simp only [LogFile.flush, hfile]
  · exact hrecorded.stays rfl rfl rfl hopened hcontent

/-- An event adds its call to the last file, which may be closed then. -/
theorem step (settings : Settings) (hrecorded : Recorded log closed current)
    (event : LogFileEvent) (hopens : ∀ append ∈ appendsOf [event], append.opens = true) :
    ∃ log' closed' current', log.step settings event = .ret log' ∧
      Recorded log' closed' current' ∧
      closed'.flatten ++ current' = closed.flatten ++ current ++ appendsOf [event] := by
  cases event with
  | flush =>
      obtain ⟨log', hflush, hrecorded'⟩ := hrecorded.flush
      exact ⟨log', closed, current, hflush, hrecorded', (List.append_nil _).symm⟩
  | append call =>
      obtain ⟨file, hfile, -, -⟩ := hrecorded.latest
      obtain ⟨log', hcall, hcase⟩ :=
        appendUnlocked_cases settings hfile call (hopens call List.mem_cons_self)
      rcases hrecorded.append hfile hcase with hrecorded' | hrecorded'
      · refine ⟨log', closed, current ++ [call], hcall, hrecorded', ?_⟩
        rw [← List.append_assoc]
        rfl
      · refine ⟨log', closed ++ [current ++ [call]], [], hcall, hrecorded', ?_⟩
        rw [List.flatten_append, List.flatten_singleton, List.append_nil, ← List.append_assoc]
        rfl

theorem run (settings : Settings) (hrecorded : Recorded log closed current)
    (events : List LogFileEvent) (hopens : ∀ append ∈ appendsOf events, append.opens = true) :
    ∃ log' closed' current', runFrom (LogFile.step settings) log events = .ret log' ∧
      Recorded log' closed' current' ∧
      closed'.flatten ++ current' = closed.flatten ++ current ++ appendsOf events := by
  induction events generalizing log closed current with
  | nil => exact ⟨log, closed, current, rfl, hrecorded, (List.append_nil _).symm⟩
  | cons event events ih =>
      rw [appendsOf_cons, List.forall_mem_append] at hopens
      obtain ⟨middle, closed₁, current₁, hstep, hmiddle, hfirst⟩ :=
        hrecorded.step settings event hopens.1
      obtain ⟨log', closed', current', hrest, hrecorded', hlater⟩ := ih hmiddle hopens.2
      refine ⟨log', closed', current',
        runFrom_cons_eq_ret_iff.mpr ⟨middle, hstep, hrest⟩, hrecorded', ?_⟩
      rw [hlater, hfirst, List.append_assoc _ (appendsOf [event]), ← appendsOf_cons]

end Recorded

/-- As long as files can be opened, they were opened in different seconds, one after the other,
and `fwrite` took the lines for them in the order of the calls, each for one file. -/
theorem contents_of_run (settings : Settings) (start : ℤ) (hstart : 0 < start)
    (events : List LogFileEvent) (hopens : ∀ append ∈ appendsOf events, append.opens = true) :
    ∃ (log : LogFile) (chunks : List (List Append)),
      ((LogFile.new start true).bind fun log =>
        runFrom (LogFile.step settings) log events) = .ret log ∧
      chunks.flatten = appendsOf events ∧ List.Forall₂ HasContent log.files chunks ∧
      (log.files.map AppendFile.opened).Pairwise (· < ·) ∧
      ((∀ append ∈ appendsOf events, append.Succeeds) →
        log.files.flatMap AppendFile.content = (appendsOf events).flatMap Append.line) := by
  obtain ⟨log, closed, current, hrun, hrecorded, happends⟩ :=
    (Recorded.of_start start).run settings events hopens
  rw [new_eq hstart, Exec.ret_bind]
  obtain ⟨file, hfile, hopened, hcontent⟩ := hrecorded.latest
  have hfiles : log.files = log.closed ++ [file] := by
    rw [LogFile.files, hfile, Option.toList_some]
  have hchunks := List.rel_append hrecorded.contents (.cons hcontent .nil)
  have hflatten : (closed ++ [current]).flatten = appendsOf events := by
    rw [List.flatten_append, List.flatten_singleton, happends]
    rfl
  refine ⟨log, closed ++ [current], hrun, hflatten, hfiles ▸ hchunks, ?_, ?_⟩
  · rw [hfiles, List.map_append, List.pairwise_append]
    refine ⟨hrecorded.increasing, List.pairwise_singleton .., ?_⟩
    intro opened hother opened' hlast
    obtain ⟨other, hmem, rfl⟩ := List.mem_map.mp hother
    rw [List.map_singleton, List.mem_singleton] at hlast
    rw [hlast, hopened]
    exact hrecorded.earlier other hmem
  · intro hsucceeds
    calc
      log.files.flatMap AppendFile.content =
          (closed ++ [current]).flatten.flatMap Append.accepted := by
        rw [hfiles]
        exact flatMap_content hchunks
      _ = (appendsOf events).flatMap Append.line := by
        rw [hflatten]
        exact List.flatMap_congr fun append happend => Append.accepted_eq (hsucceeds append happend)

/-! ## When a file is left -/

/-- The calls read a clock that does not go back. -/
def InOrder : ℤ → List Append → Prop
  | _, [] => True
  | last, append :: appends =>
      last ≤ append.now ∧ append.now ≤ append.rollNow ∧ InOrder append.rollNow appends

instance decidableInOrder : (last : ℤ) → (appends : List Append) → Decidable (InOrder last appends)
  | _, [] => .isTrue trivial
  | last, append :: appends =>
      have := decidableInOrder append.rollNow appends
      inferInstanceAs (Decidable (last ≤ append.now ∧ append.now ≤ append.rollNow ∧
        InOrder append.rollNow appends))

def bytesOf (appends : List Append) : ℕ := (appends.map fun append => append.line.length).sum

/-- The calls of another day than that in which the file was opened. -/
def ofOtherDays (opened : ℤ) (appends : List Append) : ℕ :=
  appends.countP fun append => periodOf append.now ≠ periodOf opened

/-- The calls after the time when the file should be flushed. -/
def overdue (settings : Settings) (lastFlush : ℤ) (appends : List Append) : ℕ :=
  appends.countP fun append => lastFlush + max settings.flushInterval 0 < append.now

/-- How many calls there are at most from one look at the clock to the next. -/
def Settings.checkEvery (settings : Settings) : ℕ := max settings.checkEveryN.toNat 1

/-- What can be said of the calls that went to a file before it was left: once it was too
large, the second in which it was opened had not passed, and few were of other days. -/
structure LeftInTime (settings : Settings) (file : AppendFile) (appends : List Append) :
    Prop where
  content : HasContent file appends
  size : ∀ before append later, appends = before ++ append :: later → later ≠ [] →
    settings.rollSize < bytesOf (before ++ [append]) → append.rollNow ≤ file.opened
  period : ofOtherDays file.opened appends ≤ settings.checkEvery

/-- What holds between the calls of a clock that was `last` when it was last read. -/
structure Timely (settings : Settings) (last : ℤ) (log : LogFile) (file : AppendFile)
    (closed : List (List Append)) (current : List Append) : Prop
    extends Recorded log closed current where
  here : log.file = some file
  left : List.Forall₂ (LeftInTime settings) log.closed closed
  rolled : 0 < log.lastRoll ∧ log.lastRoll ≤ last
  lastFlush : log.lastRoll ≤ log.lastFlush
  start : log.startOfPeriod = periodOf log.lastRoll
  written : file.writtenBytes = bytesOf current
  between : ∀ append ∈ current, log.lastRoll ≤ append.now ∧ append.now ≤ last
  size : ∀ before append later, current = before ++ append :: later →
    settings.rollSize < bytesOf (before ++ [append]) → append.rollNow ≤ log.lastRoll
  count : log.count < settings.checkEvery
  period : ofOtherDays log.lastRoll current ≤ log.count
  /-- The calls since the file was flushed. -/
  flushed : ∃ early late, current = early ++ late ∧
    file.flushed = (early.flatMap Append.accepted).length ∧
    overdue settings log.lastFlush late ≤ log.count

theorem bytesOf_append_singleton (appends : List Append) (append : Append) :
    bytesOf (appends ++ [append]) = bytesOf appends + append.line.length := by
  simp [bytesOf]

theorem ofOtherDays_append_singleton (opened : ℤ) (appends : List Append) (append : Append) :
    ofOtherDays opened (appends ++ [append]) =
      ofOtherDays opened appends + if periodOf append.now ≠ periodOf opened then 1 else 0 := by
  simp [ofOtherDays, List.countP_append, List.countP_cons]

theorem overdue_append_singleton (settings : Settings) (lastFlush : ℤ) (appends : List Append)
    (append : Append) :
    overdue settings lastFlush (appends ++ [append]) = overdue settings lastFlush appends +
      if lastFlush + max settings.flushInterval 0 < append.now then 1 else 0 := by
  simp [overdue, List.countP_append, List.countP_cons]

theorem periodOf_le_periodOf {earlier later : ℤ} (hearlier : 0 ≤ earlier)
    (hle : earlier ≤ later) : periodOf earlier ≤ periodOf later := by
  have hpositive : 0 < kRollPerSeconds := by decide
  rw [periodOf, periodOf, Int.tdiv_eq_ediv_of_nonneg hearlier,
    Int.tdiv_eq_ediv_of_nonneg (hearlier.trans hle)]
  exact Int.mul_le_mul_of_nonneg_right (Int.ediv_le_ediv hpositive hle) hpositive.le

/-- No call was of another day, where the last was of this one. -/
theorem ofOtherDays_eq_zero {opened now : ℤ} {appends : List Append} (hopened : 0 ≤ opened)
    (hbetween : ∀ append ∈ appends, opened ≤ append.now ∧ append.now ≤ now)
    (hperiod : periodOf now = periodOf opened) : ofOtherDays opened appends = 0 := by
  rw [ofOtherDays, List.countP_eq_zero]
  intro append happend
  obtain ⟨hlower, hupper⟩ := hbetween append happend
  have hfirst := periodOf_le_periodOf hopened hlower
  have hlast := periodOf_le_periodOf (hopened.trans hlower) hupper
  simp only [ne_eq, decide_not, Bool.not_eq_true', decide_eq_false_iff_not, not_not]
  exact le_antisymm (hlast.trans hperiod.le) hfirst

/-- A list with one more element is split before the last, or at it. -/
theorem split_append_singleton {A : Type*} {front before later : List A} {middle last : A}
    (hsplit : front ++ [last] = before ++ middle :: later) :
    (later = [] ∧ before = front ∧ middle = last) ∨
      ∃ later', later = later' ++ [last] ∧ front = before ++ middle :: later' := by
  rcases List.eq_nil_or_concat' later with rfl | ⟨later', last', rfl⟩
  · obtain ⟨hfront, hlast⟩ := List.append_inj' hsplit rfl
    exact .inl ⟨rfl, hfront.symm, (List.singleton_inj.mp hlast).symm⟩
  · rw [← List.cons_append, ← List.append_assoc] at hsplit
    obtain ⟨hfront, hlast⟩ := List.append_inj' hsplit rfl
    exact .inr ⟨later', by rw [List.singleton_inj.mp hlast], hfront⟩

namespace Timely

variable {settings : Settings} {last : ℤ} {log log' : LogFile} {file : AppendFile}
  {closed : List (List Append)} {current : List Append} {append : Append}

theorem of_start {settings : Settings} {now : ℤ} (hnow : 0 < now) :
    Timely settings now (.start now) { opened := now } [] [] where
  toRecorded := Recorded.of_start now
  here := rfl
  left := .nil
  rolled := ⟨hnow, le_refl now⟩
  lastFlush := le_refl now
  start := rfl
  written := rfl
  between append happend := by cases happend
  size before append later hsplit := absurd hsplit.symm (by simp)
  count := lt_of_lt_of_le zero_lt_one (le_max_right ..)
  period := Nat.zero_le _
  flushed := ⟨[], [], rfl, rfl, Nat.zero_le _⟩

theorem opened_eq (htimely : Timely settings last log file closed current) :
    file.opened = log.lastRoll ∧ HasContent file current := by
  obtain ⟨other, hother, hopened, hcontent⟩ := htimely.latest
  rw [htimely.here, Option.some.injEq] at hother
  rw [hother]
  exact ⟨hopened, hcontent⟩

/-- A file that is kept has no call at which it was too large in a later second. -/
theorem size_append (htimely : Timely settings last log file closed current)
    (hlarge : settings.rollSize < bytesOf (current ++ [append]) → append.rollNow ≤ log.lastRoll)
    {before later : List Append} {middle : Append}
    (hsplit : current ++ [append] = before ++ middle :: later)
    (hsize : settings.rollSize < bytesOf (before ++ [middle])) :
    middle.rollNow ≤ log.lastRoll := by
  rcases split_append_singleton hsplit with ⟨-, rfl, rfl⟩ | ⟨later', -, hcurrent⟩
  · exact hlarge hsize
  · exact htimely.size before middle later' hcurrent hsize

theorem ofOtherDays_le (htimely : Timely settings last log file closed current)
    (append : Append) : ofOtherDays log.lastRoll (current ++ [append]) ≤ log.count + 1 := by
  have hperiod := htimely.period
  rw [ofOtherDays_append_singleton]
  split_ifs <;> omega

theorem between_append (htimely : Timely settings last log file closed current)
    (hnow : last ≤ append.now) {now : ℤ} (hroll : append.now ≤ now) :
    ∀ call ∈ current ++ [append], log.lastRoll ≤ call.now ∧ call.now ≤ now := by
  intro call hcall
  rcases List.mem_append.mp hcall with hcall | hcall
  · obtain ⟨hlower, hupper⟩ := htimely.between call hcall
    exact ⟨hlower, hupper.trans (hnow.trans hroll)⟩
  · rw [List.mem_singleton.mp hcall]
    exact ⟨htimely.rolled.2.trans hnow, hroll⟩

theorem left_append (htimely : Timely settings last log file closed current) (append : Append) :
    LeftInTime settings (file.append append).flush (current ++ [append]) where
  content := hasContent_append htimely.opened_eq.2 append
  size before middle later hsplit hlater hsize := by
    rcases split_append_singleton hsplit with ⟨hnil, -, -⟩ | ⟨later', -, hcurrent⟩
    · exact absurd hnil hlater
    · exact (htimely.size before middle later' hcurrent hsize).trans htimely.opened_eq.1.ge
  period := by
    have hopened : (file.append append).flush.opened = log.lastRoll := htimely.opened_eq.1
    rw [hopened]
    exact (htimely.ofOtherDays_le append).trans htimely.count

/-- The call was the last of its file. -/
theorem rolls (htimely : Timely settings last log file closed current) {count : ℕ}
    (hlater : log.lastRoll < append.rollNow) (hcount : count < settings.checkEvery) :
    Timely settings append.rollNow
      { count
        startOfPeriod := periodOf append.rollNow
        lastRoll := append.rollNow
        lastFlush := append.rollNow
        file := some { opened := append.rollNow }
        closed := log.closed ++ [(file.append append).flush] }
      { opened := append.rollNow } (closed ++ [current ++ [append]]) [] where
  toRecorded := htimely.toRecorded.rolls hlater
    (show _ = log.closed ++ [(file.append append).flush] from rfl) rfl rfl
    htimely.opened_eq.1 (hasContent_append htimely.opened_eq.2 append)
  here := rfl
  left := List.rel_append htimely.left (.cons (htimely.left_append append) .nil)
  rolled := ⟨htimely.rolled.1.trans hlater, le_refl _⟩
  lastFlush := le_refl _
  start := rfl
  written := rfl
  between append happend := by cases happend
  size before append later hsplit := absurd hsplit.symm (by simp)
  count := hcount
  period := Nat.zero_le _
  flushed := ⟨[], [], rfl, rfl, Nat.zero_le _⟩

/-- The call left the current file in place. -/
theorem stays (htimely : Timely settings last log file closed current)
    (hnow : last ≤ append.now) (hroll : append.now ≤ append.rollNow) {file' : AppendFile}
    {count : ℕ} {lastFlush : ℤ} (hflush : log.lastRoll ≤ lastFlush)
    (hopened : file'.opened = file.opened)
    (hcontent : file'.content = (file.append append).content)
    (hwritten : file'.writtenBytes = (file.append append).writtenBytes)
    (hlarge : settings.rollSize < bytesOf (current ++ [append]) → append.rollNow ≤ log.lastRoll)
    (hcount : count < settings.checkEvery)
    (hperiod : ofOtherDays log.lastRoll (current ++ [append]) ≤ count)
    (hflushed : ∃ early late, current ++ [append] = early ++ late ∧
      file'.flushed = (early.flatMap Append.accepted).length ∧
      overdue settings lastFlush late ≤ count) :
    Timely settings append.rollNow
      { log with file := some file', count, lastFlush } file' closed (current ++ [append]) where
  toRecorded := htimely.toRecorded.stays rfl rfl rfl (hopened.trans htimely.opened_eq.1)
    (hcontent.trans (hasContent_append htimely.opened_eq.2 append))
  here := rfl
  left := htimely.left
  rolled := ⟨htimely.rolled.1, htimely.rolled.2.trans (hnow.trans hroll)⟩
  lastFlush := hflush
  start := htimely.start
  written := by rw [hwritten, AppendFile.append, htimely.written, bytesOf_append_singleton]
  between := htimely.between_append hnow hroll
  size _ _ _ hsplit hsize := htimely.size_append hlarge hsplit hsize
  count := hcount
  period := hperiod
  flushed := hflushed

/-- The clock was looked at, and it was still the day in which the file was opened. -/
theorem ofOtherDays_append_eq_zero (htimely : Timely settings last log file closed current)
    (hnow : last ≤ append.now) (hperiod : periodOf append.now = log.startOfPeriod) :
    ofOtherDays log.lastRoll (current ++ [append]) = 0 := by
  apply ofOtherDays_eq_zero htimely.rolled.1.le (htimely.between_append hnow (le_refl _))
  rw [hperiod, htimely.start]

theorem not_large (htimely : Timely settings last log file closed current)
    (hsize : ((file.append append).writtenBytes : ℤ) ≤ settings.rollSize) :
    ¬ settings.rollSize < bytesOf (current ++ [append]) := by
  rw [AppendFile.append, htimely.written, ← bytesOf_append_singleton] at hsize
  exact not_lt.mpr hsize

/-- A call of `append` at a later time keeps the bounds. -/
theorem appended (htimely : Timely settings last log file closed current)
    (hnow : last ≤ append.now) (hroll : append.now ≤ append.rollNow)
    (hcase : AppendCase settings log file append log') :
    ∃ file' closed' current', Timely settings append.rollNow log' file' closed' current' ∧
      closed'.flatten ++ current' = closed.flatten ++ current ++ [append] := by
  have hcount := htimely.count
  have hstart := htimely.start
  have hlast := htimely.rolled.2
  have hflush := htimely.lastFlush
  have hpositive : 0 < settings.checkEvery := lt_of_lt_of_le zero_lt_one (le_max_right ..)
  have hadded : closed.flatten ++ (current ++ [append]) =
      closed.flatten ++ current ++ [append] := (List.append_assoc ..).symm
  obtain ⟨early, late, hcurrent, hearly, hlate⟩ := htimely.flushed
  cases hcase with
  | rolled count hlater hreason =>
      refine ⟨_, _, _, htimely.rolls hlater ?_, ?_⟩
      · rcases hreason with ⟨rfl, -⟩ | ⟨rfl, -⟩
        · exact hcount
        · exact hpositive
      · rw [List.flatten_append, List.flatten_singleton, List.append_nil, hadded]
  | large hsize hsecond =>
      -- the second in which the file was opened has not passed
      have hthis : append.now = log.lastRoll := by omega
      refine ⟨_, _, _, htimely.stays hnow hroll hflush rfl rfl rfl (fun _ => hsecond) hcount ?_
        ⟨early, late ++ [append], ?_, hearly, ?_⟩, hadded⟩
      · rw [ofOtherDays_append_singleton, hthis, if_neg (not_not.mpr rfl)]
        exact htimely.period
      · rw [hcurrent, List.append_assoc]
      · rw [overdue_append_singleton, if_neg (by omega)]
        exact hlate
  | counted hsize hfew =>
      have hnext : log.count + 1 < settings.checkEvery := by
        rw [Settings.checkEvery]
        omega
      refine ⟨_, _, _, htimely.stays hnow hroll hflush rfl rfl rfl
        (fun hlarge => absurd hlarge (htimely.not_large hsize)) hnext
        (htimely.ofOtherDays_le append) ⟨early, late ++ [append], ?_, hearly, ?_⟩, hadded⟩
      · rw [hcurrent, List.append_assoc]
      · rw [overdue_append_singleton]
        split_ifs <;> omega
  | early hsize hperiod hsecond =>
      -- a clock that does not go back has left the second in which the file was opened
      have hthis : append.now = log.lastRoll := by omega
      rw [hthis] at hperiod
      exact absurd hstart.symm hperiod
  | flushed hsize hperiod =>
      refine ⟨_, _, _, htimely.stays hnow hroll (hlast.trans hnow) rfl rfl rfl
        (fun hlarge => absurd hlarge (htimely.not_large hsize)) hpositive ?_
        ⟨current ++ [append], [], (List.append_nil _).symm, ?_, Nat.zero_le _⟩, hadded⟩
      · rw [htimely.ofOtherDays_append_eq_zero hnow hperiod]
      · exact congrArg List.length (hasContent_append htimely.opened_eq.2 append)
  | checked hsize hperiod hrecent =>
      refine ⟨_, _, _, htimely.stays hnow hroll hflush rfl rfl rfl
        (fun hlarge => absurd hlarge (htimely.not_large hsize)) hpositive ?_
        ⟨early, late ++ [append], ?_, hearly, ?_⟩, hadded⟩
      · rw [htimely.ofOtherDays_append_eq_zero hnow hperiod]
      · rw [hcurrent, List.append_assoc]
      · apply Nat.le_of_eq
        rw [overdue, List.countP_eq_zero]
        intro call hcall
        have hbetween := htimely.between_append hnow (le_refl _) call (by
          rw [hcurrent, List.append_assoc]
          exact List.mem_append_right _ hcall)
        simp only [decide_eq_true_eq, not_lt]
        omega

theorem flush (htimely : Timely settings last log file closed current) :
    ∃ log', log.flush = .ret log' ∧ Timely settings last log' file.flush closed current := by
  refine ⟨{ log with file := some file.flush }, ?_, ?_⟩
  · simp only [LogFile.flush, htimely.here]
  · have hcontent := htimely.opened_eq.2
    refine { htimely with
      toRecorded := htimely.toRecorded.stays rfl rfl rfl htimely.opened_eq.1 hcontent
      here := rfl
      flushed := ⟨current, [], (List.append_nil _).symm, ?_, Nat.zero_le _⟩ }
    exact congrArg List.length hcontent

theorem run (htimely : Timely settings last log file closed current)
    (events : List LogFileEvent) (hclock : InOrder last (appendsOf events))
    (hopens : ∀ append ∈ appendsOf events, append.opens = true) :
    ∃ log' last' file' closed' current',
      runFrom (LogFile.step settings) log events = .ret log' ∧
      Timely settings last' log' file' closed' current' ∧
      closed'.flatten ++ current' = closed.flatten ++ current ++ appendsOf events := by
  induction events generalizing last log file closed current with
  | nil => exact ⟨log, last, file, closed, current, rfl, htimely, (List.append_nil _).symm⟩
  | cons event events ih =>
      cases event with
      | flush =>
          obtain ⟨middle, hflush, hmiddle⟩ := htimely.flush
          obtain ⟨log', last', file', closed', current', hrest, htimely', happends⟩ :=
            ih hmiddle hclock hopens
          exact ⟨log', last', file', closed', current',
            runFrom_cons_eq_ret_iff.mpr ⟨middle, hflush, hrest⟩, htimely', happends⟩
      | append call =>
          obtain ⟨hnow, hroll, hlater⟩ := hclock
          obtain ⟨hopen, hlaterOpens⟩ := List.forall_mem_cons.mp hopens
          obtain ⟨middle, hcall, hcase⟩ :=
            appendUnlocked_cases settings htimely.here call hopen
          obtain ⟨file₁, closed₁, current₁, hmiddle, hfirst⟩ := htimely.appended hnow hroll hcase
          obtain ⟨log', last', file', closed', current', hrest, htimely', happends⟩ :=
            ih hmiddle hlater hlaterOpens
          refine ⟨log', last', file', closed', current',
            runFrom_cons_eq_ret_iff.mpr ⟨middle, hcall, hrest⟩, htimely', ?_⟩
          rw [happends, hfirst, List.append_assoc _ [call]]
          rfl

end Timely

/-- With a clock that does not go back, a file that has got too large is left at the first call
after the second in which it was opened, and no more than `checkEvery` of its calls are of
other days.  Of the calls whose lines are not flushed, fewer came when it was time to. -/
theorem left_of_run (settings : Settings) (start : ℤ) (hstart : 0 < start)
    (events : List LogFileEvent) (hclock : InOrder start (appendsOf events))
    (hopens : ∀ append ∈ appendsOf events, append.opens = true) :
    ∃ (log : LogFile) (file : AppendFile) (closed : List (List Append)) (current : List Append),
      ((LogFile.new start true).bind fun log =>
        runFrom (LogFile.step settings) log events) = .ret log ∧
      log.file = some file ∧ closed.flatten ++ current = appendsOf events ∧
      List.Forall₂ (LeftInTime settings) log.closed closed ∧ LeftInTime settings file current ∧
      ∃ early late, current = early ++ late ∧
        file.flushed = (early.flatMap Append.accepted).length ∧
        overdue settings log.lastFlush late < settings.checkEvery := by
  obtain ⟨log, last, file, closed, current, hrun, htimely, happends⟩ :=
    (Timely.of_start hstart).run events hclock hopens
  rw [new_eq hstart, Exec.ret_bind]
  obtain ⟨hopened, hcontent⟩ := htimely.opened_eq
  obtain ⟨early, late, hcurrent, hearly, hlate⟩ := htimely.flushed
  refine ⟨log, file, closed, current, hrun, htimely.here, happends, htimely.left,
    ⟨hcontent, ?_, ?_⟩, early, late, hcurrent, hearly, lt_of_le_of_lt hlate htimely.count⟩
  · intro before append later hsplit _ hsize
    rw [hopened]
    exact htimely.size before append later hsplit hsize
  · rw [hopened]
    exact htimely.period.trans htimely.count.le

/-- The second line is too much for the first file, and the next day is seen at the fourth. -/
def someAppends : List LogFileEvent :=
  [.append ⟨ascii "one\n", [4], 100, 100, true⟩,
    .append ⟨ascii "two\n", [1, 3], 101, 101, true⟩, .flush,
    .append ⟨ascii "three\n", [6], 86399, 86399, true⟩,
    .append ⟨ascii "four\n", [5], 86400, 86401, true⟩,
    .append ⟨ascii "five\n", [5], 86402, 86402, true⟩]

def someSettings : Settings := { rollSize := 6, checkEveryN := 1 }

theorem contents_of_run_someAppends :
    ∃ (log : LogFile) (chunks : List (List Append)),
      ((LogFile.new 100 true).bind fun log =>
        runFrom (LogFile.step someSettings) log someAppends) = .ret log ∧
      chunks.flatten = appendsOf someAppends ∧ List.Forall₂ HasContent log.files chunks ∧
      (log.files.map AppendFile.opened).Pairwise (· < ·) ∧
      ((∀ append ∈ appendsOf someAppends, append.Succeeds) →
        log.files.flatMap AppendFile.content = (appendsOf someAppends).flatMap Append.line) :=
  contents_of_run someSettings 100 (by decide) someAppends (by decide)

theorem left_of_run_someAppends :
    ∃ (log : LogFile) (file : AppendFile) (closed : List (List Append)) (current : List Append),
      ((LogFile.new 100 true).bind fun log =>
        runFrom (LogFile.step someSettings) log someAppends) = .ret log ∧
      log.file = some file ∧ closed.flatten ++ current = appendsOf someAppends ∧
      List.Forall₂ (LeftInTime someSettings) log.closed closed ∧
      LeftInTime someSettings file current ∧
      ∃ early late, current = early ++ late ∧
        file.flushed = (early.flatMap Append.accepted).length ∧
        overdue someSettings log.lastFlush late < someSettings.checkEvery :=
  left_of_run someSettings 100 (by decide) someAppends (by decide) (by decide)

/-! ## What the threads log gets to the files -/

section Disk

open Cuber.Logging (AsyncLogging LogLine LoggingFault contents dropMessage)

inductive DiskFault where
  | logging (cause : LoggingFault)
  | logFile (cause : LogFileFault)
  deriving DecidableEq

structure DiskLogging where
  logging : AsyncLogging := {}
  output : LogFile

inductive DiskEvent where
  | append (line : LogLine)
  /-- A step of the logging thread, with the time that it may print, what `fwrite` makes of
  bytes, the clock, and whether `fopen` can open a file. -/
  | work (printed : Bytes) (fwrite : Bytes → List ℕ) (now rollNow : ℤ) (opens : Bool)

/-- What the logging thread hands to `output.append` in its next step. -/
def outputCall (logging : AsyncLogging) (printed : Bytes) : Option Bytes :=
  match logging.phase with
  | .collects => none
  | .checks =>
      if logging.buffersToWrite.length > 25 then
        some (dropMessage printed (logging.buffersToWrite.length - 2))
      else none
  | .writes written => logging.buffersToWrite[written]?.map LogStreams.FixedBuffer.data

/-- The logging thread has written its buffers, and calls `output.flush` at the end. -/
def flushes (logging : AsyncLogging) : Bool :=
  match logging.phase with
  | .collects | .checks => false
  | .writes written => logging.buffersToWrite[written]? = none

namespace DiskLogging

def writeOutput (settings : Settings) (logging : AsyncLogging) (output : LogFile)
    (printed : Bytes) (fwrite : Bytes → List ℕ) (now rollNow : ℤ) (opens : Bool) :
    Exec LogFileFault LogFile :=
  match outputCall logging printed with
  | some line =>
      output.appendUnlocked settings { line, writes := fwrite line, now, rollNow, opens }
  | none => if flushes logging then output.flush else .ret output

def step (settings : Settings) (disk : DiskLogging) :
    DiskEvent → Exec DiskFault DiskLogging
  | .append line =>
      ((disk.logging.append line).mapFault .logging).bind fun logging =>
        .ret { disk with logging }
  | .work printed fwrite now rollNow opens =>
      ((disk.logging.work printed).mapFault .logging).bind fun logging =>
        ((writeOutput settings disk.logging disk.output printed fwrite now rollNow
          opens).mapFault .logFile).bind fun output => .ret { logging, output }

def run (settings : Settings) (start : ℤ) (events : List DiskEvent) :
    Exec DiskFault DiskLogging :=
  ((LogFile.new start true).mapFault .logFile).bind fun output =>
    runFrom (step settings) { output } events

end DiskLogging

def DiskEvent.bytes : DiskEvent → Bytes
  | .append line => line.bytes
  | .work .. => []

/-- Files can be opened, and `fwrite` takes what it is given, if need be in several calls. -/
def DiskEvent.Writes : DiskEvent → Prop
  | .append _ => True
  | .work _ fwrite _ _ opens =>
      opens = true ∧ ∀ line, (∀ n ∈ fwrite line, n ≠ 0) ∧ line.length ≤ (fwrite line).sum

theorem output_append {logging after : AsyncLogging} {line : LogLine}
    (happend : logging.append line = .ret after) : after.output = logging.output := by
  simp only [AsyncLogging.append] at happend
  split at happend
  · cases happend
  · split_ifs at happend
    all_goals
      cases happend
      rfl

/-- The step of the logging thread adds to its output what it hands over. -/
theorem output_work {logging after : AsyncLogging} {printed : Bytes}
    (hwork : logging.work printed = .ret after) :
    after.output = logging.output ++ (outputCall logging printed).getD [] := by
  cases hphase : logging.phase with
  | collects =>
      simp only [AsyncLogging.work, hphase, AsyncLogging.collect] at hwork
      simp only [outputCall, hphase, Option.getD_none, List.append_nil]
      split at hwork
      · split_ifs at hwork
        all_goals
          cases hwork
          rfl
      · cases hwork
      · cases hwork
  | checks =>
      simp only [AsyncLogging.work, hphase, AsyncLogging.check] at hwork
      simp only [outputCall, hphase]
      split_ifs at hwork with hnone hmany
      · cases hwork
        rw [if_pos hmany, Option.getD_some]
      · cases hwork
        rw [if_neg hmany, Option.getD_none, List.append_nil]
  | writes written =>
      simp only [AsyncLogging.work, hphase] at hwork
      simp only [outputCall, hphase]
      cases hbuffer : logging.buffersToWrite[written]? with
      | some buffer =>
          rw [hbuffer] at hwork
          cases hwork
          rfl
      | none =>
          rw [hbuffer] at hwork
          simp only [AsyncLogging.finish] at hwork
          obtain ⟨first, -, hrest⟩ := Exec.bind_eq_ret_iff.mp hwork
          obtain ⟨second, -, hret⟩ := Exec.bind_eq_ret_iff.mp hrest
          cases hret
          rw [Option.map_none, Option.getD_none, List.append_nil]

namespace DiskLogging

variable (settings : Settings) {disk : DiskLogging}

structure Invariant (disk : DiskLogging) : Prop where
  logging : disk.logging.Invariant
  recorded : ∃ closed current, Recorded disk.output closed current
  output : disk.output.files.flatMap AppendFile.content = disk.logging.output

theorem content_files {log : LogFile} {closed : List (List Append)} {current : List Append}
    (hrecorded : Recorded log closed current) :
    log.files.flatMap AppendFile.content =
      (closed.flatten ++ current).flatMap Append.accepted := by
  obtain ⟨file, hfile, -, hcontent⟩ := hrecorded.latest
  rw [LogFile.files, hfile, Option.toList_some,
    flatMap_content (List.rel_append hrecorded.contents (.cons hcontent .nil)),
    List.flatten_append, List.flatten_singleton]

/-- A call of `LogFile` adds to the files what was taken from its line. -/
theorem writeOutput_spec (logging : AsyncLogging) {output : LogFile}
    (hrecorded : ∃ closed current, Recorded output closed current) {printed : Bytes}
    {fwrite : Bytes → List ℕ} {now rollNow : ℤ} {opens : Bool}
    (hwrites : (DiskEvent.work printed fwrite now rollNow opens).Writes) :
    ∃ output',
      writeOutput settings logging output printed fwrite now rollNow opens = .ret output' ∧
      (∃ closed current, Recorded output' closed current) ∧
      output'.files.flatMap AppendFile.content =
        output.files.flatMap AppendFile.content ++ (outputCall logging printed).getD [] := by
  obtain ⟨closed, current, hrecorded⟩ := hrecorded
  have hcontent := content_files hrecorded
  cases hcall : outputCall logging printed with
  | some line =>
      have hstep := hrecorded.step settings
        (.append { line, writes := fwrite line, now, rollNow, opens })
        (fun append happend => List.mem_singleton.mp happend ▸ hwrites.1)
      obtain ⟨output', closed', current', happend, hrecorded', happends⟩ := hstep
      refine ⟨output', ?_, ⟨closed', current', hrecorded'⟩, ?_⟩
      · simp only [writeOutput, hcall]
        exact happend
      · rw [content_files hrecorded', happends, List.flatMap_append, ← hcontent]
        congr 1
        exact (List.flatMap_singleton ..).trans (Append.accepted_eq (hwrites.2 line))
  | none =>
      rw [Option.getD_none, List.append_nil]
      by_cases hflushes : flushes logging = true
      · obtain ⟨output', hflush, hrecorded'⟩ := hrecorded.flush
        refine ⟨output', ?_, ⟨closed, current, hrecorded'⟩, ?_⟩
        · simpa only [writeOutput, hcall, hflushes, if_true] using hflush
        · rw [content_files hrecorded', hcontent]
      · refine ⟨output, ?_, ⟨closed, current, hrecorded⟩, rfl⟩
        simp only [writeOutput, hcall, hflushes, if_false, Bool.false_eq_true]

/-- A step of logging or writing keeps the files in step with the log. -/
theorem step_invariant (hinvariant : Invariant disk) {event : DiskEvent}
    (hwrites : event.Writes) :
    ∃ disk', disk.step settings event = .ret disk' ∧ Invariant disk' ∧
      (disk'.logging.dropped = false → disk.logging.dropped = false ∧
        disk'.logging.log = disk.logging.log ++ event.bytes) := by
  cases event with
  | append line =>
      obtain ⟨after, happend, hafter, hlog, hdropped⟩ :=
        AsyncLogging.append_spec hinvariant.logging line
      refine ⟨{ disk with logging := after }, ?_, ⟨hafter, hinvariant.recorded, ?_⟩,
        fun hnone => ⟨hdropped.symm.trans hnone, hlog⟩⟩
      · rw [step, happend, Exec.mapFault_ret, Exec.ret_bind]
      · rw [hinvariant.output, output_append happend]
  | work printed fwrite now rollNow opens =>
      obtain ⟨after, hwork, hafter, hlog⟩ := AsyncLogging.work_spec hinvariant.logging printed
      obtain ⟨output, hwrite, hrecorded, hcontent⟩ :=
        writeOutput_spec settings disk.logging hinvariant.recorded hwrites
      refine ⟨{ logging := after, output }, ?_, ⟨hafter, hrecorded, ?_⟩, fun hnone => ?_⟩
      · rw [step, hwork, Exec.mapFault_ret, Exec.ret_bind, hwrite, Exec.mapFault_ret,
          Exec.ret_bind]
      · rw [hcontent, hinvariant.output, output_work hwork]
      · rw [DiskEvent.bytes, List.append_nil]
        exact hlog hnone

theorem run_invariant (hinvariant : Invariant disk) {events : List DiskEvent}
    (hwrites : ∀ event ∈ events, event.Writes) :
    ∃ disk', runFrom (step settings) disk events = .ret disk' ∧ Invariant disk' ∧
      (disk'.logging.dropped = false → disk.logging.dropped = false ∧
        disk'.logging.log = disk.logging.log ++ events.flatMap DiskEvent.bytes) := by
  induction events generalizing disk with
  | nil => exact ⟨disk, rfl, hinvariant, fun hnone => ⟨hnone, (List.append_nil _).symm⟩⟩
  | cons event events ih =>
      obtain ⟨middle, hstep, hmiddle, hevent⟩ :=
        step_invariant settings hinvariant (hwrites event List.mem_cons_self)
      obtain ⟨disk', hrest, hinvariant', hevents⟩ :=
        ih hmiddle fun event hmem => hwrites event (List.mem_cons_of_mem _ hmem)
      refine ⟨disk', runFrom_cons_eq_ret_iff.mpr ⟨middle, hstep, hrest⟩, hinvariant',
        fun hnone => ?_⟩
      obtain ⟨hkept, hlater⟩ := hevents hnone
      obtain ⟨hbefore, hfirst⟩ := hevent hkept
      refine ⟨hbefore, ?_⟩
      rw [hlater, hfirst, List.flatMap_cons, List.append_assoc]

end DiskLogging

/-- As long as files can be opened and `fwrite` takes what it is given, nothing fails, and
unless buffers were dropped, what it took, the buffers that are being written and those of the
threads have the lines in the order in which they were logged. -/
theorem disk_of_run (settings : Settings) (start : ℤ) (hstart : 0 < start)
    (events : List DiskEvent) (hwrites : ∀ event ∈ events, event.Writes) :
    ∃ disk, DiskLogging.run settings start events = .ret disk ∧
      (disk.logging.dropped = false →
        disk.output.files.flatMap AppendFile.content ++
          contents (disk.logging.buffersToWrite.drop disk.logging.phase.written) ++
          contents disk.logging.buffers ++ contents disk.logging.currentBuffer.toList =
        events.flatMap DiskEvent.bytes) := by
  have hinitial : DiskLogging.Invariant { output := .start start } :=
    ⟨AsyncLogging.initial_invariant, ⟨[], [], Recorded.of_start start⟩, rfl⟩
  obtain ⟨disk, hrun, hinvariant, hlog⟩ :=
    DiskLogging.run_invariant settings hinitial hwrites
  refine ⟨disk, ?_, fun hnone => ?_⟩
  · rw [DiskLogging.run, new_eq hstart, Exec.mapFault_ret, Exec.ret_bind, hrun]
  rw [hinvariant.output]
  exact (hlog hnone).2

/-- `fwrite` takes one byte at a time. -/
def bytewise (line : Bytes) : List ℕ := List.replicate line.length 1

theorem writes_bytewise (printed : Bytes) (now rollNow : ℤ) :
    (DiskEvent.work printed bytewise now rollNow true).Writes := by
  refine ⟨rfl, fun line => ?_⟩
  simp [bytewise]

/-- A line is on its way to the file when the next one is logged. -/
def someLogging : List DiskEvent :=
  [.append ⟨ascii "one\n", by decide⟩, .work [] bytewise 101 101 true,
    .append ⟨ascii "two\n", by decide⟩, .work [] bytewise 102 102 true,
    .work [] bytewise 103 103 true]

theorem disk_of_run_someLogging :
    ∃ disk, DiskLogging.run someSettings 100 someLogging = .ret disk ∧
      (disk.logging.dropped = false →
        disk.output.files.flatMap AppendFile.content ++
          contents (disk.logging.buffersToWrite.drop disk.logging.phase.written) ++
          contents disk.logging.buffers ++ contents disk.logging.currentBuffer.toList =
        someLogging.flatMap DiskEvent.bytes) :=
  disk_of_run someSettings 100 (by decide) someLogging (by
    simp only [someLogging, List.mem_cons, List.not_mem_nil, or_false, forall_eq_or_imp,
      forall_eq]
    exact ⟨trivial, writes_bytewise [] 101 101, trivial, writes_bytewise [] 102 102,
      writes_bytewise [] 103 103⟩)

end Disk

end Cuber.LogFiles
