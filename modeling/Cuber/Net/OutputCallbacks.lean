import Cuber.Net.TcpConnection

/-!
# What a connection tells about its output

A user of a `TcpConnection` may set a callback for the time when all output was
handed to the kernel, and one for the time when the output that waits in the
buffer rises to a mark.  `sendInLoop` and `handleWrite` post them to the event
loop.  Here the posted callbacks are read off the branches of both functions, and
compared with what happens to the output of a whole run.
-/

namespace Cuber.Connection

open Cuber.Text

inductive OutputCallback where
  | writeComplete
  | highWaterMark (size : ℕ)
  deriving DecidableEq

/-- The callbacks that are set, and `highWaterMark_`. -/
structure Callbacks where
  writeComplete : Bool := false
  highWaterMark : Bool := false
  mark : ℕ := 64 * 1024 * 1024

namespace Callbacks

/-- What is posted when the bytes that remain are queued. -/
def onQueue (callbacks : Callbacks) (conn : TcpConnection) (remaining : Bytes) :
    List OutputCallback :=
  let oldLen := conn.outputBuffer.length
  if remaining ≠ [] ∧ oldLen + remaining.length ≥ callbacks.mark ∧ oldLen < callbacks.mark ∧
      callbacks.highWaterMark then
    [.highWaterMark (oldLen + remaining.length)]
  else []

def onSendInLoop (callbacks : Callbacks) (conn : TcpConnection) (data : Bytes)
    (result : WriteResult) : List OutputCallback :=
  if conn.state = .kDisconnected then []
  else if conn.writing = false ∧ conn.outputBuffer = [] then
    match result with
    | .wrote limit =>
        (if data.drop limit = [] ∧ callbacks.writeComplete then [.writeComplete] else []) ++
          callbacks.onQueue conn (data.drop limit)
    | .failed errno =>
        if errno = .EPIPE ∨ errno = .ECONNRESET then [] else callbacks.onQueue conn data
  else callbacks.onQueue conn data

def onSend (callbacks : Callbacks) (conn : TcpConnection) (data : Bytes)
    (result : WriteResult) : List OutputCallback :=
  if conn.state = .kConnected then callbacks.onSendInLoop conn data result else []

def onHandleWrite (callbacks : Callbacks) (conn : TcpConnection) (result : WriteResult) :
    List OutputCallback :=
  if conn.writing then
    match result with
    | .wrote limit =>
        if min limit conn.outputBuffer.length = 0 then []
        else if conn.outputBuffer.drop limit = [] ∧ callbacks.writeComplete then [.writeComplete]
        else []
    | .failed _ => []
  else []

def onEvent (callbacks : Callbacks) (conn : TcpConnection) : OutputEvent → List OutputCallback
  | .send data result => callbacks.onSend conn data result
  | .writable result => callbacks.onHandleWrite conn result
  | .shutdown | .closed => []

def posted (callbacks : Callbacks) : TcpConnection → List OutputEvent → List OutputCallback
  | _, [] => []
  | conn, event :: events =>
      callbacks.onEvent conn event ++ callbacks.posted (conn.handle event) events

end Callbacks

/-- The sizes that are told by the callbacks for the mark. -/
def toldSizes (posted : List OutputCallback) : List ℕ :=
  posted.filterMap fun callback =>
    match callback with
    | .highWaterMark size => some size
    | .writeComplete => none

/-- The values at which a sequence rises to the mark. -/
def crossings (mark : ℕ) : List ℕ → List ℕ
  | before :: after :: rest =>
      (if before < mark ∧ mark ≤ after then [after] else []) ++ crossings mark (after :: rest)
  | _ => []

namespace TcpConnection

def pending (conn : TcpConnection) : ℕ := conn.outputBuffer.length

/-- The event leaves nothing waiting, and has handed bytes to the kernel, or there were none to
hand to it. -/
def Completes (conn : TcpConnection) (event : OutputEvent) : Prop :=
  (conn.handle event).outputBuffer = [] ∧
    (conn.accepted.length < (conn.handle event).accepted.length ∨
      match event with
      | .send data (.wrote _) => data = [] ∧ conn.state = .kConnected ∧ conn.outputBuffer = []
      | _ => False)

instance (conn : TcpConnection) (event : OutputEvent) : Decidable (conn.Completes event) := by
  unfold Completes
  cases event with
  | send data result => cases result <;> exact inferInstanceAs (Decidable (_ ∧ _))
  | shutdown | writable | closed => exact inferInstanceAs (Decidable (_ ∧ _))

/-- How often the output is completed in a run. -/
def completions : TcpConnection → List OutputEvent → ℕ
  | _, [] => 0
  | conn, event :: events =>
      (if conn.Completes event then 1 else 0) + completions (conn.handle event) events

section Steps

variable {conn : TcpConnection} {callbacks : Callbacks} {submitted : Bytes}

theorem pending_queue (remaining : Bytes) :
    (conn.queue remaining).pending = conn.pending + remaining.length := by
  rw [queue]
  split_ifs with hnone
  · rw [hnone]
    rfl
  · exact List.length_append

theorem pending_shutdownInLoop : conn.shutdownInLoop.pending = conn.pending := by
  rw [shutdownInLoop]
  split_ifs <;> rfl

theorem pending_retrieveOutput_le (count : ℕ) :
    (conn.retrieveOutput count).pending ≤ conn.pending := by
  have hdrop : (conn.outputBuffer.drop count).length ≤ conn.outputBuffer.length := by
    rw [List.length_drop]
    exact Nat.sub_le _ _
  rw [retrieveOutput]
  simp only
  split_ifs
  · rw [pending_shutdownInLoop]
    exact hdrop
  · exact hdrop
  · exact hdrop

/-- What is told when a value changes. -/
def told (callbacks : Callbacks) (before after : ℕ) : List ℕ :=
  if callbacks.highWaterMark ∧ before < callbacks.mark ∧ callbacks.mark ≤ after then [after]
  else []

theorem told_of_le {before after : ℕ} (hle : after ≤ before) :
    told callbacks before after = [] := by
  rw [told, if_neg]
  omega

/-- Queueing tells of the mark just when the size rises to it. -/
theorem toldSizes_onQueue (remaining : Bytes) :
    toldSizes (callbacks.onQueue conn remaining) =
      told callbacks conn.pending (conn.queue remaining).pending := by
  rw [pending_queue, Callbacks.onQueue, told]
  by_cases hnone : remaining = []
  · subst hnone
    rw [if_neg (fun hqueued => hqueued.1 rfl), if_neg (by simp)]
    rfl
  · have hsame : (remaining ≠ [] ∧ conn.outputBuffer.length + remaining.length ≥ callbacks.mark ∧
        conn.outputBuffer.length < callbacks.mark ∧ callbacks.highWaterMark = true) ↔
        (callbacks.highWaterMark = true ∧ conn.pending < callbacks.mark ∧
          callbacks.mark ≤ conn.pending + remaining.length) := by
      rw [pending]
      tauto
    rw [apply_ite toldSizes, if_congr hsame rfl rfl]
    rfl

theorem toldSizes_append (first second : List OutputCallback) :
    toldSizes (first ++ second) = toldSizes first ++ toldSizes second :=
  List.filterMap_append

theorem toldSizes_writeComplete (condition : Prop) [Decidable condition] :
    toldSizes (if condition then [.writeComplete] else []) = [] := by
  split_ifs <;> rfl

/-- So does sending. -/
theorem toldSizes_onSendInLoop (data : Bytes) (result : WriteResult) :
    toldSizes (callbacks.onSendInLoop conn data result) =
      told callbacks conn.pending (conn.sendInLoop data result).pending := by
  unfold Callbacks.onSendInLoop sendInLoop
  split_ifs
  · exact (told_of_le le_rfl).symm
  · cases result with
    | wrote limit =>
        dsimp only
        rw [toldSizes_append, toldSizes_writeComplete, List.nil_append]
        exact @toldSizes_onQueue { conn with accepted := conn.accepted ++ data.take limit }
          callbacks (data.drop limit)
    | failed errno =>
        dsimp only
        split_ifs
        · exact (told_of_le le_rfl).symm
        · exact toldSizes_onQueue data
  · exact toldSizes_onQueue data

/-- Each event tells of a rise to the mark, and of nothing else. -/
theorem toldSizes_onEvent (event : OutputEvent) :
    toldSizes (callbacks.onEvent conn event) =
      told callbacks conn.pending (conn.handle event).pending := by
  cases event with
  | send data result =>
      rw [Callbacks.onEvent, Callbacks.onSend, handle, send]
      split_ifs
      · exact toldSizes_onSendInLoop data result
      · exact (told_of_le le_rfl).symm
  | shutdown =>
      rw [handle, shutdown]
      split_ifs
      · rw [pending_shutdownInLoop]
        exact (told_of_le le_rfl).symm
      · exact (told_of_le le_rfl).symm
  | writable result =>
      unfold Callbacks.onEvent Callbacks.onHandleWrite handle handleWrite
      split_ifs
      · cases result with
        | wrote limit =>
            dsimp only
            split_ifs
            · exact (told_of_le le_rfl).symm
            · exact (told_of_le (pending_retrieveOutput_le limit)).symm
            · exact (told_of_le (pending_retrieveOutput_le limit)).symm
        | failed errno => exact (told_of_le le_rfl).symm
      · exact (told_of_le le_rfl).symm
  | closed => exact (told_of_le le_rfl).symm

/-- How often the completion of the output is told. -/
def toldComplete (posted : List OutputCallback) : ℕ := posted.count .writeComplete

theorem toldComplete_onQueue (remaining : Bytes) :
    toldComplete (callbacks.onQueue conn remaining) = 0 := by
  rw [Callbacks.onQueue, toldComplete, List.count_eq_zero]
  split_ifs <;> simp

theorem outputBuffer_queue (remaining : Bytes) :
    (conn.queue remaining).outputBuffer = conn.outputBuffer ++ remaining := by
  rw [queue]
  split_ifs with hnone
  · rw [hnone, List.append_nil]
  · rfl

theorem accepted_queue (remaining : Bytes) : (conn.queue remaining).accepted = conn.accepted := by
  rw [queue]
  split_ifs <;> rfl

theorem accepted_shutdownInLoop : conn.shutdownInLoop.accepted = conn.accepted := by
  rw [shutdownInLoop]
  split_ifs <;> rfl

theorem outputBuffer_shutdownInLoop :
    conn.shutdownInLoop.outputBuffer = conn.outputBuffer := by
  rw [shutdownInLoop]
  split_ifs <;> rfl

theorem outputBuffer_retrieveOutput (count : ℕ) :
    (conn.retrieveOutput count).outputBuffer = conn.outputBuffer.drop count ∧
      (conn.retrieveOutput count).accepted = conn.accepted ++ conn.outputBuffer.take count := by
  rw [retrieveOutput]
  simp only
  split_ifs
  · exact ⟨outputBuffer_shutdownInLoop, accepted_shutdownInLoop⟩
  · exact ⟨rfl, rfl⟩
  · exact ⟨rfl, rfl⟩

/-- An event that hands nothing to the kernel, and is not a `send` of nothing, completes
nothing. -/
theorem not_completes_of_accepted {event : OutputEvent}
    (hsame : (conn.handle event).accepted = conn.accepted)
    (hother : ∀ data limit, event = .send data (.wrote limit) → data ≠ [] ∨
      conn.state ≠ .kConnected ∨ conn.outputBuffer ≠ []) : ¬ conn.Completes event := by
  rintro ⟨-, hgrows | hnothing⟩
  · rw [hsame] at hgrows
    exact lt_irrefl _ hgrows
  · cases event with
    | send data result =>
        cases result with
        | wrote limit =>
            rcases hother data limit rfl with hdata | hstate | hbuffer
            · exact hdata hnothing.1
            · exact hstate hnothing.2.1
            · exact hbuffer hnothing.2.2
        | failed errno => exact hnothing
    | shutdown | writable | closed => exact hnothing

theorem not_completes_of_pending {event : OutputEvent}
    (hpending : (conn.handle event).outputBuffer ≠ []) : ¬ conn.Completes event :=
  fun hcompletes => hpending hcompletes.1

theorem toldComplete_append (first second : List OutputCallback) :
    toldComplete (first ++ second) = toldComplete first + toldComplete second :=
  List.count_append

theorem toldComplete_writeComplete (condition : Prop) [Decidable condition] :
    toldComplete (if condition then [.writeComplete] else []) = if condition then 1 else 0 := by
  split_ifs <;> rfl

/-- What is written at once completes the output if it is taken as a whole. -/
theorem toldComplete_wrote (hstate : conn.state = .kConnected)
    (hdirect : conn.writing = false ∧ conn.outputBuffer = []) (data : Bytes) (limit : ℕ) :
    toldComplete (callbacks.onEvent conn (.send data (.wrote limit))) =
      if callbacks.writeComplete ∧ conn.Completes (.send data (.wrote limit)) then 1 else 0 := by
  have hhandle : conn.handle (.send data (.wrote limit)) = queue { conn with
      accepted := conn.accepted ++ data.take limit } (data.drop limit) := by
    rw [handle, send, if_pos hstate, sendInLoop, if_neg (by simp [hstate]), if_pos hdirect]
  have htold : toldComplete (callbacks.onEvent conn (.send data (.wrote limit))) =
      if data.drop limit = [] ∧ callbacks.writeComplete then 1 else 0 := by
    rw [Callbacks.onEvent, Callbacks.onSend, if_pos hstate, Callbacks.onSendInLoop,
      if_neg (by simp [hstate]), if_pos hdirect, toldComplete_append,
      toldComplete_writeComplete, toldComplete_onQueue, Nat.add_zero]
  have hcompletes : conn.Completes (.send data (.wrote limit)) ↔ data.drop limit = [] := by
    rw [Completes, hhandle, outputBuffer_queue, accepted_queue]
    dsimp only
    rw [hdirect.2, List.nil_append, List.length_append]
    constructor
    · exact And.left
    · intro hall
      refine ⟨hall, ?_⟩
      cases data with
      | nil => exact Or.inr ⟨rfl, hstate, rfl⟩
      | cons byte data =>
          have hlength : (byte :: data).length ≤ limit := List.drop_eq_nil_iff.mp hall
          rw [List.take_of_length_le hlength]
          exact Or.inl (by simp)
  rw [htold, if_congr (and_comm.trans (and_congr_right fun _ => hcompletes.symm)) rfl rfl]

/-- What is written later completes the output if the kernel takes all that waits. -/
theorem toldComplete_writable (hwriting : conn.writing = true) (hbuffer : conn.outputBuffer ≠ [])
    (limit : ℕ) :
    toldComplete (callbacks.onEvent conn (.writable (.wrote limit))) =
      if callbacks.writeComplete ∧ conn.Completes (.writable (.wrote limit)) then 1 else 0 := by
  rw [Callbacks.onEvent, Callbacks.onHandleWrite, if_pos hwriting]
  have hhandle : conn.handle (.writable (.wrote limit)) =
      if min limit conn.outputBuffer.length = 0 then conn else conn.retrieveOutput limit := by
    rw [handle, handleWrite, if_pos hwriting]
  by_cases hnothing : min limit conn.outputBuffer.length = 0
  · rw [if_pos hnothing] at hhandle ⊢
    have hnot : ¬ conn.Completes (.writable (.wrote limit)) := by
      apply not_completes_of_pending
      rw [hhandle]
      exact hbuffer
    rw [if_neg fun hboth => hnot hboth.2]
    rfl
  · rw [if_neg hnothing] at hhandle ⊢
    obtain ⟨hleft, htaken⟩ := @outputBuffer_retrieveOutput conn limit
    have hcompletes : conn.Completes (.writable (.wrote limit)) ↔
        conn.outputBuffer.drop limit = [] := by
      constructor
      · intro hdone
        have hnone := hdone.1
        rw [hhandle, hleft] at hnone
        exact hnone
      · intro hall
        refine ⟨?_, Or.inl ?_⟩
        · rw [hhandle, hleft]
          exact hall
        · rw [hhandle, htaken, List.length_append, List.length_take]
          exact Nat.lt_add_of_pos_right (Nat.pos_of_ne_zero hnothing)
    rw [toldComplete_writeComplete,
      if_congr (and_comm.trans (and_congr_right fun _ => hcompletes.symm)) rfl rfl]

theorem toldComplete_of_not_completes {event : OutputEvent} (hnot : ¬ conn.Completes event)
    (hnone : toldComplete (callbacks.onEvent conn event) = 0) :
    toldComplete (callbacks.onEvent conn event) =
      if callbacks.writeComplete ∧ conn.Completes event then 1 else 0 := by
  rw [hnone, if_neg fun hboth => hnot hboth.2]

/-- What could not be written at once is queued as a whole. -/
theorem toldComplete_failed (hstate : conn.state = .kConnected)
    (hdirect : conn.writing = false ∧ conn.outputBuffer = []) (data : Bytes) (errno : WriteErrno)
    (hopen : (conn.handle (.send data (.failed errno))).ended = false) :
    toldComplete (callbacks.onEvent conn (.send data (.failed errno))) =
      if callbacks.writeComplete ∧ conn.Completes (.send data (.failed errno)) then 1 else 0 := by
  rw [handle, send, if_pos hstate, sendInLoop, if_neg (by simp [hstate]),
    if_pos hdirect] at hopen
  split_ifs at hopen with hfatal
  apply toldComplete_of_not_completes
  · apply not_completes_of_accepted
    · rw [handle, send, if_pos hstate, sendInLoop, if_neg (by simp [hstate]),
        if_pos hdirect, if_neg hfatal]
      exact accepted_queue data
    · intro _ _ hother
      cases hother
  · rw [Callbacks.onEvent, Callbacks.onSend, if_pos hstate, Callbacks.onSendInLoop,
      if_neg (by simp [hstate]), if_pos hdirect, if_neg hfatal]
    exact toldComplete_onQueue data

/-- What is sent while something waits is queued behind it. -/
theorem toldComplete_behind (hlossless : conn.Lossless submitted)
    (hstate : conn.state = .kConnected)
    (hdirect : ¬ (conn.writing = false ∧ conn.outputBuffer = [])) (data : Bytes)
    (result : WriteResult) :
    toldComplete (callbacks.onEvent conn (.send data result)) =
      if callbacks.writeComplete ∧ conn.Completes (.send data result) then 1 else 0 := by
  have hbuffer : conn.outputBuffer ≠ [] := by
    intro hnone
    refine hdirect ⟨Bool.eq_false_iff.mpr fun hwriting => ?_, hnone⟩
    exact hlossless.interested.mp hwriting hnone
  apply toldComplete_of_not_completes
  · apply not_completes_of_pending
    rw [handle, send, if_pos hstate]
    unfold sendInLoop
    rw [if_neg (by simp [hstate]), if_neg hdirect, outputBuffer_queue]
    simp [hbuffer]
  · rw [Callbacks.onEvent, Callbacks.onSend, if_pos hstate]
    unfold Callbacks.onSendInLoop
    rw [if_neg (by simp [hstate]), if_neg hdirect]
    exact toldComplete_onQueue data

/-- Sending tells that nothing is left just when that is so. -/
theorem toldComplete_send (hlossless : conn.Lossless submitted) (data : Bytes)
    (result : WriteResult) (hopen : (conn.handle (.send data result)).ended = false) :
    toldComplete (callbacks.onEvent conn (.send data result)) =
      if callbacks.writeComplete ∧ conn.Completes (.send data result) then 1 else 0 := by
  by_cases hstate : conn.state = .kConnected
  · by_cases hdirect : conn.writing = false ∧ conn.outputBuffer = []
    · cases result with
      | wrote limit => exact toldComplete_wrote hstate hdirect data limit
      | failed errno => exact toldComplete_failed hstate hdirect data errno hopen
    · exact toldComplete_behind hlossless hstate hdirect data result
  · apply toldComplete_of_not_completes
    · apply not_completes_of_accepted
      · rw [handle, send, if_neg hstate]
      · exact fun _ _ _ => Or.inr (Or.inl hstate)
    · rw [Callbacks.onEvent, Callbacks.onSend, if_neg hstate]
      rfl

/-- So does writing, if something was written. -/
theorem toldComplete_handleWrite (hlossless : conn.Lossless submitted)
    (result : WriteResult) :
    toldComplete (callbacks.onEvent conn (.writable result)) =
      if callbacks.writeComplete ∧ conn.Completes (.writable result) then 1 else 0 := by
  by_cases hwriting : conn.writing = true
  · have hbuffer := hlossless.interested.mp hwriting
    cases result with
    | wrote limit => exact toldComplete_writable hwriting hbuffer limit
    | failed errno =>
        apply toldComplete_of_not_completes
        · apply not_completes_of_pending
          rw [handle, handleWrite, if_pos hwriting]
          exact hbuffer
        · rw [Callbacks.onEvent, Callbacks.onHandleWrite, if_pos hwriting]
          rfl
  · apply toldComplete_of_not_completes
    · apply not_completes_of_accepted
      · rw [handle]
        unfold handleWrite
        rw [if_neg hwriting]
      · intro _ _ hother
        cases hother
    · rw [Callbacks.onEvent]
      unfold Callbacks.onHandleWrite
      rw [if_neg hwriting]
      rfl

theorem toldComplete_shutdown : toldComplete (callbacks.onEvent conn .shutdown) =
    if callbacks.writeComplete ∧ conn.Completes .shutdown then 1 else 0 := by
  apply toldComplete_of_not_completes
  · apply not_completes_of_accepted
    · rw [handle, shutdown]
      split_ifs
      · exact accepted_shutdownInLoop
      · rfl
    · intro _ _ hother
      cases hother
  · rfl

/-- A completion is told when the output is completed, and at no other time. -/
theorem toldComplete_onEvent (hlossless : conn.Lossless submitted) {event : OutputEvent}
    (hopen : (conn.handle event).ended = false) :
    toldComplete (callbacks.onEvent conn event) =
      if callbacks.writeComplete ∧ conn.Completes event then 1 else 0 := by
  cases event with
  | send data result => exact toldComplete_send hlossless data result hopen
  | shutdown => exact toldComplete_shutdown
  | writable result => exact toldComplete_handleWrite hlossless result
  | closed => cases hopen

/-- At a completion the kernel has all that was sent. -/
theorem accepted_of_completes (hlossless : conn.Lossless submitted) {event : OutputEvent}
    (hopen : (conn.handle event).ended = false) (hcompletes : conn.Completes event) :
    (conn.handle event).accepted = submitted ++ conn.submits event := by
  have hordered := (lossless_handle hlossless hopen).ordered
  rw [hcompletes.1, List.append_nil] at hordered
  exact hordered

end Steps

def pendings (conn : TcpConnection) (events : List OutputEvent) : List ℕ :=
  (events.scanl handle conn).map pending

theorem crossings_pendings (mark : ℕ) (conn : TcpConnection) (event : OutputEvent)
    (events : List OutputEvent) :
    crossings mark (pendings conn (event :: events)) =
      (if conn.pending < mark ∧ mark ≤ (conn.handle event).pending then
        [(conn.handle event).pending] else []) ++
        crossings mark (pendings (conn.handle event) events) := by
  rw [pendings, pendings, List.scanl_cons]
  cases events with
  | nil => rfl
  | cons next events =>
      rw [List.scanl_cons]
      rfl

/-- The sizes that are told are those at which the output buffer rises to the mark. -/
theorem toldSizes_posted (callbacks : Callbacks) (conn : TcpConnection)
    (events : List OutputEvent) :
    toldSizes (callbacks.posted conn events) =
      if callbacks.highWaterMark then crossings callbacks.mark (pendings conn events) else [] := by
  induction events generalizing conn with
  | nil => cases callbacks.highWaterMark <;> rfl
  | cons event events ih =>
      rw [Callbacks.posted, toldSizes_append, toldSizes_onEvent, ih, crossings_pendings, told]
      cases callbacks.highWaterMark <;> simp

theorem ended_of_foldl {conn : TcpConnection} {events : List OutputEvent}
    (hopen : (events.foldl handle conn).ended = false) : conn.ended = false := by
  induction events generalizing conn with
  | nil => exact hopen
  | cons event events ih => exact ended_of_handle (ih hopen)

theorem toldComplete_posted (callbacks : Callbacks) {conn : TcpConnection} {submitted : Bytes}
    (hlossless : conn.Lossless submitted) {events : List OutputEvent}
    (hopen : (events.foldl handle conn).ended = false) :
    toldComplete (callbacks.posted conn events) =
      if callbacks.writeComplete then conn.completions events else 0 := by
  induction events generalizing conn submitted with
  | nil => cases callbacks.writeComplete <;> rfl
  | cons event events ih =>
      have hevent : (conn.handle event).ended = false := ended_of_foldl hopen
      rw [Callbacks.posted, toldComplete_append, toldComplete_onEvent hlossless hevent,
        ih (lossless_handle hlossless hevent) hopen, completions]
      cases callbacks.writeComplete <;> simp

theorem submitted_append (conn : TcpConnection) (before events : List OutputEvent) :
    conn.submitted (before ++ events) =
      conn.submitted before ++ (before.foldl handle conn).submitted events := by
  induction before generalizing conn with
  | nil => rfl
  | cons event before ih =>
      rw [List.cons_append, submitted, submitted, ih, List.foldl_cons, List.append_assoc]

/-- Until a write fails for good or the connection is closed: a callback for the mark is posted
each time that the output buffer rises to the mark, with the size that it then has, and at no
other time; and one for the completion each time that nothing is left to write after bytes
were handed to the kernel, which then has all that was sent. -/
theorem callbacks_of_run (callbacks : Callbacks) (events : List OutputEvent)
    (hopen : (events.foldl handle established).ended = false) :
    toldSizes (callbacks.posted established events) =
        (if callbacks.highWaterMark then
          crossings callbacks.mark (pendings established events) else []) ∧
      toldComplete (callbacks.posted established events) =
          (if callbacks.writeComplete then established.completions events else 0) ∧
        ∀ before event, before ++ [event] <+: events →
          (before.foldl handle established).Completes event →
            ((before ++ [event]).foldl handle established).accepted =
              established.submitted (before ++ [event]) := by
  refine ⟨toldSizes_posted callbacks established events,
    toldComplete_posted callbacks lossless_established hopen, ?_⟩
  rintro before event ⟨later, rfl⟩ hcompletes
  rw [List.foldl_append] at hopen
  have hevent := ended_of_foldl hopen
  have hsubmitted : established.submitted (before ++ [event]) =
      established.submitted before ++ (before.foldl handle established).submits event := by
    rw [submitted_append, submitted, submitted, List.append_nil]
  rw [List.foldl_append] at hevent ⊢
  rw [hsubmitted]
  have hlossless : (before.foldl handle established).Lossless (established.submitted before) :=
    lossless_foldl (fun _ => lossless_established) before (ended_of_handle hevent)
  exact accepted_of_completes hlossless hevent hcompletes

/-- The kernel takes two bytes of the first response at once, and the rest of both when it
can: the buffer rises to the mark once, and the output is completed once. -/
theorem callbacks_of_slowRun :
    let callbacks : Callbacks := ⟨true, true, 5⟩
    toldSizes (callbacks.posted established slowRun) =
        (if callbacks.highWaterMark then
          crossings callbacks.mark (pendings established slowRun) else []) ∧
      toldComplete (callbacks.posted established slowRun) =
          (if callbacks.writeComplete then established.completions slowRun else 0) ∧
        ∀ before event, before ++ [event] <+: slowRun →
          (before.foldl handle established).Completes event →
            ((before ++ [event]).foldl handle established).accepted =
              established.submitted (before ++ [event]) :=
  callbacks_of_run ⟨true, true, 5⟩ slowRun (by decide)

end TcpConnection

end Cuber.Connection
