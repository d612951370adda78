import Cuber.Base.Text

/-!
# The output side of a connection

`TcpConnection::send` writes to the socket when nothing is queued, and queues
what the kernel did not take in the output buffer; writable events then empty
the buffer.  A shutdown waits until nothing is left to write.  All calls are
made in the thread of the event loop.

What the kernel does with a write is an argument of each call.  The record keeps
account of what the kernel accepted and of the shutdowns of the socket, neither
of which the code looks at; what was submitted is read off the calls.
-/

namespace Cuber.Connection

open Cuber.Text

inductive StateE where
  | kDisconnected
  | kConnecting
  | kConnected
  | kDisconnecting
  deriving DecidableEq

/-- The values of `errno` after a failed write that the code tells apart. -/
inductive WriteErrno where
  | EWOULDBLOCK
  | EPIPE
  | ECONNRESET
  | other
  deriving DecidableEq

/-- What `sockets::write` returns: a count, which is cut to the length that was
asked for, or an error. -/
inductive WriteResult where
  | wrote (limit : ℕ)
  | failed (errno : WriteErrno)
  deriving DecidableEq

/-- An error after which the peer gets no more bytes. -/
def WriteResult.isFatal : WriteResult → Bool
  | .failed .EPIPE => true
  | .failed .ECONNRESET => true
  | _ => false

structure TcpConnection where
  name : Bytes := []
  state : StateE := .kConnecting
  /-- `channel_->isReading()`. -/
  reading : Bool := false
  /-- `channel_->isWriting()`. -/
  writing : Bool := false
  outputBuffer : Bytes := []
  /-- In microseconds since the epoch. -/
  lastReceiveTime : ℤ := 0
  /-- All bytes that the kernel accepted. -/
  accepted : Bytes := []
  /-- What was in the output buffer at each `shutdownWrite` of the socket. -/
  shutdownWrites : List Bytes := []
  /-- A write has failed for good, or the connection was closed. -/
  ended : Bool := false
  deriving DecidableEq

namespace TcpConnection

def connected (conn : TcpConnection) : Bool := conn.state = .kConnected

def disconnected (conn : TcpConnection) : Bool := conn.state = .kDisconnected

def setState (conn : TcpConnection) (state : StateE) : TcpConnection :=
  { conn with state := state }

def updateLastReceiveTime (conn : TcpConnection) (timestamp : ℤ) : TcpConnection :=
  { conn with lastReceiveTime := timestamp }

/-- The state in which `forceClose` and `forceCloseWithDelay` leave a connection
that is not yet closed. -/
def beginForceClose (conn : TcpConnection) : TcpConnection :=
  if conn.state = .kConnected ∨ conn.state = .kDisconnecting then
    conn.setState .kDisconnecting
  else conn

/-- The end of `sendInLoop`: the bytes that remain are queued. -/
def queue (conn : TcpConnection) (remaining : Bytes) : TcpConnection :=
  if remaining = [] then conn
  else { conn with outputBuffer := conn.outputBuffer ++ remaining, writing := true }

def sendInLoop (conn : TcpConnection) (data : Bytes) (result : WriteResult) :
    TcpConnection :=
  if conn.state = .kDisconnected then conn
  else if conn.writing = false ∧ conn.outputBuffer = [] then
    match result with
    | .wrote limit =>
        queue { conn with accepted := conn.accepted ++ data.take limit } (data.drop limit)
    | .failed errno =>
        -- any other error is treated as if nothing had been written
        if errno = .EPIPE ∨ errno = .ECONNRESET then { conn with ended := true }
        else conn.queue data
  else conn.queue data

def send (conn : TcpConnection) (data : Bytes) (result : WriteResult) : TcpConnection :=
  if conn.state = .kConnected then conn.sendInLoop data result else conn

def shutdownInLoop (conn : TcpConnection) : TcpConnection :=
  if conn.writing then conn
  else { conn with shutdownWrites := conn.shutdownWrites ++ [conn.outputBuffer] }

def shutdown (conn : TcpConnection) : TcpConnection :=
  if conn.state = .kConnected then (conn.setState .kDisconnecting).shutdownInLoop
  else conn

/-- What `handleWrite` does once the kernel has taken some bytes. -/
def retrieveOutput (conn : TcpConnection) (count : ℕ) : TcpConnection :=
  let conn := { conn with
    accepted := conn.accepted ++ conn.outputBuffer.take count
    outputBuffer := conn.outputBuffer.drop count }
  if conn.outputBuffer = [] then
    let conn := { conn with writing := false }
    if conn.state = .kDisconnecting then conn.shutdownInLoop else conn
  else conn

def handleWrite (conn : TcpConnection) (result : WriteResult) : TcpConnection :=
  if conn.writing then
    match result with
    | .wrote limit =>
        if min limit conn.outputBuffer.length = 0 then conn else conn.retrieveOutput limit
    -- the bytes stay in the buffer whatever the error is
    | .failed _ => { conn with ended := conn.ended || result.isFatal }
  else conn

def disableAll (conn : TcpConnection) : TcpConnection :=
  { conn with reading := false, writing := false }

end TcpConnection

inductive OutputEvent where
  | send (data : Bytes) (result : WriteResult)
  | shutdown
  /-- The poller reports that the socket is writable. -/
  | writable (result : WriteResult)
  /-- `handleClose`, from whichever cause. -/
  | closed
  deriving DecidableEq

namespace TcpConnection

def handle (conn : TcpConnection) : OutputEvent → TcpConnection
  | .send data result => conn.send data result
  | .shutdown => conn.shutdown
  | .writable result => conn.handleWrite result
  | .closed => { (conn.setState .kDisconnected).disableAll with ended := true }

def submits (conn : TcpConnection) : OutputEvent → Bytes
  | .send data _ => if conn.state = .kConnected then data else []
  | .shutdown | .writable _ | .closed => []

/-- All data passed to `send` in the state `kConnected`, in the order of the calls. -/
def submitted : TcpConnection → List OutputEvent → Bytes
  | _, [] => []
  | conn, event :: events => conn.submits event ++ (conn.handle event).submitted events

def established : TcpConnection where
  state := .kConnected
  reading := true

/-- The bytes of all data sent are at the kernel or, in order, in the output
buffer; the poller is asked for writable events exactly while there are such
bytes; and the socket was shut down only after all of them. -/
structure Lossless (conn : TcpConnection) (submitted : Bytes) : Prop where
  ordered : conn.accepted ++ conn.outputBuffer = submitted
  interested : conn.writing = true ↔ conn.outputBuffer ≠ []
  flushed : ∀ left ∈ conn.shutdownWrites, left = []

section Steps

variable {conn : TcpConnection} {submitted : Bytes}

theorem lossless_setState (hlossless : conn.Lossless submitted) (state : StateE) :
    (conn.setState state).Lossless submitted :=
  ⟨hlossless.ordered, hlossless.interested, hlossless.flushed⟩

/-- Queueing is lossless when the queued bytes are all that is missing. -/
theorem lossless_queue {remaining : Bytes}
    (hordered : conn.accepted ++ (conn.outputBuffer ++ remaining) = submitted)
    (hinterested : conn.writing = true ↔ conn.outputBuffer ≠ [])
    (hflushed : ∀ left ∈ conn.shutdownWrites, left = []) :
    (conn.queue remaining).Lossless submitted := by
  rw [queue]
  split_ifs with hnone
  · rw [hnone, List.append_nil] at hordered
    exact ⟨hordered, hinterested, hflushed⟩
  · exact ⟨hordered, by simp [hnone], hflushed⟩

/-- `sendInLoop` is lossless when its data is all that is missing. -/
theorem lossless_sendInLoop {data : Bytes} {result : WriteResult}
    (hstate : conn.state ≠ .kDisconnected)
    (hordered : conn.accepted ++ (conn.outputBuffer ++ data) = submitted)
    (hinterested : conn.writing = true ↔ conn.outputBuffer ≠ [])
    (hflushed : ∀ left ∈ conn.shutdownWrites, left = [])
    (hopen : (conn.sendInLoop data result).ended = false) :
    (conn.sendInLoop data result).Lossless submitted := by
  unfold sendInLoop at hopen ⊢
  rw [if_neg hstate] at hopen ⊢
  split_ifs at hopen ⊢ with hdirect
  · cases result with
    | wrote limit =>
        have htaken : (conn.accepted ++ data.take limit) ++
            (conn.outputBuffer ++ data.drop limit) = submitted := by
          calc
            (conn.accepted ++ data.take limit) ++ (conn.outputBuffer ++ data.drop limit) =
                conn.accepted ++ (data.take limit ++ data.drop limit) := by
              rw [hdirect.2, List.nil_append, List.append_assoc]
            _ = conn.accepted ++ (conn.outputBuffer ++ data) := by
              rw [List.take_append_drop, hdirect.2, List.nil_append]
            _ = submitted := hordered
        exact @lossless_queue { conn with accepted := conn.accepted ++ data.take limit } _ _
          htaken hinterested hflushed
    | failed errno =>
        simp only at hopen ⊢
        split_ifs at hopen ⊢
        exact lossless_queue hordered hinterested hflushed
  · exact lossless_queue hordered hinterested hflushed

theorem lossless_send (hlossless : conn.Lossless submitted) (data : Bytes) (result : WriteResult)
    (hopen : (conn.send data result).ended = false) :
    (conn.send data result).Lossless (submitted ++ conn.submits (.send data result)) := by
  obtain ⟨hordered, hinterested, hflushed⟩ := hlossless
  rw [send] at hopen ⊢
  rw [submits]
  split_ifs at hopen ⊢ with hstate
  · refine lossless_sendInLoop ?_ ?_ hinterested hflushed hopen
    · simp [hstate]
    · rw [← List.append_assoc, hordered]
  · rw [List.append_nil]
    exact ⟨hordered, hinterested, hflushed⟩

/-- Shutting down loses nothing, since it waits for the output to be written. -/
theorem lossless_shutdownInLoop (hlossless : conn.Lossless submitted) :
    conn.shutdownInLoop.Lossless submitted := by
  obtain ⟨hordered, hinterested, hflushed⟩ := hlossless
  rw [shutdownInLoop]
  split_ifs with hwriting
  · exact ⟨hordered, hinterested, hflushed⟩
  · refine ⟨hordered, hinterested, fun left hleft => ?_⟩
    rcases List.mem_append.mp hleft with hbefore | hnow
    · exact hflushed left hbefore
    · -- nobody asks for writable events, so nothing is queued
      rw [List.mem_singleton.mp hnow]
      by_contra hqueued
      exact hwriting (hinterested.mpr hqueued)

/-- What the kernel has taken is no longer in the buffer. -/
theorem lossless_retrieveOutput (hlossless : conn.Lossless submitted)
    (hwriting : conn.writing = true) (count : ℕ) : (conn.retrieveOutput count).Lossless submitted := by
  obtain ⟨hordered, hinterested, hflushed⟩ := hlossless
  have hsame : (conn.accepted ++ conn.outputBuffer.take count) ++
      conn.outputBuffer.drop count = submitted := by
    rw [List.append_assoc, List.take_append_drop, hordered]
  rw [retrieveOutput]
  simp only
  split_ifs with hempty hstate
  · apply lossless_shutdownInLoop
    exact ⟨hsame, by simp [hempty], hflushed⟩
  · exact ⟨hsame, by simp [hempty], hflushed⟩
  · exact ⟨hsame, by simp [hempty, hwriting], hflushed⟩

theorem lossless_handleWrite (hlossless : conn.Lossless submitted) (result : WriteResult) :
    (conn.handleWrite result).Lossless submitted := by
  unfold handleWrite
  split_ifs with hwriting
  · cases result with
    | wrote limit =>
        simp only
        split_ifs
        · exact hlossless
        · exact lossless_retrieveOutput hlossless hwriting limit
    | failed errno => exact ⟨hlossless.ordered, hlossless.interested, hlossless.flushed⟩
  · exact hlossless

/-- An event adds to the output what it submits. -/
theorem lossless_handle (hlossless : conn.Lossless submitted) {event : OutputEvent}
    (hopen : (conn.handle event).ended = false) :
    (conn.handle event).Lossless (submitted ++ conn.submits event) := by
  cases event with
  | send data result => exact lossless_send hlossless data result hopen
  | shutdown =>
      rw [submits, List.append_nil, handle, shutdown]
      split_ifs
      · exact lossless_shutdownInLoop (lossless_setState hlossless _)
      · exact hlossless
  | writable result =>
      rw [submits, List.append_nil]
      exact lossless_handleWrite hlossless result
  | closed => cases hopen

@[simp]
theorem queue_ended (remaining : Bytes) : (conn.queue remaining).ended = conn.ended := by
  rw [queue]
  split_ifs <;> rfl

@[simp]
theorem shutdownInLoop_ended : conn.shutdownInLoop.ended = conn.ended := by
  rw [shutdownInLoop]
  split_ifs <;> rfl

@[simp]
theorem retrieveOutput_ended (count : ℕ) :
    (conn.retrieveOutput count).ended = conn.ended := by
  rw [retrieveOutput]
  simp only
  split_ifs <;> simp

theorem ended_of_sendInLoop {data : Bytes} {result : WriteResult}
    (hopen : (conn.sendInLoop data result).ended = false) : conn.ended = false := by
  unfold sendInLoop at hopen
  split_ifs at hopen
  · exact hopen
  · cases result with
    | wrote limit => simpa using hopen
    | failed errno =>
        simp only at hopen
        split_ifs at hopen
        simpa using hopen
  · simpa using hopen

/-- Nothing brings an ended connection back. -/
theorem ended_of_handle {event : OutputEvent} (hopen : (conn.handle event).ended = false) :
    conn.ended = false := by
  cases event with
  | send data result =>
      rw [handle, send] at hopen
      split_ifs at hopen
      · have hended := ended_of_sendInLoop hopen
        exact hended
      · exact hopen
  | shutdown =>
      rw [handle, shutdown] at hopen
      split_ifs at hopen
      · rw [shutdownInLoop_ended] at hopen
        exact hopen
      · exact hopen
  | writable result =>
      unfold handle handleWrite at hopen
      split_ifs at hopen
      · cases result with
        | wrote limit =>
            simp only at hopen
            split_ifs at hopen
            · exact hopen
            · simpa using hopen
        | failed errno => exact (Bool.or_eq_false_iff.mp hopen).1
      · exact hopen
  | closed => cases hopen

/-! ## What output leaves alone -/

/-- The name, the state and the interest in input are the same. -/
structure OnlyOutput (conn conn' : TcpConnection) : Prop where
  name : conn'.name = conn.name
  state : conn'.state = conn.state
  reading : conn'.reading = conn.reading

theorem onlyOutput_queue (remaining : Bytes) : OnlyOutput conn (conn.queue remaining) := by
  rw [queue]
  split_ifs <;> exact ⟨rfl, rfl, rfl⟩

/-- Sending changes the output only. -/
theorem onlyOutput_sendInLoop (data : Bytes) (result : WriteResult) :
    OnlyOutput conn (conn.sendInLoop data result) := by
  unfold sendInLoop
  split_ifs
  · exact ⟨rfl, rfl, rfl⟩
  · cases result with
    | wrote limit =>
        obtain ⟨hname, hstate, hreading⟩ := @onlyOutput_queue
          { conn with accepted := conn.accepted ++ data.take limit } (data.drop limit)
        exact ⟨hname, hstate, hreading⟩
    | failed errno =>
        simp only
        split_ifs
        · exact ⟨rfl, rfl, rfl⟩
        · exact onlyOutput_queue data
  · exact onlyOutput_queue data

theorem onlyOutput_send (data : Bytes) (result : WriteResult) :
    OnlyOutput conn (conn.send data result) := by
  rw [send]
  split_ifs
  · exact onlyOutput_sendInLoop data result
  · exact ⟨rfl, rfl, rfl⟩

theorem onlyOutput_shutdownInLoop : OnlyOutput conn conn.shutdownInLoop := by
  rw [shutdownInLoop]
  split_ifs <;> exact ⟨rfl, rfl, rfl⟩

@[simp]
theorem shutdownInLoop_writing : conn.shutdownInLoop.writing = conn.writing := by
  rw [shutdownInLoop]
  split_ifs <;> rfl

theorem onlyOutput_retrieveOutput (count : ℕ) :
    OnlyOutput conn (conn.retrieveOutput count) := by
  rw [retrieveOutput]
  simp only
  split_ifs
  · obtain ⟨hname, hstate, hreading⟩ := @onlyOutput_shutdownInLoop
      { conn with
        accepted := conn.accepted ++ conn.outputBuffer.take count
        outputBuffer := conn.outputBuffer.drop count
        writing := false }
    exact ⟨hname, hstate, hreading⟩
  · exact ⟨rfl, rfl, rfl⟩
  · exact ⟨rfl, rfl, rfl⟩

theorem onlyOutput_handleWrite (result : WriteResult) :
    OnlyOutput conn (conn.handleWrite result) := by
  unfold handleWrite
  split_ifs
  · cases result with
    | wrote limit =>
        simp only
        split_ifs
        · exact ⟨rfl, rfl, rfl⟩
        · exact onlyOutput_retrieveOutput limit
    | failed errno => exact ⟨rfl, rfl, rfl⟩
  · exact ⟨rfl, rfl, rfl⟩

end Steps

theorem lossless_foldl {conn : TcpConnection} {submitted : Bytes}
    (hlossless : conn.ended = false → conn.Lossless submitted) (events : List OutputEvent)
    (hopen : (events.foldl handle conn).ended = false) :
    (events.foldl handle conn).Lossless (submitted ++ conn.submitted events) := by
  induction events generalizing conn submitted with
  | nil =>
      rw [TcpConnection.submitted, List.append_nil]
      exact hlossless hopen
  | cons event events ih =>
      rw [TcpConnection.submitted, ← List.append_assoc]
      refine ih (fun hevent => ?_) hopen
      exact lossless_handle (hlossless (ended_of_handle hevent)) hevent

theorem lossless_established : established.Lossless [] :=
  ⟨rfl, by simp [established], by simp [established]⟩

/-- Output is neither lost nor reordered nor held back, until a write fails for
good or the connection is closed. -/
theorem lossless_run (events : List OutputEvent)
    (hopen : (events.foldl handle established).ended = false) :
    (events.foldl handle established).Lossless (established.submitted events) :=
  lossless_foldl (fun _ => lossless_established) events hopen

/-- Two responses on a slow connection: the kernel takes two bytes of the first,
then nothing, and the rest of both after the server asked for a shutdown. -/
def slowRun : List OutputEvent :=
  [.send (ascii "first") (.wrote 2), .send (ascii "second") (.failed .EWOULDBLOCK),
    .writable (.failed .EWOULDBLOCK), .shutdown, .writable (.wrote 4), .writable (.wrote 64)]

theorem lossless_slowRun :
    (slowRun.foldl handle established).ended = false ∧
      (slowRun.foldl handle established).accepted = ascii "firstsecond" ∧
      (slowRun.foldl handle established).shutdownWrites = [[]] ∧
      (slowRun.foldl handle established).Lossless (established.submitted slowRun) :=
  ⟨by decide, by decide, by decide, lossless_run slowRun (by decide)⟩

end TcpConnection

end Cuber.Connection
