import Cuber.Core.Runs
import Cuber.Net.ConnectionNames
import Cuber.Net.TcpConnection

/-!
# The connections of a server

`HttpServer` counts the connections that are up, and refuses those beyond its
limit.  A connection is closed by the end of its input, by a hang-up, by a forced
close that is queued or delayed, and more than one of these may be under way.
What is queued for a connection is run in any order here, so that nothing
depends on how the loops of the process interleave.
-/

namespace Cuber.Accounting

open Cuber.Config
open Cuber.Connection
open Cuber.ConnectionNames
open Cuber.Execution
open Cuber.Runs
open Cuber.Text

/-- The assertions that a connection runs into when it is closed twice. -/
inductive Assertion where
  /-- `state_ == kConnecting` in `TcpConnection::connectEstablished` -/
  | connecting
  /-- `state_ == kConnected || state_ == kDisconnecting` in
  `TcpConnection::handleClose` -/
  | notClosed
  /-- `n == 1` in `TcpServer::removeConnectionInLoop` -/
  | erased
  /-- `isNoneEvent()` in `Channel::remove` -/
  | noneEvent
  deriving DecidableEq

inductive Functor where
  | connectEstablished
  | sendInLoop (data : Bytes)
  | shutdownInLoop
  | forceCloseInLoop
  | removeConnectionInLoop
  | connectDestroyed
  deriving DecidableEq

structure Connection where
  tcp : TcpConnection
  pending : List Functor := []
  /-- The timers of `forceCloseWithDelay` that have not expired. -/
  timers : ℕ := 0
  /-- The state at each run of the connection callback. -/
  callbacks : List StateE := []
  deriving DecidableEq

/-- The part of `HttpServer` and of its `TcpServer` that does not change. -/
structure HttpServer where
  server : TcpServer
  kMaxConnections : ℤ
  /-- The connections are handled by the loop that accepts them, so that
  `runInLoop` does not queue. -/
  sameLoop : Bool

structure Shared where
  numConnected : ℤ := 0
  /-- The keys of `connections_`. -/
  connections : Finset Bytes := ∅
  deriving DecidableEq

structure ServerState where
  nextConnId : ℕ := 1
  shared : Shared := {}
  /-- All connections that were accepted. -/
  conns : List Connection := []
  deriving DecidableEq

def toInt32 (value : ℤ) : ℤ := Int.bmod value (2 ^ 32)

def Shared.increment (shared : Shared) : Shared :=
  { shared with numConnected := toInt32 (shared.numConnected + 1) }

def Shared.decrement (shared : Shared) : Shared :=
  { shared with numConnected := toInt32 (shared.numConnected - 1) }

namespace Connection

def enqueue (conn : Connection) (functor : Functor) : Connection :=
  { conn with pending := conn.pending ++ [functor] }

/-- `TcpConnection::send`, from the loop of the connection or from another one. -/
def send (conn : Connection) (inLoop : Bool) (data : Bytes) (result : WriteResult) :
    Connection :=
  if inLoop then { conn with tcp := conn.tcp.send data result }
  else if conn.tcp.state = .kConnected then conn.enqueue (.sendInLoop data)
  else conn

/-- `TcpConnection::shutdown`. -/
def shutdown (conn : Connection) (inLoop : Bool) : Connection :=
  if inLoop then { conn with tcp := conn.tcp.shutdown }
  else if conn.tcp.state = .kConnected then
    { conn with tcp := conn.tcp.setState .kDisconnecting }.enqueue .shutdownInLoop
  else conn

/-- `TcpConnection::forceClose`. -/
def forceClose (conn : Connection) : Connection :=
  if conn.tcp.state = .kConnected ∨ conn.tcp.state = .kDisconnecting then
    { conn with tcp := conn.tcp.setState .kDisconnecting }.enqueue .forceCloseInLoop
  else conn

/-- `TcpConnection::forceCloseWithDelay`. -/
def forceCloseWithDelay (conn : Connection) : Connection :=
  if conn.tcp.state = .kConnected ∨ conn.tcp.state = .kDisconnecting then
    { conn with tcp := conn.tcp.setState .kDisconnecting, timers := conn.timers + 1 }
  else conn

end Connection

inductive Call where
  | send (data : Bytes) (result : WriteResult)
  | shutdown
  | forceClose
  | forceCloseWithDelay
  deriving DecidableEq

def Connection.perform (conn : Connection) (inLoop : Bool) : Call → Connection
  | .send data result => conn.send inLoop data result
  | .shutdown => conn.shutdown inLoop
  | .forceClose => conn.forceClose
  | .forceCloseWithDelay => conn.forceCloseWithDelay

/-- What `inputBuffer_.readFd` comes to, with what the message callback does. -/
inductive ReadResult where
  | received (calls : List Call)
  | endOfFile
  | failed
  deriving DecidableEq

/-- What the poller reports. -/
structure Revents where
  pollIn : Bool := false
  pollPri : Bool := false
  pollOut : Bool := false
  pollErr : Bool := false
  pollHup : Bool := false
  pollNval : Bool := false
  pollRdhup : Bool := false
  deriving DecidableEq

abbrev Handled := Exec Assertion (Shared × Connection)

section Handling

variable (server : HttpServer)

/-- `HttpServer::onConnection` after the state has been noted. -/
def onConnection (shared : Shared) (conn : Connection) : Shared × Connection :=
  let conn := { conn with callbacks := conn.callbacks ++ [conn.tcp.state] }
  if conn.tcp.connected then
    let shared := shared.increment
    if shared.numConnected > server.kMaxConnections then
      (shared, (conn.shutdown true).forceCloseWithDelay)
    else (shared, conn)
  else if conn.tcp.disconnected then (shared.decrement, conn.forceClose)
  else (shared, conn)

/-- `TcpConnection::connectEstablished`. -/
def connectEstablished (shared : Shared) (conn : Connection) : Handled :=
  if conn.tcp.state = .kConnecting then
    .ret (onConnection server shared
      { conn with tcp := { conn.tcp.setState .kConnected with reading := true } })
  else .fault .connecting

/-- `TcpServer::removeConnectionInLoop`. -/
def removeConnectionInLoop (shared : Shared) (conn : Connection) : Handled :=
  if conn.tcp.name ∈ shared.connections then
    .ret ({ shared with connections := shared.connections.erase conn.tcp.name },
      conn.enqueue .connectDestroyed)
  else .fault .erased

/-- `TcpServer::removeConnection`, the close callback. -/
def removeConnection (shared : Shared) (conn : Connection) : Handled :=
  if server.sameLoop then removeConnectionInLoop shared conn
  else .ret (shared, conn.enqueue .removeConnectionInLoop)

/-- `TcpConnection::handleClose`. -/
def handleClose (shared : Shared) (conn : Connection) : Handled :=
  if conn.tcp.state = .kConnected ∨ conn.tcp.state = .kDisconnecting then
    let (shared, conn) := onConnection server shared
      { conn with tcp := conn.tcp.handle .closed }
    removeConnection server shared conn
  else .fault .notClosed

/-- `TcpConnection::forceCloseInLoop`. -/
def forceCloseInLoop (shared : Shared) (conn : Connection) : Handled :=
  if conn.tcp.state = .kConnected ∨ conn.tcp.state = .kDisconnecting then
    handleClose server shared conn
  else .ret (shared, conn)

/-- `TcpConnection::connectDestroyed`. -/
def connectDestroyed (shared : Shared) (conn : Connection) : Handled :=
  let (shared, conn) :=
    if conn.tcp.state = .kConnected then
      onConnection server shared { conn with tcp := conn.tcp.handle .closed }
    else (shared, conn)
  if conn.tcp.reading ∨ conn.tcp.writing then .fault .noneEvent
  else .ret (shared, conn)

/-- `TcpConnection::handleRead`; after an error nothing is done. -/
def handleRead (shared : Shared) (conn : Connection) (receiveTime : ℤ)
    (result : ReadResult) : Handled :=
  let conn := { conn with tcp := conn.tcp.updateLastReceiveTime receiveTime }
  match result with
  | .received calls =>
      .ret (shared, calls.foldl (fun conn call => conn.perform true call) conn)
  | .endOfFile => handleClose server shared conn
  | .failed => .ret (shared, conn)

/-- `TcpConnection::handleWrite`. -/
def handleWrite (conn : Connection) (result : WriteResult) : Connection :=
  { conn with tcp := conn.tcp.handleWrite result }

/-- `Channel::handleEventWithGuard`; the error callback only logs. -/
def handleEventWithGuard (shared : Shared) (conn : Connection) (revents : Revents)
    (receiveTime : ℤ) (readResult : ReadResult) (writeResult : WriteResult) : Handled :=
  (if revents.pollHup ∧ ¬ revents.pollIn then handleClose server shared conn
    else .ret (shared, conn)).bind fun (shared, conn) =>
  (if revents.pollIn ∨ revents.pollPri ∨ revents.pollRdhup then
      handleRead server shared conn receiveTime readResult
    else .ret (shared, conn)).bind fun (shared, conn) =>
  .ret (shared, if revents.pollOut then handleWrite conn writeResult else conn)

def runFunctor (shared : Shared) (conn : Connection) (functor : Functor)
    (writeResult : WriteResult) : Handled :=
  let conn := { conn with pending := conn.pending.erase functor }
  match functor with
  | .connectEstablished => connectEstablished server shared conn
  | .sendInLoop data =>
      .ret (shared, { conn with tcp := conn.tcp.sendInLoop data writeResult })
  | .shutdownInLoop => .ret (shared, { conn with tcp := conn.tcp.shutdownInLoop })
  | .forceCloseInLoop => forceCloseInLoop server shared conn
  | .removeConnectionInLoop => removeConnectionInLoop shared conn
  | .connectDestroyed => connectDestroyed server shared conn

end Handling

/-- What happens to a connection, as one step of some loop. -/
inductive ConnectionEvent where
  | functor (functor : Functor) (writeResult : WriteResult)
  | poll (revents : Revents) (receiveTime : ℤ) (readResult : ReadResult)
      (writeResult : WriteResult)
  | call (inLoop : Bool) (call : Call)
  /-- A timer of `forceCloseWithDelay` expires. -/
  | expire
  deriving DecidableEq

inductive Event where
  | accept
  | connection (index : ℕ) (event : ConnectionEvent)
  deriving DecidableEq

section Stepping

variable (server : HttpServer)

/-- Only what is queued is run, the poller reports only channels in which there is
interest, and only a timer that was started expires. -/
def handle (shared : Shared) (conn : Connection) : ConnectionEvent → Handled
  | .functor functor writeResult =>
      if functor ∈ conn.pending then runFunctor server shared conn functor writeResult
      else .ret (shared, conn)
  | .poll revents receiveTime readResult writeResult =>
      if conn.tcp.reading ∨ conn.tcp.writing then
        handleEventWithGuard server shared conn revents receiveTime readResult writeResult
      else .ret (shared, conn)
  | .call inLoop call => .ret (shared, conn.perform inLoop call)
  | .expire =>
      if 0 < conn.timers then
        .ret (shared, { conn with timers := conn.timers - 1 }.forceClose)
      else .ret (shared, conn)

/-- `TcpServer::newConnection`. -/
def newConnection (state : ServerState) : Exec Assertion ServerState :=
  let connName := server.server.connName state.nextConnId
  let shared := { state.shared with
    connections := insert connName state.shared.connections }
  let conn : Connection := { tcp := { name := connName } }
  (if server.sameLoop then connectEstablished server shared conn
    else .ret (shared, conn.enqueue .connectEstablished)).bind fun (shared, conn) =>
  .ret { nextConnId := state.nextConnId + 1, shared, conns := state.conns ++ [conn] }

def step (state : ServerState) : Event → Exec Assertion ServerState
  | .accept => newConnection server state
  | .connection index event =>
      match state.conns[index]? with
      | none => .ret state
      | some conn =>
          (handle server state.shared conn event).bind fun (shared, conn) =>
            .ret { state with shared, conns := state.conns.set index conn }

end Stepping

/-! ## The life of a connection -/

/-- How far the connection callback has got. -/
inductive Stage where
  | accepted
  | up
  | down
  deriving DecidableEq

def Stage.callbacks : Stage → List StateE
  | .accepted => []
  | .up => [.kConnected]
  | .down => [.kConnected, .kDisconnected]

def Stage.Admits : Stage → StateE → Prop
  | .accepted, state => state = .kConnecting
  | .up, state => state = .kConnected ∨ state = .kDisconnecting
  | .down, state => state = .kDisconnected

/-- What is queued at most once in the life of a connection. -/
def Functor.isLifecycle : Functor → Bool
  | .connectEstablished | .removeConnectionInLoop | .connectDestroyed => true
  | .sendInLoop _ | .shutdownInLoop | .forceCloseInLoop => false

/-- A connection at a stage, with what has to be run for it to get on. -/
structure At (stage : Stage) (awaited : Option Functor) (conn : Connection) : Prop where
  state : stage.Admits conn.tcp.state
  callbacks : conn.callbacks = stage.callbacks
  pending : ∀ functor, functor.isLifecycle = true →
    conn.pending.count functor = if awaited = some functor then 1 else 0
  untouched : stage = .accepted → ∀ functor ∈ conn.pending, functor.isLifecycle = true
  idle : stage ≠ .up → conn.tcp.reading = false ∧ conn.tcp.writing = false

/-- The connections that are found between steps; the server holds those that are
not yet removed. -/
inductive Settled (names : Finset Bytes) (conn : Connection) : Prop where
  | accepted (hat : At .accepted (some .connectEstablished) conn)
      (hheld : conn.tcp.name ∈ names)
  | up (hat : At .up none conn) (hheld : conn.tcp.name ∈ names)
  | closed (hat : At .down (some .removeConnectionInLoop) conn)
      (hheld : conn.tcp.name ∈ names)
  | removed (hat : At .down (some .connectDestroyed) conn)
  | destroyed (hat : At .down none conn)

/-- The up-callback of a connection has been run, and the down-callback has not. -/
def Connection.isUp (conn : Connection) : Bool :=
  .kConnected ∈ conn.callbacks ∧ .kDisconnected ∉ conn.callbacks

/-- How many connections besides others a connection counts for. -/
def Connection.share (conn : Connection) : ℕ := if conn.isUp then 1 else 0

/-- A change of a connection that the accounts do not show. -/
structure Quiet (conn conn' : Connection) : Prop where
  name : conn'.tcp.name = conn.tcp.name
  callbacks : conn'.callbacks = conn.callbacks
  pending : ∀ functor, functor.isLifecycle = true →
    conn'.pending.count functor = conn.pending.count functor
  inside : Stage.up.Admits conn.tcp.state → Stage.up.Admits conn'.tcp.state
  outside : ¬ Stage.up.Admits conn.tcp.state →
    conn'.tcp.state = conn.tcp.state ∧ conn'.tcp.reading = conn.tcp.reading ∧
      conn'.tcp.writing = conn.tcp.writing ∧ conn'.pending ⊆ conn.pending
  limit : conn'.tcp.state = .kConnected → conn.tcp.state = .kConnected

section Quietness

variable {conn conn' conn'' : Connection} {stage : Stage} {awaited : Option Functor}
  {names : Finset Bytes}

theorem Quiet.refl (conn : Connection) : Quiet conn conn :=
  ⟨rfl, rfl, fun _ _ => rfl, id, fun _ => ⟨rfl, rfl, rfl, List.Subset.refl _⟩, id⟩

theorem Quiet.trans (hfirst : Quiet conn conn') (hsecond : Quiet conn' conn'') :
    Quiet conn conn'' where
  name := hsecond.name.trans hfirst.name
  callbacks := hsecond.callbacks.trans hfirst.callbacks
  pending functor hfunctor :=
    (hsecond.pending functor hfunctor).trans (hfirst.pending functor hfunctor)
  inside := hsecond.inside ∘ hfirst.inside
  outside := by
    intro hdown
    obtain ⟨hstate, hreading, hwriting, hpending⟩ := hfirst.outside hdown
    rw [← hstate] at hdown
    obtain ⟨hstate', hreading', hwriting', hpending'⟩ := hsecond.outside hdown
    exact ⟨hstate'.trans hstate, hreading'.trans hreading, hwriting'.trans hwriting,
      fun _ hmem => hpending (hpending' hmem)⟩
  limit := hfirst.limit ∘ hsecond.limit

/-- The stages admit different states. -/
theorem admits_up_iff (hat : At stage awaited conn) :
    Stage.up.Admits conn.tcp.state ↔ stage = .up := by
  have hstate := hat.state
  cases stage with
  | accepted => simp_all [Stage.Admits]
  | up => exact iff_of_true hstate rfl
  | down => simp_all [Stage.Admits]

theorem At.of_quiet (hat : At stage awaited conn) (hquiet : Quiet conn conn') :
    At stage awaited conn' := by
  by_cases hup : stage = .up
  · subst hup
    exact ⟨hquiet.inside hat.state, hquiet.callbacks.trans hat.callbacks,
      fun functor hfunctor =>
        (hquiet.pending functor hfunctor).trans (hat.pending functor hfunctor),
      nofun, fun hne => absurd rfl hne⟩
  · obtain ⟨hstate, hreading, hwriting, hpending⟩ :=
      hquiet.outside fun hadmits => hup ((admits_up_iff hat).mp hadmits)
    refine ⟨?_, hquiet.callbacks.trans hat.callbacks, fun functor hfunctor =>
      (hquiet.pending functor hfunctor).trans (hat.pending functor hfunctor), ?_, ?_⟩
    · rw [hstate]
      exact hat.state
    · intro haccepted functor hfunctor
      exact hat.untouched haccepted functor (hpending hfunctor)
    · intro _
      rw [hreading, hwriting]
      exact hat.idle hup

theorem Settled.of_quiet (hsettled : Settled names conn) (hquiet : Quiet conn conn') :
    Settled names conn' := by
  cases hsettled with
  | accepted hat hheld => exact .accepted (hat.of_quiet hquiet) (hquiet.name ▸ hheld)
  | up hat hheld => exact .up (hat.of_quiet hquiet) (hquiet.name ▸ hheld)
  | closed hat hheld => exact .closed (hat.of_quiet hquiet) (hquiet.name ▸ hheld)
  | removed hat => exact .removed (hat.of_quiet hquiet)
  | destroyed hat => exact .destroyed (hat.of_quiet hquiet)

theorem Quiet.share_eq (hquiet : Quiet conn conn') : conn'.share = conn.share := by
  rw [Connection.share, Connection.share, Connection.isUp, Connection.isUp, hquiet.callbacks]

/-- Output is quiet in a connection that is up. -/
theorem quiet_of_onlyOutput {tcp : TcpConnection} (hup : Stage.up.Admits conn.tcp.state)
    (honly : TcpConnection.OnlyOutput conn.tcp tcp) : Quiet conn { conn with tcp := tcp } where
  name := honly.name
  callbacks := rfl
  pending _ _ := rfl
  inside _ := by
    rw [honly.state]
    exact hup
  outside hdown := absurd hup hdown
  limit hstate := honly.state.symm.trans hstate

theorem quiet_disconnecting {tcp : TcpConnection} (hup : Stage.up.Admits conn.tcp.state)
    (hname : tcp.name = conn.tcp.name) (hstate : tcp.state = .kDisconnecting) (timers : ℕ) :
    Quiet conn { conn with tcp := tcp, timers := timers } where
  name := hname
  callbacks := rfl
  pending _ _ := rfl
  inside _ := Or.inr hstate
  outside hdown := absurd hup hdown
  limit hconnected := absurd (hstate.symm.trans hconnected) (by decide)

theorem quiet_setState (hup : Stage.up.Admits conn.tcp.state) (timers : ℕ) :
    Quiet conn { conn with tcp := conn.tcp.setState .kDisconnecting, timers := timers } :=
  @quiet_disconnecting conn (conn.tcp.setState .kDisconnecting) hup rfl rfl timers

theorem quiet_enqueue {functor : Functor} (hup : Stage.up.Admits conn.tcp.state)
    (hfunctor : functor.isLifecycle = false) : Quiet conn (conn.enqueue functor) where
  name := rfl
  callbacks := rfl
  pending other hother := by
    have hne : functor ≠ other := by
      rintro rfl
      exact absurd (hfunctor.symm.trans hother) (by decide)
    rw [Connection.enqueue, List.count_append, List.count_singleton, if_neg (by simpa using hne),
      Nat.add_zero]
  inside := id
  outside hdown := absurd hup hdown
  limit := id

theorem quiet_erase {functor : Functor} (hfunctor : functor.isLifecycle = false) :
    Quiet conn { conn with pending := conn.pending.erase functor } where
  name := rfl
  callbacks := rfl
  pending other hother := by
    apply List.count_erase_of_ne
    rintro rfl
    exact absurd (hfunctor.symm.trans hother) (by decide)
  inside := id
  outside _ := ⟨rfl, rfl, rfl, List.erase_subset⟩
  limit := id

theorem quiet_forceClose (conn : Connection) : Quiet conn conn.forceClose := by
  rw [Connection.forceClose]
  split_ifs with hup
  · apply (quiet_setState hup conn.timers).trans
    exact quiet_enqueue (Or.inr rfl) rfl
  · exact Quiet.refl conn

theorem quiet_forceCloseWithDelay (conn : Connection) :
    Quiet conn conn.forceCloseWithDelay := by
  rw [Connection.forceCloseWithDelay]
  split_ifs with hup
  · exact quiet_setState hup _
  · exact Quiet.refl conn

theorem quiet_send (conn : Connection) (inLoop : Bool) (data : Bytes)
    (result : WriteResult) : Quiet conn (conn.send inLoop data result) := by
  by_cases hstate : conn.tcp.state = .kConnected
  · have hup : Stage.up.Admits conn.tcp.state := Or.inl hstate
    cases inLoop with
    | true => exact quiet_of_onlyOutput hup (TcpConnection.onlyOutput_send data result)
    | false =>
        rw [Connection.send, if_neg Bool.false_ne_true, if_pos hstate]
        exact quiet_enqueue hup rfl
  · have hsame : conn.send inLoop data result = conn := by
      cases inLoop <;> simp [Connection.send, TcpConnection.send, hstate]
    rw [hsame]
    exact Quiet.refl conn

theorem quiet_shutdown (conn : Connection) (inLoop : Bool) :
    Quiet conn (conn.shutdown inLoop) := by
  by_cases hstate : conn.tcp.state = .kConnected
  · have hup : Stage.up.Admits conn.tcp.state := Or.inl hstate
    cases inLoop with
    | true =>
        have honly := @TcpConnection.onlyOutput_shutdownInLoop
          (conn.tcp.setState .kDisconnecting)
        have htcp : conn.tcp.shutdown = (conn.tcp.setState .kDisconnecting).shutdownInLoop :=
          if_pos hstate
        rw [Connection.shutdown, if_pos rfl, htcp]
        exact quiet_disconnecting hup honly.name honly.state conn.timers
    | false =>
        rw [Connection.shutdown, if_neg Bool.false_ne_true, if_pos hstate]
        apply (quiet_setState hup conn.timers).trans
        exact quiet_enqueue (Or.inr rfl) rfl
  · have hsame : conn.shutdown inLoop = conn := by
      cases inLoop <;> simp [Connection.shutdown, TcpConnection.shutdown, hstate]
    rw [hsame]
    exact Quiet.refl conn

theorem quiet_perform (conn : Connection) (inLoop : Bool) (call : Call) :
    Quiet conn (conn.perform inLoop call) := by
  cases call with
  | send data result => exact quiet_send conn inLoop data result
  | shutdown => exact quiet_shutdown conn inLoop
  | forceClose => exact quiet_forceClose conn
  | forceCloseWithDelay => exact quiet_forceCloseWithDelay conn

theorem quiet_performAll (conn : Connection) (calls : List Call) :
    Quiet conn (calls.foldl (fun conn call => conn.perform true call) conn) := by
  induction calls generalizing conn with
  | nil => exact Quiet.refl conn
  | cons call calls ih => exact (quiet_perform conn true call).trans (ih _)

/-- A socket is written to only while there is interest in it. -/
theorem quiet_handleWrite (hat : At stage awaited conn) (result : WriteResult) :
    Quiet conn (handleWrite conn result) := by
  by_cases hup : stage = .up
  · exact quiet_of_onlyOutput ((admits_up_iff hat).mpr hup)
      (TcpConnection.onlyOutput_handleWrite result)
  · have hsame : handleWrite conn result = conn := by
      simp [handleWrite, TcpConnection.handleWrite, (hat.idle hup).2]
    rw [hsame]
    exact Quiet.refl conn

/-- Data is queued for sending only when the connection has been up. -/
theorem quiet_sendInLoop (hat : At stage awaited conn) (hstage : stage ≠ .accepted)
    (data : Bytes) (result : WriteResult) :
    Quiet conn { conn with tcp := conn.tcp.sendInLoop data result } := by
  cases stage with
  | accepted => exact absurd rfl hstage
  | up => exact quiet_of_onlyOutput hat.state (TcpConnection.onlyOutput_sendInLoop data result)
  | down =>
      have hsame : conn.tcp.sendInLoop data result = conn.tcp := by
        have hstate : conn.tcp.state = .kDisconnected := hat.state
        simp [TcpConnection.sendInLoop, hstate]
      rw [hsame]
      exact Quiet.refl conn

theorem quiet_shutdownInLoop (conn : Connection) :
    Quiet conn { conn with tcp := conn.tcp.shutdownInLoop } := by
  obtain ⟨hname, hstate, hreading⟩ := @TcpConnection.onlyOutput_shutdownInLoop conn.tcp
  refine ⟨hname, rfl, fun _ _ => rfl, fun hup => ?_, fun _ => ?_, fun hconnected => ?_⟩
  · rw [hstate]
    exact hup
  · exact ⟨hstate, hreading, TcpConnection.shutdownInLoop_writing, List.Subset.refl _⟩
  · exact hstate.symm.trans hconnected

theorem quiet_updateLastReceiveTime (conn : Connection) (receiveTime : ℤ) :
    Quiet conn { conn with tcp := conn.tcp.updateLastReceiveTime receiveTime } :=
  ⟨rfl, rfl, fun _ _ => rfl, id, fun _ => ⟨rfl, rfl, rfl, List.Subset.refl _⟩, id⟩

end Quietness

/-! ## Steps of one connection -/

/-- What a step of a connection keeps: where the connection stands, the connections
that the server holds besides it, and the count, to which the others contribute
their number.  A connection comes to be connected only within the limit. -/
structure Keeps (server : HttpServer) (others : ℕ) (shared : Shared) (conn : Connection)
    (result : Shared × Connection) : Prop where
  settled : Settled result.1.connections result.2
  name : result.2.tcp.name = conn.tcp.name
  connections : ∀ name ≠ conn.tcp.name, name ∈ shared.connections →
    name ∈ result.1.connections
  counted : result.1.numConnected = others + result.2.share
  limit : result.2.tcp.state = .kConnected →
    conn.tcp.state = .kConnected ∨ (others : ℤ) + 1 ≤ server.kMaxConnections

section Handling

variable {server : HttpServer} {shared : Shared} {conn conn' : Connection} {others : ℕ}
  {stage : Stage} {awaited : Option Functor} {functor : Functor}
  {middle result : Shared × Connection}

theorem toInt32_of_lt {value : ℤ} (hnonneg : 0 ≤ value) (hlt : value < 2 ^ 31) :
    toInt32 value = value := by
  rw [toInt32]
  apply Int.bmod_eq_of_le <;> omega

theorem share_of_at (hat : At stage awaited conn) :
    conn.share = if stage = .up then 1 else 0 := by
  rw [Connection.share, Connection.isUp, hat.callbacks]
  cases stage <;> rfl

theorem Keeps.trans (hfirst : Keeps server others shared conn middle)
    (hsecond : Keeps server others middle.1 middle.2 result) :
    Keeps server others shared conn result where
  settled := hsecond.settled
  name := hsecond.name.trans hfirst.name
  connections := by
    intro name hne hmem
    apply hsecond.connections name _ (hfirst.connections name hne hmem)
    rwa [hfirst.name]
  counted := hsecond.counted
  limit := by
    intro hconnected
    rcases hsecond.limit hconnected with hmiddle | hlimit
    · exact hfirst.limit hmiddle
    · exact Or.inr hlimit

theorem Keeps.of_tcp (hkeeps : Keeps server others shared conn' result)
    (hname : conn'.tcp.name = conn.tcp.name) (hstate : conn'.tcp.state = conn.tcp.state) :
    Keeps server others shared conn result where
  settled := hkeeps.settled
  name := hkeeps.name.trans hname
  connections := hname ▸ hkeeps.connections
  counted := hkeeps.counted
  limit := hstate ▸ hkeeps.limit

theorem keeps_of_quiet (hsettled : Settled shared.connections conn)
    (hcounted : shared.numConnected = others + conn.share) (hquiet : Quiet conn conn') :
    Keeps server others shared conn (shared, conn') where
  settled := hsettled.of_quiet hquiet
  name := hquiet.name
  connections _ _ hmem := hmem
  counted := by rw [hcounted, hquiet.share_eq]
  limit hconnected := Or.inl (hquiet.limit hconnected)

theorem at_enqueue (hat : At stage none conn) (hfunctor : functor.isLifecycle = true) :
    At stage (some functor) (conn.enqueue functor) where
  state := hat.state
  callbacks := hat.callbacks
  pending other hother := by
    rw [Connection.enqueue, List.count_append, hat.pending other hother, List.count_singleton]
    simp
  untouched haccepted other hother := by
    rcases List.mem_append.mp hother with hbefore | hnew
    · exact hat.untouched haccepted other hbefore
    · rw [List.mem_singleton.mp hnew]
      exact hfunctor
  idle := hat.idle

theorem at_erase (hat : At stage (some functor) conn) :
    At stage none { conn with pending := conn.pending.erase functor } where
  state := hat.state
  callbacks := hat.callbacks
  pending other hother := by
    rw [List.count_erase, hat.pending other hother]
    by_cases hsame : functor = other <;> simp [hsame]
  untouched haccepted other hother := hat.untouched haccepted other (List.mem_of_mem_erase hother)
  idle := hat.idle

/-- A functor of the life of a connection is found in the queue only where it is
awaited. -/
theorem At.awaited_eq (hat : At stage awaited conn) (hmem : functor ∈ conn.pending)
    (hfunctor : functor.isLifecycle = true) : awaited = some functor := by
  by_contra hne
  have hcount := hat.pending functor hfunctor
  rw [if_neg hne] at hcount
  exact List.count_eq_zero.mp hcount hmem

/-- A connection stays settled as long as it is held. -/
theorem Settled.of_held {names names' : Finset Bytes} (hsettled : Settled names conn)
    (hheld : conn.tcp.name ∈ names → conn.tcp.name ∈ names') : Settled names' conn := by
  cases hsettled with
  | accepted hat hmem => exact .accepted hat (hheld hmem)
  | up hat hmem => exact .up hat (hheld hmem)
  | closed hat hmem => exact .closed hat (hheld hmem)
  | removed hat => exact .removed hat
  | destroyed hat => exact .destroyed hat

theorem Settled.exists_at {names : Finset Bytes} (hsettled : Settled names conn) :
    ∃ stage awaited, At stage awaited conn := by
  cases hsettled with
  | accepted hat | up hat | closed hat | removed hat | destroyed hat => exact ⟨_, _, hat⟩

/-- A connection in a state in which it can be closed is up. -/
theorem Settled.up_of_admits {names : Finset Bytes} (hsettled : Settled names conn)
    (hadmits : Stage.up.Admits conn.tcp.state) :
    At .up none conn ∧ conn.tcp.name ∈ names := by
  cases hsettled with
  | up hat hheld => exact ⟨hat, hheld⟩
  | accepted hat | closed hat | removed hat | destroyed hat =>
      cases (admits_up_iff hat).mp hadmits

/-- The up-callback counts the connection, and begins to close it beyond the limit. -/
theorem connectEstablished_spec (hat : At .accepted none conn)
    (hheld : conn.tcp.name ∈ shared.connections) (hcounted : shared.numConnected = others)
    (hbound : others + 1 < 2 ^ 31) :
    ∃ result, connectEstablished server shared conn = .ret result ∧
      Keeps server others shared conn result := by
  let up : Connection := { conn with
    tcp := { conn.tcp.setState .kConnected with reading := true }
    callbacks := conn.callbacks ++ [.kConnected] }
  have hup : At .up none up := by
    refine ⟨Or.inl rfl, ?_, hat.pending, nofun, fun hne => absurd rfl hne⟩
    show conn.callbacks ++ [.kConnected] = [.kConnected]
    rw [hat.callbacks]
    rfl
  have hincrement : shared.increment.numConnected = others + 1 := by
    show toInt32 (shared.numConnected + 1) = others + 1
    rw [hcounted, toInt32_of_lt] <;> omega
  have hhandle : connectEstablished server shared conn =
      .ret (if shared.increment.numConnected > server.kMaxConnections then
        (shared.increment, (up.shutdown true).forceCloseWithDelay)
      else (shared.increment, up)) := by
    have hconnecting : conn.tcp.state = .kConnecting := hat.state
    rw [connectEstablished, if_pos hconnecting]
    rfl
  refine ⟨_, hhandle, ?_⟩
  split_ifs with hlimit
  · have hquiet := (quiet_shutdown up true).trans (quiet_forceCloseWithDelay _)
    have hat' := hup.of_quiet hquiet
    refine ⟨.up hat' (hquiet.name ▸ hheld), hquiet.name, fun _ _ => id, ?_, ?_⟩
    · rw [share_of_at hat', hincrement]
      rfl
    · intro hconnected
      have hopen : (up.shutdown true).tcp.state = .kConnected ∨
          (up.shutdown true).tcp.state = .kDisconnecting :=
        (quiet_shutdown up true).inside (Or.inl rfl)
      have hclosing : (up.shutdown true).forceCloseWithDelay.tcp.state = .kDisconnecting := by
        rw [Connection.forceCloseWithDelay, if_pos hopen]
        rfl
      cases hclosing.symm.trans hconnected
  · refine ⟨.up hup hheld, rfl, fun _ _ => id, ?_, fun _ => Or.inr ?_⟩
    · rw [share_of_at hup, hincrement]
      rfl
    · rw [← hincrement]
      exact not_lt.mp hlimit

theorem removeConnectionInLoop_spec (hat : At .down none conn)
    (hheld : conn.tcp.name ∈ shared.connections) (hcounted : shared.numConnected = others) :
    ∃ result, removeConnectionInLoop shared conn = .ret result ∧
      Keeps server others shared conn result ∧ result.2.tcp.state = .kDisconnected := by
  have hat' := @at_enqueue conn .down .connectDestroyed hat rfl
  refine ⟨_, if_pos hheld, ⟨.removed hat', rfl, ?_, ?_, ?_⟩, hat'.state⟩
  · intro name hne hmem
    exact Finset.mem_erase.mpr ⟨hne, hmem⟩
  · rw [share_of_at hat', hcounted]
    rfl
  · intro hconnected
    cases hat'.state.symm.trans hconnected

/-- The down-callback takes the connection off the count. -/
theorem handleClose_spec (hat : At .up none conn) (hheld : conn.tcp.name ∈ shared.connections)
    (hcounted : shared.numConnected = others + 1) (hbound : others + 1 < 2 ^ 31) :
    ∃ result, handleClose server shared conn = .ret result ∧
      Keeps server others shared conn result ∧ result.2.tcp.state = .kDisconnected := by
  let down : Connection := { conn with
    tcp := conn.tcp.handle .closed
    callbacks := conn.callbacks ++ [.kDisconnected] }
  have hdown : At .down none down := by
    refine ⟨rfl, ?_, hat.pending, nofun, fun _ => ⟨rfl, rfl⟩⟩
    show conn.callbacks ++ [.kDisconnected] = [.kConnected, .kDisconnected]
    rw [hat.callbacks]
    rfl
  have hdecrement : shared.decrement.numConnected = others := by
    show toInt32 (shared.numConnected - 1) = others
    rw [hcounted, toInt32_of_lt] <;> omega
  have hhandle : handleClose server shared conn =
      removeConnection server shared.decrement down := by
    have hopen : conn.tcp.state = .kConnected ∨ conn.tcp.state = .kDisconnecting := hat.state
    rw [handleClose, if_pos hopen]
    rfl
  rw [hhandle, removeConnection]
  split_ifs
  · obtain ⟨result, hremove, hkeeps, hstate⟩ :=
      @removeConnectionInLoop_spec server shared.decrement down others hdown hheld hdecrement
    refine ⟨result, hremove, ?_, hstate⟩
    exact ⟨hkeeps.settled, hkeeps.name, hkeeps.connections, hkeeps.counted, fun hconnected =>
      absurd (hstate.symm.trans hconnected) (by decide)⟩
  · have hat' := @at_enqueue down .down .removeConnectionInLoop hdown rfl
    refine ⟨_, rfl, ⟨.closed hat' hheld, rfl, fun _ _ => id, ?_, fun hconnected => ?_⟩, rfl⟩
    · rw [share_of_at hat', hdecrement]
      rfl
    · cases hat'.state.symm.trans hconnected

/-- Reading keeps the accounts, also where it finds the end of the stream. -/
theorem handleRead_spec (hat : At .up none conn) (hheld : conn.tcp.name ∈ shared.connections)
    (hcounted : shared.numConnected = others + 1) (hbound : others + 1 < 2 ^ 31)
    (receiveTime : ℤ) (readResult : ReadResult) :
    ∃ result, handleRead server shared conn receiveTime readResult = .ret result ∧
      Keeps server others shared conn result := by
  have hcounted' : shared.numConnected = others + conn.share := by
    rw [hcounted, share_of_at hat]
    rfl
  have hquiet := quiet_updateLastReceiveTime conn receiveTime
  cases readResult with
  | received calls =>
      exact ⟨_, rfl, keeps_of_quiet (.up hat hheld) hcounted'
        (hquiet.trans (quiet_performAll _ calls))⟩
  | failed => exact ⟨_, rfl, keeps_of_quiet (.up hat hheld) hcounted' hquiet⟩
  | endOfFile =>
      obtain ⟨result, hclose, hkeeps, _⟩ := @handleClose_spec server shared
        { conn with tcp := conn.tcp.updateLastReceiveTime receiveTime } others
        (hat.of_quiet hquiet) hheld hcounted hbound
      exact ⟨result, hclose, hkeeps.of_tcp rfl rfl⟩

theorem keeps_handleWrite (hkeeps : Keeps server others shared conn result)
    (writeResult : WriteResult) :
    Keeps server others shared conn (result.1, handleWrite result.2 writeResult) := by
  obtain ⟨stage, awaited, hat⟩ := hkeeps.settled.exists_at
  exact hkeeps.trans
    (keeps_of_quiet hkeeps.settled hkeeps.counted (quiet_handleWrite hat writeResult))

/-- The poller does not report a hang-up without input together with something else
that is to be read. -/
def Revents.IsReported (revents : Revents) : Prop :=
  revents.pollHup = true → revents.pollIn = false →
    revents.pollPri = false ∧ revents.pollRdhup = false

/-- Handling events, however they are combined, keeps the accounts. -/
theorem handleEventWithGuard_spec (hat : At .up none conn)
    (hheld : conn.tcp.name ∈ shared.connections)
    (hcounted : shared.numConnected = others + 1) (hbound : others + 1 < 2 ^ 31)
    {revents : Revents} (hreported : revents.IsReported) (receiveTime : ℤ)
    (readResult : ReadResult) (writeResult : WriteResult) :
    ∃ result, handleEventWithGuard server shared conn revents receiveTime readResult
        writeResult = .ret result ∧ Keeps server others shared conn result := by
  -- what the writing does comes on top of the rest
  suffices hread : ∃ middle, ((if revents.pollHup ∧ ¬ revents.pollIn then
        handleClose server shared conn
      else .ret (shared, conn)).bind fun (shared, conn) =>
      if revents.pollIn ∨ revents.pollPri ∨ revents.pollRdhup then
        handleRead server shared conn receiveTime readResult
      else .ret (shared, conn)) = .ret middle ∧ Keeps server others shared conn middle by
    obtain ⟨middle, hmiddle, hkeeps⟩ := hread
    obtain ⟨closed, hclosed, hrest⟩ := Exec.bind_eq_ret_iff.mp hmiddle
    refine ⟨(middle.1, if revents.pollOut then handleWrite middle.2 writeResult
      else middle.2), ?_, ?_⟩
    · rw [handleEventWithGuard, hclosed, Exec.ret_bind]
      simp only at hrest ⊢
      rw [hrest, Exec.ret_bind]
    · split_ifs
      · exact keeps_handleWrite hkeeps writeResult
      · exact hkeeps
  have hcounted' : shared.numConnected = others + conn.share := by
    rw [hcounted, share_of_at hat]
    rfl
  by_cases hhup : revents.pollHup = true ∧ ¬ revents.pollIn = true
  · obtain ⟨result, hclose, hkeeps, _⟩ := handleClose_spec hat hheld hcounted hbound
    have hin : revents.pollIn = false := by simpa using hhup.2
    obtain ⟨hpri, hrdhup⟩ := hreported hhup.1 hin
    refine ⟨result, ?_, hkeeps⟩
    rw [if_pos hhup, hclose]
    simp [hin, hpri, hrdhup]
  · rw [if_neg hhup, Exec.ret_bind]
    simp only
    split_ifs
    · exact handleRead_spec hat hheld hcounted hbound receiveTime readResult
    · exact ⟨_, rfl, keeps_of_quiet (.up hat hheld) hcounted' (Quiet.refl conn)⟩

/-- A forced close closes a connection that is up, and nothing else. -/
theorem forceCloseInLoop_spec (hsettled : Settled shared.connections conn)
    (hcounted : shared.numConnected = others + conn.share) (hbound : others + 1 < 2 ^ 31) :
    ∃ result, forceCloseInLoop server shared conn = .ret result ∧
      Keeps server others shared conn result := by
  rw [forceCloseInLoop]
  split_ifs with hopen
  · obtain ⟨hat, hheld⟩ := hsettled.up_of_admits hopen
    rw [share_of_at hat] at hcounted
    obtain ⟨result, hclose, hkeeps, _⟩ := handleClose_spec hat hheld hcounted hbound
    exact ⟨result, hclose, hkeeps⟩
  · exact ⟨_, rfl, keeps_of_quiet hsettled hcounted (Quiet.refl conn)⟩

/-- The last functor leaves the connection without interest in any event. -/
theorem connectDestroyed_spec (hat : At .down none conn)
    (hcounted : shared.numConnected = others) :
    ∃ result, connectDestroyed server shared conn = .ret result ∧
      Keeps server others shared conn result := by
  have hstate : conn.tcp.state ≠ .kConnected := by
    rw [show conn.tcp.state = .kDisconnected from hat.state]
    decide
  obtain ⟨hreading, hwriting⟩ := hat.idle (by decide)
  refine ⟨(shared, conn), ?_, .destroyed hat, rfl, fun _ _ => id, ?_, Or.inl⟩
  · simp [connectDestroyed, hstate, hreading, hwriting]
  · rw [share_of_at hat, hcounted]
    rfl

/-- Running what is queued keeps the accounts. -/
theorem runFunctor_spec (hsettled : Settled shared.connections conn)
    (hcounted : shared.numConnected = others + conn.share) (hbound : others + 1 < 2 ^ 31)
    (hmem : functor ∈ conn.pending) (writeResult : WriteResult) :
    ∃ result, runFunctor server shared conn functor writeResult = .ret result ∧
      Keeps server others shared conn result := by
  obtain ⟨stage, awaited, hat⟩ := hsettled.exists_at
  cases functor with
  | connectEstablished =>
      cases hsettled with
      | accepted hat hheld =>
          rw [share_of_at hat] at hcounted
          obtain ⟨result, hestablish, hkeeps⟩ := @connectEstablished_spec server shared _
            others (at_erase hat) hheld hcounted hbound
          exact ⟨result, hestablish, hkeeps.of_tcp rfl rfl⟩
      | up hat | closed hat | removed hat | destroyed hat => cases hat.awaited_eq hmem rfl
  | sendInLoop data =>
      have hstage : stage ≠ .accepted := by
        rintro rfl
        cases hat.untouched rfl _ hmem
      have hquiet := @quiet_erase conn (.sendInLoop data) rfl
      exact ⟨_, rfl, keeps_of_quiet hsettled hcounted
        (hquiet.trans (quiet_sendInLoop (hat.of_quiet hquiet) hstage data writeResult))⟩
  | shutdownInLoop =>
      have hquiet := @quiet_erase conn .shutdownInLoop rfl
      exact ⟨_, rfl, keeps_of_quiet hsettled hcounted
        (hquiet.trans (quiet_shutdownInLoop _))⟩
  | forceCloseInLoop =>
      have hquiet := @quiet_erase conn .forceCloseInLoop rfl
      obtain ⟨result, hclose, hkeeps⟩ := @forceCloseInLoop_spec server shared
        { conn with pending := conn.pending.erase .forceCloseInLoop } others
        (hsettled.of_quiet hquiet) hcounted hbound
      exact ⟨result, hclose, hkeeps.of_tcp rfl rfl⟩
  | removeConnectionInLoop =>
      cases hsettled with
      | closed hat hheld =>
          rw [share_of_at hat] at hcounted
          obtain ⟨result, hremove, hkeeps, _⟩ := @removeConnectionInLoop_spec server shared _
            others (at_erase hat) hheld hcounted
          exact ⟨result, hremove, hkeeps.of_tcp rfl rfl⟩
      | accepted hat | up hat | removed hat | destroyed hat => cases hat.awaited_eq hmem rfl
  | connectDestroyed =>
      cases hsettled with
      | removed hat =>
          rw [share_of_at hat] at hcounted
          obtain ⟨result, hdestroy, hkeeps⟩ := @connectDestroyed_spec server shared _
            others (at_erase hat) hcounted
          exact ⟨result, hdestroy, hkeeps.of_tcp rfl rfl⟩
      | accepted hat | up hat | closed hat | destroyed hat => cases hat.awaited_eq hmem rfl

/-- What the poller may report, of all that can happen. -/
def ConnectionEvent.IsReported : ConnectionEvent → Prop
  | .poll revents _ _ _ => revents.IsReported
  | .functor _ _ | .call _ _ | .expire => True

/-- What happens to one connection keeps its accounts. -/
theorem handle_spec (hsettled : Settled shared.connections conn)
    (hcounted : shared.numConnected = others + conn.share) (hbound : others + 1 < 2 ^ 31)
    {event : ConnectionEvent} (hreported : event.IsReported) :
    ∃ result, handle server shared conn event = .ret result ∧
      Keeps server others shared conn result := by
  have hsame := @keeps_of_quiet server shared conn conn others hsettled hcounted
    (Quiet.refl conn)
  cases event with
  | functor functor writeResult =>
      rw [handle]
      split_ifs with hmem
      · exact runFunctor_spec hsettled hcounted hbound hmem writeResult
      · exact ⟨_, rfl, hsame⟩
  | poll revents receiveTime readResult writeResult =>
      rw [handle]
      split_ifs with hinterest
      · cases hsettled with
        | up hat hheld =>
            rw [share_of_at hat] at hcounted
            exact handleEventWithGuard_spec hat hheld hcounted hbound hreported receiveTime
              readResult writeResult
        | accepted hat | closed hat | removed hat | destroyed hat =>
            obtain ⟨hreading, hwriting⟩ := hat.idle (by decide)
            simp [hreading, hwriting] at hinterest
      · exact ⟨_, rfl, hsame⟩
  | call inLoop call =>
      exact ⟨_, rfl, keeps_of_quiet hsettled hcounted (quiet_perform conn inLoop call)⟩
  | expire =>
      rw [handle]
      split_ifs
      · have hquiet : Quiet conn { conn with timers := conn.timers - 1 } :=
          ⟨rfl, rfl, fun _ _ => rfl, id, fun _ => ⟨rfl, rfl, rfl, List.Subset.refl _⟩, id⟩
        exact ⟨_, rfl, keeps_of_quiet hsettled hcounted
          (hquiet.trans (quiet_forceClose _))⟩
      · exact ⟨_, rfl, hsame⟩

end Handling

/-! ## Steps and runs of the server -/

def Event.isAccept : Event → Bool
  | .accept => true
  | .connection _ _ => false

def Event.IsReported : Event → Prop
  | .accept => True
  | .connection _ event => event.IsReported

/-- The books of the server are right: the connections have names of their own, those
that are not yet removed are held under them, and the count and the limit are those
of the connections. -/
structure Accounted (server : HttpServer) (state : ServerState) : Prop where
  nextConnId : state.nextConnId = state.conns.length + 1
  names : state.conns.map (fun conn => conn.tcp.name) =
    (List.range state.conns.length).map fun index => server.server.connName (index + 1)
  settled : ∀ conn ∈ state.conns, Settled state.shared.connections conn
  counted : state.shared.numConnected = state.conns.countP Connection.isUp
  limit : (state.conns.countP fun conn => conn.tcp.connected : ℤ) ≤
    max server.kMaxConnections 0

theorem countP_set_add {A : Type*} {list : List A} {index : ℕ} {old : A} (p : A → Bool)
    (hold : list[index]? = some old) (new : A) :
    (list.set index new).countP p + (if p old then 1 else 0) =
      list.countP p + (if p new then 1 else 0) := by
  obtain ⟨hindex, rfl⟩ := List.getElem?_eq_some_iff.mp hold
  have hle := @List.boole_getElem_le_countP A p list index hindex
  rw [List.countP_set hindex]
  omega

section Server

variable {server : HttpServer} {state state' : ServerState} {conn : Connection} {index : ℕ}

theorem nodup_names (haccounted : Accounted server state)
    (hlength : state.conns.length < 2 ^ 31) :
    (state.conns.map fun conn => conn.tcp.name).Nodup := by
  rw [haccounted.names]
  apply List.Nodup.map_on _ List.nodup_range
  intro left hleft right hright hname
  rw [List.mem_range] at hleft hright
  have hsame := server.server.connName_injective (by omega) (by omega) hname
  omega

/-- A connection is connected only between its two callbacks. -/
theorem isUp_of_connected {names : Finset Bytes} (hsettled : Settled names conn)
    (hconnected : conn.tcp.connected = true) : conn.isUp = true := by
  have hstate : conn.tcp.state = .kConnected := of_decide_eq_true hconnected
  obtain ⟨hat, _⟩ := hsettled.up_of_admits (Or.inl hstate)
  rw [Connection.isUp, hat.callbacks]
  rfl

theorem countP_connected_le {names : Finset Bytes} {conns : List Connection}
    (hsettled : ∀ conn ∈ conns, Settled names conn) :
    (conns.countP fun conn => conn.tcp.connected) ≤ conns.countP Connection.isUp :=
  List.countP_mono_left fun conn hconn => isUp_of_connected (hsettled conn hconn)

theorem share_le_one (conn : Connection) : conn.share ≤ 1 := by
  rw [Connection.share]
  split_ifs
  · exact Nat.le_refl 1
  · exact Nat.zero_le 1

/-- A connection that becomes connected had room besides those that were up. -/
theorem connected_le_of_room {names : Finset Bytes} {conns : List Connection} {others : ℕ}
    (hsettled : ∀ conn ∈ conns, Settled names conn)
    (hup : conns.countP Connection.isUp = others + conn.share)
    (hroom : (others : ℤ) + 1 ≤ server.kMaxConnections) :
    (conns.countP fun conn => conn.tcp.connected : ℤ) ≤ max server.kMaxConnections 0 := by
  have hle := countP_connected_le hsettled
  have hshare := share_le_one conn
  rw [hup] at hle
  omega

/-- Connections at different places have different names. -/
theorem name_ne_of_place_ne (haccounted : Accounted server state)
    (hlength : state.conns.length < 2 ^ 31) (hconn : state.conns[index]? = some conn)
    {other : Connection} {place : ℕ} (hother : state.conns[place]? = some other)
    (hplace : index ≠ place) : other.tcp.name ≠ conn.tcp.name := by
  intro hname
  have hindex : index < state.conns.length := (List.getElem?_eq_some_iff.mp hconn).1
  apply hplace
  apply (List.getElem?_inj (by rwa [List.length_map]) (nodup_names haccounted hlength)).mp
  rw [List.getElem?_map, List.getElem?_map, hconn, hother, Option.map_some, Option.map_some,
    hname]

/-- A connection keeps its name, and so the list of names is as before. -/
theorem names_set {conns : List Connection} {new : Connection}
    (hconn : conns[index]? = some conn) (hname : new.tcp.name = conn.tcp.name) :
    (conns.set index new).map (fun conn => conn.tcp.name) =
      conns.map fun conn => conn.tcp.name := by
  have hindex : index < conns.length := (List.getElem?_eq_some_iff.mp hconn).1
  rw [List.map_set, hname]
  apply List.ext_getElem?
  intro place
  rw [List.getElem?_set]
  split_ifs with hsame hplace
  · rw [← hsame, List.getElem?_map, hconn, Option.map_some]
  · rw [List.length_map] at hplace
    exact absurd (hsame ▸ hindex) hplace
  · rfl

/-- A step of a connection leaves the books of the server right. -/
theorem accounted_set {result : Shared × Connection} {others : ℕ}
    (haccounted : Accounted server state) (hlength : state.conns.length < 2 ^ 31)
    (hconn : state.conns[index]? = some conn)
    (hothers : state.conns.countP Connection.isUp = others + conn.share)
    (hkeeps : Keeps server others state.shared conn result) :
    Accounted server
      { state with shared := result.1, conns := state.conns.set index result.2 } := by
  have hup : (state.conns.set index result.2).countP Connection.isUp =
      others + result.2.share := by
    have hset := countP_set_add Connection.isUp hconn result.2
    rw [hothers] at hset
    simp only [Connection.share] at hset ⊢
    omega
  have hsettled : ∀ other ∈ state.conns.set index result.2, Settled result.1.connections other := by
    intro other hother
    obtain ⟨place, hplace⟩ := List.mem_iff_getElem?.mp hother
    rw [List.getElem?_set] at hplace
    split_ifs at hplace with hsame
    · cases hplace
      exact hkeeps.settled
    · have hne := name_ne_of_place_ne haccounted hlength hconn hplace hsame
      exact (haccounted.settled other (List.mem_of_getElem? hplace)).of_held
        (hkeeps.connections other.tcp.name hne)
  refine ⟨?_, ?_, hsettled, ?_, ?_⟩
  · rw [List.length_set]
    exact haccounted.nextConnId
  · rw [List.length_set, ← haccounted.names]
    exact names_set hconn hkeeps.name
  · rw [hkeeps.counted, hup, Nat.cast_add]
  · by_cases hroom : result.2.tcp.connected = true → conn.tcp.connected = true
    · -- no connection has become connected
      have hset := countP_set_add (fun conn => conn.tcp.connected) hconn result.2
      have hle : (state.conns.set index result.2).countP (fun conn => conn.tcp.connected) ≤
          state.conns.countP fun conn => conn.tcp.connected := by
        split_ifs at hset <;> first | omega | simp_all
      exact le_trans (Nat.cast_le.mpr hle) haccounted.limit
    · rw [Classical.not_imp] at hroom
      obtain ⟨hnew, hold⟩ := hroom
      have hwithin : (others : ℤ) + 1 ≤ server.kMaxConnections :=
        (hkeeps.limit (of_decide_eq_true hnew)).resolve_left fun hstate =>
          hold (decide_eq_true hstate)
      exact connected_le_of_room hsettled hup hwithin

/-- A new connection comes with a new name. -/
theorem accounted_append {shared : Shared} {result : Shared × Connection}
    (haccounted : Accounted server state)
    (hheld : ∀ name ∈ state.shared.connections, name ∈ shared.connections)
    (hconn : conn.tcp.name = server.server.connName state.nextConnId)
    (hnew : conn.tcp.state = .kConnecting)
    (hlength : state.conns.length + 1 < 2 ^ 31)
    (hkeeps : Keeps server (state.conns.countP Connection.isUp) shared conn result) :
    Accounted server
      { nextConnId := state.nextConnId + 1, shared := result.1,
        conns := state.conns ++ [result.2] } := by
  have hnext := haccounted.nextConnId
  have hother : ∀ other ∈ state.conns, other.tcp.name ≠ conn.tcp.name := by
    intro other hother hname
    have hmem : other.tcp.name ∈ state.conns.map fun conn => conn.tcp.name :=
      List.mem_map_of_mem hother
    rw [haccounted.names, List.mem_map] at hmem
    obtain ⟨index, hindex, hsame⟩ := hmem
    rw [List.mem_range] at hindex
    have hid := server.server.connName_injective (by omega) (by omega)
      (hsame.trans (hname.trans hconn))
    omega
  have hsettled : ∀ other ∈ state.conns ++ [result.2], Settled result.1.connections other := by
    intro other hmem
    rcases List.mem_append.mp hmem with hold | hlast
    · exact (haccounted.settled other hold).of_held fun hname =>
        hkeeps.connections _ (hother other hold) (hheld _ hname)
    · rw [List.mem_singleton.mp hlast]
      exact hkeeps.settled
  have hup : (state.conns ++ [result.2]).countP Connection.isUp =
      state.conns.countP Connection.isUp + result.2.share := by
    rw [List.countP_append, List.countP_singleton, Connection.share]
  refine ⟨?_, ?_, hsettled, ?_, ?_⟩
  · rw [List.length_append, List.length_singleton, hnext]
  · rw [List.map_append, haccounted.names, List.length_append, List.length_singleton,
      List.range_succ, List.map_append, List.map_singleton, List.map_singleton, hkeeps.name,
      hconn, hnext]
  · rw [hkeeps.counted, hup, Nat.cast_add]
  · by_cases hconnected : result.2.tcp.connected = true
    · have hwithin := (hkeeps.limit (of_decide_eq_true hconnected)).resolve_left fun hstate => by
        cases hnew.symm.trans hstate
      exact connected_le_of_room hsettled hup hwithin
    · have hsame : (state.conns ++ [result.2]).countP (fun conn => conn.tcp.connected) =
          state.conns.countP fun conn => conn.tcp.connected := by
        rw [List.countP_append, List.countP_singleton, if_neg hconnected, Nat.add_zero]
      simp only [hsame]
      exact haccounted.limit

/-- Accepting a connection keeps the accounts. -/
theorem newConnection_spec (haccounted : Accounted server state)
    (hlength : state.conns.length + 1 < 2 ^ 31) :
    ∃ state', newConnection server state = .ret state' ∧ Accounted server state' ∧
      state'.conns.length = state.conns.length + 1 := by
  let shared : Shared := { state.shared with
    connections := insert (server.server.connName state.nextConnId) state.shared.connections }
  let conn : Connection := { tcp := { name := server.server.connName state.nextConnId } }
  have hat : At .accepted none conn :=
    ⟨rfl, rfl, fun _ _ => rfl, fun _ functor hmem => absurd hmem List.not_mem_nil,
      fun _ => ⟨rfl, rfl⟩⟩
  have hheld : conn.tcp.name ∈ shared.connections := Finset.mem_insert_self _ _
  have hle : state.conns.countP Connection.isUp ≤ state.conns.length := List.countP_le_length
  obtain ⟨result, hresult, hkeeps⟩ : ∃ result,
      (if server.sameLoop then connectEstablished server shared conn
        else .ret (shared, conn.enqueue .connectEstablished)) = .ret result ∧
      Keeps server (state.conns.countP Connection.isUp) shared conn result := by
    split_ifs
    · exact connectEstablished_spec hat hheld haccounted.counted (by omega)
    · have hat' := @at_enqueue conn .accepted .connectEstablished hat rfl
      refine ⟨_, rfl, .accepted hat' hheld, rfl, fun _ _ => id, ?_, Or.inl⟩
      rw [share_of_at hat']
      exact haccounted.counted
  refine ⟨_, ?_, @accounted_append server state conn shared result haccounted
    (fun _ => Finset.mem_insert_of_mem) rfl rfl hlength hkeeps, by simp⟩
  rw [newConnection]
  simp only
  rw [hresult, Exec.ret_bind]

/-- A step keeps the accounts of all connections. -/
theorem step_spec (haccounted : Accounted server state) {event : Event}
    (hreported : event.IsReported)
    (hlength : state.conns.length + [event].countP Event.isAccept < 2 ^ 31) :
    ∃ state', step server state event = .ret state' ∧ Accounted server state' ∧
      state'.conns.length = state.conns.length + [event].countP Event.isAccept := by
  cases event with
  | accept => exact newConnection_spec haccounted hlength
  | connection index event =>
      rw [step]
      cases hconn : state.conns[index]? with
      | none => exact ⟨state, rfl, haccounted, rfl⟩
      | some conn =>
          -- the connections besides the one at hand
          let rest := state.conns.eraseIdx index
          have hindex : index < state.conns.length := (List.getElem?_eq_some_iff.mp hconn).1
          have hperm : (conn :: rest).Perm state.conns := by
            have hget := (List.getElem?_eq_some_iff.mp hconn).2
            have hall := List.getElem_cons_eraseIdx_perm hindex
            rwa [hget] at hall
          have hothers : state.conns.countP Connection.isUp =
              rest.countP Connection.isUp + conn.share := by
            rw [← hperm.countP_eq, List.countP_cons]
            rfl
          have hrest : rest.countP Connection.isUp + 1 ≤ state.conns.length := by
            rw [← hperm.length_eq, List.length_cons]
            exact Nat.succ_le_succ List.countP_le_length
          have hlength' : state.conns.length < 2 ^ 31 := hlength
          have hcounted : state.shared.numConnected =
              (rest.countP Connection.isUp : ℕ) + conn.share := by
            rw [haccounted.counted, hothers, Nat.cast_add]
          obtain ⟨result, hhandle, hkeeps⟩ := @handle_spec server state.shared conn
            (rest.countP Connection.isUp) (haccounted.settled conn (List.mem_of_getElem? hconn))
            hcounted (hrest.trans_lt hlength') event hreported
          refine ⟨_, by simp only [hhandle, Exec.ret_bind],
            accounted_set haccounted hlength' hconn hothers hkeeps, ?_⟩
          exact List.length_set

/-- A run keeps the accounts of all connections. -/
theorem runFrom_spec {events : List Event} (haccounted : Accounted server state)
    (hreported : ∀ event ∈ events, event.IsReported)
    (hlength : state.conns.length + events.countP Event.isAccept < 2 ^ 31) :
    ∃ state', runFrom (step server) state events = .ret state' ∧ Accounted server state' := by
  induction events generalizing state with
  | nil => exact ⟨state, rfl, haccounted⟩
  | cons event events ih =>
      rw [List.forall_mem_cons] at hreported
      have hsplit : (event :: events).countP Event.isAccept =
          [event].countP Event.isAccept + events.countP Event.isAccept := by
        rw [← List.countP_append, List.singleton_append]
      rw [hsplit] at hlength
      obtain ⟨middle, hstep, hmiddle, hgrown⟩ :=
        step_spec haccounted hreported.1 (by omega)
      obtain ⟨state', hrun, hstate'⟩ := ih hmiddle hreported.2 (by omega)
      exact ⟨state', runFrom_cons_eq_ret_iff.mpr ⟨middle, hstep, hrun⟩, hstate'⟩

theorem accounted_initial : Accounted server {} where
  nextConnId := rfl
  names := rfl
  settled := List.forall_mem_nil _
  counted := rfl
  limit := le_max_right _ _

/-- However the events of the connections interleave: no assertion fails, each
connection is reported up at most once and after that down at most once, the count is
that of the connections that are up, and no more than the limit stay connected. -/
theorem accounted_run {events : List Event}
    (haccepts : events.countP Event.isAccept < 2 ^ 31)
    (hreported : ∀ event ∈ events, event.IsReported) :
    ∃ state, runFrom (step server) {} events = .ret state ∧
      (∀ conn ∈ state.conns, conn.callbacks = [] ∨ conn.callbacks = [.kConnected] ∨
        conn.callbacks = [.kConnected, .kDisconnected]) ∧
      state.shared.numConnected = state.conns.countP Connection.isUp ∧
      (0 ≤ server.kMaxConnections →
        (state.conns.countP fun conn => conn.tcp.connected : ℤ) ≤ server.kMaxConnections) := by
  obtain ⟨state, hrun, haccounted⟩ := @runFrom_spec server {} events accounted_initial
    hreported (by simpa using haccepts)
  refine ⟨state, hrun, ?_, haccounted.counted, ?_⟩
  · intro conn hconn
    obtain ⟨stage, _, hat⟩ := (haccounted.settled conn hconn).exists_at
    rw [hat.callbacks]
    cases stage with
    | accepted => exact Or.inl rfl
    | up => exact Or.inr (Or.inl rfl)
    | down => exact Or.inr (Or.inr rfl)
  · intro hnonneg
    have hlimit := haccounted.limit
    rwa [max_eq_left hnonneg] at hlimit

end Server

/-! ## A run -/

/-- A server for one connection, whose connections are handled by other loops. -/
def smallServer : HttpServer where
  server :=
    { name := ascii "cuber"
      listenAddress :=
        { ip := ascii "127.0.0.1", port := httpPort, ip_text := by decide +kernel,
          ip_length := by decide }
      name_percent := by decide }
  kMaxConnections := 1
  sameLoop := false

/-- The second of two connections is refused.  The first is closed by the end of its
input while a forced close is queued, the second by the delayed one. -/
def crowdedRun : List Event :=
  [.accept, .accept,
    .connection 0 (.functor .connectEstablished (.wrote 0)),
    .connection 1 (.functor .connectEstablished (.wrote 0)),
    .connection 0 (.call false .forceClose),
    .connection 0 (.poll { pollIn := true } 1 .endOfFile (.wrote 0)),
    .connection 0 (.functor .forceCloseInLoop (.wrote 0)),
    .connection 0 (.functor .removeConnectionInLoop (.wrote 0)),
    .connection 1 .expire,
    .connection 1 (.functor .forceCloseInLoop (.wrote 0)),
    .connection 0 (.functor .connectDestroyed (.wrote 0))]

theorem accounted_crowdedRun :
    crowdedRun.countP Event.isAccept = 2 ∧
      ∃ state, runFrom (step smallServer) {} crowdedRun = .ret state ∧
        state.conns.map Connection.callbacks =
          [[.kConnected, .kDisconnected], [.kConnected, .kDisconnected]] ∧
        state.shared.numConnected = state.conns.countP Connection.isUp := by
  have hreported : ∀ event ∈ crowdedRun, event.IsReported := by
    intro event hevent
    simp only [crowdedRun, List.mem_cons, List.not_mem_nil, or_false] at hevent
    rcases hevent with rfl | rfl | rfl | rfl | rfl | rfl | rfl | rfl | rfl | rfl | rfl <;>
      first | trivial | exact nofun
  have hcallbacks : (runFrom (step smallServer) {} crowdedRun).returns (fun state =>
      state.conns.map Connection.callbacks =
        [[.kConnected, .kDisconnected], [.kConnected, .kDisconnected]]) = true := by
    decide +kernel
  obtain ⟨state, hrun, _, hcounted, _⟩ := @accounted_run smallServer crowdedRun (by decide)
    hreported
  rw [hrun] at hcallbacks
  exact ⟨by decide, state, hrun, of_decide_eq_true hcallbacks, hcounted⟩

end Cuber.Accounting
