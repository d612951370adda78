import Cuber.Core.Runs

/-!
# Connecting to a server

A `Connector` opens a socket, waits for it to become writable, and tries again
later when the connection cannot be made.  All of its code is run by the event
loop: as a functor that was queued, for an event of the channel, or when a timer
goes off.  `stop` may be called at any time; it sets a flag, which every other
function reads at most once, and queues a functor.

The outcomes of the system calls are arguments of the events.  The loop handles all
channels that are active before it runs functors, so that a timer may go off while
the reset of a channel is still queued: where the handlers of one round take longer
than the delay of a retry.  Sockets are numbered as they are created, and the record
keeps account of what becomes of them.
-/

namespace Cuber.Connecting

open Cuber.Execution
open Cuber.Runs

/-! ## The connector and its loop -/

inductive States where
  | kDisconnected
  | kConnecting
  | kConnected
  deriving DecidableEq

inductive Errno where
  | success
  | EINPROGRESS
  | EINTR
  | EISCONN
  | EAGAIN
  | EADDRINUSE
  | EADDRNOTAVAIL
  | ECONNREFUSED
  | ENETUNREACH
  | EACCES
  | EPERM
  | EAFNOSUPPORT
  | EALREADY
  | EBADF
  | EFAULT
  | ENOTSOCK
  | other (number : ℕ)
  deriving DecidableEq

/-- The groups that the `switch` of `Connector::connect` makes. -/
inductive Outcome where
  | connects
  | retries
  | closes
  deriving DecidableEq

def Errno.outcome : Errno → Outcome
  | .success | .EINPROGRESS | .EINTR | .EISCONN => .connects
  | .EAGAIN | .EADDRINUSE | .EADDRNOTAVAIL | .ECONNREFUSED | .ENETUNREACH => .retries
  | .EACCES | .EPERM | .EAFNOSUPPORT | .EALREADY | .EBADF | .EFAULT | .ENOTSOCK => .closes
  | .other _ => .closes

structure Channel where
  fd : ℕ
  /-- The poller knows the channel. -/
  registered : Bool
  deriving DecidableEq

inductive Functor where
  | startInLoop
  | stopInLoop
  | resetChannel
  deriving DecidableEq

inductive ConnectorFault where
  | assertionFailed
  | nullChannel
  deriving DecidableEq

def kMaxRetryDelayMs : ℕ := 30 * 1000
def kInitRetryDelayMs : ℕ := 500

structure Connector where
  /-- `connect_`. -/
  connectFlag : Bool := false
  state : States := .kDisconnected
  channel : Option Channel := none
  retryDelayMs : ℕ := kInitRetryDelayMs
  maxRetry : ℤ := -1
  pendingFunctors : List Functor := []
  /-- The timers for `startInLoop`. -/
  timers : ℕ := 0
  /-- `start` was called. -/
  started : Bool := false
  /-- The number of sockets created. -/
  created : ℕ := 0
  closed : List ℕ := []
  /-- The sockets passed to `newConnectionCallback_`. -/
  handed : List ℕ := []
  /-- The calls of `connectFailCallback_`. -/
  failures : ℕ := 0
  /-- The delays of the timers, in milliseconds. -/
  delays : List ℕ := []
  deriving DecidableEq

namespace Connector

def setState (connector : Connector) (state : States) : Connector :=
  { connector with state := state }

def queueInLoop (connector : Connector) (functor : Functor) : Connector :=
  { connector with pendingFunctors := connector.pendingFunctors ++ [functor] }

def close (connector : Connector) (sockfd : ℕ) : Connector :=
  { connector with closed := connector.closed ++ [sockfd] }

/-- `loop_->runAfter` of `startInLoop`. -/
def runAfter (connector : Connector) (delay : ℕ) : Connector :=
  { connector with timers := connector.timers + 1, delays := connector.delays ++ [delay] }

def stop (connector : Connector) : Connector :=
  { connector with connectFlag := false }.queueInLoop .stopInLoop

/-- The end of `Connector::retry`, where another attempt is put off. -/
def scheduleRetry (connector : Connector) : Connector :=
  { connector.runAfter connector.retryDelayMs with
    retryDelayMs := min (connector.retryDelayMs * 2) kMaxRetryDelayMs
    maxRetry :=
      if connector.maxRetry > 0 then connector.maxRetry - 1 else connector.maxRetry }

def retry (connector : Connector) (sockfd : ℕ) : Connector :=
  let connector := (connector.close sockfd).setState .kDisconnected
  if connector.connectFlag then
    if connector.maxRetry = 0 then
      { connector.stop with failures := connector.failures + 1 }
    else connector.scheduleRetry
  else connector

def connecting (connector : Connector) (sockfd : ℕ) : Exec ConnectorFault Connector :=
  if connector.channel = none then
    .ret { connector.setState .kConnecting with channel := some ⟨sockfd, true⟩ }
  else .fault .assertionFailed

def connect (connector : Connector) (errno : Errno) : Exec ConnectorFault Connector :=
  let sockfd := connector.created
  let connector := { connector with created := connector.created + 1 }
  match errno.outcome with
  | .connects => connector.connecting sockfd
  | .retries => .ret (connector.retry sockfd)
  -- `connectErrorCallback_()` is commented out
  | .closes => .ret (connector.close sockfd)

def startInLoop (connector : Connector) (errno : Errno) : Exec ConnectorFault Connector :=
  if connector.state = .kDisconnected then
    if connector.connectFlag then connector.connect errno else .ret connector
  else .fault .assertionFailed

def removeAndResetChannel (connector : Connector) :
    Exec ConnectorFault (ℕ × Connector) :=
  match connector.channel with
  | some channel =>
      .ret (channel.fd, { connector with
        channel := some { channel with registered := false } }.queueInLoop .resetChannel)
  | none => .fault .nullChannel

/-- `Connector::resetChannel`.  A channel that is destroyed must not be
registered. -/
def resetChannel (connector : Connector) : Exec ConnectorFault Connector :=
  match connector.channel with
  | some ⟨_, true⟩ => .fault .assertionFailed
  | _ => .ret { connector with channel := none }

def stopInLoop (connector : Connector) : Exec ConnectorFault Connector :=
  if connector.state = .kConnecting then
    (connector.setState .kDisconnected).removeAndResetChannel.bind
      fun (sockfd, connector) => .ret (connector.retry sockfd)
  else .ret connector

/-- `Connector::handleWrite`, with the error of the socket and whether it is connected
to itself. -/
def handleWrite (connector : Connector) (err : ℤ) (selfConnect : Bool) :
    Exec ConnectorFault Connector :=
  match connector.state with
  | .kConnecting =>
      connector.removeAndResetChannel.bind fun (sockfd, connector) =>
        if err ≠ 0 then .ret (connector.retry sockfd)
        else if selfConnect then .ret (connector.retry sockfd)
        else
          let connector := connector.setState .kConnected
          if connector.connectFlag then
            .ret { connector with handed := connector.handed ++ [sockfd] }
          else .ret (connector.close sockfd)
  | .kDisconnected => .ret connector
  | .kConnected => .fault .assertionFailed

def handleError (connector : Connector) : Exec ConnectorFault Connector :=
  if connector.state = .kConnecting then
    connector.removeAndResetChannel.bind fun (sockfd, connector) =>
      .ret (connector.retry sockfd)
  else .ret connector

/-- `Channel::handleEventWithGuard` with the two callbacks that are set. -/
def handleEventWithGuard (connector : Connector) (error write : Bool) (err : ℤ)
    (selfConnect : Bool) : Exec ConnectorFault Connector :=
  (if error then connector.handleError else .ret connector).bind fun connector =>
    if write then connector.handleWrite err selfConnect else .ret connector

/-- `Connector::start`; in the thread of the loop it goes on at once. -/
def start (connector : Connector) (inLoop : Bool) (errno : Errno) :
    Exec ConnectorFault Connector :=
  let connector := { connector with connectFlag := true, started := true }
  if inLoop then connector.startInLoop errno
  else .ret (connector.queueInLoop .startInLoop)

end Connector

/-! ## Events -/

inductive LoopEvent where
  | start (inLoop : Bool) (errno : Errno)
  /-- The first of the functors queued is run. -/
  | functor (errno : Errno)
  /-- The channel is active; `error` is `POLLERR` or `POLLNVAL`, and `write` is
  `POLLOUT`. -/
  | poll (error write : Bool) (err : ℤ) (selfConnect : Bool)
  | timer (errno : Errno)
  deriving DecidableEq

inductive Event where
  | loop (event : LoopEvent)
  | stop
  deriving DecidableEq

namespace Connector

def runFunctor (connector : Connector) (functor : Functor) (errno : Errno) :
    Exec ConnectorFault Connector :=
  match functor with
  | .startInLoop => connector.startInLoop errno
  | .stopInLoop => connector.stopInLoop
  | .resetChannel => connector.resetChannel

def handle (connector : Connector) : LoopEvent → Exec ConnectorFault Connector
  | .start inLoop errno =>
      -- only the first call is made
      if connector.started then .ret connector else connector.start inLoop errno
  | .functor errno =>
      match connector.pendingFunctors with
      | [] => .ret connector
      | functor :: functors =>
          { connector with pendingFunctors := functors }.runFunctor functor errno
  | .poll error write err selfConnect =>
      match connector.channel with
      | some ⟨_, true⟩ => connector.handleEventWithGuard error write err selfConnect
      | _ => .ret connector
  | .timer errno =>
      if connector.timers = 0 then .ret connector
      else { connector with timers := connector.timers - 1 }.startInLoop errno

def step (connector : Connector) : Event → Exec ConnectorFault Connector
  | .loop event => connector.handle event
  | .stop => .ret connector.stop

/-- A timer goes off before the reset of the channel that is queued, and its attempt would
need a channel. -/
def Overtakes (connector : Connector) : LoopEvent → Prop
  | .timer errno => 0 < connector.timers ∧ .resetChannel ∈ connector.pendingFunctors ∧
      connector.connectFlag = true ∧ errno.outcome = .connects
  | .start _ _ | .functor _ | .poll _ _ _ _ => False

/-- No timer overtakes the reset of the channel. -/
def InTurn (connector : Connector) : Event → Prop
  | .loop event => ¬ connector.Overtakes event
  | .stop => True

/-- A new connector, after `setMaxRetry`. -/
def initial (retryTime : ℕ) : Connector where
  maxRetry := retryTime

end Connector

/-! ## What holds between events -/

def backoff (retries : ℕ) : ℕ :=
  min (kInitRetryDelayMs * 2 ^ retries) kMaxRetryDelayMs

theorem backoff_succ (retries : ℕ) :
    min (backoff retries * 2) kMaxRetryDelayMs = backoff (retries + 1) := by
  simp only [backoff, pow_succ, ← mul_assoc]
  omega

namespace Connector

def starts (connector : Connector) : ℕ :=
  connector.pendingFunctors.count .startInLoop + connector.timers

def resets (connector : Connector) : ℕ :=
  connector.pendingFunctors.count .resetChannel

def reports (connector : Connector) : ℕ :=
  connector.handed.length + connector.failures

/-- The number of sockets that are no longer being connected. -/
def settled (connector : Connector) : ℕ :=
  if connector.state = .kConnecting then connector.created - 1 else connector.created

/-- The channel is gone, or is about to be reset. -/
def Detached (channel : Option Channel) (resets : ℕ) : Prop :=
  channel = none ∧ resets = 0 ∨ ∃ fd, channel = some ⟨fd, false⟩ ∧ resets = 1

/-- The retries made and left, and their delays. -/
structure Budget (retryTime : ℕ) (delays : List ℕ) (retryDelayMs : ℕ) (maxRetry : ℤ) :
    Prop where
  left : (delays.length : ℤ) + maxRetry = retryTime
  nonneg : 0 ≤ maxRetry
  delay : retryDelayMs = backoff delays.length
  delays : delays = (List.range delays.length).map backoff

structure Invariant (retryTime : ℕ) (connector : Connector) : Prop where
  budget : Budget retryTime connector.delays connector.retryDelayMs connector.maxRetry
  spent : connector.created + connector.starts ≤ connector.delays.length + 1
  single : connector.starts ≤ 1
  fresh : connector.started = false → connector.starts = 0 ∧ connector.created = 0 ∧
    connector.state = .kDisconnected ∧ connector.channel = none ∧ connector.reports = 0
  idle : 0 < connector.starts → connector.state = .kDisconnected
  first : connector.pendingFunctors.count .startInLoop = 0 ∨ connector.resets = 0
  attached : connector.state = .kConnecting → ∃ fd, connector.channel = some ⟨fd, true⟩ ∧
    fd + 1 = connector.created ∧ connector.resets = 0
  detached : connector.state ≠ .kConnecting → Detached connector.channel connector.resets
  sockets : (connector.closed ++ connector.handed).Perm (List.range connector.settled)
  reported : connector.reports = 0 ∨ connector.reports = 1 ∧ connector.starts = 0 ∧
    connector.state ≠ .kConnecting

/-- A function of the connector has the newest socket and is to decide on it. -/
structure Holds (retryTime : ℕ) (connector : Connector) (sockfd : ℕ) : Prop where
  budget : Budget retryTime connector.delays connector.retryDelayMs connector.maxRetry
  spent : connector.created ≤ connector.delays.length + 1
  started : connector.started = true
  quiet : connector.starts = 0
  newest : sockfd + 1 = connector.created
  detached : Detached connector.channel connector.resets
  sockets : (connector.closed ++ connector.handed).Perm (List.range sockfd)
  unreported : connector.reports = 0

/-- A connection attempt may be made. -/
structure Ready (retryTime : ℕ) (connector : Connector) : Prop where
  budget : Budget retryTime connector.delays connector.retryDelayMs connector.maxRetry
  spent : connector.created ≤ connector.delays.length
  started : connector.started = true
  quiet : connector.starts = 0
  state : connector.state = .kDisconnected
  detached : Detached connector.channel connector.resets
  sockets : (connector.closed ++ connector.handed).Perm (List.range connector.created)
  unreported : connector.reports = 0

/-- What becomes of a connector that was started is open, or was reported. -/
structure Fate (connector : Connector) : Prop where
  open_or_reported : connector.started = true →
    connector.state = .kConnecting ∨ 0 < connector.starts ∨ 0 < connector.reports
  asked : connector.started = true → connector.reports = 0 → connector.connectFlag = true

/-- When a connector that was started is neither connecting nor to be started again, one of
the callbacks was called. -/
def TellsFate (connector : Connector) : Prop :=
  connector.started = true → connector.state ≠ .kConnecting → connector.starts = 0 →
    connector.reports = 1

section Specifications

variable {retryTime : ℕ} {connector : Connector} {sockfd : ℕ}

theorem quiet_iff : connector.starts = 0 ↔
    connector.pendingFunctors.count .startInLoop = 0 ∧ connector.timers = 0 := by
  rw [starts]
  omega

theorem perm_close {closed handed : List ℕ}
    (hsockets : (closed ++ handed).Perm (List.range sockfd)) :
    (closed ++ [sockfd] ++ handed).Perm (List.range (sockfd + 1)) := by
  rw [List.range_succ]
  refine List.Perm.trans ?_ (hsockets.append_right [sockfd])
  rw [List.append_assoc, List.append_assoc]
  exact List.Perm.append_left closed List.perm_append_comm

theorem perm_hand {closed handed : List ℕ}
    (hsockets : (closed ++ handed).Perm (List.range sockfd)) :
    (closed ++ (handed ++ [sockfd])).Perm (List.range (sockfd + 1)) := by
  rw [List.range_succ, ← List.append_assoc]
  exact hsockets.append_right [sockfd]

/-- Functors of another kind, and the flag, are nothing that the invariant is about. -/
theorem Invariant.queue (hinvariant : Invariant retryTime connector) (flag : Bool)
    {functors : List Functor}
    (hstarts : functors.count .startInLoop = connector.pendingFunctors.count .startInLoop)
    (hresets : functors.count .resetChannel = connector.resets) :
    Invariant retryTime
      { connector with connectFlag := flag, pendingFunctors := functors } := by
  have hstarts' : ({ connector with connectFlag := flag, pendingFunctors := functors } :
      Connector).starts = connector.starts := by
    rw [starts, starts, hstarts]
  have hresets' : ({ connector with connectFlag := flag, pendingFunctors := functors } :
      Connector).resets = connector.resets := hresets
  constructor
  · exact hinvariant.budget
  · rw [hstarts']
    exact hinvariant.spent
  · rw [hstarts']
    exact hinvariant.single
  · rw [hstarts']
    exact hinvariant.fresh
  · rw [hstarts']
    exact hinvariant.idle
  · change functors.count .startInLoop = 0 ∨ functors.count .resetChannel = 0
    rw [hstarts, hresets]
    exact hinvariant.first
  · rw [hresets']
    exact hinvariant.attached
  · rw [hresets']
    exact hinvariant.detached
  · exact hinvariant.sockets
  · rw [hstarts']
    exact hinvariant.reported

/-- Once nothing is going on, one report may be made. -/
theorem Invariant.fail (hinvariant : Invariant retryTime connector)
    (hstarted : connector.started = true) (hquiet : connector.starts = 0)
    (hstate : connector.state ≠ .kConnecting) (hreports : connector.reports = 0) :
    Invariant retryTime { connector with failures := connector.failures + 1 } where
  budget := hinvariant.budget
  spent := hinvariant.spent
  single := hinvariant.single
  fresh := fun hfresh => absurd (hstarted.symm.trans hfresh) (by simp)
  idle := hinvariant.idle
  first := hinvariant.first
  attached := hinvariant.attached
  detached := hinvariant.detached
  sockets := hinvariant.sockets
  reported := by
    right
    refine ⟨?_, hquiet, hstate⟩
    simp only [reports] at hreports ⊢
    omega

/-- Once nothing is going on, one retry may be scheduled. -/
theorem Invariant.schedule (hinvariant : Invariant retryTime connector)
    (hstarted : connector.started = true) (hquiet : connector.starts = 0)
    (hstate : connector.state = .kDisconnected) (hreports : connector.reports = 0)
    (hleft : connector.maxRetry ≠ 0) : Invariant retryTime connector.scheduleRetry := by
  obtain ⟨hbudget, hnonneg, hdelay, hdelays⟩ := hinvariant.budget
  have hpos : connector.maxRetry > 0 := by omega
  have hspent := hinvariant.spent
  obtain ⟨hfunctors, htimers⟩ := quiet_iff.mp hquiet
  have hstarts : connector.scheduleRetry.starts = 1 := by
    simp [starts, scheduleRetry, runAfter, hfunctors, htimers]
  have hlength : (connector.delays ++ [connector.retryDelayMs]).length =
      connector.delays.length + 1 := by
    simp
  constructor
  · constructor
    · simp only [scheduleRetry, runAfter, hlength, if_pos hpos]
      push_cast
      omega
    · simp only [scheduleRetry, if_pos hpos]
      omega
    · simp only [scheduleRetry, runAfter, hlength]
      rw [hdelay, backoff_succ]
    · simp only [scheduleRetry, runAfter, hlength]
      rw [List.range_succ, List.map_append, ← hdelays, hdelay]
      rfl
  · rw [hstarts]
    simp only [scheduleRetry, runAfter, hlength]
    omega
  · rw [hstarts]
  · intro hfresh
    cases hstarted.symm.trans hfresh
  · intro _
    exact hstate
  · exact Or.inl hfunctors
  · exact hinvariant.attached
  · exact hinvariant.detached
  · exact hinvariant.sockets
  · exact Or.inl hreports

/-- A function that has decided on its socket: it waits for it, closes it or hands it
over. -/
theorem Holds.settle (hholds : Holds retryTime connector sockfd) (state : States)
    (channel : Option Channel) (closed handed : List ℕ)
    (hattached : state = .kConnecting →
      channel = some ⟨sockfd, true⟩ ∧ connector.resets = 0)
    (hdetached : state ≠ .kConnecting → channel = connector.channel)
    (hsockets : (closed ++ handed).Perm
      (List.range (if state = .kConnecting then sockfd else sockfd + 1)))
    (hreported : handed = connector.handed ∨
      handed.length = connector.handed.length + 1 ∧ state ≠ .kConnecting) :
    Invariant retryTime { connector with
      state := state, channel := channel, closed := closed, handed := handed } := by
  have hquiet : ({ connector with
      state := state, channel := channel, closed := closed, handed := handed } :
        Connector).starts = 0 := hholds.quiet
  have hspent := hholds.spent
  have hnewest := hholds.newest
  have hunreported := hholds.unreported
  rw [reports] at hunreported
  constructor
  · exact hholds.budget
  · rw [hquiet]
    exact hspent
  · rw [hquiet]
    exact Nat.zero_le _
  · intro hfresh
    cases hholds.started.symm.trans hfresh
  · intro hstarts
    rw [hquiet] at hstarts
    exact absurd hstarts (Nat.lt_irrefl _)
  · exact Or.inl (quiet_iff.mp hholds.quiet).1
  · intro hstate
    obtain ⟨hchannel, hresets⟩ := hattached hstate
    exact ⟨sockfd, hchannel, hnewest, hresets⟩
  · intro hstate
    change Detached channel connector.resets
    rw [hdetached hstate]
    exact hholds.detached
  · have hsettled : ({ connector with
        state := state, channel := channel, closed := closed, handed := handed } :
          Connector).settled = if state = .kConnecting then sockfd else sockfd + 1 := by
      simp only [settled]
      split_ifs
      · omega
      · exact hnewest.symm
    rw [hsettled]
    exact hsockets
  · simp only [reports]
    rcases hreported with rfl | ⟨hlength, hstate⟩
    · exact Or.inl hunreported
    · exact Or.inr ⟨by omega, hquiet, hstate⟩

/-- A function that closes its socket and does nothing else. -/
theorem Holds.close (hholds : Holds retryTime connector sockfd)
    (hstate : connector.state ≠ .kConnecting) :
    Invariant retryTime (connector.close sockfd) := by
  apply hholds.settle connector.state connector.channel (connector.closed ++ [sockfd])
    connector.handed (fun hconnecting => absurd hconnecting hstate) (fun _ => rfl) _ (Or.inl rfl)
  rw [if_neg hstate]
  exact perm_close hholds.sockets

/-- A function that hands its socket over. -/
theorem Holds.hand (hholds : Holds retryTime connector sockfd)
    (hstate : connector.state ≠ .kConnecting) :
    Invariant retryTime { connector with handed := connector.handed ++ [sockfd] } := by
  apply hholds.settle connector.state connector.channel connector.closed
    (connector.handed ++ [sockfd]) (fun hconnecting => absurd hconnecting hstate)
    (fun _ => rfl)
  · rw [if_neg hstate]
    exact perm_hand hholds.sockets
  · exact Or.inr ⟨List.length_append, hstate⟩

/-- A function that waits for its socket. -/
theorem Holds.attach (hholds : Holds retryTime connector sockfd)
    (hresets : connector.resets = 0) :
    Invariant retryTime
      { connector.setState .kConnecting with channel := some ⟨sockfd, true⟩ } :=
  hholds.settle .kConnecting (some ⟨sockfd, true⟩) connector.closed connector.handed
    (fun _ => ⟨rfl, hresets⟩) (fun hstate => absurd rfl hstate) hholds.sockets (Or.inl rfl)

/-- A socket that is given up leads to a retry, to a report, or to nothing where the
connector was stopped. -/
theorem retry_spec (hholds : Holds retryTime connector sockfd) :
    Invariant retryTime (connector.retry sockfd) ∧
      (connector.connectFlag = true → Fate (connector.retry sockfd)) := by
  have hidle : Holds retryTime (connector.setState .kDisconnected) sockfd :=
    ⟨hholds.budget, hholds.spent, hholds.started, hholds.quiet, hholds.newest,
      hholds.detached, hholds.sockets, hholds.unreported⟩
  have hclosed : Invariant retryTime ((connector.close sockfd).setState .kDisconnected) :=
    hidle.close (by simp [setState])
  simp only [retry]
  split_ifs with hflag hlast
  · have hstopped : Invariant retryTime
        ((connector.close sockfd).setState .kDisconnected).stop :=
      hclosed.queue false (by simp) (by simp [resets])
    have hquiet : ((connector.close sockfd).setState .kDisconnected).stop.starts = 0 := by
      rw [quiet_iff]
      simpa [stop, queueInLoop, setState, close] using quiet_iff.mp hholds.quiet
    refine ⟨hstopped.fail hholds.started hquiet (by simp [stop, queueInLoop, setState])
      hholds.unreported, fun _ => ⟨fun _ => Or.inr (Or.inr ?_), fun _ hnone => ?_⟩⟩
    · simp [reports]
    · simp [reports] at hnone
  · refine ⟨hclosed.schedule hholds.started hholds.quiet rfl hholds.unreported hlast,
      fun _ => ⟨fun _ => Or.inr (Or.inl ?_), fun _ _ => hflag⟩⟩
    simp [starts, scheduleRetry, runAfter]
  · exact ⟨hclosed, fun hasked => absurd hasked hflag⟩

theorem retry_state : (connector.retry sockfd).state = .kDisconnected := by
  simp only [retry]
  split_ifs <;> rfl

theorem Invariant.started_of_connecting (hinvariant : Invariant retryTime connector)
    (hstate : connector.state = .kConnecting) : connector.started = true := by
  by_contra hfresh
  have hnew := (hinvariant.fresh (by simpa using hfresh)).2.2.1
  rw [hstate] at hnew
  cases hnew

theorem Invariant.unreported_of_connecting (hinvariant : Invariant retryTime connector)
    (hstate : connector.state = .kConnecting) : connector.reports = 0 := by
  rcases hinvariant.reported with hreports | ⟨_, _, hnot⟩
  · exact hreports
  · exact absurd hstate hnot

/-- The channel of a socket that is being connected is given back. -/
theorem removeAndResetChannel_spec (hinvariant : Invariant retryTime connector)
    (hstate : connector.state = .kConnecting) (state : States) :
    ∃ sockfd connector',
      (connector.setState state).removeAndResetChannel = .ret (sockfd, connector') ∧
        Holds retryTime connector' sockfd ∧ connector'.state = state ∧
        connector'.connectFlag = connector.connectFlag := by
  obtain ⟨sockfd, hchannel, hnewest, hresets⟩ := hinvariant.attached hstate
  have hquiet : connector.starts = 0 := by
    by_contra hstarts
    have hidle := hinvariant.idle (Nat.pos_of_ne_zero hstarts)
    rw [hstate] at hidle
    cases hidle
  have hspent := hinvariant.spent
  rw [hquiet] at hspent
  refine ⟨sockfd, { connector.setState state with
    channel := some ⟨sockfd, false⟩ }.queueInLoop .resetChannel, ?_, ?_, rfl, rfl⟩
  · simp only [removeAndResetChannel, setState, hchannel]
  · constructor
    · exact hinvariant.budget
    · exact hspent
    · exact hinvariant.started_of_connecting hstate
    · rw [quiet_iff]
      simpa [queueInLoop, setState] using quiet_iff.mp hquiet
    · exact hnewest
    · right
      refine ⟨sockfd, rfl, ?_⟩
      rw [resets] at hresets ⊢
      simp [queueInLoop, setState, hresets]
    · have hsettled : connector.settled = sockfd := by
        rw [settled, if_pos hstate]
        omega
      rw [← hsettled]
      exact hinvariant.sockets
    · exact hinvariant.unreported_of_connecting hstate

/-- A connector whose socket is being connected was asked to, if its fate is open. -/
theorem Fate.flag_of_connecting (hfate : Fate connector)
    (hinvariant : Invariant retryTime connector) (hstate : connector.state = .kConnecting) :
    connector.connectFlag = true :=
  hfate.asked (hinvariant.started_of_connecting hstate)
    (hinvariant.unreported_of_connecting hstate)

/-- A step goes well if it ends and keeps the invariant.  It leaves the fate of the
connector untold just where an attempt is given up. -/
def GoesWell (retryTime : ℕ) (before : Connector) (attempt : Option Errno)
    (result : Exec ConnectorFault Connector) : Prop :=
  ∃ after, result = .ret after ∧ Invariant retryTime after ∧
    ((∀ errno ∈ attempt, errno.outcome ≠ .closes) → Fate before → Fate after) ∧
    ∀ errno ∈ attempt, errno.outcome = .closes → ¬ TellsFate after

theorem goesWell_none {before after : Connector} (hinvariant : Invariant retryTime after)
    (hfate : Fate before → Fate after) : GoesWell retryTime before none (.ret after) :=
  ⟨after, rfl, hinvariant, fun _ => hfate, by simp⟩

theorem stopInLoop_spec (hinvariant : Invariant retryTime connector) :
    GoesWell retryTime connector none connector.stopInLoop := by
  rw [stopInLoop]
  split_ifs with hstate
  · obtain ⟨sockfd, removed, hremove, hholds, _, hflag⟩ :=
      removeAndResetChannel_spec hinvariant hstate .kDisconnected
    obtain ⟨hafter, hasked⟩ := retry_spec hholds
    rw [hremove]
    apply goesWell_none hafter
    intro hfate
    exact hasked (hflag.trans (hfate.flag_of_connecting hinvariant hstate))
  · exact goesWell_none hinvariant id

theorem setState_self {state : States} (hstate : connector.state = state) :
    connector.setState state = connector := by
  rw [← hstate]
  rfl

theorem handleError_spec (hinvariant : Invariant retryTime connector)
    (hstate : connector.state = .kConnecting) :
    ∃ after, connector.handleError = .ret after ∧ Invariant retryTime after ∧
      (Fate connector → Fate after) ∧ after.state = .kDisconnected := by
  obtain ⟨sockfd, removed, hremove, hholds, _, hflag⟩ :=
    removeAndResetChannel_spec hinvariant hstate .kConnecting
  rw [setState_self hstate] at hremove
  obtain ⟨hafter, hasked⟩ := retry_spec hholds
  refine ⟨removed.retry sockfd, ?_, hafter, fun hfate => ?_, retry_state⟩
  · rw [handleError, if_pos hstate, hremove]
    rfl
  · exact hasked (hflag.trans (hfate.flag_of_connecting hinvariant hstate))

/-- A write event ends the attempt, or has it tried again. -/
theorem handleWrite_spec (hinvariant : Invariant retryTime connector)
    (hstate : connector.state = .kConnecting) (err : ℤ) (selfConnect : Bool) :
    GoesWell retryTime connector none (connector.handleWrite err selfConnect) := by
  obtain ⟨sockfd, removed, hremove, hholds, _, hflag⟩ :=
    removeAndResetChannel_spec hinvariant hstate .kConnecting
  rw [setState_self hstate] at hremove
  obtain ⟨hafter, hasked⟩ := retry_spec hholds
  have hretried : Fate connector → Fate (removed.retry sockfd) := fun hfate =>
    hasked (hflag.trans (hfate.flag_of_connecting hinvariant hstate))
  have hconnected : Holds retryTime (removed.setState .kConnected) sockfd :=
    ⟨hholds.budget, hholds.spent, hholds.started, hholds.quiet, hholds.newest,
      hholds.detached, hholds.sockets, hholds.unreported⟩
  have hwrite : connector.handleWrite err selfConnect =
      if err ≠ 0 then .ret (removed.retry sockfd)
      else if selfConnect then .ret (removed.retry sockfd)
      else if (removed.setState .kConnected).connectFlag then
        .ret { removed.setState .kConnected with
          handed := (removed.setState .kConnected).handed ++ [sockfd] }
      else .ret ((removed.setState .kConnected).close sockfd) := by
    rw [handleWrite, hstate]
    simp only [hremove, Exec.ret_bind]
  rw [hwrite]
  split_ifs with herror hself hwanted
  · exact goesWell_none hafter hretried
  · exact goesWell_none hafter hretried
  · apply goesWell_none (hconnected.hand (by simp [setState]))
    refine fun _ => ⟨fun _ => Or.inr (Or.inr ?_), fun _ hnone => ?_⟩
    · simp [reports]
    · simp [reports] at hnone
  · apply goesWell_none (hconnected.close (by simp [setState]))
    intro hfate
    have hasked := hflag.trans (hfate.flag_of_connecting hinvariant hstate)
    exact absurd hasked hwanted

/-- Both callbacks may run for one event; the second one finds the connector
disconnected. -/
theorem handleEventWithGuard_spec (hinvariant : Invariant retryTime connector)
    (hstate : connector.state = .kConnecting) (error write : Bool) (err : ℤ)
    (selfConnect : Bool) :
    GoesWell retryTime connector none
      (connector.handleEventWithGuard error write err selfConnect) := by
  cases error with
  | false =>
      cases write with
      | false => exact goesWell_none hinvariant id
      | true => exact handleWrite_spec hinvariant hstate err selfConnect
  | true =>
      obtain ⟨after, herror, hafter, hfate, hdisconnected⟩ := handleError_spec hinvariant hstate
      have hboth : connector.handleEventWithGuard true write err selfConnect = .ret after := by
        rw [handleEventWithGuard, if_pos rfl, herror, Exec.ret_bind]
        cases write with
        | false => rfl
        | true => rw [if_pos rfl, handleWrite, hdisconnected]
      rw [hboth]
      exact goesWell_none hafter hfate

/-- A connector that is ready for an attempt may as well wait. -/
theorem Ready.invariant (hready : Ready retryTime connector) :
    Invariant retryTime connector where
  budget := hready.budget
  spent := by
    rw [hready.quiet]
    exact Nat.le_succ_of_le hready.spent
  single := hready.quiet ▸ Nat.zero_le 1
  fresh := fun hfresh => absurd (hready.started.symm.trans hfresh) (by simp)
  idle := fun _ => hready.state
  first := Or.inl (quiet_iff.mp hready.quiet).1
  attached := fun hstate => absurd (hready.state.symm.trans hstate) (by simp)
  detached := fun _ => hready.detached
  sockets := by
    rw [settled, if_neg (by simp [hready.state])]
    exact hready.sockets
  reported := Or.inl hready.unreported

theorem channel_of_detached {channel : Option Channel} (hdetached : Detached channel 0) :
    channel = none := by
  rcases hdetached with ⟨hchannel, -⟩ | ⟨_, -, hone⟩
  · exact hchannel
  · cases hone

/-- A new socket is connected, given up for now, or given up for good. -/
theorem connect_spec (hready : Ready retryTime connector) (errno : Errno)
    (hfree : errno.outcome = .connects → connector.resets = 0) :
    ∃ after, connector.connect errno = .ret after ∧ Invariant retryTime after ∧
      (errno.outcome ≠ .closes → connector.connectFlag = true → Fate after) ∧
      (errno.outcome = .closes → ¬ TellsFate after) := by
  have hholds : Holds retryTime { connector with created := connector.created + 1 }
      connector.created :=
    ⟨hready.budget, Nat.succ_le_succ hready.spent, hready.started, hready.quiet, rfl,
      hready.detached, hready.sockets, hready.unreported⟩
  simp only [connect]
  cases houtcome : errno.outcome with
  | connects =>
      have hresets := hfree houtcome
      have hchannel : connector.channel = none :=
        channel_of_detached (hresets ▸ hready.detached)
      refine ⟨_, if_pos hchannel, hholds.attach hresets, fun _ hflag => ?_, by simp⟩
      exact ⟨fun _ => Or.inl rfl, fun _ _ => hflag⟩
  | retries =>
      obtain ⟨hafter, hfate⟩ := retry_spec hholds
      exact ⟨_, rfl, hafter, fun _ => hfate, by simp⟩
  | closes =>
      have hstate : ({ connector with created := connector.created + 1 } : Connector).state ≠
          .kConnecting := by
        simp [hready.state]
      refine ⟨_, rfl, hholds.close hstate, fun hnot => absurd rfl hnot, fun _ htells => ?_⟩
      have hone := htells hready.started hstate hready.quiet
      have hnone := hready.unreported
      rw [reports] at hnone hone
      simp only [close] at hone
      omega

/-- An attempt is made where one was asked for. -/
theorem startInLoop_spec {before : Connector} (hready : Ready retryTime connector)
    (hasked : Fate before → connector.connectFlag = true) (errno : Errno)
    (hfree : connector.connectFlag = true → errno.outcome = .connects → connector.resets = 0) :
    GoesWell retryTime before (if connector.connectFlag then some errno else none)
      (connector.startInLoop errno) := by
  rw [startInLoop, if_pos hready.state]
  by_cases hflag : connector.connectFlag = true
  · rw [if_pos hflag, if_pos hflag]
    obtain ⟨after, hconnect, hafter, hfate, hsilent⟩ := connect_spec hready errno (hfree hflag)
    exact ⟨after, hconnect, hafter, fun hopen _ => hfate (hopen errno rfl) hflag,
      fun other hother => by cases hother; exact hsilent⟩
  · rw [if_neg hflag, if_neg hflag]
    exact goesWell_none hready.invariant fun hfate => absurd (hasked hfate) hflag

theorem Invariant.started_of_starts (hinvariant : Invariant retryTime connector)
    (hstarts : 0 < connector.starts) : connector.started = true := by
  by_contra hfresh
  have hnone := (hinvariant.fresh (by simpa using hfresh)).1
  omega

theorem Invariant.unreported_of_starts (hinvariant : Invariant retryTime connector)
    (hstarts : 0 < connector.starts) : connector.reports = 0 := by
  rcases hinvariant.reported with hreports | ⟨_, hquiet, _⟩
  · exact hreports
  · omega

/-- A connector that is to be started again was asked to, if its fate is open. -/
theorem Fate.flag_of_starts (hfate : Fate connector)
    (hinvariant : Invariant retryTime connector) (hstarts : 0 < connector.starts) :
    connector.connectFlag = true :=
  hfate.asked (hinvariant.started_of_starts hstarts) (hinvariant.unreported_of_starts hstarts)

/-- A call of `startInLoop` that was waited for finds the connector idle. -/
theorem Invariant.ready (hinvariant : Invariant retryTime connector)
    {functors : List Functor} {timers : ℕ}
    (hstarts : functors.count .startInLoop + timers + 1 = connector.starts)
    (hfunctors : functors.count .resetChannel = connector.resets) :
    Ready retryTime { connector with pendingFunctors := functors, timers := timers } := by
  have hpos : 0 < connector.starts := by omega
  have hsingle := hinvariant.single
  have hspent := hinvariant.spent
  have hstate := hinvariant.idle hpos
  have hnot : connector.state ≠ .kConnecting := by simp [hstate]
  constructor
  · exact hinvariant.budget
  · change connector.created ≤ connector.delays.length
    omega
  · exact hinvariant.started_of_starts hpos
  · change functors.count .startInLoop + timers = 0
    omega
  · exact hstate
  · change Detached connector.channel (functors.count .resetChannel)
    rw [hfunctors]
    exact hinvariant.detached hnot
  · have hsockets := hinvariant.sockets
    rw [settled, if_neg hnot] at hsockets
    exact hsockets
  · exact hinvariant.unreported_of_starts hpos

theorem Invariant.resets_of_fresh (hinvariant : Invariant retryTime connector)
    (hfresh : connector.started = false) : connector.resets = 0 := by
  obtain ⟨-, -, hstate, hchannel, -⟩ := hinvariant.fresh hfresh
  rcases hinvariant.detached (by simp [hstate]) with ⟨-, hresets⟩ | ⟨fd, hsome, -⟩
  · exact hresets
  · cases hchannel.symm.trans hsome

/-- The first `startInLoop` finds a new connector. -/
theorem Invariant.ready_of_fresh (hinvariant : Invariant retryTime connector)
    (hfresh : connector.started = false) :
    Ready retryTime { connector with connectFlag := true, started := true } := by
  obtain ⟨hquiet, hcreated, hstate, -, hreports⟩ := hinvariant.fresh hfresh
  have hnot : connector.state ≠ .kConnecting := by simp [hstate]
  constructor
  · exact hinvariant.budget
  · change connector.created ≤ connector.delays.length
    rw [hcreated]
    exact Nat.zero_le _
  · rfl
  · exact hquiet
  · exact hstate
  · exact hinvariant.detached hnot
  · have hsockets := hinvariant.sockets
    rw [settled, if_neg hnot] at hsockets
    exact hsockets
  · exact hreports

/-- `start` in another thread leaves the attempt to the loop. -/
theorem Ready.queue_start (hready : Ready retryTime connector) (hcreated : connector.created = 0)
    (hnone : connector.resets = 0) :
    Invariant retryTime (connector.queueInLoop .startInLoop) := by
  obtain ⟨hfunctors, htimers⟩ := quiet_iff.mp hready.quiet
  have hstarts : (connector.queueInLoop .startInLoop).starts = 1 := by
    simp [starts, queueInLoop, hfunctors, htimers]
  have hresets : (connector.queueInLoop .startInLoop).resets = 0 := by
    rw [resets] at hnone ⊢
    simp [queueInLoop, hnone]
  constructor
  · exact hready.budget
  · rw [hstarts]
    change connector.created + 1 ≤ connector.delays.length + 1
    omega
  · rw [hstarts]
  · intro hfresh
    cases hready.started.symm.trans hfresh
  · exact fun _ => hready.state
  · exact Or.inr hresets
  · intro hstate
    cases hready.state.symm.trans hstate
  · exact fun _ => Or.inl ⟨channel_of_detached (hnone ▸ hready.detached), hresets⟩
  · exact hready.invariant.sockets
  · exact Or.inl hready.unreported

/-- The channel that was given back is destroyed. -/
theorem resetChannel_spec (hinvariant : Invariant retryTime connector)
    {functors : List Functor}
    (hpending : connector.pendingFunctors = .resetChannel :: functors) :
    GoesWell retryTime connector none
      { connector with pendingFunctors := functors }.resetChannel := by
  have hcount : connector.resets = functors.count .resetChannel + 1 := by
    rw [resets, hpending]
    simp
  have hstarts : ({ connector with pendingFunctors := functors, channel := none } :
      Connector).starts = connector.starts := by
    rw [starts, starts, hpending]
    simp
  have hnot : connector.state ≠ .kConnecting := by
    intro hstate
    obtain ⟨_, _, _, hresets⟩ := hinvariant.attached hstate
    omega
  rcases hinvariant.detached hnot with ⟨_, hresets⟩ | ⟨fd, hchannel, hresets⟩
  · omega
  have hnone : functors.count .resetChannel = 0 := by omega
  have hreset : { connector with pendingFunctors := functors }.resetChannel =
      .ret { connector with pendingFunctors := functors, channel := none } := by
    simp only [resetChannel, hchannel]
  rw [hreset]
  apply goesWell_none
  · constructor
    · exact hinvariant.budget
    · rw [hstarts]
      exact hinvariant.spent
    · rw [hstarts]
      exact hinvariant.single
    · rw [hstarts]
      intro hfresh
      obtain ⟨hquiet, hcreated, hstate, _, hreports⟩ := hinvariant.fresh hfresh
      exact ⟨hquiet, hcreated, hstate, rfl, hreports⟩
    · rw [hstarts]
      exact hinvariant.idle
    · exact Or.inr hnone
    · intro hstate
      exact absurd hstate hnot
    · exact fun _ => Or.inl ⟨rfl, hnone⟩
    · exact hinvariant.sockets
    · rw [hstarts]
      exact hinvariant.reported
  · intro hfate
    refine ⟨fun hstarted => ?_, hfate.asked⟩
    rw [hstarts]
    exact hfate.open_or_reported hstarted

end Specifications

/-! ## Runs -/

/-- The result of the call of `connect` that a step makes, if it makes one. -/
def attempt (connector : Connector) : LoopEvent → Option Errno
  | .start inLoop errno => if inLoop ∧ connector.started = false then some errno else none
  | .functor errno =>
      if connector.pendingFunctors.head? = some .startInLoop ∧ connector.connectFlag then
        some errno
      else none
  | .poll _ _ _ _ => none
  | .timer errno =>
      if connector.timers = 0 then none
      else if connector.connectFlag then some errno
      else none

section Steps

variable {retryTime : ℕ} {connector : Connector}

/-- Starting keeps what holds between events. -/
theorem start_spec (hinvariant : Invariant retryTime connector) (inLoop : Bool)
    (errno : Errno) :
    GoesWell retryTime connector (connector.attempt (.start inLoop errno))
      (connector.handle (.start inLoop errno)) := by
  cases hstarted : connector.started with
  | true => simpa [handle, attempt, hstarted] using goesWell_none hinvariant id
  | false =>
      have hready := hinvariant.ready_of_fresh hstarted
      have hresets := hinvariant.resets_of_fresh hstarted
      cases inLoop with
      | true =>
          simpa [handle, start, attempt, hstarted] using
            startInLoop_spec hready (fun _ => rfl) errno fun _ _ => hresets
      | false =>
          have hcreated := (hinvariant.fresh hstarted).2.1
          simp only [handle, start, attempt, hstarted]
          apply goesWell_none (hready.queue_start hcreated hresets)
          refine fun _ => ⟨fun _ => Or.inr (Or.inl ?_), fun _ _ => rfl⟩
          simp [starts, queueInLoop]

/-- Running what is queued keeps what holds between events. -/
theorem functor_spec (hinvariant : Invariant retryTime connector) (errno : Errno) :
    GoesWell retryTime connector (connector.attempt (.functor errno))
      (connector.handle (.functor errno)) := by
  cases hpending : connector.pendingFunctors with
  | nil => simpa [handle, attempt, hpending] using goesWell_none hinvariant id
  | cons functor functors =>
      simp only [handle, attempt, hpending, List.head?_cons, Option.some.injEq]
      cases functor with
      | startInLoop =>
          have hcount : connector.pendingFunctors.count .startInLoop =
              functors.count .startInLoop + 1 := by
            simp [hpending]
          have hfirst : connector.resets = 0 := by
            rcases hinvariant.first with hnone | hresets
            · omega
            · exact hresets
          have hready : Ready retryTime { connector with pendingFunctors := functors } := by
            apply hinvariant.ready
            · rw [starts, hcount]
              omega
            · simp [resets, hpending]
          have hpos : 0 < connector.starts := by
            rw [starts, hcount]
            omega
          have hasked := fun hfate : Fate connector => hfate.flag_of_starts hinvariant hpos
          have hfree : ({ connector with pendingFunctors := functors } : Connector).resets = 0 := by
            rw [resets, hpending] at hfirst
            simpa [resets] using hfirst
          simpa [runFunctor] using startInLoop_spec hready hasked errno fun _ _ => hfree
      | stopInLoop =>
          have hpopped : Invariant retryTime { connector with pendingFunctors := functors } :=
            hinvariant.queue connector.connectFlag (by simp [hpending])
              (by simp [resets, hpending])
          obtain ⟨after, hstop, hafter, hfate, _⟩ := stopInLoop_spec hpopped
          simp only [runFunctor, hstop]
          apply goesWell_none hafter
          intro hbefore
          apply hfate (by simp)
          refine ⟨fun hstarted => ?_, hbefore.asked⟩
          have hopen := hbefore.open_or_reported hstarted
          simpa [starts, hpending, reports] using hopen
      | resetChannel => simpa [runFunctor] using resetChannel_spec hinvariant hpending

/-- A timer that is in turn keeps what holds between events. -/
theorem timer_spec (hinvariant : Invariant retryTime connector) (errno : Errno)
    (hturn : ¬ connector.Overtakes (.timer errno)) :
    GoesWell retryTime connector (connector.attempt (.timer errno))
      (connector.handle (.timer errno)) := by
  simp only [handle, attempt]
  by_cases htimers : connector.timers = 0
  · rw [if_pos htimers, if_pos htimers]
    exact goesWell_none hinvariant id
  · rw [if_neg htimers, if_neg htimers]
    have hready : Ready retryTime { connector with timers := connector.timers - 1 } := by
      apply hinvariant.ready _ rfl
      rw [starts]
      omega
    have hpos : 0 < connector.starts := by
      rw [starts]
      omega
    have hasked := fun hfate : Fate connector => hfate.flag_of_starts hinvariant hpos
    refine startInLoop_spec hready hasked errno fun hflag hconnects => ?_
    by_contra hresets
    have hqueued : .resetChannel ∈ connector.pendingFunctors :=
      List.count_pos_iff.mp (Nat.pos_of_ne_zero hresets)
    exact hturn ⟨Nat.pos_of_ne_zero htimers, hqueued, hflag, hconnects⟩

/-- A timer that overtakes the reset finds the channel of the socket before. -/
theorem handle_of_overtakes (hinvariant : Invariant retryTime connector) {event : LoopEvent}
    (hovertakes : connector.Overtakes event) :
    connector.handle event = .fault .assertionFailed := by
  cases event with
  | start | functor | poll => exact hovertakes.elim
  | timer errno =>
      obtain ⟨htimers, hqueued, hflag, hconnects⟩ := hovertakes
      have hpos : 0 < connector.starts := by
        rw [starts]
        omega
      have hstate := hinvariant.idle hpos
      have hresets : connector.resets ≠ 0 := by
        rw [resets]
        exact (List.count_pos_iff.mpr hqueued).ne'
      have hchannel : connector.channel ≠ none := by
        rcases hinvariant.detached (by simp [hstate]) with ⟨-, hnone⟩ | ⟨fd, hsome, -⟩
        · exact absurd hnone hresets
        · simp [hsome]
      rw [handle, if_neg htimers.ne', startInLoop, if_pos hstate, if_pos hflag, connect,
        hconnects]
      exact if_neg hchannel

theorem outcome_of_overtakes {event : LoopEvent} (hovertakes : connector.Overtakes event) :
    ∀ errno ∈ connector.attempt event, errno.outcome = .connects := by
  cases event with
  | start | functor | poll => exact hovertakes.elim
  | timer errno =>
      obtain ⟨htimers, -, hflag, hconnects⟩ := hovertakes
      rw [attempt, if_neg htimers.ne', if_pos hflag]
      rintro other hother
      cases hother
      exact hconnects

/-- A step of the loop keeps what holds between events. -/
theorem handle_spec (hinvariant : Invariant retryTime connector) (event : LoopEvent)
    (hturn : ¬ connector.Overtakes event) :
    GoesWell retryTime connector (connector.attempt event) (connector.handle event) := by
  cases event with
  | start inLoop errno => exact start_spec hinvariant inLoop errno
  | functor errno => exact functor_spec hinvariant errno
  | timer errno => exact timer_spec hinvariant errno hturn
  | poll error write err selfConnect =>
      simp only [handle, attempt]
      split
      · rename_i fd hchannel
        have hstate : connector.state = .kConnecting := by
          by_contra hnot
          rcases hinvariant.detached hnot with ⟨hnone, _⟩ | ⟨_, hsome, _⟩
          · cases hchannel.symm.trans hnone
          · cases hchannel.symm.trans hsome
        exact handleEventWithGuard_spec hinvariant hstate error write err selfConnect
      · exact goesWell_none hinvariant id

theorem step_spec (hinvariant : Invariant retryTime connector) (event : Event)
    (hturn : connector.InTurn event) :
    ∃ after, connector.step event = .ret after ∧ Invariant retryTime after := by
  cases event with
  | loop event =>
      obtain ⟨after, hhandle, hafter, _⟩ := handle_spec hinvariant event hturn
      exact ⟨after, hhandle, hafter⟩
  | stop => exact ⟨connector.stop, rfl, hinvariant.queue false (by simp) (by simp [resets])⟩

theorem initial_invariant : Invariant retryTime (initial retryTime) where
  budget := ⟨by simp [initial], by simp [initial], rfl, rfl⟩
  spent := by simp [initial, starts]
  single := by simp [initial, starts]
  fresh := by simp [initial, starts, reports]
  idle := by simp [initial]
  first := Or.inr rfl
  attached := by simp [initial]
  detached := fun _ => Or.inl ⟨rfl, rfl⟩
  sockets := by simp [initial, settled]
  reported := Or.inl rfl

theorem initial_fate : Fate (initial retryTime) where
  open_or_reported := by simp [initial]
  asked := by simp [initial]

/-- The socket that is being connected. -/
def awaited (connector : Connector) : Option ℕ :=
  if connector.state = .kConnecting then connector.channel.map Channel.fd else none

structure Bounded (retryTime : ℕ) (connector : Connector) : Prop where
  created : connector.created ≤ retryTime + 1
  reports : connector.handed.length + connector.failures ≤ 1
  /-- Each socket was closed or handed over, once, or is being connected. -/
  sockets : (connector.closed ++ connector.handed ++ connector.awaited.toList).Perm
    (List.range connector.created)
  delays : connector.delays = (List.range connector.delays.length).map backoff

/-- The bounds follow from what holds between events. -/
theorem Invariant.bounded (hinvariant : Invariant retryTime connector) :
    Bounded retryTime connector where
  created := by
    have hspent := hinvariant.spent
    have hleft := hinvariant.budget.left
    have hnonneg := hinvariant.budget.nonneg
    omega
  reports := by
    change connector.reports ≤ 1
    rcases hinvariant.reported with hnone | ⟨hone, _⟩
    · omega
    · omega
  sockets := by
    have hsockets := hinvariant.sockets
    by_cases hstate : connector.state = .kConnecting
    · obtain ⟨sockfd, hchannel, hnewest, _⟩ := hinvariant.attached hstate
      have hawaited : connector.awaited.toList = [sockfd] := by
        simp [awaited, hstate, hchannel]
      have hsettled : connector.settled = sockfd := by
        rw [settled, if_pos hstate]
        omega
      rw [hawaited, ← hnewest, List.range_succ, ← hsettled]
      exact hsockets.append_right _
    · rw [settled, if_neg hstate] at hsockets
      simpa [awaited, hstate] using hsockets
  delays := hinvariant.budget.delays

theorem Fate.tells (hfate : Fate connector) (hinvariant : Invariant retryTime connector) :
    TellsFate connector := by
  intro hstarted hstate hquiet
  rcases hfate.open_or_reported hstarted with hconnecting | hstarts | hreports
  · exact absurd hconnecting hstate
  · omega
  · rcases hinvariant.reported with hnone | ⟨hone, _⟩
    · omega
    · exact hone

end Steps

/-- No assertion fails and a connector keeps within its bounds, just if no timer of a retry
overtakes the reset of the channel before. -/
theorem bounded_iff (retryTime : ℕ) (events : List Event) :
    (∃ connector, runFrom step (initial retryTime) events = .ret connector ∧
      Bounded retryTime connector) ↔ Meets step InTurn (initial retryTime) events := by
  constructor
  · rintro ⟨connector, hrun, -⟩
    refine (faultless_iff_meets (Invariant retryTime) ?_ ?_ ?_ initial_invariant
      (by simp [hrun])).mp (by simp [hrun])
    · intro before event after hbefore hturn hstep
      obtain ⟨other, hother, hafter⟩ := step_spec hbefore event hturn
      cases hstep.symm.trans hother
      exact hafter
    · intro before event cause hbefore hturn hfault
      obtain ⟨other, hother, -⟩ := step_spec hbefore event hturn
      cases hfault.symm.trans hother
    · intro before event hbefore hnot
      cases event with
      | loop event => exact Or.inr ⟨_, handle_of_overtakes hbefore (not_not.mp hnot)⟩
      | stop => exact absurd trivial hnot
  · intro hmeets
    obtain ⟨connector, hrun, hinvariant⟩ := exists_run_of_meets (Invariant retryTime)
      (fun _ event hbefore hturn => step_spec hbefore event hturn) initial_invariant hmeets
    exact ⟨connector, hrun, hinvariant.bounded⟩

/-- The first attempt fails, and the handlers that follow in the same round take half a
second before the timers are looked at. -/
def slowRound : List Event :=
  [.loop (.start true .EINPROGRESS), .loop (.poll true false 111 false),
    .loop (.timer .EINPROGRESS)]

theorem slowRound_aborts :
    ¬ ∃ connector, runFrom step (initial 1) slowRound = .ret connector ∧
      Bounded 1 connector := by
  rintro ⟨connector, hrun, -⟩
  have hfault : runFrom step (initial 1) slowRound = .fault .assertionFailed := rfl
  cases hfault.symm.trans hrun

/-- As long as `stop` is not called, the fate of a connector is told just if no call of
`connect` has a result of the last two groups. -/
theorem tellsFate_iff (retryTime : ℕ) (events : List LoopEvent) :
    (∀ connector, Reached handle (initial retryTime) events connector → TellsFate connector) ↔
      Meets handle (fun connector event =>
        ∀ errno ∈ connector.attempt event, errno.outcome ≠ .closes)
        (initial retryTime) events := by
  apply safe_iff_meets fun connector => Invariant retryTime connector ∧ Fate connector
  · rintro before event after ⟨hinvariant, hfate⟩ hcondition hhandle
    have hturn : ¬ before.Overtakes event := by
      intro hovertakes
      cases hhandle.symm.trans (handle_of_overtakes hinvariant hovertakes)
    obtain ⟨_, hreturns, hafter, hkept, _⟩ := handle_spec hinvariant event hturn
    cases hhandle.symm.trans hreturns
    exact ⟨hafter, hkept hcondition hfate⟩
  · rintro connector ⟨hinvariant, hfate⟩
    exact hfate.tells hinvariant
  · rintro before event ⟨hinvariant, _⟩ hcondition
    simp only [not_forall, not_not] at hcondition
    obtain ⟨errno, herrno, hcloses⟩ := hcondition
    have hturn : ¬ before.Overtakes event := by
      intro hovertakes
      cases (outcome_of_overtakes hovertakes errno herrno).symm.trans hcloses
    obtain ⟨after, hreturns, _, _, hsilent⟩ := handle_spec hinvariant event hturn
    exact ⟨after, hreturns, hsilent errno herrno hcloses⟩
  · exact ⟨initial_invariant, initial_fate⟩

/-- A refused permission is logged, and nobody is told. -/
theorem refusal_is_silent : ¬ ∀ connector,
    Reached handle (initial 0) [.start true .EACCES] connector → TellsFate connector := by
  intro htells
  have hreached : Reached handle (initial 0) [.start true .EACCES]
      { initial 0 with connectFlag := true, started := true, created := 1, closed := [0] } :=
    ⟨[.start true .EACCES], List.prefix_rfl, rfl⟩
  exact absurd (htells _ hreached rfl (by decide) rfl) (by decide)

end Connector

end Cuber.Connecting
