import Cuber.Net.ConnectionNames
import Cuber.Server.Proxying

/-!
# All clients and their upstream connections

`HttpProxyHandler` keeps one table, `clientConnMap`, for the clients of a
server whose requests it has forwarded.  Connections are accepted, requests are
forwarded, and upstream connections are made, fail, deliver bytes and are
closed in any order.  Of the clients only the connections themselves are
modelled here: when a client has a request forwarded is up to the events.

Two things are recorded that the program does not have: with each upstream
connection the client connection for which it was opened, and with each entry
of the table the forward that made it.
-/

namespace Cuber.Correlation

open Cuber.Config
open Cuber.ConnectionNames
open Cuber.Execution
open Cuber.Maps
open Cuber.Proxying
open Cuber.ResponseContext
open Cuber.Runs
open Cuber.Text

inductive ProxyFault where
  /-- `assert(split_pos != std::string::npos)`. -/
  | splitAssertion
  /-- `assert(clientConnMap.count(requestConnName))`. -/
  | clientConnAssertion
  deriving DecidableEq

/-- A connection accepted by the server.  Connections are told apart by their
numbers, the program sees their names. -/
@[ext]
structure TcpConnection where
  id : ℕ
  name : Bytes
  deriving DecidableEq

structure Entry where
  connection : TcpConnection
  /-- The forward that made the entry. -/
  attempt : ℕ
  deriving DecidableEq

inductive UpstreamState where
  | connecting
  | connected (name : Bytes) (context : HttpResponseContext) (input : Bytes)
  /-- Disconnected, or never connected and given up. -/
  | closed
  deriving DecidableEq

/-- The upstream connection made for a forwarded request. -/
structure Attempt where
  /-- `TcpClient::name_`. -/
  clientName : Bytes
  /-- The connection on which the request was received. -/
  origin : TcpConnection
  upstream : UpstreamState
  deriving DecidableEq

/-- A call of `messageCallback_`. -/
structure Call where
  /-- The connection that the call is given. -/
  connection : TcpConnection
  /-- The connection on which the request forwarded over the upstream connection
  was received. -/
  origin : TcpConnection
  deriving DecidableEq

structure Hub where
  nextConnId : ℕ := 1
  connections : List TcpConnection := []
  clientConnMap : OrderedMap Bytes Entry := OrderedMap.empty
  attempts : List Attempt := []
  calls : List Call := []
  deriving DecidableEq

inductive Event where
  | accepted
  /-- `HttpProxyHandler::handle` is called for a request on a connection. -/
  | forward (client : ℕ) (result : ConnectResult)
  | upstreamConnected (index : ℕ) (peer : InetAddress)
  | upstreamFailed (index : ℕ)
  | upstreamBytes (index : ℕ) (chunk : Bytes)
  | upstreamClosed (index : ℕ)

namespace Hub

/-- `TcpServer::newConnection`. -/
def newConnection (server : TcpServer) (hub : Hub) : Hub :=
  { hub with
    nextConnId := hub.nextConnId + 1
    connections := hub.connections ++ [⟨hub.nextConnId, server.connName hub.nextConnId⟩] }

/-- The common part of `doProxyResponse`, `onBadUpstreamResponse` and
`onForwardFailed`: the client is looked up under the part of a name before the
first percent sign, its connection is passed to `messageCallback_`, and its
entry is removed. -/
def relay (hub : Hub) (name : Bytes) (origin : TcpConnection) : Exec ProxyFault Hub :=
  match cut percent name with
  | none => .fault .splitAssertion
  | some (requestConnName, _) =>
      match hub.clientConnMap.find? requestConnName with
      | none => .fault .clientConnAssertion
      | some entry =>
          .ret { hub with
            clientConnMap := hub.clientConnMap.erase requestConnName
            calls := hub.calls ++ [⟨entry.connection, origin⟩] }

/-- `setConnInfo` and the new `TcpClient` in `HttpProxyHandler::handle`. -/
def openUpstream (hub : Hub) (connection : TcpConnection) (upstream : UpstreamState) : Hub :=
  { hub with
    clientConnMap :=
      hub.clientConnMap.insert connection.name ⟨connection, hub.attempts.length⟩
    attempts := hub.attempts ++ [⟨proxyName connection.name, connection, upstream⟩] }

/-- `HttpProxyHandler::handle` from `setConnInfo` on.  The `Connector` of a
proxy does not retry. -/
def handle (hub : Hub) (connection : TcpConnection) : ConnectResult → Exec ProxyFault Hub
  | .inProgress => .ret (hub.openUpstream connection .connecting)
  | .refused =>
      (hub.openUpstream connection .closed).relay (proxyName connection.name) connection
  | .dropped => .ret (hub.openUpstream connection .closed)

def setUpstream (hub : Hub) (index : ℕ) (attempt : Attempt) (upstream : UpstreamState) :
    Hub :=
  { hub with attempts := hub.attempts.set index { attempt with upstream := upstream } }

/-- `HttpProxyHandler::onResponseMessage`.  The responses are left out, and with
them what the filters change in the response of a finished context. -/
def onResponseMessage (hub : Hub) (index : ℕ) (attempt : Attempt) (name : Bytes)
    (context : HttpResponseContext) (input : Bytes) : Exec ProxyFault Hub :=
  match parseResponse context input with
  | none => .hang
  | some parsed =>
      let kept := hub.setUpstream index attempt (.connected name parsed.context parsed.buffer)
      match parsed.verdict with
      | .kBadMessage => kept.relay name attempt.origin
      | .kParseOK => kept.relay name attempt.origin
      | _ => .ret kept

/-- What happens to an upstream connection.  An event that does not apply to its
state changes nothing. -/
def onUpstream (hub : Hub) (index : ℕ) (attempt : Attempt) : Event → Exec ProxyFault Hub
  | .upstreamConnected _ peer =>
      match attempt.upstream with
      | .connecting =>
          -- a `TcpClient` of a proxy makes one connection only
          .ret (hub.setUpstream index attempt
            (.connected (upstreamConnName attempt.clientName peer 1) {} []))
      | _ => .ret hub
  | .upstreamFailed _ =>
      match attempt.upstream with
      | .connecting =>
          (hub.setUpstream index attempt .closed).relay attempt.clientName attempt.origin
      | _ => .ret hub
  | .upstreamBytes _ chunk =>
      match attempt.upstream with
      | .connected name context input =>
          hub.onResponseMessage index attempt name context (input ++ chunk)
      | _ => .ret hub
  | .upstreamClosed _ =>
      match attempt.upstream with
      | .connected _ _ _ => .ret (hub.setUpstream index attempt .closed)
      | _ => .ret hub
  | _ => .ret hub

/-- One event.  An event about a connection that does not exist changes
nothing. -/
def step (server : TcpServer) (hub : Hub) (event : Event) : Exec ProxyFault Hub :=
  match event with
  | .accepted => .ret (hub.newConnection server)
  | .forward client result =>
      match hub.connections[client]? with
      | some connection => hub.handle connection result
      | none => .ret hub
  | .upstreamConnected index _ | .upstreamFailed index | .upstreamBytes index _
  | .upstreamClosed index =>
      match hub.attempts[index]? with
      | some attempt => hub.onUpstream index attempt event
      | none => .ret hub

end Hub

/-! ## What ties the table to the connections -/

/-- The names given to an upstream connection begin with the name of the client
connection and a percent sign. -/
structure WellNamed (attempt : Attempt) : Prop where
  clientName : attempt.clientName = proxyName attempt.origin.name
  connected : ∀ name context input, attempt.upstream = .connected name context input →
    ∃ suffix, name = proxyName attempt.origin.name ++ suffix

/-- An entry is stored under the name of its connection, for which the upstream
connection was opened. -/
def Registered (hub : Hub) (key : Bytes) (entry : Entry) : Prop :=
  entry.connection.name = key ∧
    ∃ attempt, hub.attempts[entry.attempt]? = some attempt ∧
      attempt.origin = entry.connection

structure Consistent (server : TcpServer) (hub : Hub) : Prop where
  counted : hub.nextConnId = hub.connections.length + 1
  accepted : ∀ connection ∈ hub.connections,
    connection.id < hub.nextConnId ∧ connection.name = server.connName connection.id
  origins : ∀ attempt ∈ hub.attempts, attempt.origin ∈ hub.connections
  named : ∀ attempt ∈ hub.attempts, WellNamed attempt
  entries : ∀ key entry, hub.clientConnMap.find? key = some entry →
    Registered hub key entry
  calls : ∀ call ∈ hub.calls, call.connection ∈ hub.connections ∧
    call.origin ∈ hub.connections ∧ call.connection.name = call.origin.name

/-- The hub after a response or an error for a client was passed on. -/
def Hub.answered (hub : Hub) (origin : TcpConnection) (entry : Entry) : Hub :=
  { hub with
    clientConnMap := hub.clientConnMap.erase origin.name
    calls := hub.calls ++ [⟨entry.connection, origin⟩] }

section Operations

variable {server : TcpServer} {hub hub' : Hub} {connection origin : TcpConnection}
  {attempt : Attempt} {index : ℕ} {upstream : UpstreamState} {entry : Entry}

theorem attempts_openUpstream (hattempt : hub.attempts[index]? = some attempt) :
    (hub.openUpstream connection upstream).attempts[index]? = some attempt := by
  have hlt := (List.getElem?_eq_some_iff.mp hattempt).1
  rw [← hattempt]
  exact List.getElem?_append_left hlt

theorem attempts_setUpstream_self (hattempt : hub.attempts[index]? = some attempt) :
    (hub.setUpstream index attempt upstream).attempts[index]? =
      some { attempt with upstream } :=
  List.getElem?_set_self (List.getElem?_eq_some_iff.mp hattempt).1

theorem attempts_setUpstream_of_ne {other : ℕ} (hne : other ≠ index) :
    (hub.setUpstream index attempt upstream).attempts[other]? = hub.attempts[other]? :=
  List.getElem?_set_ne (Ne.symm hne)

theorem consistent_empty (server : TcpServer) : Consistent server {} where
  counted := rfl
  accepted := by simp
  origins := by simp
  named := by simp
  entries := by simp
  calls := by simp

namespace Consistent

theorem connection_mem (hhub : Consistent server hub) {key : Bytes}
    (hfind : hub.clientConnMap.find? key = some entry) :
    entry.connection ∈ hub.connections := by
  obtain ⟨_, attempt, hattempt, horigin⟩ := hhub.entries key entry hfind
  rw [← horigin]
  exact hhub.origins attempt (List.mem_of_getElem? hattempt)

theorem newConnection (hhub : Consistent server hub) :
    Consistent server (hub.newConnection server) where
  counted := by simp [Hub.newConnection, hhub.counted]
  accepted := by
    intro connection hmem
    rcases List.mem_append.mp hmem with hold | hnew
    · obtain ⟨hid, hname⟩ := hhub.accepted connection hold
      exact ⟨Nat.lt_succ_of_lt hid, hname⟩
    · rw [List.mem_singleton.mp hnew]
      exact ⟨Nat.lt_succ_self _, rfl⟩
  origins := fun attempt hmem => List.mem_append_left _ (hhub.origins attempt hmem)
  named := hhub.named
  entries := hhub.entries
  calls := by
    intro call hmem
    obtain ⟨hconnection, horigin, hname⟩ := hhub.calls call hmem
    exact ⟨List.mem_append_left _ hconnection, List.mem_append_left _ horigin, hname⟩

/-- A new upstream connection is not connected yet, or given up. -/
theorem openUpstream (hhub : Consistent server hub) (hmem : connection ∈ hub.connections)
    (hupstream : ∀ name context input, upstream ≠ .connected name context input) :
    Consistent server (hub.openUpstream connection upstream) where
  counted := hhub.counted
  accepted := hhub.accepted
  origins := by
    intro attempt hattempt
    rcases List.mem_append.mp hattempt with hold | hnew
    · exact hhub.origins attempt hold
    · rw [List.mem_singleton.mp hnew]
      exact hmem
  named := by
    intro attempt hattempt
    rcases List.mem_append.mp hattempt with hold | hnew
    · exact hhub.named attempt hold
    · rw [List.mem_singleton.mp hnew]
      exact ⟨rfl, fun name context input heq => absurd heq (hupstream name context input)⟩
  entries := by
    intro key entry hfind
    rw [Hub.openUpstream, OrderedMap.find?_insert] at hfind
    split_ifs at hfind with hkey
    · cases hfind
      exact ⟨hkey.symm, _, List.getElem?_concat_length, rfl⟩
    · obtain ⟨hname, attempt, hattempt, horigin⟩ := hhub.entries key entry hfind
      exact ⟨hname, attempt, attempts_openUpstream hattempt, horigin⟩
  calls := hhub.calls

/-- A change of an upstream connection leaves the entries alone. -/
theorem setUpstream (hhub : Consistent server hub)
    (hattempt : hub.attempts[index]? = some attempt)
    (hnamed : WellNamed { attempt with upstream }) :
    Consistent server (hub.setUpstream index attempt upstream) where
  counted := hhub.counted
  accepted := hhub.accepted
  origins := by
    intro other hmem
    rcases List.mem_or_eq_of_mem_set hmem with hold | rfl
    · exact hhub.origins other hold
    · exact hhub.origins attempt (List.mem_of_getElem? hattempt)
  named := by
    intro other hmem
    rcases List.mem_or_eq_of_mem_set hmem with hold | rfl
    · exact hhub.named other hold
    · exact hnamed
  entries := by
    intro key entry hfind
    obtain ⟨hname, other, hother, horigin⟩ := hhub.entries key entry hfind
    refine ⟨hname, ?_⟩
    by_cases hindex : entry.attempt = index
    · rw [hindex, hattempt, Option.some_inj] at hother
      rw [hindex, attempts_setUpstream_self hattempt]
      exact ⟨_, rfl, hother ▸ horigin⟩
    · rw [attempts_setUpstream_of_ne hindex]
      exact ⟨other, hother, horigin⟩
  calls := hhub.calls

/-- An answer takes the entry of its client away. -/
theorem answered (hhub : Consistent server hub) (horigin : origin ∈ hub.connections)
    (hfind : hub.clientConnMap.find? origin.name = some entry) :
    Consistent server (hub.answered origin entry) where
  counted := hhub.counted
  accepted := hhub.accepted
  origins := hhub.origins
  named := hhub.named
  entries := by
    intro key other hother
    rw [Hub.answered, OrderedMap.find?_erase] at hother
    split_ifs at hother
    exact hhub.entries key other hother
  calls := by
    intro call hmem
    rcases List.mem_append.mp hmem with hold | hnew
    · exact hhub.calls call hold
    · rw [List.mem_singleton.mp hnew]
      exact ⟨hhub.connection_mem hfind, horigin, (hhub.entries _ _ hfind).1⟩

end Consistent

/-- What the three callbacks do when the name they are given begins with the
name of a client connection and a percent sign. -/
theorem relay_cases (hhub : Consistent server hub) (horigin : origin ∈ hub.connections)
    {name suffix : Bytes} (hname : name = proxyName origin.name ++ suffix)
    (hrelay : hub.relay name origin = .ret hub') :
    ∃ entry, hub.clientConnMap.find? origin.name = some entry ∧
      hub' = hub.answered origin entry := by
  have hpercent : percent ∉ origin.name := by
    rw [(hhub.accepted origin horigin).2]
    exact server.percent_not_mem_connName _
  rw [Hub.relay, hname, cut_percent_proxyName hpercent] at hrelay
  cases hfind : hub.clientConnMap.find? origin.name with
  | none => simp [hfind] at hrelay
  | some entry =>
      simp only [hfind, Exec.ret.injEq] at hrelay
      exact ⟨entry, rfl, hrelay.symm⟩

inductive Moved (server : TcpServer) (hub : Hub) : Event → Hub → Prop
  | idle (event : Event) : Moved server hub event hub
  | accepted : Moved server hub .accepted (hub.newConnection server)
  | opened {client : ℕ} {connection : TcpConnection} (hmem : connection ∈ hub.connections) :
      Moved server hub (.forward client .inProgress) (hub.openUpstream connection .connecting)
  | dropped {client : ℕ} {connection : TcpConnection}
      (hconnection : hub.connections[client]? = some connection) :
      Moved server hub (.forward client .dropped) (hub.openUpstream connection .closed)
  | refused {client : ℕ} {connection : TcpConnection} {entry : Entry}
      (hmem : connection ∈ hub.connections)
      (hfind : (hub.openUpstream connection .closed).clientConnMap.find? connection.name =
        some entry) :
      Moved server hub (.forward client .refused)
        ((hub.openUpstream connection .closed).answered connection entry)
  | updated {event : Event} {index : ℕ} {attempt : Attempt} {upstream : UpstreamState}
      (hattempt : hub.attempts[index]? = some attempt)
      (hnamed : WellNamed { attempt with upstream }) (hopen : upstream ≠ .closed) :
      Moved server hub event (hub.setUpstream index attempt upstream)
  | closed {index : ℕ} {attempt : Attempt}
      (hattempt : hub.attempts[index]? = some attempt)
      (hconnected : ∃ name context input, attempt.upstream = .connected name context input) :
      Moved server hub (.upstreamClosed index) (hub.setUpstream index attempt .closed)
  | answered {event : Event} {index : ℕ} {attempt : Attempt} {upstream : UpstreamState}
      {entry : Entry} (hattempt : hub.attempts[index]? = some attempt)
      (hnamed : WellNamed { attempt with upstream })
      (hfind : hub.clientConnMap.find? attempt.origin.name = some entry) :
      Moved server hub event
        ((hub.setUpstream index attempt upstream).answered attempt.origin entry)

theorem WellNamed.closed (hnamed : WellNamed attempt) :
    WellNamed { attempt with upstream := .closed } where
  clientName := hnamed.clientName
  connected := by simp

theorem WellNamed.keep (hnamed : WellNamed attempt) {name : Bytes}
    {context : HttpResponseContext} {input : Bytes}
    (hupstream : attempt.upstream = .connected name context input)
    (context' : HttpResponseContext) (input' : Bytes) :
    WellNamed { attempt with upstream := .connected name context' input' } where
  clientName := hnamed.clientName
  connected := by
    rintro _ _ _ ⟨rfl, rfl, rfl⟩
    exact hnamed.connected name context input hupstream

theorem WellNamed.connect (hnamed : WellNamed attempt) (peer : InetAddress) :
    WellNamed { attempt with
      upstream := .connected (upstreamConnName attempt.clientName peer 1) {} [] } where
  clientName := hnamed.clientName
  connected := by
    rintro _ _ _ ⟨rfl, rfl, rfl⟩
    exact ⟨_, by rw [upstreamConnName, hnamed.clientName]⟩

/-- A relay over an upstream connection whose state was just changed. -/
theorem moved_of_relay (hhub : Consistent server hub)
    (hattempt : hub.attempts[index]? = some attempt)
    (hnamed : WellNamed { attempt with upstream }) {name suffix : Bytes}
    (hname : name = proxyName attempt.origin.name ++ suffix) (event : Event)
    (hrelay : (hub.setUpstream index attempt upstream).relay name attempt.origin =
      .ret hub') :
    Moved server hub event hub' := by
  have horigin := hhub.origins attempt (List.mem_of_getElem? hattempt)
  obtain ⟨entry, hfind, rfl⟩ :=
    relay_cases (hhub.setUpstream hattempt hnamed) horigin hname hrelay
  exact Moved.answered hattempt hnamed hfind

/-- Forwarding opens an upstream connection, and may fail at once. -/
theorem moved_of_handle (hhub : Consistent server hub) {client : ℕ} {result : ConnectResult}
    (hconnection : hub.connections[client]? = some connection)
    (hstep : hub.handle connection result = .ret hub') :
    Moved server hub (.forward client result) hub' := by
  have hmem := List.mem_of_getElem? hconnection
  cases result with
  | inProgress =>
      cases hstep
      exact Moved.opened hmem
  | dropped =>
      cases hstep
      exact Moved.dropped hconnection
  | refused =>
      have hopened : Consistent server (hub.openUpstream connection .closed) :=
        hhub.openUpstream hmem (by simp)
      obtain ⟨entry, hfind, rfl⟩ :=
        relay_cases hopened hmem (List.append_nil _).symm hstep
      exact Moved.refused hmem hfind

/-- Upstream bytes change their connection, or are answered. -/
theorem moved_of_onResponseMessage (hhub : Consistent server hub)
    (hattempt : hub.attempts[index]? = some attempt) {name : Bytes}
    {context : HttpResponseContext} {input : Bytes}
    (hupstream : attempt.upstream = .connected name context input)
    {received : Bytes} (event : Event)
    (hstep : hub.onResponseMessage index attempt name context received = .ret hub') :
    Moved server hub event hub' := by
  have hnamed := hhub.named attempt (List.mem_of_getElem? hattempt)
  obtain ⟨suffix, hname⟩ := hnamed.connected name context input hupstream
  rw [Hub.onResponseMessage] at hstep
  cases hparse : parseResponse context received with
  | none => simp [hparse] at hstep
  | some parsed =>
      have hkept := hnamed.keep hupstream parsed.context parsed.buffer
      simp only [hparse] at hstep
      cases hverdict : parsed.verdict with
      | kBadMessage =>
          rw [hverdict] at hstep
          exact moved_of_relay hhub hattempt hkept hname event hstep
      | kParseOK =>
          rw [hverdict] at hstep
          exact moved_of_relay hhub hattempt hkept hname event hstep
      | kParseAgain | kHeaderEnd =>
          rw [hverdict] at hstep
          cases hstep
          exact Moved.updated hattempt hkept (by simp)

/-- An upstream event is about one upstream connection. -/
theorem moved_of_onUpstream (hhub : Consistent server hub)
    (hattempt : hub.attempts[index]? = some attempt) {event : Event}
    (hindex : ∀ other, event = .upstreamClosed other → other = index)
    (hstep : hub.onUpstream index attempt event = .ret hub') :
    Moved server hub event hub' := by
  have hnamed := hhub.named attempt (List.mem_of_getElem? hattempt)
  cases event with
  | upstreamConnected _ peer =>
      rw [Hub.onUpstream] at hstep
      split at hstep
      · cases hstep
        exact Moved.updated hattempt (hnamed.connect peer) (by simp)
      · cases hstep
        exact Moved.idle _
  | upstreamFailed _ =>
      rw [Hub.onUpstream] at hstep
      split at hstep
      · have hname : attempt.clientName = proxyName attempt.origin.name ++ [] := by
          rw [hnamed.clientName, List.append_nil]
        exact moved_of_relay hhub hattempt hnamed.closed hname _ hstep
      · cases hstep
        exact Moved.idle _
  | upstreamBytes _ chunk =>
      rw [Hub.onUpstream] at hstep
      split at hstep
      · next hupstream =>
          exact moved_of_onResponseMessage hhub hattempt hupstream _ hstep
      · cases hstep
        exact Moved.idle _
  | upstreamClosed other =>
      rw [Hub.onUpstream] at hstep
      split at hstep
      · next hupstream =>
          cases hstep
          rw [hindex other rfl]
          exact Moved.closed hattempt ⟨_, _, _, hupstream⟩
      · cases hstep
        exact Moved.idle _
  | accepted | forward =>
      cases hstep
      exact Moved.idle _

/-- Every step is one of those listed. -/
theorem moved_of_step (hhub : Consistent server hub) {event : Event}
    (hstep : hub.step server event = .ret hub') : Moved server hub event hub' := by
  cases event with
  | accepted =>
      cases hstep
      exact Moved.accepted
  | forward client result =>
      rw [Hub.step] at hstep
      split at hstep
      · next hconnection => exact moved_of_handle hhub hconnection hstep
      · cases hstep
        exact Moved.idle _
  | upstreamConnected index | upstreamFailed index | upstreamBytes index
  | upstreamClosed index =>
      rw [Hub.step] at hstep
      split at hstep
      · next hattempt =>
          exact moved_of_onUpstream hhub hattempt (by simp) hstep
      · cases hstep
        exact Moved.idle _

theorem consistent_of_step (hhub : Consistent server hub) {event : Event}
    (hstep : hub.step server event = .ret hub') : Consistent server hub' := by
  cases moved_of_step hhub hstep with
  | idle => exact hhub
  | accepted => exact hhub.newConnection
  | opened hmem => exact hhub.openUpstream hmem (by simp)
  | dropped hconnection =>
      exact hhub.openUpstream (List.mem_of_getElem? hconnection) (by simp)
  | refused hmem hfind => exact (hhub.openUpstream hmem (by simp)).answered hmem hfind
  | updated hattempt hnamed _ => exact hhub.setUpstream hattempt hnamed
  | closed hattempt _ =>
      have hnamed := hhub.named _ (List.mem_of_getElem? hattempt)
      exact hhub.setUpstream hattempt hnamed.closed
  | answered hattempt hnamed hfind =>
      have horigin := hhub.origins _ (List.mem_of_getElem? hattempt)
      exact (hhub.setUpstream hattempt hnamed).answered horigin hfind

theorem consistent_of_run {events : List Event}
    (hrun : runFrom (Hub.step server) {} events = .ret hub) : Consistent server hub :=
  invariant_of_run (Consistent server)
    (fun _ _ _ hstate hstep => consistent_of_step hstate hstep) (consistent_empty server) hrun

end Operations

/-! ## Responses go back to the client they are for -/

/-- As long as the numbers of the accepted connections fit an `int`, whatever is
passed to `messageCallback_` for an upstream connection goes with the connection
on which the forwarded request was received. -/
theorem call_connection_eq_origin (server : TcpServer) {events : List Event} {hub : Hub}
    (hrun : runFrom (Hub.step server) {} events = .ret hub)
    (hcount : hub.connections.length < 2 ^ 31) :
    ∀ call ∈ hub.calls, call.connection = call.origin := by
  intro call hmem
  have hhub := consistent_of_run hrun
  have hcounted := hhub.counted
  obtain ⟨hconnection, horigin, hname⟩ := hhub.calls call hmem
  obtain ⟨hid, hnamed⟩ := hhub.accepted call.connection hconnection
  obtain ⟨hid', hnamed'⟩ := hhub.accepted call.origin horigin
  apply TcpConnection.ext
  · apply server.connName_injective (by omega) (by omega)
    rw [← hnamed, ← hnamed', hname]
  · exact hname

def anyAddress : InetAddress where
  ip := ascii "0.0.0.0"
  port := httpPort
  ip_text := by decide +kernel
  ip_length := by decide

def cuberServer : TcpServer where
  name := ascii "CuBer"
  listenAddress := anyAddress
  name_percent := by decide

/-- Two clients, whose answers come in the other order than their requests. -/
def crossedAnswers : List Event :=
  [.accepted, .accepted, .forward 0 .inProgress, .forward 1 .inProgress,
    .upstreamFailed 1, .upstreamConnected 0 anyAddress,
    .upstreamBytes 0 (ascii "HTTP/1.1 200 OK\r\n\r\n")]

theorem crossedAnswers_calls :
    ∃ hub, runFrom (Hub.step cuberServer) {} crossedAnswers = .ret hub ∧
      hub.calls.map (fun call => call.origin.id) = [2, 1] ∧
      ∀ call ∈ hub.calls, call.connection = call.origin := by
  obtain ⟨hub, hrun, hhub⟩ := Exec.exists_of_returns
    (show (runFrom (Hub.step cuberServer) {} crossedAnswers).returns
      (fun hub => decide (hub.connections.length = 2 ∧
        hub.calls.map (fun call => call.origin.id) = [2, 1])) = true by decide)
  obtain ⟨hlength, hcalls⟩ := of_decide_eq_true hhub
  have hcount : hub.connections.length < 2 ^ 31 := by omega
  exact ⟨hub, hrun, hcalls, call_connection_eq_origin cuberServer hrun hcount⟩

/-! ## Entries of the table without an upstream connection -/

/-- For every entry of the table the upstream connection that was opened with it
is being made or is connected. -/
def NoOrphans (hub : Hub) : Prop :=
  ∀ key entry, hub.clientConnMap.find? key = some entry →
    ∃ attempt, hub.attempts[entry.attempt]? = some attempt ∧ attempt.upstream ≠ .closed

/-- The event does not end an upstream connection, or the attempt to make one,
without a response or an error for the client. -/
def EndsAnswered (hub : Hub) : Event → Prop
  | .forward client .dropped => hub.connections[client]? = none
  | .upstreamClosed index =>
      ∀ attempt name context input, hub.attempts[index]? = some attempt →
        attempt.upstream = .connected name context input →
          ∀ key entry, hub.clientConnMap.find? key = some entry → entry.attempt ≠ index
  | _ => True

section Orphans

variable {server : TcpServer} {hub hub' : Hub} {connection : TcpConnection}
  {attempt : Attempt} {index : ℕ} {upstream : UpstreamState}

theorem noOrphans_openUpstream (hhub : NoOrphans hub) :
    NoOrphans (hub.openUpstream connection .connecting) := by
  intro key entry hfind
  rw [Hub.openUpstream, OrderedMap.find?_insert] at hfind
  split_ifs at hfind with hkey
  · cases hfind
    exact ⟨_, List.getElem?_concat_length, by simp⟩
  · obtain ⟨attempt, hattempt, hopen⟩ := hhub key entry hfind
    exact ⟨attempt, attempts_openUpstream hattempt, hopen⟩

theorem noOrphans_setUpstream_of_open (hhub : NoOrphans hub)
    (hattempt : hub.attempts[index]? = some attempt) (hopen : upstream ≠ .closed) :
    NoOrphans (hub.setUpstream index attempt upstream) := by
  intro key entry hfind
  by_cases hindex : entry.attempt = index
  · rw [hindex, attempts_setUpstream_self hattempt]
    exact ⟨_, rfl, hopen⟩
  · rw [attempts_setUpstream_of_ne hindex]
    exact hhub key entry hfind

theorem noOrphans_setUpstream_of_unused (hhub : NoOrphans hub)
    (hunused : ∀ key entry, hub.clientConnMap.find? key = some entry →
      entry.attempt ≠ index) :
    NoOrphans (hub.setUpstream index attempt upstream) := by
  intro key entry hfind
  rw [attempts_setUpstream_of_ne (hunused key entry hfind)]
  exact hhub key entry hfind

/-- An entry that was made for an upstream connection is stored under the name
that is looked up for this connection. -/
theorem noOrphans_answered (hhub : NoOrphans hub) (hconsistent : Consistent server hub)
    (hattempt : hub.attempts[index]? = some attempt) (entry : Entry) :
    NoOrphans ((hub.setUpstream index attempt upstream).answered attempt.origin entry) := by
  intro key other hfind
  rw [Hub.answered, OrderedMap.find?_erase] at hfind
  split_ifs at hfind with hkey
  have hindex : other.attempt ≠ index := by
    intro hindex
    obtain ⟨hname, made, hmade, horigin⟩ := hconsistent.entries key other hfind
    rw [hindex, hattempt, Option.some_inj] at hmade
    rw [hmade, horigin] at hkey
    exact hkey hname.symm
  change ∃ attempt', (hub.setUpstream index attempt upstream).attempts[other.attempt]? =
    some attempt' ∧ attempt'.upstream ≠ .closed
  rw [attempts_setUpstream_of_ne hindex]
  exact hhub key other hfind

/-- A refused connection is one that was being made and failed at once. -/
theorem openUpstream_closed (hub : Hub) (connection : TcpConnection) :
    hub.openUpstream connection .closed =
      (hub.openUpstream connection .connecting).setUpstream hub.attempts.length
        ⟨proxyName connection.name, connection, .connecting⟩ .closed := by
  simp [Hub.openUpstream, Hub.setUpstream]

/-- A step that meets the condition makes no orphan. -/
theorem noOrphans_of_step (hconsistent : Consistent server hub) (hhub : NoOrphans hub)
    {event : Event} (hevent : EndsAnswered hub event)
    (hstep : hub.step server event = .ret hub') : NoOrphans hub' := by
  cases moved_of_step hconsistent hstep with
  | idle => exact hhub
  | accepted => exact hhub
  | opened _ => exact noOrphans_openUpstream hhub
  | dropped hconnection =>
      rw [EndsAnswered, hconnection] at hevent
      cases hevent
  | refused hmem _ =>
      rw [openUpstream_closed]
      exact noOrphans_answered (noOrphans_openUpstream hhub)
        (hconsistent.openUpstream hmem (by simp)) List.getElem?_concat_length _
  | updated hattempt _ hopen => exact noOrphans_setUpstream_of_open hhub hattempt hopen
  | closed hattempt hconnected =>
      obtain ⟨name, context, input, hupstream⟩ := hconnected
      exact noOrphans_setUpstream_of_unused hhub
        (hevent _ name context input hattempt hupstream)
  | answered hattempt _ _ => exact noOrphans_answered hhub hconsistent hattempt _

/-- Any other step makes one. -/
theorem exists_orphan_of_step {event : Event} (hevent : ¬ EndsAnswered hub event) :
    ∃ hub', hub.step server event = .ret hub' ∧ ¬ NoOrphans hub' := by
  cases event with
  | forward client result =>
      cases result with
      | dropped =>
          obtain ⟨connection, hconnection⟩ := Option.ne_none_iff_exists'.mp hevent
          refine ⟨hub.openUpstream connection .closed, ?_, fun hopen => ?_⟩
          · rw [Hub.step, hconnection]
            rfl
          · obtain ⟨attempt, hattempt, hne⟩ := hopen connection.name
              ⟨connection, hub.attempts.length⟩ (by
                rw [Hub.openUpstream, OrderedMap.find?_insert, if_pos rfl])
            rw [Hub.openUpstream, List.getElem?_concat_length, Option.some_inj] at hattempt
            rw [← hattempt] at hne
            exact hne rfl
      | inProgress | refused => exact absurd trivial hevent
  | upstreamClosed index =>
      simp only [EndsAnswered, not_forall, not_not] at hevent
      obtain ⟨attempt, name, context, input, hattempt, hupstream, key, entry, hfind, hindex⟩ :=
        hevent
      refine ⟨hub.setUpstream index attempt .closed, ?_, fun hopen => ?_⟩
      · simp [Hub.step, hattempt, Hub.onUpstream, hupstream]
      · obtain ⟨other, hother, hne⟩ := hopen key entry hfind
        rw [hindex, attempts_setUpstream_self hattempt, Option.some_inj] at hother
        rw [← hother] at hne
        exact hne rfl
  | accepted | upstreamConnected | upstreamFailed | upstreamBytes =>
      exact absurd trivial hevent

end Orphans

/-- No entry of the table is left without an upstream connection, in any order of
the events, if and only if no connection attempt is dropped without a callback
and no upstream connection is closed before its client was answered. -/
theorem noOrphans_iff (server : TcpServer) (events : List Event) :
    (∀ hub, Reached (Hub.step server) {} events hub → NoOrphans hub) ↔
      Meets (Hub.step server) EndsAnswered {} events := by
  apply safe_iff_meets fun hub => Consistent server hub ∧ NoOrphans hub
  · rintro hub event hub' ⟨hconsistent, hhub⟩ hevent hstep
    exact ⟨consistent_of_step hconsistent hstep,
      noOrphans_of_step hconsistent hhub hevent hstep⟩
  · exact fun hub hhub => hhub.2
  · exact fun hub event _ hevent => exists_orphan_of_step hevent
  · exact ⟨consistent_empty server, by simp [NoOrphans]⟩

def closedUnanswered : List Event :=
  [.accepted, .forward 0 .inProgress, .upstreamConnected 0 anyAddress, .upstreamClosed 0]

/-- An upstream connection that is closed before it sends anything leaves its
client in the table. -/
theorem exists_orphan_of_closedUnanswered :
    ∃ hub, Reached (Hub.step cuberServer) {} closedUnanswered hub ∧
      hub.clientConnMap.find? (cuberServer.connName 1) =
        some ⟨⟨1, cuberServer.connName 1⟩, 0⟩ ∧
      hub.attempts.map Attempt.upstream = [.closed] ∧ ¬ NoOrphans hub := by
  obtain ⟨hub, hrun, hhub⟩ := Exec.exists_of_returns
    (show (runFrom (Hub.step cuberServer) {} closedUnanswered).returns
      (fun hub => decide (hub.clientConnMap.find? (cuberServer.connName 1) =
          some ⟨⟨1, cuberServer.connName 1⟩, 0⟩ ∧
        hub.attempts.map Attempt.upstream = [.closed])) = true by decide)
  obtain ⟨hfind, hclosed⟩ := of_decide_eq_true hhub
  refine ⟨hub, ⟨_, List.prefix_refl _, hrun⟩, hfind, hclosed, fun hopen => ?_⟩
  obtain ⟨attempt, hattempt, hne⟩ := hopen _ _ hfind
  have hupstream : (hub.attempts.map Attempt.upstream)[0]? = some attempt.upstream := by
    rw [List.getElem?_map, hattempt]
    rfl
  rw [hclosed] at hupstream
  exact hne (Option.some.inj hupstream).symm

end Cuber.Correlation
