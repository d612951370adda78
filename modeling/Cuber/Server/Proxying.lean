import Cuber.Core.Refinement
import Cuber.Http.Grammar
import Cuber.Http.ResponseContext
import Cuber.Http.Server

/-!
# A client connection and its upstream connections

The state machine of one client connection of the server: bytes from the
client, results of connecting to upstream servers, and bytes from these
arrive in any order.  A forwarded request occupies the parser context until
its response, or an error in its place, has been relayed to the client.

Two counters that the program does not have record which request each run of
the handler chain was about: requests are numbered in the order in which the
parser completes them.
-/

namespace Cuber.Proxying

open Cuber.Config
open Cuber.Context
open Cuber.Execution
open Cuber.Filter
open Cuber.Grammar
open Cuber.Handlers
open Cuber.Request
open Cuber.Response
open Cuber.ResponseContext
open Cuber.Runs
open Cuber.Server
open Cuber.Text

/-- What `connect` says when `HttpProxyHandler` opens an upstream connection. -/
inductive ConnectResult where
  /-- The attempt is under way, or has succeeded at once. -/
  | inProgress
  /-- The attempt failed in a way that `Connector` retries, which for a proxy
  means that the failure is reported. -/
  | refused
  /-- The attempt failed in a way that `Connector` only logs. -/
  | dropped
  deriving DecidableEq

inductive UpstreamConnection where
  | connecting
  | connected (context : HttpResponseContext) (input : Bytes)
  | closed
  deriving DecidableEq

structure Session where
  connection : Connection := {}
  /-- Whether `clientConnMap` has an entry for the client connection. -/
  registered : Bool := false
  upstreams : List UpstreamConnection := []
  /-- The responses passed to `proxyResponseCallback`, as they are sent. -/
  relayed : List HttpResponse := []
  /-- How many requests the parser has completed. -/
  completed : ℕ := 0
  /-- The number of the request for each run of the handler chain that
  forwarded or answered it. -/
  dispatched : List ℕ := []
  deriving DecidableEq

inductive Event where
  /-- Bytes from the client; the result is used when they lead to a connection
  attempt. -/
  | clientBytes (chunk : Bytes) (result : ConnectResult)
  | upstreamConnected (index : ℕ)
  | upstreamFailed (index : ℕ)
  | upstreamBytes (index : ℕ) (chunk : Bytes)
  | upstreamClosed (index : ℕ)
  deriving DecidableEq

variable (env : Environment)

namespace Session

/-- A response to the request in the context, after `HttpHeadersFilter`. -/
def filtered (session : Session) (response : HttpResponse) : HttpResponse :=
  HttpHeadersFilter.filter env.config session.connection.context.request response

/-- The common part of `doProxyResponse`, `onBadUpstreamResponse` and
`onForwardFailed`: the assertion, `proxyResponseCallback`, which resets the
context, and the removal from `clientConnMap`. -/
def relay (session : Session) (response : HttpResponse) : Exec Fault Session :=
  if session.registered then
    .ret { session with
      connection := { session.connection with
        context := session.connection.context.reset }
      registered := false
      relayed := session.relayed ++ [session.filtered env response] }
  else .fault .clientConnAssertion

def onForwardFailed (session : Session) (index : ℕ) : Exec Fault Session :=
  session.relay env (unreachableResponse (env.upstreamIpPort index))

def setUpstream (session : Session) (index : ℕ) (upstream : UpstreamConnection) :
    Session :=
  { session with upstreams := session.upstreams.set index upstream }

/-- The end of `HttpProxyHandler::handle`, from `setConnInfo` on. -/
def openUpstream (session : Session) (result : ConnectResult) : Exec Fault Session :=
  let noted := { session with registered := true }
  match result with
  | .inProgress =>
      .ret { noted with upstreams := noted.upstreams ++ [.connecting] }
  | .refused =>
      onForwardFailed env { noted with upstreams := noted.upstreams ++ [.closed] }
        session.upstreams.length
  | .dropped => .ret { noted with upstreams := noted.upstreams ++ [.closed] }

/-- A run of the handler chain for the request that is now in the context,
which was completed just now unless it had been there before. -/
def noteDispatch (session : Session) : Session :=
  let number :=
    if session.connection.context.state = .kGotAll then session.completed
    else session.completed + 1
  { session with completed := number, dispatched := session.dispatched ++ [number] }

/-- `HttpServer::onMessage`, together with the connection attempt that
`HttpProxyHandler` makes when it forwards. -/
def onClientBytes (session : Session) (chunk : Bytes) (result : ConnectResult) :
    Exec Fault Session :=
  (onMessage env session.connection chunk).bind fun (reaction, connection) =>
    match reaction with
    | .waiting => .ret { session with connection }
    | .rejected _ => .ret { session with connection }
    | .answered _ _ => .ret { session.noteDispatch with connection }
    | .forwarded _ _ => openUpstream env { session.noteDispatch with connection } result

/-- `HttpProxyHandler::onResponseMessage`.  After a response has been relayed
the upstream connection is shut down for writing only. -/
def onResponseMessage (session : Session) (index : ℕ) (context : HttpResponseContext)
    (input : Bytes) : Exec Fault Session :=
  match parseResponse context input with
  | none => .hang
  | some parsed =>
      match parsed.verdict with
      | .kBadMessage =>
          (session.setUpstream index (.connected parsed.context parsed.buffer)).relay
            env (badUpstreamResponse (env.upstreamIpPort index))
      | .kParseOK =>
          -- the filters work on the response object inside the context
          (session.setUpstream index (.connected
            { parsed.context with
              response := session.filtered env parsed.context.response }
            parsed.buffer)).relay env parsed.context.response
      | _ => .ret (session.setUpstream index (.connected parsed.context parsed.buffer))

/-- One event.  An event that does not apply to the state of the upstream
connection it names changes nothing. -/
def step (session : Session) : Event → Exec Fault Session
  | .clientBytes chunk result => session.onClientBytes env chunk result
  | .upstreamConnected index =>
      match session.upstreams[index]? with
      | some .connecting => .ret (session.setUpstream index (.connected {} []))
      | _ => .ret session
  | .upstreamFailed index =>
      match session.upstreams[index]? with
      | some .connecting => (session.setUpstream index .closed).onForwardFailed env index
      | _ => .ret session
  | .upstreamBytes index chunk =>
      match session.upstreams[index]? with
      | some (.connected context input) =>
          session.onResponseMessage env index context (input ++ chunk)
      | _ => .ret session
  | .upstreamClosed index =>
      match session.upstreams[index]? with
      | some (.connected _ _) => .ret (session.setUpstream index .closed)
      | _ => .ret session

end Session

/-! ## What a step can do -/

/-- The reaction to bytes that completed a request, or found one complete. -/
def dispatches : Reaction → Bool
  | .answered _ _ => true
  | .forwarded _ _ => true
  | _ => false

/-- The connection is left alone, or its context is reset. -/
def KeptOrReset (before after : Connection) : Prop :=
  after = before ∨ after = { before with context := before.context.reset }

/-- The part of a step that concerns the upstream connections and their
responses. -/
structure Relayed (before after : Session) : Prop where
  connection : KeptOrReset before.connection after.connection
  completed : after.completed = before.completed
  dispatched : after.dispatched = before.dispatched

section Steps

variable {env} {session session' : Session}

theorem relayed_refl (session : Session) : Relayed session session :=
  ⟨Or.inl rfl, rfl, rfl⟩

theorem relayed_of_relay {response : HttpResponse}
    (hrelay : session.relay env response = .ret session') :
    Relayed session session' := by
  rw [Session.relay] at hrelay
  split_ifs at hrelay
  cases hrelay
  exact ⟨Or.inr rfl, rfl, rfl⟩

theorem relayed_of_openUpstream {result : ConnectResult}
    (hopen : session.openUpstream env result = .ret session') :
    Relayed session session' := by
  cases result with
  | inProgress | dropped =>
      cases hopen
      exact ⟨Or.inl rfl, rfl, rfl⟩
  | refused =>
      rw [Session.openUpstream, Session.onForwardFailed] at hopen
      obtain ⟨hconnection, hcompleted, hdispatched⟩ := relayed_of_relay hopen
      exact ⟨hconnection, hcompleted, hdispatched⟩

theorem relayed_of_onResponseMessage {index : ℕ} {context : HttpResponseContext}
    {input : Bytes}
    (hmessage : session.onResponseMessage env index context input = .ret session') :
    Relayed session session' := by
  rw [Session.onResponseMessage] at hmessage
  split at hmessage
  · cases hmessage
  · split at hmessage
    · obtain ⟨hconnection, hcompleted, hdispatched⟩ := relayed_of_relay hmessage
      exact ⟨hconnection, hcompleted, hdispatched⟩
    · obtain ⟨hconnection, hcompleted, hdispatched⟩ := relayed_of_relay hmessage
      exact ⟨hconnection, hcompleted, hdispatched⟩
    · cases hmessage
      exact ⟨Or.inl rfl, rfl, rfl⟩

/-- Bytes from the client start a run of the handler chain, or do not. -/
theorem onClientBytes_cases {chunk : Bytes} {result : ConnectResult}
    (hbytes : session.onClientBytes env chunk result = .ret session') :
    ∃ reaction connection,
      onMessage env session.connection chunk = .ret (reaction, connection) ∧
        (dispatches reaction = false ∧ session' = { session with connection } ∨
          dispatches reaction = true ∧
            Relayed { session.noteDispatch with connection } session') := by
  obtain ⟨⟨reaction, connection⟩, hmessage, hreact⟩ := Exec.bind_eq_ret_iff.mp hbytes
  refine ⟨reaction, connection, hmessage, ?_⟩
  cases reaction with
  | waiting | rejected =>
      cases hreact
      exact Or.inl ⟨rfl, rfl⟩
  | answered =>
      cases hreact
      exact Or.inr ⟨rfl, relayed_refl _⟩
  | forwarded => exact Or.inr ⟨rfl, relayed_of_openUpstream hreact⟩

/-- A step that is not about bytes from the client leaves the counters alone,
and at most resets the context. -/
theorem relayed_of_step {event : Event}
    (hevent : ∀ chunk result, event ≠ .clientBytes chunk result)
    (hstep : session.step env event = .ret session') : Relayed session session' := by
  cases event with
  | clientBytes chunk result => exact absurd rfl (hevent chunk result)
  | upstreamConnected index =>
      rw [Session.step] at hstep
      split at hstep <;> cases hstep <;> exact ⟨Or.inl rfl, rfl, rfl⟩
  | upstreamFailed index =>
      rw [Session.step] at hstep
      split at hstep
      · obtain ⟨hconnection, hcompleted, hdispatched⟩ := relayed_of_relay hstep
        exact ⟨hconnection, hcompleted, hdispatched⟩
      · cases hstep
        exact relayed_refl session
  | upstreamBytes index chunk =>
      rw [Session.step] at hstep
      split at hstep
      · exact relayed_of_onResponseMessage hstep
      · cases hstep
        exact relayed_refl session
  | upstreamClosed index =>
      rw [Session.step] at hstep
      split at hstep <;> cases hstep <;> exact ⟨Or.inl rfl, rfl, rfl⟩

end Steps

/-! ## Dispatching a request once -/

section Dispatch

variable {env} {session session' : Session}

/-- A call of `onMessage` dispatches when the parser finds a complete request;
otherwise it leaves what the parser left. -/
theorem onMessage_cases {connection connection' : Connection} {chunk : Bytes}
    {reaction : Reaction}
    (hmessage : onMessage env connection chunk = .ret (reaction, connection')) :
    ∃ parsed, parseRequest connection.context (connection.input ++ chunk) = .ret parsed ∧
      (parsed.verdict = .kParseOK ∧ dispatches reaction = true ∨
        parsed.verdict ≠ .kParseOK ∧ dispatches reaction = false ∧
          connection' = ⟨parsed.context, parsed.buffer⟩) := by
  obtain ⟨parsed, hparse, hreact⟩ := Exec.bind_eq_ret_iff.mp hmessage
  refine ⟨parsed, hparse, ?_⟩
  rw [react] at hreact
  split at hreact
  · rename_i hverdict
    cases hreact
    exact Or.inr ⟨by simp [hverdict], rfl, rfl⟩
  · rename_i hverdict
    obtain ⟨handled, _, hret⟩ := Exec.bind_eq_ret_iff.mp hreact
    refine Or.inl ⟨hverdict, ?_⟩
    split_ifs at hret <;> cases hret <;> rfl
  · rename_i hok
    cases hreact
    exact Or.inr ⟨hok, rfl, rfl⟩

theorem dispatches_of_gotAll {connection connection' : Connection} {chunk : Bytes}
    {reaction : Reaction} (hstate : connection.context.state = .kGotAll)
    (hmessage : onMessage env connection chunk = .ret (reaction, connection')) :
    dispatches reaction = true := by
  obtain ⟨parsed, hparse, ⟨_, hreaction⟩ | ⟨hverdict, _⟩⟩ := onMessage_cases hmessage
  · exact hreaction
  · rw [parseRequest_of_done (step_of_gotAll hstate _)] at hparse
    cases hparse
    exact absurd rfl hverdict

theorem state_ne_gotAll_of_not_dispatches {connection connection' : Connection}
    {chunk : Bytes} {reaction : Reaction}
    (hmessage : onMessage env connection chunk = .ret (reaction, connection'))
    (hreaction : dispatches reaction = false) :
    connection'.context.state ≠ .kGotAll := by
  obtain ⟨parsed, hparse, ⟨_, hdispatches⟩ | ⟨hverdict, _, rfl⟩⟩ :=
    onMessage_cases hmessage
  · simp [hreaction] at hdispatches
  · exact fun hstate => hverdict ((verdict_iff_gotAll hparse).mpr hstate)

/-- The numbers of the dispatched requests, and the request that occupies the
context while it is forwarded. -/
structure Numbered (session : Session) : Prop where
  le_completed : ∀ number ∈ session.dispatched, number ≤ session.completed
  mem_of_gotAll : session.connection.context.state = .kGotAll →
    session.completed ∈ session.dispatched

theorem numbered_new : Numbered {} :=
  ⟨by simp, by simp⟩

theorem numbered_noteDispatch (hnumbered : Numbered session) (connection : Connection) :
    Numbered { session.noteDispatch with connection } := by
  refine ⟨fun number hmem => ?_, fun _ => by simp [Session.noteDispatch]⟩
  rcases List.mem_append.mp hmem with hold | hnew
  · have hle := hnumbered.le_completed number hold
    simp only [Session.noteDispatch]
    split_ifs <;> omega
  · exact (List.mem_singleton.mp hnew).le

theorem Relayed.numbered (hrelayed : Relayed session session')
    (hnumbered : Numbered session) : Numbered session' := by
  obtain ⟨hconnection, hcompleted, hdispatched⟩ := hrelayed
  refine ⟨by rw [hcompleted, hdispatched]; exact hnumbered.le_completed, ?_⟩
  rw [hcompleted, hdispatched]
  rcases hconnection with hkept | hreset
  · rw [hkept]
    exact hnumbered.mem_of_gotAll
  · rw [hreset]
    intro hstate
    cases hstate

/-- The event brings no bytes from the client while a request occupies the
context. -/
def FindsNoRequest (session : Session) (event : Event) : Prop :=
  ∀ chunk result, event = .clientBytes chunk result →
    session.connection.context.state ≠ .kGotAll

instance (session : Session) : ∀ event, Decidable (FindsNoRequest session event)
  | .clientBytes chunk result =>
      decidable_of_iff (session.connection.context.state ≠ .kGotAll)
        ⟨fun hstate _ _ _ => hstate, fun hfinds => hfinds chunk result rfl⟩
  | .upstreamConnected _ | .upstreamFailed _ | .upstreamBytes _ _ | .upstreamClosed _ =>
      .isTrue fun _ _ hevent => nomatch hevent

theorem numbered_step {event : Event} (hnumbered : Numbered session)
    (hstep : session.step env event = .ret session') : Numbered session' := by
  cases event with
  | clientBytes chunk result =>
      obtain ⟨reaction, connection, hmessage, ⟨hreaction, rfl⟩ | ⟨_, hrelayed⟩⟩ :=
        onClientBytes_cases hstep
      · exact ⟨hnumbered.le_completed, fun hstate =>
          absurd hstate (state_ne_gotAll_of_not_dispatches hmessage hreaction)⟩
      · exact hrelayed.numbered (numbered_noteDispatch hnumbered connection)
  | upstreamConnected | upstreamFailed | upstreamBytes | upstreamClosed =>
      exact (relayed_of_step (by simp) hstep).numbered hnumbered

theorem nodup_noteDispatch_iff (hnumbered : Numbered session) :
    session.noteDispatch.dispatched.Nodup ↔
      session.dispatched.Nodup ∧ session.connection.context.state ≠ .kGotAll := by
  by_cases hstate : session.connection.context.state = .kGotAll
  · -- the request in the context was dispatched when it was completed
    have hmem := hnumbered.mem_of_gotAll hstate
    simp [Session.noteDispatch, hstate, List.nodup_append, hmem]
  · have hnew : session.completed + 1 ∉ session.dispatched := by
      intro hmem
      have hle := hnumbered.le_completed _ hmem
      omega
    simp only [Session.noteDispatch, hstate, if_false, List.nodup_append,
      List.nodup_singleton, List.mem_singleton, true_and, ne_eq, not_false_iff, and_true,
      forall_eq]
    exact ⟨fun hnodup => hnodup.1, fun hnodup =>
      ⟨hnodup, fun number hmem heq => hnew (heq ▸ hmem)⟩⟩

/-- A step dispatches a request anew, unless it finds one in the context. -/
theorem nodup_step {event : Event} (hnumbered : Numbered session)
    (hstep : session.step env event = .ret session') :
    session'.dispatched.Nodup ↔
      session.dispatched.Nodup ∧ FindsNoRequest session event := by
  cases event with
  | clientBytes chunk result =>
      have hevent : FindsNoRequest session (.clientBytes chunk result) ↔
          session.connection.context.state ≠ .kGotAll := by
        simp [FindsNoRequest]
      rw [hevent]
      obtain ⟨reaction, connection, hmessage, ⟨hreaction, rfl⟩ | ⟨_, hrelayed⟩⟩ :=
        onClientBytes_cases hstep
      · have hstate : session.connection.context.state ≠ .kGotAll := by
          intro hstate
          simp [dispatches_of_gotAll hstate hmessage] at hreaction
        simp [hstate]
      · rw [hrelayed.dispatched]
        exact nodup_noteDispatch_iff hnumbered
  | upstreamConnected | upstreamFailed | upstreamBytes | upstreamClosed =>
      rw [(relayed_of_step (by simp) hstep).dispatched]
      simp [FindsNoRequest]

theorem nodup_run_iff {events : List Event} (hnumbered : Numbered session)
    (hrun : runFrom (Session.step env) session events = .ret session') :
    session'.dispatched.Nodup ↔
      session.dispatched.Nodup ∧
        Meets (Session.step env) FindsNoRequest session events := by
  induction events generalizing session with
  | nil =>
      cases hrun
      simp [Meets]
  | cons event events ih =>
      obtain ⟨middle, hstep, hrest⟩ := runFrom_cons_eq_ret_iff.mp hrun
      rw [ih (numbered_step hnumbered hstep) hrest, nodup_step hnumbered hstep,
        meets_cons_iff hstep, and_assoc]

end Dispatch

/-- In every run of a new connection, each request that the parser completes is
dispatched at most once if and only if no bytes arrive from the client while
the request in the context is complete, that is between its forwarding and the
response. -/
theorem dispatched_once_iff {events : List Event} {session : Session}
    (hrun : runFrom (Session.step env) {} events = .ret session) :
    session.dispatched.Nodup ↔ Meets (Session.step env) FindsNoRequest {} events := by
  have hnodup := nodup_run_iff numbered_new hrun
  simpa using hnodup

/-- A request that is forwarded, and the first byte of the next one. -/
def impatientClient : List Event :=
  [.clientBytes (ascii "GET / HTTP/1.1\r\n\r\n") .inProgress,
    .clientBytes (ascii "G") .inProgress]

/-- The second chunk has the forwarded request handled again; this time it is
answered with 404. -/
theorem impatientClient_dispatched_twice :
    ∃ session, runFrom (Session.step { config := proxyConfig }) {} impatientClient =
        .ret session ∧ ¬ session.dispatched.Nodup := by
  obtain ⟨session, hrun, htwice⟩ := Exec.exists_of_returns
    (show (runFrom (Session.step { config := proxyConfig }) {} impatientClient).returns
      (fun session => session.dispatched = [1, 1]) = true by decide)
  refine ⟨session, hrun, ?_⟩
  rw [of_decide_eq_true htwice]
  decide

/-- A client that waits for the response before it sends its next request. -/
def patientClient : List Event :=
  [.clientBytes (ascii "GET / HTTP/1.1\r\n\r\n") .inProgress, .upstreamConnected 0,
    .upstreamBytes 0 (ascii "HTTP/1.1 200 OK\r\n\r\n"), .upstreamClosed 0,
    .clientBytes (ascii "GET / HTTP/1.1\r\n\r\n") .refused]

theorem patientClient_dispatched_once :
    ∃ session, runFrom (Session.step { config := proxyConfig }) {} patientClient =
        .ret session ∧ session.dispatched.Nodup := by
  obtain ⟨session, hrun, _⟩ := Exec.exists_of_returns
    (show (runFrom (Session.step { config := proxyConfig }) {} patientClient).returns
      (fun session => session.relayed.length = 2) = true by decide +kernel)
  refine ⟨session, hrun, (dispatched_once_iff _ hrun).mpr (by decide +kernel)⟩

end Cuber.Proxying
