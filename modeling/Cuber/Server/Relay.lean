import Cuber.Http.UpstreamAnswer
import Cuber.Server.Proxying

/-!
# Bytes from one upstream connection

After a request was forwarded, its upstream connection delivers chunk after
chunk to `HttpProxyHandler::onResponseMessage`.  The first response, or the
error in its place, takes the entry of the client from `clientConnMap`, and the
assertion on that entry fails as soon as the parser returns another verdict on
the bytes that follow.
-/

namespace Cuber.Relay

open Cuber.Config
open Cuber.Execution
open Cuber.Handlers
open Cuber.Loop
open Cuber.Proxying
open Cuber.Request
open Cuber.Response
open Cuber.ResponseContext
open Cuber.Runs
open Cuber.Text
open Cuber.UpstreamAnswer

variable (env : Environment) (index : ℕ)

def receive (session : Session) (chunk : Bytes) : Exec Fault Session :=
  session.step env (.upstreamBytes index chunk)

/-- The upstream connection is open, at whichever side it may have been shut
down. -/
def IsConnected (session : Session) : Prop :=
  ∃ context input, session.upstreams[index]? = some (.connected context input)

/-- The chunk finds an entry for the client, or it leaves the head of another
answer unfinished. -/
def FindsEntryOrCallsForMore (session : Session) (chunk : Bytes) : Prop :=
  session.registered = false → ∀ context input,
    session.upstreams[index]? = some (.connected context input) →
      CallsForMore context (input ++ chunk)

section Chunks

variable {env index} {session session' : Session} {chunk : Bytes}

theorem verdict_ne_headerEnd {context : HttpResponseContext} {bytes : Bytes}
    {parsed : ResponseParse} (hparse : parseResponse context bytes = some parsed) :
    parsed.verdict ≠ .kHeaderEnd := by
  obtain ⟨last, _, hdone⟩ := (parseLoop.exec_eq_some_iff.mp hparse).exists_last
  change parseResponseStep last = .done parsed at hdone
  simp only [parseResponseStep] at hdone
  split at hdone
  · split at hdone
    · cases hdone
      simp
    · split at hdone <;> cases hdone <;> simp
  · split at hdone
    · cases hdone
      simp
    · split at hdone <;> cases hdone
      simp
  · split at hdone <;> cases hdone
    simp
  · cases hdone
    simp

/-- What a chunk does: the parser never returns, or waits for more, or has
reached a verdict, upon which something is relayed. -/
theorem receive_cases (env : Environment) (chunk : Bytes) {context : HttpResponseContext}
    {input : Bytes}
    (hconnected : session.upstreams[index]? = some (.connected context input)) :
    receive env index session chunk = .hang ∨
      (CallsForMore context (input ++ chunk) ∧ ∃ context' left,
        receive env index session chunk =
          .ret (session.setUpstream index (.connected context' left))) ∨
      (¬ CallsForMore context (input ++ chunk) ∧ ∃ context' left response,
        receive env index session chunk =
          (session.setUpstream index (.connected context' left)).relay env response) := by
  have hreceive : receive env index session chunk =
      session.onResponseMessage env index context (input ++ chunk) := by
    rw [receive, Session.step, hconnected]
  rw [hreceive, Session.onResponseMessage]
  cases hparse : parseResponse context (input ++ chunk) with
  | none => exact Or.inl rfl
  | some parsed =>
      have hnotAgain : parsed.verdict ≠ .kParseAgain →
          ¬ CallsForMore context (input ++ chunk) := by
        intro hverdict hmore
        obtain ⟨context', left, hagain⟩ := parseResponse_of_callsForMore hmore
        cases hagain.symm.trans hparse
        exact hverdict rfl
      right
      cases hverdict : parsed.verdict with
      | kParseAgain =>
          refine Or.inl ⟨callsForMore_of_again hparse hverdict, parsed.context,
            parsed.buffer, ?_⟩
          simp [hverdict]
      | kParseOK =>
          refine Or.inr ⟨hnotAgain (by simp [hverdict]), { parsed.context with
            response := session.filtered env parsed.context.response }, parsed.buffer,
            parsed.context.response, ?_⟩
          simp only [hverdict]
      | kBadMessage =>
          refine Or.inr ⟨hnotAgain (by simp [hverdict]), parsed.context, parsed.buffer,
            badUpstreamResponse (env.upstreamIpPort index), ?_⟩
          simp only [hverdict]
      | kHeaderEnd => exact absurd hverdict (verdict_ne_headerEnd hparse)

theorem isConnected_setUpstream (hconnected : IsConnected index session)
    (context : HttpResponseContext) (left : Bytes) :
    IsConnected index (session.setUpstream index (.connected context left)) := by
  obtain ⟨_, _, hupstream⟩ := hconnected
  obtain ⟨hlt, _⟩ := List.getElem?_eq_some_iff.mp hupstream
  exact ⟨context, left, by simp [Session.setUpstream, hlt]⟩

/-- The entry of the client pays for each response. -/
def credit (session : Session) : ℕ :=
  session.relayed.length + if session.registered then 1 else 0

/-- A chunk keeps the connection, and relays at the expense of the entry. -/
theorem receive_keeps (hconnected : IsConnected index session)
    (hreceive : receive env index session chunk = .ret session') :
    IsConnected index session' ∧ credit session' = credit session := by
  obtain ⟨context, input, hupstream⟩ := hconnected
  have hset := isConnected_setUpstream ⟨context, input, hupstream⟩
  rcases receive_cases env chunk hupstream with
    hhang | ⟨_, context', left, hmore⟩ | ⟨_, context', left, response, hrelay⟩
  · rw [hhang] at hreceive
    cases hreceive
  · rw [hmore] at hreceive
    cases hreceive
    exact ⟨hset context' left, rfl⟩
  · rw [hrelay, Session.relay] at hreceive
    split_ifs at hreceive with hregistered
    cases hreceive
    have hentry : session.registered = true := hregistered
    exact ⟨hset context' left, by simp [credit, Session.setUpstream, hentry]⟩

theorem receive_faultless (hconnected : IsConnected index session) (cause : Fault)
    (hchunk : FindsEntryOrCallsForMore index session chunk) :
    receive env index session chunk ≠ .fault cause := by
  obtain ⟨context, input, hupstream⟩ := hconnected
  rcases receive_cases env chunk hupstream with
    hhang | ⟨_, context', left, hmore⟩ | ⟨hverdict, context', left, response, hrelay⟩
  · simp [hhang]
  · simp [hmore]
  · cases hentry : session.registered with
    | false => exact absurd (hchunk hentry context input hupstream) hverdict
    | true => simp [hrelay, Session.relay, Session.setUpstream, hentry]

theorem receive_broken (env : Environment)
    (hchunk : ¬ FindsEntryOrCallsForMore index session chunk) :
    receive env index session chunk = .hang ∨
      ∃ cause, receive env index session chunk = .fault cause := by
  simp only [FindsEntryOrCallsForMore, not_forall] at hchunk
  obtain ⟨hentry, context, input, hupstream, hverdict⟩ := hchunk
  rcases receive_cases env chunk hupstream with
    hhang | ⟨hmore, _⟩ | ⟨_, context', left, response, hrelay⟩
  · exact Or.inl hhang
  · exact absurd hmore hverdict
  · right
    refine ⟨.clientConnAssertion, ?_⟩
    simp [hrelay, Session.relay, Session.setUpstream, hentry]

end Chunks

/-- Nothing fails, and at most one more response is relayed. -/
def RelaysOnce (session : Session) (chunks : List Bytes) : Prop :=
  (∀ cause, runFrom (receive env index) session chunks ≠ .fault cause) ∧
    ∀ session', Reached (receive env index) session chunks session' →
      session'.relayed.length ≤ session.relayed.length + 1

/-- For every division into chunks of what an upstream server sends after a
request was forwarded, as long as the parser returns: at most one response is
relayed and no assertion fails if and only if each chunk that arrives after the
response only leaves the head of another answer unfinished. -/
theorem relaysOnce_iff {env : Environment} {index : ℕ} {session : Session}
    {chunks : List Bytes} (hregistered : session.registered = true)
    (hconnected : session.upstreams[index]? = some (.connected {} []))
    (hreturns : runFrom (receive env index) session chunks ≠ .hang) :
    RelaysOnce env index session chunks ↔
      Meets (receive env index) (FindsEntryOrCallsForMore index) session chunks := by
  have hstart : IsConnected index session := ⟨_, _, hconnected⟩
  have hfaultless := faultless_iff_meets (IsConnected index)
    (fun _ _ _ hstate _ hstep => (receive_keeps hstate hstep).1)
    (fun _ _ cause hstate hchunk => receive_faultless hstate cause hchunk)
    (fun _ _ _ hchunk => receive_broken env hchunk) hstart hreturns
  rw [← hfaultless, RelaysOnce]
  refine and_iff_left_of_imp fun _ => ?_
  rintro session' ⟨before, _, hrun⟩
  have hcredit : credit session' = session.relayed.length + 1 := by
    have hkept := invariant_of_run
      (fun state => IsConnected index state ∧ credit state = credit session)
      (fun state chunk state' hstate hstep => by
        obtain ⟨hstill, heq⟩ := receive_keeps hstate.1 hstep
        exact ⟨hstill, heq.trans hstate.2⟩)
      ⟨hstart, rfl⟩ hrun
    rw [hkept.2, credit, hregistered]
    rfl
  simp only [credit] at hcredit
  omega

/-- A client connection on which a request was forwarded and connected. -/
def forwardedSession : List Event :=
  [.clientBytes (ascii "GET / HTTP/1.1\r\n\r\n") .inProgress, .upstreamConnected 0]

def emptyAnswer : Bytes := ascii "HTTP/1.1 200 OK\r\n\r\n"

theorem relaysOnce_emptyAnswer :
    ∃ session, runFrom (Session.step { config := proxyConfig }) {} forwardedSession =
        .ret session ∧
      RelaysOnce { config := proxyConfig } 0 session [emptyAnswer] := by
  obtain ⟨session, hrun, hstate⟩ := Exec.exists_of_returns
    (show (runFrom (Session.step { config := proxyConfig }) {} forwardedSession).returns
      (fun session => decide (session.registered = true ∧
        session.upstreams[0]? = some (.connected {} []) ∧
        runFrom (receive { config := proxyConfig } 0) session [emptyAnswer] ≠ .hang)) =
          true by decide)
  obtain ⟨hregistered, hconnected, hreturns⟩ := of_decide_eq_true hstate
  refine ⟨session, hrun,
    (relaysOnce_iff hregistered hconnected hreturns).mpr ⟨?_, fun _ _ => trivial⟩⟩
  intro hentry
  rw [hregistered] at hentry
  cases hentry

/-- One byte after a complete answer brings the server down. -/
theorem byte_after_answer_fails :
    ∃ session, runFrom (Session.step { config := proxyConfig }) {} forwardedSession =
        .ret session ∧ session.registered = true ∧
      session.upstreams[0]? = some (.connected {} []) ∧
      runFrom (receive { config := proxyConfig } 0) session [emptyAnswer, [SP]] =
        .fault .clientConnAssertion := by
  obtain ⟨session, hrun, hstate⟩ := Exec.exists_of_returns
    (show (runFrom (Session.step { config := proxyConfig }) {} forwardedSession).returns
      (fun session => decide (session.registered = true ∧
        session.upstreams[0]? = some (.connected {} []) ∧
        runFrom (receive { config := proxyConfig } 0) session [emptyAnswer, [SP]] =
          .fault .clientConnAssertion)) = true by decide)
  exact ⟨session, hrun, of_decide_eq_true hstate⟩

end Cuber.Relay
