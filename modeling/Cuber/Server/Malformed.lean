import Cuber.Server.Proxying

/-!
# After a malformed line

The parser has two ways out with `kBadMessage`.  A malformed request line stays
in the buffer, and the method it names, if any, stays set.  A malformed header
line is consumed, and the parser goes on expecting headers.  The verdict itself
is not recorded, and the connection is shut down for writing only, so further
bytes from the client are parsed as before.

The first half describes both ways out for every context.  The second half
follows a connection after them: which rejections are final, and when the next
call of `HttpRequest::setMethod` finds the method set.
-/

namespace Cuber.Malformed

open Cuber.Buffer
open Cuber.Chunking
open Cuber.Config
open Cuber.Context
open Cuber.Execution
open Cuber.Grammar
open Cuber.Handlers
open Cuber.Proxying
open Cuber.Request
open Cuber.Runs
open Cuber.Server
open Cuber.Text

/-! ## Malformed lines in the parser -/

section Lines

variable {request request' : HttpRequest} {line : Bytes} {success : Bool}

theorem parseRequestLine_of_set (hset : request.method ≠ .kInvalid)
    (hspace : SP ∈ line) :
    parseRequestLine request line = .fault .methodAssertion := by
  rcases space_cases line with hfree | ⟨name, rest, rfl, hname⟩
  · exact absurd hspace hfree
  · simp [parseRequestLine, cut_append hname, HttpRequest.setMethod, hset]

/-- Whatever the request held before, `parseRequestLine` succeeds on request
lines only, and fails on no request line. -/
theorem parseRequestLine_success_iff
    (hparse : parseRequestLine request line = .ret (success, request')) :
    success = true ↔ IsRequestLine line := by
  by_cases hfree : request.method = .kInvalid
  · obtain ⟨_, _, hspec, hsuccess, _⟩ := parseRequestLine_spec hfree line
    rw [hparse] at hspec
    cases hspec
    exact hsuccess
  · by_cases hspace : SP ∈ line
    · simp [parseRequestLine_of_set hfree hspace] at hparse
    · rw [parseRequestLine_of_no_space hspace] at hparse
      cases hparse
      have hline : ¬ IsRequestLine line := fun hline =>
        hspace hline.namesMethod.space_mem
      simp [hline]

end Lines

section Parser

variable {context : HttpContext} {bytes : Bytes} {parsed : RequestParse}

/-- A malformed request line is rejected, or fails the assertion; it is never
consumed. -/
theorem rejects_of_hasBadRequestLine (hstate : context.state = .kExpectRequestLine)
    (hbytes : HasBadRequestLine bytes)
    (hparse : parseRequest context bytes = .ret parsed) :
    parsed.verdict = .kBadMessage ∧ parsed.context.state = .kExpectRequestLine ∧
      parsed.buffer = bytes := by
  obtain ⟨line, rest, rfl, hline, hbad⟩ := hbytes
  have hstep := step_of_requestLine hstate hline rest
  split at hstep
  · rename_i request hrequest
    exact absurd ((parseRequestLine_success_iff hrequest).mp rfl) hbad
  · rw [parseRequest_of_done hstep] at hparse
    cases hparse
    exact ⟨rfl, hstate, rfl⟩
  · rw [parseRequest_of_done hstep] at hparse
    cases hparse
  · rw [parseRequest_of_done hstep] at hparse
    cases hparse

theorem rejection_cases_of_done {before : HttpContext × Bytes}
    (hstep : parseRequestStep before = .done (.ret parsed))
    (hbad : parsed.verdict = .kBadMessage) :
    before.1.state = .kExpectRequestLine ∧ HasBadRequestLine before.2 ∨
      parsed.context.state = .kExpectHeaders := by
  cases iteration_of_step hstep with
  | unfinished | gotAll => cases hbad
  | @badRequestLine context line rest request hstate hline hparse =>
      refine Or.inl ⟨hstate, line, rest, rfl, hline, fun hrequestLine => ?_⟩
      cases (parseRequestLine_success_iff hparse).mpr hrequestLine
  | malformedHeader hstate => exact Or.inr hstate

/-- The two ways out with `kBadMessage`. -/
theorem rejection_cases (hparse : parseRequest context bytes = .ret parsed)
    (hbad : parsed.verdict = .kBadMessage) :
    context.state = .kExpectRequestLine ∧ HasBadRequestLine bytes ∨
      parsed.context.state = .kExpectHeaders := by
  obtain ⟨last, hstep, rfl | hlater⟩ := exists_last_of_parseRequest hparse
  · exact rejection_cases_of_done hstep hbad
  · rcases rejection_cases_of_done hstep hbad with ⟨hstate, _⟩ | hheaders
    · exact absurd hstate hlater
    · exact Or.inr hheaders

theorem not_isLine_append_crlf (bytes : Bytes) : ¬ IsLine (bytes ++ [CR, LF]) := by
  rw [IsLine]
  rcases line_cases bytes with hline | ⟨line, tail, rfl, hline⟩
  · simp [findCRLF_line hline]
  · simp [findCRLF_line hline]

/-- Where headers are expected, one more CRLF ends the head or shortens the
input. -/
theorem parseRequest_append_crlf (hstate : context.state = .kExpectHeaders)
    (bytes : Bytes) :
    ∃ parsed, parseRequest context (bytes ++ [CR, LF]) = .ret parsed ∧
      (parsed.verdict = .kParseOK ∨
        parsed.verdict ≠ .kParseOK ∧ parsed.context.state = .kExpectHeaders ∧
          parsed.buffer.length < bytes.length) := by
  obtain ⟨lines, rest, hbytes, hlines, hrest⟩ := exists_headerSection (bytes ++ [CR, LF])
  have hlength := congrArg List.length hbytes
  simp only [List.length_append, List.length_cons, List.length_nil] at hlength
  rw [hbytes, parseRequest_headerLines hstate hlines]
  have hstate' : (withLines context lines).state = .kExpectHeaders := hstate
  rcases hrest with hrest | ⟨tail, rfl⟩ | ⟨line, tail, rfl, hbad⟩
  · refine ⟨_, parseRequest_unfinished (Or.inr hstate') hrest,
      Or.inr ⟨by simp, hstate', ?_⟩⟩
    cases lines with
    | nil =>
        rw [joinLines_nil, List.nil_append] at hbytes
        exact absurd (hbytes ▸ hrest) (not_isLine_append_crlf bytes)
    | cons line lines =>
        have hpos := List.length_pos_of_mem (hlines line (by simp)).2
        simp only [joinLines, List.flatMap_cons, List.length_append, List.length_cons,
          List.length_nil] at hlength ⊢
        omega
  · exact ⟨_, parseRequest_blankLine hstate' tail, Or.inl rfl⟩
  · refine ⟨_, parseRequest_malformedHeader hstate' hbad tail,
      Or.inr ⟨by simp, hstate', ?_⟩⟩
    have hpos := List.length_pos_of_ne_nil hbad.2.1
    simp only [List.length_append, List.length_cons] at hlength ⊢
    omega

theorem state_of_done {before : HttpContext × Bytes}
    (hstep : parseRequestStep before = .done (.ret parsed)) :
    parsed.context.state = before.1.state := by
  cases iteration_of_step hstep with
  | unfinished | badRequestLine | malformedHeader | gotAll => rfl

/-- The first line is finished, names a known method and is not a request
line. -/
def AbandonsMethod (bytes : Bytes) : Prop :=
  ∃ line rest, bytes = line ++ CR :: LF :: rest ∧ IsLine line ∧ NamesMethod line ∧
    ¬ IsRequestLine line

/-- The parser leaves the method set where a request line is expected only
after a line that names a method and is not a request line. -/
theorem methodFree_of_parseRequest (hfree : MethodFree context)
    (hbytes : context.state = .kExpectRequestLine → ¬ AbandonsMethod bytes)
    (hparse : parseRequest context bytes = .ret parsed) :
    MethodFree parsed.context := by
  intro hexpects
  obtain ⟨last, hstep, rfl | hlater⟩ := exists_last_of_parseRequest hparse
  swap
  · exact absurd ((state_of_done hstep).symm.trans hexpects) hlater
  have hstate : context.state = .kExpectRequestLine :=
    (state_of_done hstep).symm.trans hexpects
  cases iteration_of_step hstep with
  | unfinished => exact hfree hstate
  | @badRequestLine _ line rest request _ hline hfailed =>
      obtain ⟨_, _, hspec, hsuccess, hmethod⟩ := parseRequestLine_spec (hfree hstate) line
      rw [hfailed] at hspec
      cases hspec
      apply hmethod.mpr
      intro hnames
      exact hbytes hstate ⟨line, rest, rfl, hline, hnames, by simpa using hsuccess⟩
  | malformedHeader hheaders => simp [hheaders] at hstate
  | gotAll hall => simp [hall] at hstate

theorem parseRequest_of_set {line : Bytes} (hstate : context.state = .kExpectRequestLine)
    (hset : context.request.method ≠ .kInvalid) (hline : IsLine line)
    (hspace : SP ∈ line) (rest : Bytes) :
    parseRequest context (line ++ CR :: LF :: rest) = .fault .methodAssertion := by
  have hstep := step_of_requestLine hstate hline rest
  rw [parseRequestLine_of_set hset hspace] at hstep
  exact parseRequest_of_done hstep

end Parser

/-! ## Rejections on a connection -/

/-- The chunk makes `parseRequest` return `kBadMessage`. -/
def Rejects (session : Session) (chunk : Bytes) : Prop :=
  ∃ parsed, parseRequest session.connection.context
      (session.connection.input ++ chunk) = .ret parsed ∧
    parsed.verdict = .kBadMessage

/-- The chunk makes `onMessage` call `onRequest`. -/
def CallsOnRequest (session : Session) (chunk : Bytes) : Prop :=
  ∃ parsed, parseRequest session.connection.context
      (session.connection.input ++ chunk) = .ret parsed ∧
    parsed.verdict = .kParseOK

/-- A request line is expected, and the first line of the input is none. -/
def Blocked (session : Session) (chunk : Bytes) : Prop :=
  session.connection.context.state = .kExpectRequestLine ∧
    HasBadRequestLine (session.connection.input ++ chunk)

theorem hasBadRequestLine_append {bytes : Bytes} (hbytes : HasBadRequestLine bytes)
    (more : Bytes) : HasBadRequestLine (bytes ++ more) := by
  obtain ⟨line, rest, rfl, hline, hbad⟩ := hbytes
  exact ⟨line, rest ++ more, by simp, hline, hbad⟩

section Rejections

variable {env : Environment} {session session' : Session} {chunk : Bytes}

theorem not_callsOnRequest_of_blocked (hblocked : Blocked session chunk) :
    ¬ CallsOnRequest session chunk := by
  rintro ⟨parsed, hparse, hok⟩
  obtain ⟨hstate, hbytes⟩ := hblocked
  obtain ⟨hbad, _⟩ := rejects_of_hasBadRequestLine hstate hbytes hparse
  simp [hok] at hbad

/-- Bytes that complete no request change the connection only. -/
theorem step_of_not_parseOK (env : Environment) {parsed : RequestParse}
    (result : ConnectResult)
    (hparse : parseRequest session.connection.context
      (session.connection.input ++ chunk) = .ret parsed)
    (hverdict : parsed.verdict ≠ .kParseOK) :
    session.step env (.clientBytes chunk result) =
      .ret { session with connection := ⟨parsed.context, parsed.buffer⟩ } := by
  rw [Session.step, Session.onClientBytes, onMessage, hparse, Exec.ret_bind, react]
  split
  · rfl
  · rename_i hok
    exact absurd hok hverdict
  · rfl

theorem blocked_of_clientBytes {result : ConnectResult} (hblocked : Blocked session chunk)
    (hstep : session.step env (.clientBytes chunk result) = .ret session') :
    Blocked session' [] := by
  obtain ⟨hstate, hbytes⟩ := hblocked
  obtain ⟨⟨reaction, connection⟩, hmessage, _⟩ := Exec.bind_eq_ret_iff.mp hstep
  obtain ⟨parsed, hparse, _⟩ := onMessage_cases hmessage
  obtain ⟨hbad, hstate', hbuffer⟩ := rejects_of_hasBadRequestLine hstate hbytes hparse
  rw [step_of_not_parseOK env result hparse (by simp [hbad])] at hstep
  cases hstep
  refine ⟨hstate', ?_⟩
  rw [List.append_nil, hbuffer]
  exact hbytes

/-- No event unblocks a connection. -/
theorem blocked_step {event : Event} (hblocked : Blocked session [])
    (hstep : session.step env event = .ret session') : Blocked session' [] := by
  cases event with
  | clientBytes chunk result =>
      refine blocked_of_clientBytes ⟨hblocked.1, ?_⟩ hstep
      have hbytes := hasBadRequestLine_append hblocked.2 chunk
      rwa [List.append_nil] at hbytes
  | upstreamConnected | upstreamFailed | upstreamBytes | upstreamClosed =>
      rcases (relayed_of_step (by simp) hstep).connection with hkept | hreset
      · rw [Blocked, hkept]
        exact hblocked
      · rw [Blocked, hreset]
        exact ⟨rfl, hblocked.2⟩

/-- Where headers are expected, enough CRLFs complete a request. -/
theorem exists_callsOnRequest (env : Environment) (session : Session)
    (hstate : session.connection.context.state = .kExpectHeaders) :
    ∃ later session', runFrom (Session.step env) session later = .ret session' ∧
      CallsOnRequest session' [CR, LF] := by
  induction hlength : session.connection.input.length using Nat.strong_induction_on
    generalizing session with
  | _ bound ih =>
      obtain ⟨parsed, hparse, hok | ⟨hverdict, hstate', hshort⟩⟩ :=
        parseRequest_append_crlf hstate session.connection.input
      · exact ⟨[], session, rfl, parsed, hparse, hok⟩
      · have hstep := step_of_not_parseOK env .dropped hparse hverdict
        obtain ⟨later, session', hrun, hcalls⟩ :=
          ih _ (hlength ▸ hshort) { session with
            connection := ⟨parsed.context, parsed.buffer⟩ } hstate' rfl
        exact ⟨_ :: later, session', runFrom_cons_eq_ret_iff.mpr ⟨_, hstep, hrun⟩, hcalls⟩

end Rejections

/-- In every run of a new connection, a rejection is final, in that no later
chunk leads to a call of `onRequest` whatever happens in between, if and only
if the malformed line is the request line. -/
theorem rejection_final_iff (env : Environment) {events : List Event}
    {session : Session} {chunk : Bytes} (result : ConnectResult)
    (hrun : runFrom (Session.step env) {} events = .ret session)
    (hrejects : Rejects session chunk) :
    (∀ later session', runFrom (Session.step env) {}
        (events ++ .clientBytes chunk result :: later) = .ret session' →
      ∀ next, ¬ CallsOnRequest session' next) ↔ Blocked session chunk := by
  obtain ⟨parsed, hparse, hbad⟩ := hrejects
  have hstep := step_of_not_parseOK env result hparse (by simp [hbad])
  constructor
  · intro hfinal
    rcases rejection_cases hparse hbad with hblocked | hheaders
    · exact hblocked
    · obtain ⟨later, session', hlater, hcalls⟩ := exists_callsOnRequest env
        { session with connection := ⟨parsed.context, parsed.buffer⟩ } hheaders
      refine absurd hcalls (hfinal later session' ?_ _)
      rw [runFrom_append_of_ret hrun]
      exact runFrom_cons_eq_ret_iff.mpr ⟨_, hstep, hlater⟩
  · intro hblocked later session' hlater next
    rw [runFrom_append_of_ret hrun] at hlater
    obtain ⟨middle, hstep, hrest⟩ := runFrom_cons_eq_ret_iff.mp hlater
    have hfinal : Blocked session' [] :=
      invariant_of_run (fun session => Blocked session []) (fun _ _ _ => blocked_step)
        (blocked_of_clientBytes hblocked hstep) hrest
    refine not_callsOnRequest_of_blocked ⟨hfinal.1, ?_⟩
    have hbytes := hasBadRequestLine_append hfinal.2 next
    rwa [List.append_nil] at hbytes

/-- A head that is complete but for one malformed header line. -/
def headWithBadHeader : Bytes :=
  ascii "GET / HTTP/1.1\r\nbad\r\n"

/-- The blank line after the rejected header line completes a request. -/
theorem headWithBadHeader_not_final :
    Rejects {} headWithBadHeader ∧
      ∃ session, runFrom (Session.step { config := proxyConfig }) {}
          [.clientBytes headWithBadHeader .inProgress] = .ret session ∧
        CallsOnRequest session (ascii "\r\n") := by
  obtain ⟨parsed, hparse, hbad⟩ := Exec.exists_of_returns
    (show (parseRequest {} headWithBadHeader).returns
      (fun parsed => parsed.verdict = .kBadMessage) = true by decide)
  obtain ⟨session, hrun, hcalls⟩ := Exec.exists_of_returns
    (show (runFrom (Session.step { config := proxyConfig }) {}
      [.clientBytes headWithBadHeader .inProgress]).returns
      (fun session => (parseRequest session.connection.context
        (session.connection.input ++ ascii "\r\n")).returns
        (fun parsed => parsed.verdict = .kParseOK)) = true by decide)
  obtain ⟨parsed', hparse', hok⟩ := Exec.exists_of_returns hcalls
  exact ⟨⟨parsed, hparse, of_decide_eq_true hbad⟩, session, hrun, parsed', hparse',
    of_decide_eq_true hok⟩

theorem unknownRequestLine_final :
    Rejects {} (ascii "bad\r\n") ∧
      ∀ later session, runFrom (Session.step { config := proxyConfig }) {}
          (.clientBytes (ascii "bad\r\n") .inProgress :: later) = .ret session →
        ∀ next, ¬ CallsOnRequest session next := by
  have hbytes : HasBadRequestLine (ascii "bad\r\n") := by
    refine ⟨ascii "bad", [], rfl, by decide, ?_⟩
    rintro ⟨name, target, version, hline, _⟩
    have hspace : SP ∈ ascii "bad" := by simp [hline]
    revert hspace
    decide
  obtain ⟨request, hparse⟩ := parseRequest_of_hasBadRequestLine hbytes {}
  have hrejects : Rejects {} (ascii "bad\r\n") := ⟨_, hparse, rfl⟩
  refine ⟨hrejects, fun later session hrun => ?_⟩
  have hstart : runFrom (Session.step { config := proxyConfig }) {} [] = .ret {} := rfl
  exact (rejection_final_iff { config := proxyConfig } .inProgress hstart hrejects).mpr
    ⟨rfl, hbytes⟩ later session hrun

/-! ## The assertion in `setMethod` -/

/-- No chunk makes `setMethod` find the method set. -/
def AssertionHolds (session : Session) : Prop :=
  ∀ chunk, parseRequest session.connection.context
    (session.connection.input ++ chunk) ≠ .fault .methodAssertion

/-- The event does not present a line that names a method and is not a request
line where a request line is expected. -/
def KeepsMethodUnset (session : Session) (event : Event) : Prop :=
  ∀ chunk result, event = .clientBytes chunk result →
    session.connection.context.state = .kExpectRequestLine →
    ¬ AbandonsMethod (session.connection.input ++ chunk)

section Assertion

variable {env : Environment} {session session' : Session}

theorem methodFree_of_relayed (hrelayed : Relayed session session')
    (hfree : MethodFree session.connection.context) :
    MethodFree session'.connection.context := by
  rcases hrelayed.connection with hkept | hreset
  · rwa [hkept]
  · rw [hreset]
    exact methodFree_reset _

theorem methodFree_of_dispatch {parsed : RequestParse} {reaction : Reaction}
    {connection : Connection} (hstate : parsed.context.state = .kGotAll)
    (hdispatch : dispatch env parsed = .ret (reaction, connection)) :
    MethodFree connection.context := by
  obtain ⟨handled, _, hret⟩ := Exec.bind_eq_ret_iff.mp hdispatch
  split_ifs at hret
  · cases hret
    intro hexpects
    simp [hstate] at hexpects
  · cases hret
    exact methodFree_reset _

theorem methodFree_of_onMessage {connection connection' : Connection} {chunk : Bytes}
    {reaction : Reaction} (hfree : MethodFree connection.context)
    (hbytes : connection.context.state = .kExpectRequestLine →
      ¬ AbandonsMethod (connection.input ++ chunk))
    (hmessage : onMessage env connection chunk = .ret (reaction, connection')) :
    MethodFree connection'.context := by
  obtain ⟨parsed, hparse, hreact⟩ := Exec.bind_eq_ret_iff.mp hmessage
  have hparsed := methodFree_of_parseRequest hfree hbytes hparse
  rw [react] at hreact
  split at hreact
  · cases hreact
    exact hparsed
  · rename_i hok
    exact methodFree_of_dispatch ((verdict_iff_gotAll hparse).mp hok) hreact
  · cases hreact
    exact hparsed

/-- A step that meets the condition leaves the method unset. -/
theorem methodFree_step {event : Event} (hfree : MethodFree session.connection.context)
    (hevent : KeepsMethodUnset session event)
    (hstep : session.step env event = .ret session') :
    MethodFree session'.connection.context := by
  cases event with
  | clientBytes chunk result =>
      have hbytes := hevent chunk result rfl
      obtain ⟨reaction, connection, hmessage, ⟨_, rfl⟩ | ⟨_, hrelayed⟩⟩ :=
        onClientBytes_cases hstep
      · exact methodFree_of_onMessage hfree hbytes hmessage
      · exact methodFree_of_relayed hrelayed
          (methodFree_of_onMessage hfree hbytes hmessage)
  | upstreamConnected | upstreamFailed | upstreamBytes | upstreamClosed =>
      exact methodFree_of_relayed (relayed_of_step (by simp) hstep) hfree

theorem assertionHolds_of_methodFree (hfree : MethodFree session.connection.context) :
    AssertionHolds session := by
  intro chunk hfault
  obtain ⟨parsed, hparse⟩ :=
    exists_parseRequest_eq_ret hfree (session.connection.input ++ chunk)
  simp [hparse] at hfault

/-- A line that names a method and is not a request line is rejected; every
chunk that follows it brings the server down. -/
theorem exists_step_not_assertionHolds {event : Event}
    (hfree : MethodFree session.connection.context)
    (hevent : ¬ KeepsMethodUnset session event) :
    ∃ session', session.step env event = .ret session' ∧ ¬ AssertionHolds session' := by
  simp only [KeepsMethodUnset, not_forall, not_not] at hevent
  obtain ⟨chunk, result, rfl, hstate, line, rest, hbytes, hline, hnames, hbad⟩ := hevent
  obtain ⟨request, hparse, hmethod⟩ :=
    parseRequest_badRequestLine hstate (hfree hstate) hline hbad rest
  rw [← hbytes] at hparse
  refine ⟨_, step_of_not_parseOK env result hparse (by simp), fun hholds => ?_⟩
  apply hholds [LF]
  have hset : request.method ≠ .kInvalid := fun hinvalid => hmethod.mp hinvalid hnames
  simp only [hbytes, List.append_assoc, List.cons_append]
  exact parseRequest_of_set rfl hset hline hnames.space_mem _

end Assertion

/-- In every run of a new connection, no chunk that may come next fails the
assertion of `setMethod` in any state reached, if and only if no step of the
run presents a line that names a method and is not a request line where a
request line is expected. -/
theorem assertionHolds_iff (env : Environment) (events : List Event) :
    (∀ session, Reached (Session.step env) {} events session → AssertionHolds session) ↔
      Meets (Session.step env) KeepsMethodUnset {} events :=
  safe_iff_meets (fun session => MethodFree session.connection.context)
    (fun _ _ _ => methodFree_step) (fun _ => assertionHolds_of_methodFree)
    (fun _ _ => exists_step_not_assertionHolds) methodFree_new

def shortRequestLine : List Event :=
  [.clientBytes (ascii "GET /\r\n") .inProgress, .clientBytes (ascii "\n") .inProgress]

theorem shortRequestLine_aborts :
    runFrom (Session.step { config := proxyConfig }) {} shortRequestLine =
      .fault .methodAssertion := by
  decide

end Cuber.Malformed
