import Cuber.Server.PostBody

/-!
# Delivery of a request in chunks

A connection in the middle of a request behaves like one that was reset and
has all the bytes received since then still in front of it.  `Pending` states
this, and turns questions about the parser state between two chunks into
questions about byte strings.

With it the deliveries of a POST request in one chunk and in several are
compared: `post_delivery_iff` says for which partitions the outcomes agree.
-/

namespace Cuber.Delivery

open Cuber.Buffer
open Cuber.Chunking
open Cuber.Config
open Cuber.Context
open Cuber.Execution
open Cuber.Grammar
open Cuber.Handlers
open Cuber.PostBody
open Cuber.Request
open Cuber.Server
open Cuber.Text

variable (env : Environment)

/-! ## Bytes that are still to be parsed -/

/-- The connection behaves like one that was reset and has yet to parse
`bytes`. -/
def Pending (connection : Connection) (bytes : Bytes) : Prop :=
  ∃ old : HttpContext, ∀ chunk,
    parseRequest connection.context (connection.input ++ chunk) =
      parseRequest old.reset (bytes ++ chunk)

theorem pending_reset (old : HttpContext) (input : Bytes) :
    Pending ⟨old.reset, input⟩ input :=
  ⟨old, fun _ => rfl⟩

theorem awaitsMore_of_verdict {old : HttpContext} {bytes : Bytes}
    {parsed : RequestParse} (hparse : parseRequest old.reset bytes = .ret parsed)
    (hagain : parsed.verdict = .kParseAgain) : AwaitsMore bytes := by
  obtain ⟨verdict, context, unread⟩ := parsed
  cases hagain
  exact (awaitsMore_iff old bytes).mpr ⟨context, unread, hparse⟩

theorem awaitsMore_of_append {bytes more : Bytes}
    (hawaits : AwaitsMore (bytes ++ more)) : AwaitsMore bytes := by
  obtain ⟨parsed, hparse⟩ :=
    exists_parseRequest_eq_ret (methodFree_reset {}) bytes
  obtain ⟨context, unread, hwhole⟩ := (awaitsMore_iff {} _).mp hawaits
  rw [parseRequest_append, hparse, Exec.ret_bind, resumeParse] at hwhole
  split_ifs at hwhole with hagain
  · exact awaitsMore_of_verdict hparse hagain
  · simp only [Exec.ret.injEq, RequestParse.mk.injEq] at hwhole
    exact absurd hwhole.1 hagain

/-- What a head that is accepted needs before its last byte is more bytes. -/
theorem awaitsMore_of_accepted {request : HttpRequest} {bytes more : Bytes}
    (haccepted : parseRequest {} (bytes ++ more) =
      .ret ⟨.kParseOK, ⟨.kGotAll, request⟩, []⟩)
    (hmore : more ≠ []) : AwaitsMore bytes := by
  obtain ⟨parsed, hparse⟩ :=
    exists_parseRequest_eq_ret (methodFree_reset {}) bytes
  have hparse' : parseRequest {} bytes = .ret parsed := hparse
  rw [parseRequest_append, hparse', Exec.ret_bind, resumeParse] at haccepted
  split_ifs at haccepted with hagain
  · exact awaitsMore_of_verdict hparse hagain
  · simp only [Exec.ret.injEq, RequestParse.mk.injEq] at haccepted
    exact absurd (List.append_eq_nil_iff.mp haccepted.2.2).2 hmore

section Pending

variable {env} {connection : Connection} {bytes chunk : Bytes}

theorem onMessage_of_awaitsMore (env : Environment)
    (hpending : Pending connection bytes)
    (hawaits : AwaitsMore (bytes ++ chunk)) :
    ∃ connection', Pending connection' (bytes ++ chunk) ∧
      onMessage env connection chunk = .ret (.waiting, connection') := by
  obtain ⟨old, hparse⟩ := hpending
  obtain ⟨context, unread, hagain⟩ := (awaitsMore_iff old _).mp hawaits
  refine ⟨⟨context, unread⟩, ⟨old, fun more => ?_⟩, ?_⟩
  · rw [parseRequest_append old.reset, hagain]
    rfl
  · rw [onMessage, hparse, hagain]
    rfl

theorem onMessage_of_head (hpending : Pending connection bytes)
    {head rest : Bytes} {request : HttpRequest}
    (haccepted : parseRequest {} head =
      .ret ⟨.kParseOK, ⟨.kGotAll, request⟩, []⟩)
    (hbytes : bytes ++ chunk = head ++ rest) :
    onMessage env connection chunk =
      dispatch env ⟨.kParseOK, ⟨.kGotAll, request⟩, rest⟩ := by
  obtain ⟨old, hparse⟩ := hpending
  rw [onMessage, hparse, hbytes, parseRequest_of_accepted haccepted]
  rfl

end Pending

/-- The bytes received of a stream that starts with `text` contain all of
`text` or lack an end of it. -/
theorem complete_or_missing {received future text texts : Bytes}
    (hstream : received ++ future = text ++ texts) :
    (∃ rest, received = text ++ rest ∧ rest ++ future = texts) ∨
      ∃ missing, missing ≠ [] ∧ text = received ++ missing := by
  rcases List.append_eq_append_iff.mp hstream with
    ⟨missing, htext, hfuture⟩ | ⟨rest, hreceived, htexts⟩
  · by_cases hmissing : missing = []
    · subst hmissing
      rw [List.append_nil] at htext
      exact Or.inl ⟨[], by simp [htext], by simpa using hfuture⟩
    · exact Or.inr ⟨missing, hmissing, htext⟩
  · exact Or.inl ⟨rest, hreceived, htexts.symm⟩

/-! ## What can be observed of a delivery -/

/-- The outcome of a request, or of a message that is not one. -/
inductive Outcome where
  | rejected
  | answered (decisions : List Decision) (status : ℤ)
  | forwarded (decisions : List Decision)
  deriving DecidableEq

def outcome : Reaction → Option Outcome
  | .waiting => none
  | .rejected _ => some .rejected
  | .answered _ exchange =>
      some (.answered exchange.log exchange.response.statusCode)
  | .forwarded _ exchange => some (.forwarded exchange.log)

/-- Whether the server is ready for further bytes, and if not why. -/
inductive Fate where
  | ready
  | hung
  | died (cause : Fault)
  deriving DecidableEq

def fate : Ending → Fate
  | .idle _ => .ready
  | .hung => .hung
  | .died cause => .died cause

/-- The outcomes of a delivery in their order, and the fate of the server. -/
def observe (delivery : Delivery) : List Outcome × Fate :=
  (delivery.reactions.filterMap outcome, fate delivery.ending)

section Observe

variable {env} {connection connection' : Connection} {chunk : Bytes}
  {chunks : List Bytes}

theorem observe_nil : observe (deliver env connection []) = ([], .ready) := rfl

theorem observe_of_waiting
    (hmessage : onMessage env connection chunk = .ret (.waiting, connection')) :
    observe (deliver env connection (chunk :: chunks)) =
      observe (deliver env connection' chunks) := by
  simp only [observe, deliver, hmessage]
  rfl

theorem observe_of_ret {reaction : Reaction}
    (hmessage : onMessage env connection chunk = .ret (reaction, connection')) :
    observe (deliver env connection (chunk :: chunks)) =
      ((outcome reaction).toList ++ (observe (deliver env connection' chunks)).1,
        (observe (deliver env connection' chunks)).2) := by
  cases hreaction : outcome reaction <;>
    simp [observe, deliver, hmessage, hreaction]

theorem observe_of_hang (hmessage : onMessage env connection chunk = .hang) :
    observe (deliver env connection (chunk :: chunks)) = ([], .hung) := by
  simp [observe, deliver, hmessage, fate]

theorem observe_of_fault {cause : Fault}
    (hmessage : onMessage env connection chunk = .fault cause) :
    observe (deliver env connection (chunk :: chunks)) = ([], .died cause) := by
  simp [observe, deliver, hmessage, fate]

theorem observe_singleton_congr {bytes : Bytes}
    (hmessage : onMessage env connection chunk = onMessage env connection' bytes) :
    observe (deliver env connection [chunk]) =
      observe (deliver env connection' [bytes]) := by
  rw [deliver, deliver, hmessage]

end Observe

section Waiting

variable {connection : Connection} {bytes : Bytes} {chunks : List Bytes}

/-- While the bytes received call for more, nothing is observed. -/
theorem observe_append_of_awaitsMore (hpending : Pending connection bytes)
    (hawaits : AwaitsMore (bytes ++ chunks.flatten)) :
    ∃ connection', Pending connection' (bytes ++ chunks.flatten) ∧
      ∀ after, observe (deliver env connection (chunks ++ after)) =
        observe (deliver env connection' after) := by
  induction chunks generalizing connection bytes with
  | nil =>
      rw [List.flatten_nil, List.append_nil]
      exact ⟨connection, hpending, fun _ => rfl⟩
  | cons chunk chunks ih =>
      rw [List.flatten_cons, ← List.append_assoc] at hawaits ⊢
      obtain ⟨middle, hmiddle, hmessage⟩ :=
        onMessage_of_awaitsMore env hpending (awaitsMore_of_append hawaits)
      obtain ⟨connection', hpending', hobserve⟩ := ih hmiddle hawaits
      refine ⟨connection', hpending', fun after => ?_⟩
      rw [List.cons_append, observe_of_waiting hmessage, hobserve]

theorem outcome_isSome_of_dispatch {parsed : RequestParse} {reaction : Reaction}
    {connection' : Connection}
    (hdispatch : dispatch env parsed = .ret (reaction, connection')) :
    (outcome reaction).isSome := by
  rw [dispatch] at hdispatch
  obtain ⟨handled, _, hret⟩ := Exec.bind_eq_ret_iff.mp hdispatch
  split_ifs at hret <;> cases hret <;> rfl

/-- A message that does not call for more bytes is rejected or dispatched. -/
theorem onMessage_of_not_awaitsMore (hpending : Pending connection bytes)
    {chunk : Bytes} (hawaits : ¬ AwaitsMore (bytes ++ chunk)) :
    (∃ connection', onMessage env connection chunk =
        .ret (.rejected badMessageResponse, connection')) ∨
      ∃ parsed, onMessage env connection chunk = dispatch env parsed := by
  obtain ⟨old, hparse⟩ := hpending
  rw [onMessage, hparse]
  rcases head_cases (bytes ++ chunk) with
    hbytes | ⟨rest, hbytes⟩ | hbytes | ⟨rest, hbytes⟩
  · exact absurd hbytes hawaits
  · obtain ⟨request, _, hok⟩ := parseRequest_of_startsWithHead hbytes
    exact Or.inr ⟨_, by rw [hok old]; rfl⟩
  · obtain ⟨request, hbad⟩ := parseRequest_of_hasBadRequestLine hbytes old
    exact Or.inl ⟨_, by rw [hbad]; rfl⟩
  · obtain ⟨request, hbad⟩ := parseRequest_of_hasBadHeader hbytes old
    exact Or.inl ⟨_, by rw [hbad]; rfl⟩

/-- Bytes that end a head have an effect. -/
theorem observe_ne_ready (hpending : Pending connection bytes) {chunk : Bytes}
    (hawaits : ¬ AwaitsMore (bytes ++ chunk)) :
    observe (deliver env connection (chunk :: chunks)) ≠ ([], .ready) := by
  rcases onMessage_of_not_awaitsMore env hpending hawaits with
    ⟨connection', hmessage⟩ | ⟨parsed, hmessage⟩
  · simp [observe_of_ret hmessage, outcome]
  · cases hdispatch : dispatch env parsed with
    | ret result =>
        obtain ⟨value, hvalue⟩ :=
          Option.isSome_iff_exists.mp (outcome_isSome_of_dispatch env hdispatch)
        simp [observe_of_ret (hmessage.trans hdispatch), hvalue]
    | hang => simp [observe_of_hang (hmessage.trans hdispatch)]
    | fault cause => simp [observe_of_fault (hmessage.trans hdispatch)]

/-- Chunks have no effect just if they leave a head unfinished. -/
theorem observe_eq_ready_iff (hpending : Pending connection bytes)
    (hchunks : chunks ≠ []) :
    observe (deliver env connection chunks) = ([], .ready) ↔
      AwaitsMore (bytes ++ chunks.flatten) := by
  constructor
  · intro hobserve
    induction chunks generalizing connection bytes with
    | nil => exact absurd rfl hchunks
    | cons chunk chunks ih =>
        by_cases hawaits : AwaitsMore (bytes ++ chunk)
        · rw [List.flatten_cons, ← List.append_assoc]
          obtain ⟨middle, hmiddle, hmessage⟩ :=
            onMessage_of_awaitsMore env hpending hawaits
          rw [observe_of_waiting hmessage] at hobserve
          by_cases hlast : chunks = []
          · rw [hlast, List.flatten_nil, List.append_nil]
            exact hawaits
          · exact ih hmiddle hlast hobserve
        · exact absurd hobserve (observe_ne_ready env hpending hawaits)
  · intro hawaits
    obtain ⟨connection', _, hobserve⟩ :=
      observe_append_of_awaitsMore env hpending hawaits
    have hall := hobserve []
    rwa [List.append_nil, observe_nil] at hall

end Waiting

/-- The chunk that brings a byte of a given position. -/
theorem exists_completing_chunk {chunks : List Bytes} {position : ℕ}
    (hpos : 0 < position) (hlength : position ≤ chunks.flatten.length) :
    ∃ before chunk after, chunks = before ++ chunk :: after ∧
      before.flatten.length < position ∧
      position ≤ before.flatten.length + chunk.length := by
  induction chunks generalizing position with
  | nil =>
      simp at hlength
      omega
  | cons chunk chunks ih =>
      by_cases hfirst : position ≤ chunk.length
      · exact ⟨[], chunk, chunks, rfl, by simpa using hpos, by simpa using hfirst⟩
      · rw [List.flatten_cons, List.length_append] at hlength
        obtain ⟨before, last, after, rfl, hbefore, hafter⟩ :=
          @ih (position - chunk.length) (by omega) (by omega)
        refine ⟨chunk :: before, last, after, rfl, ?_, ?_⟩ <;>
          rw [List.flatten_cons, List.length_append] <;> omega

/-! ## A POST request in chunks -/

section Post

variable (message : PostMessage)

/-- A chunk ends after the head and before the end of the body. -/
def SplitsBody (chunks : List Bytes) : Prop :=
  ∃ before after, chunks = before ++ after ∧
    message.head.length ≤ before.flatten.length ∧
    before.flatten.length < message.head.length + message.body.length

theorem head_ne_nil : message.head ≠ [] := by
  intro hnil
  have haccepted := message.accepted
  rw [hnil, parseRequest_unfinished (Or.inl rfl) isLine_nil] at haccepted
  cases haccepted

/-- The chunk that brings the last byte of the head, with the part of the body
that comes along. -/
structure HeadChunk (chunks : List Bytes) where
  before : List Bytes
  chunk : Bytes
  after : List Bytes
  received : Bytes
  chunks_eq : chunks = before ++ chunk :: after
  before_lt : before.flatten.length < message.head.length
  received_eq : before.flatten ++ chunk = message.head ++ received
  body_eq : received ++ after.flatten = message.body

theorem nonempty_headChunk {chunks : List Bytes}
    (hparts : chunks.flatten = message.head ++ message.body) :
    Nonempty (HeadChunk message chunks) := by
  have hpos : 0 < message.head.length :=
    List.length_pos_of_ne_nil (head_ne_nil message)
  have hlength : message.head.length ≤ chunks.flatten.length := by simp [hparts]
  obtain ⟨before, chunk, after, rfl, hbefore, hchunk⟩ :=
    exists_completing_chunk hpos hlength
  rw [List.flatten_append, List.flatten_cons, ← List.append_assoc] at hparts
  rcases complete_or_missing hparts with
    ⟨received, hreceived, hbody⟩ | ⟨missing, hmissing, hhead⟩
  · exact ⟨before, chunk, after, received, rfl, hbefore, hreceived, hbody⟩
  · have hpos := List.length_pos_of_ne_nil hmissing
    have hlength := congrArg List.length hhead
    simp only [List.length_append] at hlength
    omega

namespace HeadChunk

variable {message} {chunks : List Bytes} (split : HeadChunk message chunks)

theorem awaitsMore : AwaitsMore split.before.flatten := by
  rcases complete_or_missing split.received_eq with
    ⟨rest, hrest, _⟩ | ⟨missing, hmissing, hhead⟩
  · have hlt := split.before_lt
    simp [hrest] at hlt
  · have haccepted := message.accepted
    rw [hhead] at haccepted
    exact awaitsMore_of_accepted haccepted hmissing

theorem received_lt (hchunks : ∀ chunk ∈ chunks, chunk ≠ [])
    (hafter : split.after ≠ []) :
    split.received.length < message.body.length := by
  obtain ⟨next, rest, hnext⟩ := List.exists_cons_of_ne_nil hafter
  have hmem : next ∈ split.before ++ split.chunk :: split.after := by simp [hnext]
  rw [← split.chunks_eq] at hmem
  have hpos : 0 < next.length := List.length_pos_of_ne_nil (hchunks next hmem)
  have hbody := congrArg List.length split.body_eq
  rw [hnext, List.flatten_cons, List.length_append, List.length_append] at hbody
  omega

/-- The body is split exactly when chunks follow the one that completes the
head. -/
theorem splitsBody_iff (hchunks : ∀ chunk ∈ chunks, chunk ≠ []) :
    SplitsBody message chunks ↔ split.after ≠ [] := by
  have hreceived := congrArg List.length split.received_eq
  have hbody := congrArg List.length split.body_eq
  have hlt := split.before_lt
  have hflatten := split.chunks_eq
  simp only [List.length_append] at hreceived hbody
  constructor
  · rintro ⟨before, after, heq, hle, hshort⟩ hnil
    rw [hnil, List.flatten_nil, List.length_nil] at hbody
    have hbegins : before <+: split.before ++ [split.chunk] :=
      ⟨after, (heq.symm.trans hflatten).trans (by rw [hnil])⟩
    rcases List.prefix_concat_iff.mp hbegins with rfl | ⟨rest, hrest⟩
    · simp only [List.flatten_append, List.length_append, List.flatten_cons,
        List.flatten_nil, List.append_nil] at hshort
      omega
    · rw [← hrest, List.flatten_append, List.length_append] at hlt
      omega
  · intro hafter
    have hshort := split.received_lt hchunks hafter
    refine ⟨split.before ++ [split.chunk], split.after, by simp [hflatten], ?_, ?_⟩ <;>
      simp only [List.flatten_append, List.length_append, List.flatten_cons,
        List.flatten_nil, List.append_nil] <;> omega

/-- Nothing is observed before the head is complete. -/
theorem observe_eq (old : HttpContext) :
    ∃ connection,
      onMessage env connection split.chunk =
        dispatch env ⟨.kParseOK, ⟨.kGotAll, message.request⟩, split.received⟩ ∧
      observe (deliver env ⟨old.reset, []⟩ chunks) =
        observe (deliver env connection (split.chunk :: split.after)) := by
  obtain ⟨connection, hpending, hobserve⟩ :=
    observe_append_of_awaitsMore env (pending_reset old []) split.awaitsMore
  exact ⟨connection, onMessage_of_head hpending message.accepted split.received_eq,
    (congrArg (fun parts => observe (deliver env _ parts)) split.chunks_eq).trans
      (hobserve _)⟩

end HeadChunk

/-- The outcomes of handling a POST request from a part of its body, when the
body is read in full. -/
theorem observe_ne_of_readsBody (hpath : message.request.path ≠ [])
    (hreads : ReadsBody env message.request) {whole partly : Connection}
    {bytes chunk received : Bytes} {chunks : List Bytes}
    (hwhole : onMessage env whole bytes =
      dispatch env ⟨.kParseOK, ⟨.kGotAll, message.request⟩, message.body⟩)
    (hpartly : onMessage env partly chunk =
      dispatch env ⟨.kParseOK, ⟨.kGotAll, message.request⟩, received⟩)
    (hreceived : received.length < message.body.length) :
    observe (deliver env partly (chunk :: chunks)) ≠
      observe (deliver env whole [bytes]) := by
  have hincomplete : received.length < announcedLength message.request := by
    rw [announcedLength, message.length]
    exact hreceived
  obtain ⟨answer, hlog, hanswer⟩ := onRequest_of_incomplete message.post
    message.decimal hpath hreads.2 hincomplete
  rw [dispatch_of_answered hanswer] at hpartly
  rw [observe_of_ret hpartly]
  obtain ⟨location, ⟨upstream, request, hrequest⟩ |
      ⟨read, _, hread, _, _, hrequest⟩ | hrequest⟩ :=
    onRequest_of_readsBody message.post message.decimal hpath message.position
      hreads message.length []
  · rw [List.append_nil] at hrequest
    rw [dispatch_of_forwarded hrequest] at hwhole
    simp [observe_of_ret hwhole, outcome]
  · rw [List.append_nil] at hrequest
    rw [dispatch_of_answered hrequest] at hwhole
    rw [observe_of_ret hwhole]
    intro hequal
    -- the answer to the whole request has read a body, the other one has not
    have hlogs : answer.log = read.log := by
      simp only [outcome, Option.toList_some, List.singleton_append, Prod.mk.injEq,
        List.cons.injEq, Outcome.answered.injEq, finish_log] at hequal
      exact hequal.1.1.1
    obtain ⟨other, hother⟩ := hlog (.bodyRead message.body) (by simp [hlogs, hread])
    cases hother
  · rw [List.append_nil] at hrequest
    have hfault : onMessage env whole bytes = .fault .uncaughtException := by
      rw [hwhole, dispatch, hrequest]
      rfl
    simp [observe_of_fault hfault, outcome]

/-- When the body is not read, its remaining bytes are parsed as if a new
message began with it. -/
theorem observe_eq_iff_of_not_readsBody (hpath : message.request.path ≠ [])
    (hreads : ¬ ReadsBody env message.request) {whole partly : Connection}
    {bytes chunk received : Bytes} {chunks : List Bytes} (hchunks : chunks ≠ [])
    (hwhole : onMessage env whole bytes =
      dispatch env ⟨.kParseOK, ⟨.kGotAll, message.request⟩, message.body⟩)
    (hpartly : onMessage env partly chunk =
      dispatch env ⟨.kParseOK, ⟨.kGotAll, message.request⟩, received⟩)
    (hbody : received ++ chunks.flatten = message.body) :
    observe (deliver env partly (chunk :: chunks)) =
        observe (deliver env whole [bytes]) ↔ AwaitsMore message.body := by
  obtain ⟨answer, _, _, hanswer⟩ := onRequest_of_not_readsBody message.post
    message.decimal hpath message.position hreads
  rw [dispatch_of_answered (hanswer _)] at hwhole hpartly
  rw [observe_of_ret hwhole, observe_of_ret hpartly, observe_nil, ← hbody,
    ← observe_eq_ready_iff env
      (pending_reset ⟨.kGotAll, answer.request⟩ received) hchunks]
  simp [outcome, Prod.ext_iff]

/-- Delivery of a POST request in non-empty chunks has the outcomes of its
delivery in one chunk if and only if no chunk ends between its head and the
last byte of its body, or the request has no path and is tried for ever, or
its body is not read and does not amount to a message of its own. -/
theorem post_delivery_iff (old : HttpContext) {chunks : List Bytes}
    (hparts : chunks.flatten = message.head ++ message.body)
    (hchunks : ∀ chunk ∈ chunks, chunk ≠ []) :
    observe (deliver env ⟨old.reset, []⟩ chunks) =
        observe (deliver env ⟨old.reset, []⟩ [message.head ++ message.body]) ↔
      ¬ SplitsBody message chunks ∨ message.request.path = [] ∨
        (¬ ReadsBody env message.request ∧ AwaitsMore message.body) := by
  obtain ⟨split⟩ := nonempty_headChunk message hparts
  obtain ⟨connection, hmessage, hobserve⟩ := split.observe_eq env old
  have hwhole : onMessage env ⟨old.reset, []⟩ (message.head ++ message.body) =
      dispatch env ⟨.kParseOK, ⟨.kGotAll, message.request⟩, message.body⟩ :=
    message.onMessage_eq env old (List.nil_append _)
  have hbody := split.body_eq
  rw [hobserve, split.splitsBody_iff hchunks, not_not]
  by_cases hafter : split.after = []
  · rw [hafter, List.flatten_nil, List.append_nil] at hbody
    rw [hbody] at hmessage
    rw [hafter]
    simpa using observe_singleton_congr (hmessage.trans hwhole.symm)
  by_cases hpath : message.request.path = []
  · have hhang : ∀ input, dispatch env ⟨.kParseOK, ⟨.kGotAll, message.request⟩, input⟩ =
        .hang := by
      intro input
      simp [dispatch, onRequest_of_path_nil env hpath]
    simp [hpath, observe_of_hang (hmessage.trans (hhang _)),
      observe_of_hang (hwhole.trans (hhang _))]
  by_cases hreads : ReadsBody env message.request
  · have hreceived := split.received_lt hchunks hafter
    simp [hafter, hpath, hreads,
      observe_ne_of_readsBody env message hpath hreads hwhole hmessage hreceived]
  · simp [hafter, hpath, hreads, observe_eq_iff_of_not_readsBody env message hpath
      hreads hafter hwhole hmessage hbody]

end Post

/-- The same request is forwarded when it arrives in one chunk and answered
404 when its body arrives in a second one. -/
theorem smallPost_delivery_ne :
    observe (deliver { config := proxyConfig } {} [smallPost.head, smallPost.body]) ≠
      observe (deliver { config := proxyConfig } {}
        [smallPost.head ++ smallPost.body]) := by
  have hsplit : observe (deliver { config := proxyConfig } {}
      [smallPost.head, smallPost.body]) =
        ([.answered [.located (ascii "/")] 404], .ready) := by
    decide
  have hwhole : observe (deliver { config := proxyConfig } {}
      [smallPost.head ++ smallPost.body]) =
        ([.forwarded [.located (ascii "/"), .bodyRead (ascii "hi"),
          .proxied ⟨ascii "127.0.0.1", 8080⟩]], .ready) := by
    decide
  rw [hsplit, hwhole]
  decide

theorem smallPost_delivery_eq_of_no_location :
    observe (deliver {} {} [smallPost.head, smallPost.body]) =
      observe (deliver {} {} [smallPost.head ++ smallPost.body]) := by
  have hreads : ¬ ReadsBody {} smallPost.request := by
    rintro ⟨⟨location, hlocation, _⟩, _⟩
    simp at hlocation
  have hawaits : AwaitsMore smallPost.body := Or.inl (by decide)
  exact (post_delivery_iff {} smallPost {} (by simp) (by decide)).mpr
    (Or.inr (Or.inr ⟨hreads, hawaits⟩))

end Cuber.Delivery
