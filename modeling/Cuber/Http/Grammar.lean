import Cuber.Http.Chunking

/-!
# The grammar of request heads

A request head is a request line, header lines and a blank line.  This module
states the shape of each kind of line in its own terms and relates it to what
the parser does with it, so that later modules speak about the bytes a client
sends and not about intermediate states of the parser.

A connection that has been reset differs from a new one in the location
position only.  The results about whole heads hold for every connection that
was reset, and a new connection is one of them.
-/

namespace Cuber.Grammar

open Cuber.Buffer
open Cuber.Chunking
open Cuber.Context
open Cuber.Execution
open Cuber.Headers
open Cuber.Loop
open Cuber.Request
open Cuber.Text

/-! ## Request lines -/

def IsVersion (text : Bytes) : Prop :=
  text = ascii "HTTP/1.1" ∨ text = ascii "HTTP/1.0"

/-- The line starts with a known method and a space. -/
def NamesMethod (line : Bytes) : Prop :=
  ∃ name rest, line = name ++ SP :: rest ∧ SP ∉ name ∧
    methodOf name ≠ .kInvalid

/-- A method, a target and a version, separated by single spaces. -/
def IsRequestLine (line : Bytes) : Prop :=
  ∃ name target version, line = name ++ SP :: (target ++ SP :: version) ∧
    SP ∉ name ∧ SP ∉ target ∧ methodOf name ≠ .kInvalid ∧ IsVersion version

theorem IsRequestLine.namesMethod {line : Bytes} (hline : IsRequestLine line) :
    NamesMethod line := by
  obtain ⟨name, target, version, rfl, hname, _, hmethod, _⟩ := hline
  exact ⟨name, _, rfl, hname, hmethod⟩

theorem NamesMethod.space_mem {line : Bytes} (hline : NamesMethod line) :
    SP ∈ line := by
  obtain ⟨name, rest, rfl, _⟩ := hline
  simp

/-- The parser takes the versions of the grammar. -/
theorem parseVersion_fst_iff (request : HttpRequest) (text : Bytes) :
    (parseVersion request text).1 = true ↔ IsVersion text := by
  constructor
  · intro hparse
    simp only [parseVersion] at hparse
    split_ifs at hparse with hshape hone hzero
    · obtain ⟨front, rfl⟩ := List.getLast?_eq_some_iff.mp hone
      have hfront : front.length = 7 := by simpa using hshape.1
      have htake : front = ascii "HTTP/1." := by
        rw [← hshape.2, ← hfront, List.take_left]
      exact Or.inl (by rw [htake]; rfl)
    · obtain ⟨front, rfl⟩ := List.getLast?_eq_some_iff.mp hzero
      have hfront : front.length = 7 := by simpa using hshape.1
      have htake : front = ascii "HTTP/1." := by
        rw [← hshape.2, ← hfront, List.take_left]
      exact Or.inr (by rw [htake]; rfl)
  · rintro (rfl | rfl)
    · rfl
    · rfl

theorem parseVersion_method (request : HttpRequest) (text : Bytes) :
    (parseVersion request text).2.method = request.method := by
  simp only [parseVersion]
  split_ifs <;> rfl

theorem setTarget_method (request : HttpRequest) (target : Bytes) :
    (setTarget request target).method = request.method := by
  rw [setTarget]
  split <;> rfl

/-! How `parseRequestLine` cuts a line when the method is unset. -/

section Cuts

variable {request : HttpRequest} {line name afterMethod target : Bytes}

theorem parseRequestLine_of_no_space (hline : SP ∉ line) :
    parseRequestLine request line = .ret (false, request) := by
  simp [parseRequestLine, cut_eq_none_iff.mpr hline]

theorem parseRequestLine_of_unknown (hfree : request.method = .kInvalid)
    (hname : SP ∉ name) (hmethod : methodOf name = .kInvalid) :
    parseRequestLine request (name ++ SP :: afterMethod) =
      .ret (false, request) := by
  obtain ⟨method, _, _, _, _, _, _⟩ := request
  cases hfree
  simp [parseRequestLine, cut_append hname, HttpRequest.setMethod, hmethod]

theorem parseRequestLine_of_no_target (hfree : request.method = .kInvalid)
    (hname : SP ∉ name) (hmethod : methodOf name ≠ .kInvalid)
    (hspace : SP ∉ afterMethod) :
    parseRequestLine request (name ++ SP :: afterMethod) =
      .ret (false, { request with method := methodOf name }) := by
  simp [parseRequestLine, cut_append hname, HttpRequest.setMethod, hfree, hmethod,
    cut_eq_none_iff.mpr hspace]

theorem parseRequestLine_of_target (hfree : request.method = .kInvalid)
    (hname : SP ∉ name) (hmethod : methodOf name ≠ .kInvalid)
    (htarget : SP ∉ target) (version : Bytes) :
    parseRequestLine request (name ++ SP :: (target ++ SP :: version)) =
      .ret (parseVersion
        (setTarget { request with method := methodOf name } target) version) := by
  simp [parseRequestLine, cut_append hname, HttpRequest.setMethod, hfree, hmethod,
    cut_append htarget]

end Cuts

/-- A string is free of spaces or has a first one. -/
theorem space_cases (text : Bytes) :
    SP ∉ text ∨ ∃ before after, text = before ++ SP :: after ∧ SP ∉ before := by
  cases hcut : cut SP text with
  | none => exact Or.inl (cut_eq_none_iff.mp hcut)
  | some parts => exact Or.inr ⟨parts.1, parts.2, cut_eq_some hcut⟩

/-- The bytes around the first space are determined. -/
theorem space_unique {before before' after after' : Bytes}
    (htext : before ++ SP :: after = before' ++ SP :: after')
    (hbefore : SP ∉ before) (hbefore' : SP ∉ before') :
    before = before' ∧ after = after' := by
  have hcut := cut_append hbefore after
  rw [htext, cut_append hbefore'] at hcut
  simp only [Option.some.injEq, Prod.mk.injEq] at hcut
  exact ⟨hcut.1.symm, hcut.2.symm⟩

/-- With the method unset, `parseRequestLine` succeeds on exactly the request
lines, and sets the method on exactly the lines that name one. -/
theorem parseRequestLine_spec {request : HttpRequest}
    (hfree : request.method = .kInvalid) (line : Bytes) :
    ∃ success request',
      parseRequestLine request line = .ret (success, request') ∧
        (success = true ↔ IsRequestLine line) ∧
        (request'.method = .kInvalid ↔ ¬ NamesMethod line) := by
  rcases space_cases line with hspace | ⟨name, afterMethod, rfl, hname⟩
  · have hnames : ¬ NamesMethod line := by
      rintro ⟨name, rest, rfl, _⟩
      simp at hspace
    refine ⟨_, _, parseRequestLine_of_no_space hspace, ?_, by simp [hfree, hnames]⟩
    simpa using fun hline : IsRequestLine line => hnames hline.namesMethod
  by_cases hmethod : methodOf name = .kInvalid
  · have hnames : ¬ NamesMethod (name ++ SP :: afterMethod) := by
      rintro ⟨name', rest, hline, hname', hmethod'⟩
      obtain ⟨rfl, rfl⟩ := space_unique hline hname hname'
      exact hmethod' hmethod
    refine ⟨_, _, parseRequestLine_of_unknown hfree hname hmethod, ?_,
      by simp [hfree, hnames]⟩
    simpa using fun hline : IsRequestLine _ => hnames hline.namesMethod
  have hnames : NamesMethod (name ++ SP :: afterMethod) :=
    ⟨name, afterMethod, rfl, hname, hmethod⟩
  rcases space_cases afterMethod with hspace | ⟨target, version, rfl, htarget⟩
  · refine ⟨_, _, parseRequestLine_of_no_target hfree hname hmethod hspace, ?_,
      by simp [hmethod, hnames]⟩
    simp only [Bool.false_eq_true, false_iff]
    rintro ⟨name', target, version, hline, hname', _⟩
    obtain ⟨-, rfl⟩ := space_unique hline hname hname'
    simp at hspace
  · have hparse := parseRequestLine_of_target hfree hname hmethod htarget version
    refine ⟨(parseVersion _ version).1, (parseVersion _ version).2, hparse, ?_,
      by simp [parseVersion_method, setTarget_method, hmethod, hnames]⟩
    rw [parseVersion_fst_iff]
    constructor
    · intro hversion
      exact ⟨name, target, version, rfl, hname, htarget, hmethod, hversion⟩
    · rintro ⟨name', target', version', hline, hname', htarget', _, hversion⟩
      obtain ⟨-, hrest⟩ := space_unique hline hname hname'
      obtain ⟨-, rfl⟩ := space_unique hrest htarget htarget'
      exact hversion

/-! ## Verdicts and states -/

/-- The last iteration of a parse is the first one, or comes after the request
line. -/
theorem exists_last_of_parseRequest {context : HttpContext} {buffer : Bytes}
    {parsed : RequestParse} (hparse : parseRequest context buffer = .ret parsed) :
    ∃ last, parseRequestStep last = .done (.ret parsed) ∧
      (last = (context, buffer) ∨ last.1.state ≠ .kExpectRequestLine) := by
  obtain ⟨last, hlast, hfirst⟩ := parseLoop.exists_last (context, buffer)
  have hdone : parseRequestStep last = .done (parseRequest context buffer) := hlast
  refine ⟨last, hparse ▸ hdone, hfirst.imp id ?_⟩
  rintro ⟨previous, hnext⟩
  exact state_ne_of_step_next hnext

theorem verdict_iff_gotAll_of_done {before : HttpContext × Bytes}
    {parsed : RequestParse} (hstep : parseRequestStep before = .done (.ret parsed)) :
    parsed.verdict = .kParseOK ↔ parsed.context.state = .kGotAll := by
  cases iteration_of_step hstep with
  | unfinished hstate => rcases hstate with hstate | hstate <;> simp [hstate]
  | badRequestLine hstate | malformedHeader hstate | gotAll hstate => simp [hstate]

/-- A request is complete exactly when the parser says so. -/
theorem verdict_iff_gotAll {context : HttpContext} {buffer : Bytes}
    {parsed : RequestParse} (hparse : parseRequest context buffer = .ret parsed) :
    parsed.verdict = .kParseOK ↔ parsed.context.state = .kGotAll := by
  obtain ⟨last, hstep, _⟩ := exists_last_of_parseRequest hparse
  exact verdict_iff_gotAll_of_done hstep

/-! ## Header sections -/

section HeaderSections

variable {context : HttpContext} {lines : List Bytes} {line : Bytes}

def withLines (context : HttpContext) (lines : List Bytes) : HttpContext :=
  { context with
    request := { context.request with
      headers := storeLines context.request.headers lines } }

@[simp]
theorem withLines_state (context : HttpContext) (lines : List Bytes) :
    (withLines context lines).state = context.state := rfl

theorem parseRequest_headerLines (hstate : context.state = .kExpectHeaders)
    (hlines : ∀ line ∈ lines, IsHeaderLine line) (rest : Bytes) :
    parseRequest context (joinLines lines ++ rest) =
      parseRequest (withLines context lines) rest := by
  induction lines generalizing context with
  | nil => rfl
  | cons line lines ih =>
      have hheader := hlines line (by simp)
      rw [joinLines_cons_append,
        parseRequest_of_next (step_of_headerLine hstate hheader _),
        ih (by exact hstate) fun other hother => hlines other (by simp [hother])]
      rfl

theorem parseRequest_blankLine (hstate : context.state = .kExpectHeaders)
    (rest : Bytes) :
    parseRequest context (CR :: LF :: rest) =
      .ret ⟨.kParseOK, { context with state := .kGotAll }, rest⟩ := by
  rw [parseRequest_of_next (step_of_blankLine hstate rest),
    parseRequest_of_next (step_of_expectBody rfl _),
    parseRequest_of_done (step_of_gotAll rfl _)]

theorem parseRequest_malformedHeader (hstate : context.state = .kExpectHeaders)
    (hline : IsMalformedHeader line) (rest : Bytes) :
    parseRequest context (line ++ CR :: LF :: rest) =
      .ret ⟨.kBadMessage, context, rest⟩ :=
  parseRequest_of_done (step_of_malformedHeader hstate hline rest)

end HeaderSections

/-! ## Request heads on a connection that was reset -/

theorem setTarget_locationEndPos_irrel (request : HttpRequest) (pos : ℕ)
    (target : Bytes) :
    setTarget { request with locationEndPos := pos } target =
      setTarget request target := by
  rw [setTarget, setTarget]
  split <;> rfl

theorem setTarget_locationEndPos (request : HttpRequest) (target : Bytes) :
    (setTarget request target).locationEndPos =
      (setTarget request target).path.length := by
  rw [setTarget]
  split <;> rfl

theorem parseVersion_position {request : HttpRequest}
    (hpos : request.locationEndPos = request.path.length) (text : Bytes) :
    (parseVersion request text).2.locationEndPos =
      (parseVersion request text).2.path.length := by
  simp only [parseVersion]
  split_ifs <;> exact hpos

/-- A request line is read in the same way on every connection that was reset,
and leaves the location position at the end of the path. -/
theorem exists_parseRequestLine_swapWithNew {line : Bytes}
    (hline : IsRequestLine line) :
    ∃ request : HttpRequest, request.locationEndPos = request.path.length ∧
      ∀ old : HttpRequest,
        parseRequestLine old.swapWithNew line = .ret (true, request) := by
  obtain ⟨name, target, version, rfl, hname, htarget, hmethod, hversion⟩ := hline
  let named : HttpRequest := { method := methodOf name }
  refine ⟨(parseVersion (setTarget named target) version).2,
    parseVersion_position (setTarget_locationEndPos _ _) _, fun old => ?_⟩
  rw [parseRequestLine_of_target rfl hname hmethod htarget version]
  have hirrel := setTarget_locationEndPos_irrel named old.locationEndPos target
  have hsuccess := (parseVersion_fst_iff (setTarget named target) version).mpr hversion
  rw [show ({ old.swapWithNew with method := methodOf name } : HttpRequest) =
    { named with locationEndPos := old.locationEndPos } from rfl, hirrel, ← hsuccess]

def IsHeadStart : List Bytes → Prop
  | [] => False
  | line :: headers =>
      IsLine line ∧ IsRequestLine line ∧ ∀ header ∈ headers, IsHeaderLine header

/-- After the start of a head the parser expects headers, in a context that
depends on the lines read only. -/
theorem exists_context_of_isHeadStart {lines : List Bytes}
    (hstart : IsHeadStart lines) :
    ∃ context : HttpContext, context.state = .kExpectHeaders ∧
      context.request.locationEndPos = context.request.path.length ∧
      ∀ (old : HttpContext) (rest : Bytes),
        parseRequest old.reset (joinLines lines ++ rest) =
          parseRequest context rest := by
  cases lines with
  | nil => exact hstart.elim
  | cons line headers =>
      obtain ⟨hline, hrequest, hheaders⟩ := hstart
      obtain ⟨request, hpos, hparse⟩ := exists_parseRequestLine_swapWithNew hrequest
      refine ⟨withLines ⟨.kExpectHeaders, request⟩ headers, rfl, hpos,
        fun old rest => ?_⟩
      have hstep := step_of_requestLine
        (show old.reset.state = .kExpectRequestLine from rfl) hline
        (joinLines headers ++ rest)
      simp only [HttpContext.reset, hparse] at hstep
      rw [joinLines_cons_append, HttpContext.reset, parseRequest_of_next hstep,
        parseRequest_headerLines rfl hheaders]

/-- A line that is not a request line stays in the buffer, and the method is
set when the line names one. -/
theorem parseRequest_badRequestLine {context : HttpContext} {line : Bytes}
    (hstate : context.state = .kExpectRequestLine)
    (hfree : context.request.method = .kInvalid) (hline : IsLine line)
    (hbad : ¬ IsRequestLine line) (rest : Bytes) :
    ∃ request, parseRequest context (line ++ CR :: LF :: rest) =
        .ret ⟨.kBadMessage, ⟨.kExpectRequestLine, request⟩,
          line ++ CR :: LF :: rest⟩ ∧
      (request.method = .kInvalid ↔ ¬ NamesMethod line) := by
  obtain ⟨success, request, hparse, hsuccess, hmethod⟩ :=
    parseRequestLine_spec hfree line
  have hfailed : success = false := by
    rw [← Bool.not_eq_true, hsuccess]
    exact hbad
  subst hfailed
  have hstep := step_of_requestLine hstate hline rest
  rw [hparse] at hstep
  refine ⟨request, ?_, hmethod⟩
  rw [parseRequest_of_done hstep, hstate]

/-- More bytes are needed to tell whether the bytes form a request head. -/
def AwaitsMore (bytes : Bytes) : Prop :=
  IsLine bytes ∨
    ∃ lines rest, bytes = joinLines lines ++ rest ∧ IsHeadStart lines ∧ IsLine rest

/-- The bytes start with a request head, and `rest` follows it. -/
def StartsWithHead (bytes rest : Bytes) : Prop :=
  ∃ lines, bytes = joinLines lines ++ CR :: LF :: rest ∧ IsHeadStart lines

/-- The first line is finished and is not a request line. -/
def HasBadRequestLine (bytes : Bytes) : Prop :=
  ∃ line rest, bytes = line ++ CR :: LF :: rest ∧ IsLine line ∧ ¬ IsRequestLine line

/-- A line without a colon stands where a header is expected; `rest` follows
it. -/
def HasBadHeader (bytes rest : Bytes) : Prop :=
  ∃ lines line, bytes = joinLines lines ++ (line ++ CR :: LF :: rest) ∧
    IsHeadStart lines ∧ IsMalformedHeader line

/-- Bytes are an unfinished head, a head, or bad in one of two ways. -/
theorem head_cases (bytes : Bytes) :
    AwaitsMore bytes ∨ (∃ rest, StartsWithHead bytes rest) ∨
      HasBadRequestLine bytes ∨ ∃ rest, HasBadHeader bytes rest := by
  rcases line_cases bytes with hline | ⟨line, tail, rfl, hline⟩
  · exact Or.inl (Or.inl hline)
  by_cases hrequest : IsRequestLine line
  swap
  · exact Or.inr (Or.inr (Or.inl ⟨line, tail, rfl, hline, hrequest⟩))
  obtain ⟨headers, rest, rfl, hheaders, hrest⟩ := exists_headerSection tail
  have hstart : IsHeadStart (line :: headers) := ⟨hline, hrequest, hheaders⟩
  rw [← joinLines_cons_append]
  rcases hrest with hrest | ⟨tail, rfl⟩ | ⟨bad, tail, rfl, hbad⟩
  · exact Or.inl (Or.inr ⟨_, rest, rfl, hstart, hrest⟩)
  · exact Or.inr (Or.inl ⟨tail, _, rfl, hstart⟩)
  · exact Or.inr (Or.inr (Or.inr ⟨tail, _, bad, rfl, hstart, hbad⟩))

section Verdicts

variable {bytes rest : Bytes}

theorem parseRequest_of_awaitsMore (hbytes : AwaitsMore bytes)
    (old : HttpContext) :
    ∃ context unread, parseRequest old.reset bytes =
      .ret ⟨.kParseAgain, context, unread⟩ := by
  rcases hbytes with hline | ⟨lines, rest, rfl, hstart, hrest⟩
  · exact ⟨_, _, parseRequest_unfinished (Or.inl rfl) hline⟩
  · obtain ⟨context, hstate, _, hparse⟩ := exists_context_of_isHeadStart hstart
    exact ⟨_, _, (hparse old rest).trans
      (parseRequest_unfinished (Or.inr hstate) hrest)⟩

/-- A request head is accepted as the same request on every connection that
was reset. -/
theorem parseRequest_of_startsWithHead (hbytes : StartsWithHead bytes rest) :
    ∃ request : HttpRequest, request.locationEndPos = request.path.length ∧
      ∀ old : HttpContext, parseRequest old.reset bytes =
        .ret ⟨.kParseOK, ⟨.kGotAll, request⟩, rest⟩ := by
  obtain ⟨lines, rfl, hstart⟩ := hbytes
  obtain ⟨context, hstate, hpos, hparse⟩ := exists_context_of_isHeadStart hstart
  refine ⟨context.request, hpos, fun old => ?_⟩
  rw [hparse old, parseRequest_blankLine hstate]

theorem parseRequest_of_hasBadRequestLine (hbytes : HasBadRequestLine bytes)
    (old : HttpContext) :
    ∃ request, parseRequest old.reset bytes =
      .ret ⟨.kBadMessage, ⟨.kExpectRequestLine, request⟩, bytes⟩ := by
  obtain ⟨line, rest, rfl, hline, hbad⟩ := hbytes
  have hstate : old.reset.state = .kExpectRequestLine := rfl
  obtain ⟨request, hparse, _⟩ :=
    parseRequest_badRequestLine hstate rfl hline hbad rest
  exact ⟨request, hparse⟩

theorem parseRequest_of_hasBadHeader (hbytes : HasBadHeader bytes rest)
    (old : HttpContext) :
    ∃ request, parseRequest old.reset bytes =
      .ret ⟨.kBadMessage, ⟨.kExpectHeaders, request⟩, rest⟩ := by
  obtain ⟨lines, line, rfl, hstart, hline⟩ := hbytes
  obtain ⟨context, hstate, _, hparse⟩ := exists_context_of_isHeadStart hstart
  refine ⟨context.request, ?_⟩
  rw [hparse old, parseRequest_malformedHeader hstate hline]
  rw [← hstate]

end Verdicts

/-- The verdict decides which of the four shapes the bytes have. -/
theorem startsWithHead_of_parseRequest {old context : HttpContext}
    {bytes rest : Bytes}
    (hparse : parseRequest old.reset bytes = .ret ⟨.kParseOK, context, rest⟩) :
    StartsWithHead bytes rest := by
  rcases head_cases bytes with hbytes | ⟨rest', hbytes⟩ | hbytes | ⟨rest', hbytes⟩
  · obtain ⟨_, _, hagain⟩ := parseRequest_of_awaitsMore hbytes old
    simp [hagain] at hparse
  · obtain ⟨request, _, hok⟩ := parseRequest_of_startsWithHead hbytes
    rw [hok old] at hparse
    cases hparse
    exact hbytes
  · obtain ⟨_, hbad⟩ := parseRequest_of_hasBadRequestLine hbytes old
    simp [hbad] at hparse
  · obtain ⟨_, hbad⟩ := parseRequest_of_hasBadHeader hbytes old
    simp [hbad] at hparse

/-- The parser calls for more bytes of a head that is unfinished. -/
theorem awaitsMore_iff (old : HttpContext) (bytes : Bytes) :
    AwaitsMore bytes ↔ ∃ context unread,
      parseRequest old.reset bytes = .ret ⟨.kParseAgain, context, unread⟩ := by
  refine ⟨fun hbytes => parseRequest_of_awaitsMore hbytes old, ?_⟩
  rintro ⟨context, unread, hparse⟩
  rcases head_cases bytes with hbytes | ⟨rest, hbytes⟩ | hbytes | ⟨rest, hbytes⟩
  · exact hbytes
  · obtain ⟨request, _, hok⟩ := parseRequest_of_startsWithHead hbytes
    simp [hok old] at hparse
  · obtain ⟨_, hbad⟩ := parseRequest_of_hasBadRequestLine hbytes old
    simp [hbad] at hparse
  · obtain ⟨_, hbad⟩ := parseRequest_of_hasBadHeader hbytes old
    simp [hbad] at hparse

section Accepted

variable {head : Bytes} {request : HttpRequest}

/-- A head that a new connection accepts is accepted on every connection that
was reset, whatever follows it. -/
theorem parseRequest_of_accepted
    (haccepted : parseRequest {} head =
      .ret ⟨.kParseOK, ⟨.kGotAll, request⟩, []⟩)
    (old : HttpContext) (rest : Bytes) :
    parseRequest old.reset (head ++ rest) =
      .ret ⟨.kParseOK, ⟨.kGotAll, request⟩, rest⟩ := by
  have hnew : parseRequest ({} : HttpContext).reset head = _ := haccepted
  obtain ⟨request', _, hparse⟩ :=
    parseRequest_of_startsWithHead (startsWithHead_of_parseRequest hnew)
  rw [hparse] at hnew
  cases hnew
  rw [parseRequest_append, hparse]
  rfl

theorem locationEndPos_of_accepted
    (haccepted : parseRequest {} head =
      .ret ⟨.kParseOK, ⟨.kGotAll, request⟩, []⟩) :
    request.locationEndPos = request.path.length := by
  have hnew : parseRequest ({} : HttpContext).reset head = _ := haccepted
  obtain ⟨request', hpos, hparse⟩ :=
    parseRequest_of_startsWithHead (startsWithHead_of_parseRequest hnew)
  rw [hparse] at hnew
  cases hnew
  exact hpos

end Accepted

end Cuber.Grammar
