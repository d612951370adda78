import Cuber.Http.Grammar

/-!
# The language of the request parser

A `RequestHead` is a head as a client may write it: a method, a target, a
version and header lines.  The parser accepts exactly the byte strings that
start with one, consumes it, and stores what the head denotes; it rejects
exactly the strings with a malformed line before the blank line, and asks for
more otherwise.
-/

namespace Cuber.Acceptance

open Cuber.Buffer
open Cuber.Chunking
open Cuber.Context
open Cuber.Execution
open Cuber.Grammar
open Cuber.Headers
open Cuber.Maps
open Cuber.Request
open Cuber.Text

structure RequestHead where
  method : Bytes
  target : Bytes
  version : Bytes
  lines : List Bytes
  method_known : methodOf method ≠ .kInvalid
  target_spaces : SP ∉ target
  version_known : IsVersion version
  isLine : IsLine (method ++ SP :: (target ++ SP :: version))
  isHeaderLines : ∀ line ∈ lines, IsHeaderLine line

/-- The field and the value that a header line denotes. -/
def entryOf (line : Bytes) : Bytes × Bytes :=
  (line.takeWhile fun byte => byte ≠ colon,
    trim (line.dropWhile fun byte => byte ≠ colon).tail)

namespace RequestHead

variable (head : RequestHead)

def requestLine : Bytes :=
  head.method ++ SP :: (head.target ++ SP :: head.version)

def bytes : Bytes :=
  head.requestLine ++ CR :: LF :: (joinLines head.lines ++ [CR, LF])

def decoded : HttpRequest where
  method := methodOf head.method
  version := if head.version = ascii "HTTP/1.1" then .kHttp11 else .kHttp10
  path := head.target.takeWhile fun byte => byte ≠ question
  locationEndPos := (head.target.takeWhile fun byte => byte ≠ question).length
  query := head.target.dropWhile fun byte => byte ≠ question
  headers := storeLines OrderedMap.empty head.lines

end RequestHead

/-! ## What a head denotes -/

theorem takeWhile_ne_append {byte : Byte} {before : Bytes} (hbefore : byte ∉ before)
    (after : Bytes) :
    (before ++ byte :: after).takeWhile (fun other => other ≠ byte) = before := by
  rw [List.takeWhile_append_of_pos]
  · simp
  · intro other hother
    simpa using fun heq : other = byte => hbefore (heq ▸ hother)

theorem dropWhile_ne_append {byte : Byte} {before : Bytes} (hbefore : byte ∉ before)
    (after : Bytes) :
    (before ++ byte :: after).dropWhile (fun other => other ≠ byte) = byte :: after := by
  rw [List.dropWhile_append_of_pos]
  · simp
  · intro other hother
    simpa using fun heq : other = byte => hbefore (heq ▸ hother)

theorem storeLine_eq_insert {line : Bytes} (hcolon : colon ∈ line)
    (headers : HeaderMap) :
    storeLine headers line = headers.insert (entryOf line).1 (entryOf line).2 := by
  obtain ⟨⟨field, value⟩, hcut⟩ :=
    Option.isSome_iff_exists.mp (cut_isSome_iff.mpr hcolon)
  obtain ⟨rfl, hfield⟩ := cut_eq_some hcut
  rw [storeLine, hcut, entryOf, takeWhile_ne_append hfield, dropWhile_ne_append hfield]
  rfl

theorem storeLines_eq_insertAll {lines : List Bytes}
    (hlines : ∀ line ∈ lines, IsHeaderLine line) (headers : HeaderMap) :
    storeLines headers lines = headers.insertAll (lines.map entryOf) := by
  induction lines generalizing headers with
  | nil => rfl
  | cons line lines ih =>
      have hfirst := storeLine_eq_insert (hlines line (by simp)).2 headers
      rw [storeLines, List.foldl_cons, hfirst]
      exact ih (fun other hother => hlines other (by simp [hother])) _

/-- The target is split at its first question mark. -/
theorem setTarget_eq {request : HttpRequest} (hquery : request.query = [])
    (target : Bytes) :
    setTarget request target =
      { request with
        path := target.takeWhile fun byte => byte ≠ question
        locationEndPos := (target.takeWhile fun byte => byte ≠ question).length
        query := target.dropWhile fun byte => byte ≠ question } := by
  rw [setTarget]
  cases hcut : cut question target with
  | none =>
      have hfree := cut_eq_none_iff.mp hcut
      have hpath : target.takeWhile (fun byte => byte ≠ question) = target := by
        apply List.takeWhile_eq_self_iff.mpr
        intro byte hbyte
        simpa using fun heq : byte = question => hfree (heq ▸ hbyte)
      have hnone : target.dropWhile (fun byte => byte ≠ question) = [] := by
        apply List.dropWhile_eq_nil_iff.mpr
        intro byte hbyte
        simpa using fun heq : byte = question => hfree (heq ▸ hbyte)
      rw [hpath, hnone, ← hquery]
      rfl
  | some parts =>
      obtain ⟨path, after⟩ := parts
      obtain ⟨rfl, hpath⟩ := cut_eq_some hcut
      rw [takeWhile_ne_append hpath, dropWhile_ne_append hpath]
      simp [HttpRequest.setPath, HttpRequest.setQuery]

theorem parseVersion_eq {text : Bytes} (htext : IsVersion text)
    (request : HttpRequest) :
    parseVersion request text =
      (true, { request with
        version := if text = ascii "HTTP/1.1" then .kHttp11 else .kHttp10 }) := by
  rcases htext with rfl | rfl
  · rfl
  · rfl

/-! ## Methods and their names -/

/-- A known method is written under the name it was read by. -/
theorem methodString_eq {name : Bytes} (hname : methodOf name ≠ .kInvalid)
    {request : HttpRequest} (hmethod : request.method = methodOf name) :
    request.methodString = name := by
  rw [HttpRequest.methodString, hmethod]
  simp only [methodOf] at hname ⊢
  split_ifs at hname ⊢ <;> simp_all

theorem methodString_spaces (request : HttpRequest) : SP ∉ request.methodString := by
  rw [HttpRequest.methodString]
  cases request.method <;> decide

namespace RequestHead

variable (head : RequestHead)

theorem method_spaces : SP ∉ head.method := by
  have hname : head.decoded.methodString = head.method :=
    methodString_eq head.method_known rfl
  rw [← hname]
  exact methodString_spaces _

theorem parseRequestLine_eq (old : HttpRequest) :
    parseRequestLine old.swapWithNew head.requestLine =
      .ret (true, { head.decoded with headers := OrderedMap.empty }) := by
  rw [requestLine, parseRequestLine_of_target rfl head.method_spaces head.method_known
    head.target_spaces, setTarget_eq rfl, parseVersion_eq head.version_known]
  rfl

/-- A head is accepted as the request it denotes, on every connection that was
reset. -/
theorem parseRequest_eq (old : HttpContext) (rest : Bytes) :
    parseRequest old.reset (head.bytes ++ rest) =
      .ret ⟨.kParseOK, ⟨.kGotAll, head.decoded⟩, rest⟩ := by
  have hstate : old.reset.state = .kExpectRequestLine := rfl
  have hstep := step_of_requestLine hstate head.isLine
    (joinLines head.lines ++ CR :: LF :: rest)
  rw [show old.reset.request = old.request.swapWithNew from rfl,
    show head.method ++ SP :: (head.target ++ SP :: head.version) = head.requestLine from
      rfl, head.parseRequestLine_eq] at hstep
  have hbytes : head.bytes ++ rest =
      head.requestLine ++ CR :: LF :: (joinLines head.lines ++ CR :: LF :: rest) := by
    simp [bytes]
  rw [hbytes, parseRequest_of_next hstep, parseRequest_headerLines rfl head.isHeaderLines,
    parseRequest_blankLine rfl]
  rfl

variable {head} in
theorem isHeadLine_of_mem : ∀ line ∈ head.requestLine :: head.lines, IsHeadLine line := by
  intro line hline
  rcases List.mem_cons.mp hline with rfl | hline
  · exact ⟨head.isLine, by simp [requestLine]⟩
  · obtain ⟨hisLine, hcolon⟩ := head.isHeaderLines line hline
    exact ⟨hisLine, List.ne_nil_of_mem hcolon⟩

/-- The lines of a head are determined by the bytes that begin with it. -/
theorem lines_unique {head head' : RequestHead} {rest rest' : Bytes}
    (heq : head.bytes ++ rest = head'.bytes ++ rest') : head.lines = head'.lines := by
  have hjoin : ∀ (some : RequestHead) (more : Bytes), some.bytes ++ more =
      joinLines (some.requestLine :: some.lines) ++ CR :: LF :: more := by
    intro some more
    simp [bytes, joinLines_cons_append]
  rw [hjoin, hjoin] at heq
  exact (List.cons.inj (head_unique isHeadLine_of_mem isHeadLine_of_mem heq).1).2

end RequestHead

theorem exists_requestHead_of_startsWithHead {bytes rest : Bytes}
    (hbytes : StartsWithHead bytes rest) :
    ∃ head : RequestHead, bytes = head.bytes ++ rest := by
  obtain ⟨lines, rfl, hstart⟩ := hbytes
  cases lines with
  | nil => exact hstart.elim
  | cons line headers =>
      obtain ⟨hline, ⟨name, target, version, rfl, _, htarget, hmethod, hversion⟩,
        hheaders⟩ := hstart
      refine ⟨⟨name, target, version, headers, hmethod, htarget, hversion, hline,
        hheaders⟩, ?_⟩
      simp [RequestHead.bytes, RequestHead.requestLine, joinLines_cons_append]

/-- Bytes that are accepted on a connection that was reset are a head and what
follows it, and the context holds what the head denotes. -/
theorem exists_requestHead_of_accepted {old context : HttpContext} {bytes rest : Bytes}
    (hparse : parseRequest old.reset bytes = .ret ⟨.kParseOK, context, rest⟩) :
    ∃ head : RequestHead, bytes = head.bytes ++ rest ∧
      context = ⟨.kGotAll, head.decoded⟩ := by
  rcases head_cases bytes with hmore | ⟨rest', hhead⟩ | hline | ⟨rest', hheader⟩
  · obtain ⟨context', rest', hagain⟩ := parseRequest_of_awaitsMore hmore old
    cases hagain.symm.trans hparse
  · obtain ⟨head, rfl⟩ := exists_requestHead_of_startsWithHead hhead
    cases (head.parseRequest_eq old rest').symm.trans hparse
    exact ⟨head, rfl, rfl⟩
  · obtain ⟨request, hbad⟩ := parseRequest_of_hasBadRequestLine hline old
    cases hbad.symm.trans hparse
  · obtain ⟨request, hbad⟩ := parseRequest_of_hasBadHeader hheader old
    cases hbad.symm.trans hparse

/-! ## Malformed lines -/

/-- Some line before the blank line is malformed: the first one is not a
request line, or a later one has no colon. -/
def HasMalformedLine (bytes : Bytes) : Prop :=
  ∃ first lines rest, bytes = joinLines (first :: lines) ++ rest ∧
    (∀ line ∈ first :: lines, IsLine line) ∧ [] ∉ lines ∧
      (¬ IsRequestLine first ∨ ∃ line ∈ lines, colon ∉ line)

/-- A malformed line is a bad request line or a bad header. -/
theorem hasBad_of_hasMalformedLine {bytes : Bytes} (hbytes : HasMalformedLine bytes) :
    HasBadRequestLine bytes ∨ ∃ rest, HasBadHeader bytes rest := by
  obtain ⟨first, lines, rest, rfl, hlines, hblank, hbad⟩ := hbytes
  by_cases hfirst : IsRequestLine first
  swap
  · refine Or.inl ⟨first, joinLines lines ++ rest, ?_, hlines first (by simp), hfirst⟩
    exact joinLines_cons_append _ _ _
  -- the first line without a colon is the one that the parser rejects
  obtain ⟨line, hline, hcolon⟩ := hbad.resolve_left (not_not.mpr hfirst)
  have hsome : (lines.find? fun line => colon ∉ line).isSome := by
    rw [List.find?_isSome]
    exact ⟨line, hline, by simpa using hcolon⟩
  obtain ⟨bad, hfind⟩ := Option.isSome_iff_exists.mp hsome
  obtain ⟨hbadColon, good, more, rfl, hgood⟩ := List.find?_eq_some_iff_append.mp hfind
  refine Or.inr ⟨joinLines more ++ rest, first :: good, bad, ?_,
    ⟨hlines first (by simp), hfirst, fun other hother => ⟨?_, ?_⟩⟩, ?_, ?_, ?_⟩
  · simp [joinLines]
  · exact hlines other (by simp [hother])
  · simpa using hgood other hother
  · exact hlines bad (by simp)
  · rintro rfl
    simp at hblank
  · simpa using hbadColon

/-- A bad header is a malformed line behind a request line. -/
theorem hasMalformedLine_of_hasBadHeader {bytes rest : Bytes}
    (hbytes : HasBadHeader bytes rest) : HasMalformedLine bytes := by
  obtain ⟨lines, line, rfl, hstart, hbad⟩ := hbytes
  cases lines with
  | nil => exact hstart.elim
  | cons first headers =>
      obtain ⟨hfirst, _, hheaders⟩ := hstart
      refine ⟨first, headers ++ [line], rest, by simp [joinLines], ?_, ?_,
        Or.inr ⟨line, by simp, hbad.2.2⟩⟩
      · intro other hother
        simp only [List.mem_cons, List.mem_append, List.not_mem_nil, or_false] at hother
        rcases hother with rfl | hother | rfl
        · exact hfirst
        · exact (hheaders other hother).1
        · exact hbad.1
      · intro hblank
        rcases List.mem_append.mp hblank with hheader | hline
        · simpa using (hheaders [] hheader).2
        · exact hbad.2.1 (List.mem_singleton.mp hline).symm

theorem hasMalformedLine_iff (bytes : Bytes) :
    HasMalformedLine bytes ↔
      HasBadRequestLine bytes ∨ ∃ rest, HasBadHeader bytes rest := by
  constructor
  · exact hasBad_of_hasMalformedLine
  · rintro (⟨line, rest, rfl, hline, hbad⟩ | ⟨rest, hbytes⟩)
    · exact ⟨line, [], rest, by simp [joinLines], by simpa using hline, by simp,
        Or.inl hbad⟩
    · exact hasMalformedLine_of_hasBadHeader hbytes

/-! ## The verdicts -/

/-- The request stored for a head has the method and the version it names, its
target split at the first question mark, and for each field the trimmed value
of its last occurrence. -/
structure Denotes (head : RequestHead) (request : HttpRequest) : Prop where
  method : request.method = methodOf head.method
  version : request.version =
    if head.version = ascii "HTTP/1.1" then .kHttp11 else .kHttp10
  path : request.path = head.target.takeWhile fun byte => byte ≠ question
  query : request.query = head.target.dropWhile fun byte => byte ≠ question
  headers : ∀ field,
    request.headers.find? field = lastValue (head.lines.map entryOf) field

theorem denotes_decoded (head : RequestHead) : Denotes head head.decoded := by
  refine ⟨rfl, rfl, rfl, rfl, fun field => ?_⟩
  simp [RequestHead.decoded, storeLines_eq_insertAll head.isHeaderLines,
    OrderedMap.find?_insertAll]

section Verdicts

variable {bytes : Bytes} {parsed : RequestParse}

/-- The verdict of the parser tells what the bytes begin with. -/
theorem parseRequest_verdict_cases (hparse : parseRequest {} bytes = .ret parsed) :
    parsed.verdict = .kParseAgain ∨
      (parsed.verdict = .kParseOK ∧
        ∃ head : RequestHead, ∃ rest, bytes = head.bytes ++ rest) ∨
      (parsed.verdict = .kBadMessage ∧ HasMalformedLine bytes) := by
  have hreset : parseRequest ({} : HttpContext).reset bytes = .ret parsed := hparse
  rcases head_cases bytes with hmore | ⟨rest, hhead⟩ | hline | ⟨rest, hheader⟩
  · obtain ⟨context, rest, hagain⟩ := parseRequest_of_awaitsMore hmore {}
    cases hagain.symm.trans hreset
    exact Or.inl rfl
  · obtain ⟨head, hbytes⟩ := exists_requestHead_of_startsWithHead hhead
    rw [hbytes, head.parseRequest_eq] at hreset
    cases hreset
    exact Or.inr (Or.inl ⟨rfl, head, rest, hbytes⟩)
  · obtain ⟨request, hbad⟩ := parseRequest_of_hasBadRequestLine hline {}
    cases hbad.symm.trans hreset
    exact Or.inr (Or.inr ⟨rfl, (hasMalformedLine_iff bytes).mpr (Or.inl hline)⟩)
  · obtain ⟨request, hbad⟩ := parseRequest_of_hasBadHeader hheader {}
    cases hbad.symm.trans hreset
    exact Or.inr (Or.inr ⟨rfl, (hasMalformedLine_iff bytes).mpr (Or.inr ⟨rest, hheader⟩)⟩)

theorem parseRequest_rejects (hbytes : HasMalformedLine bytes) :
    ∃ context rest, parseRequest {} bytes = .ret ⟨.kBadMessage, context, rest⟩ := by
  rcases hasBad_of_hasMalformedLine hbytes with hline | ⟨rest, hheader⟩
  · obtain ⟨request, hparse⟩ := parseRequest_of_hasBadRequestLine hline {}
    exact ⟨_, _, hparse⟩
  · obtain ⟨request, hparse⟩ := parseRequest_of_hasBadHeader hheader {}
    exact ⟨_, _, hparse⟩

theorem accepts_iff (hparse : parseRequest {} bytes = .ret parsed) :
    parsed.verdict = .kParseOK ↔
      ∃ head : RequestHead, ∃ rest, bytes = head.bytes ++ rest := by
  constructor
  · intro hok
    rcases parseRequest_verdict_cases hparse with hagain | ⟨_, hhead⟩ | ⟨hbad, _⟩
    · simp [hok] at hagain
    · exact hhead
    · simp [hok] at hbad
  · rintro ⟨head, rest, rfl⟩
    cases (head.parseRequest_eq {} rest).symm.trans hparse
    rfl

theorem rejects_iff (hparse : parseRequest {} bytes = .ret parsed) :
    parsed.verdict = .kBadMessage ↔ HasMalformedLine bytes := by
  constructor
  · intro hbad
    rcases parseRequest_verdict_cases hparse with hagain | ⟨hok, _⟩ | ⟨_, hline⟩
    · simp [hbad] at hagain
    · simp [hbad] at hok
    · exact hline
  · intro hbytes
    obtain ⟨context, rest, hrejects⟩ := parseRequest_rejects hbytes
    cases hrejects.symm.trans hparse
    rfl

end Verdicts

/-- The parser decides its language.  A fresh parser accepts exactly the byte
strings that start with a request head, then consumes the head and stores what
it denotes; it rejects exactly the strings with a malformed line before the
blank line; and it asks for more bytes otherwise. -/
theorem parseRequest_decides (bytes : Bytes) :
    ∃ parsed, parseRequest {} bytes = .ret parsed ∧
      (parsed.verdict = .kParseOK ↔
        ∃ head : RequestHead, ∃ rest, bytes = head.bytes ++ rest) ∧
      (∀ (head : RequestHead) (rest : Bytes), bytes = head.bytes ++ rest →
        parsed.buffer = rest ∧ Denotes head parsed.context.request) ∧
      (parsed.verdict = .kBadMessage ↔ HasMalformedLine bytes) ∧
      (parsed.verdict = .kParseAgain ↔
        ¬ (∃ head : RequestHead, ∃ rest, bytes = head.bytes ++ rest) ∧
          ¬ HasMalformedLine bytes) := by
  obtain ⟨parsed, hparse⟩ := exists_parseRequest_eq_ret methodFree_new bytes
  refine ⟨parsed, hparse, accepts_iff hparse, ?_, rejects_iff hparse, ?_⟩
  · rintro head rest rfl
    cases (head.parseRequest_eq {} rest).symm.trans hparse
    exact ⟨rfl, denotes_decoded head⟩
  · rw [← accepts_iff hparse, ← rejects_iff hparse]
    constructor
    · intro hagain
      simp [hagain]
    · rintro ⟨hok, hbad⟩
      rcases parseRequest_verdict_cases hparse with hagain | ⟨hok', _⟩ | ⟨hbad', _⟩
      · exact hagain
      · exact absurd hok' hok
      · exact absurd hbad' hbad

end Cuber.Acceptance
