import Cuber.Server.Answers

/-!
# The headers of a relayed answer

Header fields of an upstream answer are stored in a map, so that of a field that
comes several times only the last value is left when the answer is relayed.
This module works out which answers are relayed with every header line they came
with, apart from those that the filter replaces.
-/

namespace Cuber.RelayedHeaders

open Cuber.Acceptance
open Cuber.Answers
open Cuber.Buffer
open Cuber.Config
open Cuber.Context
open Cuber.Delimiting
open Cuber.Filter
open Cuber.Forwarding
open Cuber.Handlers
open Cuber.Headers
open Cuber.Maps
open Cuber.Request
open Cuber.Response
open Cuber.ResponseContext
open Cuber.RoundTrip
open Cuber.Server
open Cuber.Text
open Cuber.UpstreamAnswer

def isReplaced (field : Bytes) : Bool :=
  field = ascii "Server" || field = ascii "Connection" || field = ascii "Keep-Alive"

def fieldsOf (lines : List Bytes) : List (Bytes × Bytes) :=
  (lines.filter fun line => colon ∈ line).map entryOf

/-- The header fields of an answer that the filter does not replace, as often as
they were received. -/
def kept (head : AnswerHead) : List (Bytes × Bytes) :=
  (head.lines.map entryOf).filter fun entry => !isReplaced entry.1

/-- The head of a message has the fields, each at least as often as it is
listed. -/
def Carries (entries : List (Bytes × Bytes)) (bytes : Bytes) : Prop :=
  ∃ first lines body, bytes = joinLines (first :: lines) ++ CR :: LF :: body ∧
    (∀ line ∈ first :: lines, IsHeadLine line) ∧ entries.Subperm (fieldsOf lines)

/-- No field that is not replaced comes twice.  Where the status line is broken in
two when it is relayed, its second half ends the head if it is empty, and may
otherwise happen to be one of the header lines that were lost. -/
def KeepsFields (head : AnswerHead) : Prop :=
  match brokenOff head with
  | none => ((kept head).map Prod.fst).Nodup
  | some [] => kept head = []
  | some line => (kept head).Subperm (fieldsOf [line] ++ head.headers.entries)

section Written

variable {response : HttpResponse}

theorem fieldsOf_append (lines more : List Bytes) :
    fieldsOf (lines ++ more) = fieldsOf lines ++ fieldsOf more := by
  simp [fieldsOf]

/-- The header lines that are written read as the headers they are written for. -/
theorem fieldsOf_headerLines (hclean : IsClean response.headers)
    (order : EntryOrder response.headers) :
    fieldsOf (headerLines response order) = response.writtenHeaders order := by
  have hentries := isCleanEntry_writtenHeaders hclean order
  have hcolon : ((response.writtenHeaders order).map formatLine).filter
      (fun line => colon ∈ line) = (response.writtenHeaders order).map formatLine := by
    rw [List.filter_eq_self]
    intro line hline
    obtain ⟨entry, hentry, rfl⟩ := List.mem_map.mp hline
    exact decide_eq_true (isHeaderLine_formatLine (hentries entry hentry)).2
  rw [fieldsOf, headerLines, hcolon, List.map_map]
  conv_rhs => rw [← List.map_id (response.writtenHeaders order)]
  apply List.map_congr_left
  intro entry hentry
  exact entryOf_formatLine (hentries entry hentry)

/-- The written headers are the stored ones and perhaps a length. -/
theorem mem_writtenHeaders_iff (order : EntryOrder response.headers) {entry : Bytes × Bytes}
    (hlength : entry.1 = contentLength → response.headers.find? contentLength ≠ none) :
    entry ∈ response.writtenHeaders order ↔
      response.headers.find? entry.1 = some entry.2 := by
  have hstored : entry ∈ order.entries ↔ response.headers.find? entry.1 = some entry.2 := by
    rw [order.perm.mem_iff, OrderedMap.find?_eq_some_iff]
  rw [HttpResponse.writtenHeaders]
  split_ifs with hadded
  · rw [List.mem_cons, hstored]
    refine or_iff_right ?_
    rintro rfl
    exact hlength rfl hadded.2
  · exact hstored

theorem nodup_writtenHeaders (order : EntryOrder response.headers) :
    (response.writtenHeaders order).Nodup := by
  have hentries : (order.entries.map Prod.fst).Nodup :=
    (order.perm.map Prod.fst).nodup_iff.mpr response.headers.nodup_keys
  rw [HttpResponse.writtenHeaders]
  split_ifs with hadded
  · refine List.nodup_cons.mpr ⟨fun hmem => ?_, hentries.of_map⟩
    rw [order.perm.mem_iff, ← OrderedMap.find?_eq_some_iff, hadded.2] at hmem
    cases hmem
  · exact hentries.of_map

/-- A written response has the fields exactly when its lines do. -/
theorem carries_appendToBuffer_iff (hclean : IsClean response.headers)
    (hstart : IsLine response.statusStart) (hmessage : IsLine response.statusMessage)
    (order : EntryOrder response.headers) (entries : List (Bytes × Bytes)) :
    Carries entries (response.appendToBuffer order) ↔
      entries.Subperm (fieldsOf (linesAfterFirst response order)) := by
  obtain ⟨first, body, hbytes, hhead, _⟩ :=
    exists_head_appendToBuffer hclean hstart hmessage order
  constructor
  · rintro ⟨other, lines, body', hbytes', hhead', hentries⟩
    obtain ⟨heq, _⟩ := head_unique hhead hhead' (hbytes.symm.trans hbytes')
    rw [List.cons.injEq] at heq
    rwa [heq.2]
  · intro hentries
    exact ⟨first, _, body, hbytes, hhead, hentries⟩

end Written

/-- Of a list without repetitions only the members count. -/
theorem subperm_append_of_mem {A : Type*} [DecidableEq A] {entries extra left right : List A}
    (hnodup : left.Nodup) (hmem : ∀ entry ∈ entries, entry ∈ left → entry ∈ right)
    (hsubperm : entries.Subperm (extra ++ left)) : entries.Subperm (extra ++ right) := by
  rw [List.subperm_ext_iff] at hsubperm ⊢
  intro entry hentry
  apply (hsubperm entry hentry).trans
  rw [List.count_append, List.count_append]
  apply Nat.add_le_add_left
  by_cases hleft : entry ∈ left
  · exact (List.nodup_iff_count_le_one.mp hnodup entry).trans
      (List.count_pos_iff.mpr (hmem entry hentry hleft))
  · rw [List.count_eq_zero_of_not_mem hleft]
    exact Nat.zero_le _

section Relayed

variable {head : AnswerHead} {rest left : Bytes} {response : HttpResponse}
  {config : ServerConfig} {request : HttpRequest} {entry : Bytes × Bytes}

theorem isReplaced_of_mem_kept (hentry : entry ∈ kept head) : isReplaced entry.1 = false := by
  simpa using (List.mem_filter.mp hentry).2

theorem find?_headers_of_mem_kept (hentry : entry ∈ kept head) :
    head.headers.find? entry.1 = lastValue (kept head) entry.1 := by
  have hkeep : (!isReplaced entry.1) = true := by simp [isReplaced_of_mem_kept hentry]
  rw [kept, lastValue_filter _ (fun field => !isReplaced field) hkeep, AnswerHead.headers,
    storeLines_eq_insertAll head.isHeaderLines, OrderedMap.find?_insertAll]
  simp

theorem find?_filter_of_not_isReplaced {field : Bytes} (hfield : isReplaced field = false) :
    (HttpHeadersFilter.filter config request response).headers.find? field =
      response.headers.find? field := by
  simp only [isReplaced, Bool.or_eq_false_iff, decide_eq_false_iff_not] at hfield
  obtain ⟨⟨hserver, hconnection⟩, halive⟩ := hfield
  simp only [HttpHeadersFilter.filter]
  split_ifs <;>
    simp [HttpResponse.addHeader, HttpResponse.setCloseConnection,
      OrderedMap.find?_insert, hserver, hconnection, halive]

/-- Of a kept field the relayed headers have what the map has. -/
theorem mem_relayedHeaders_iff (hhead : HasHead response head)
    (order : EntryOrder (HttpHeadersFilter.filter config request response).headers)
    (hentry : entry ∈ kept head) :
    entry ∈ (HttpHeadersFilter.filter config request response).writtenHeaders order ↔
      entry ∈ head.headers.entries := by
  have hfind : (HttpHeadersFilter.filter config request response).headers.find? entry.1 =
      head.headers.find? entry.1 := by
    rw [find?_filter_of_not_isReplaced (isReplaced_of_mem_kept hentry), hhead.headers]
  rw [mem_writtenHeaders_iff, hfind, OrderedMap.find?_eq_some_iff]
  intro hlength
  rw [← hlength, hfind, find?_headers_of_mem_kept hentry]
  exact lastValue_ne_none hentry

/-- The fields that are kept arrive just if they survive in a map. -/
theorem carries_kept_iff (hhead : HasHead response head)
    (hconnection : IsCleanEntry
      (ascii "Connection", request.getHeader (ascii "Connection")))
    (order : EntryOrder (HttpHeadersFilter.filter config request response).headers) :
    Carries (kept head)
        ((HttpHeadersFilter.filter config request response).appendToBuffer order) ↔
      KeepsFields head := by
  have hclean : IsClean (HttpHeadersFilter.filter config request response).headers := by
    apply isClean_filter _ hconnection
    rw [hhead.headers]
    exact head.isClean_headers
  have hlines : statusLines (HttpHeadersFilter.filter config request response) =
      statusLines response := by
    simp [statusLines]
  have hrelayed : ∀ extra : List (Bytes × Bytes),
      (kept head).Subperm (extra ++
          (HttpHeadersFilter.filter config request response).writtenHeaders order) ↔
        (kept head).Subperm (extra ++ head.headers.entries) := by
    intro extra
    constructor
    · exact subperm_append_of_mem (nodup_writtenHeaders order) fun entry hentry =>
        (mem_relayedHeaders_iff hhead order hentry).mp
    · exact subperm_append_of_mem head.headers.nodup_keys.of_map fun entry hentry =>
        (mem_relayedHeaders_iff hhead order hentry).mpr
  rw [carries_appendToBuffer_iff hclean
    (by
      rw [statusStart_filter, statusStart_of_hasHead hhead]
      exact isLine_relayedStart head)
    (by
      rw [statusMessage_filter, hhead.statusMessage]
      exact head.isLine_phrase),
    linesAfterFirst, hlines, tail_statusLines hhead, KeepsFields]
  simp only [nil_mem_statusLines_iff hhead]
  cases hbroken : brokenOff head with
  | none =>
      rw [if_neg (by simp), Option.toList_none, List.nil_append,
        fieldsOf_headerLines hclean]
      have hmap := hrelayed []
      rw [List.nil_append, List.nil_append] at hmap
      rw [hmap]
      exact OrderedMap.subperm_entries_iff fun entry => find?_headers_of_mem_kept
  | some line =>
      cases line with
      | nil => rw [if_pos rfl, fieldsOf, List.filter_nil, List.map_nil, List.subperm_nil]
      | cons byte line =>
          rw [if_neg (by simp), Option.toList_some, fieldsOf_append,
            fieldsOf_headerLines hclean, hrelayed]

end Relayed

/-- The header lines of an answer that the filter does not replace are all in the
head of a message. -/
def RelaysHeaders (answer sent : Bytes) : Prop :=
  ∃ head : AnswerHead, ∃ rest, answer = head.bytes ++ rest ∧ Carries (kept head) sent

/-- An answer whose fields survive in a map. -/
def HasKeptFields (answer : Bytes) : Prop :=
  ∃ head : AnswerHead, ∃ rest, answer = head.bytes ++ rest ∧ KeepsFields head

theorem relaysHeaders_of_parse {answer left : Bytes} {context : HttpResponseContext}
    {config : ServerConfig} {request : HttpRequest}
    (hparse : parseResponse {} answer = some ⟨.kParseOK, context, left⟩)
    (hconnection : IsCleanEntry
      (ascii "Connection", request.getHeader (ascii "Connection")))
    (order : EntryOrder
      (HttpHeadersFilter.filter config request context.response).headers) :
    RelaysHeaders answer ((HttpHeadersFilter.filter config request
        context.response).appendToBuffer order) ↔
      HasKeptFields answer := by
  have hexact : ∀ (head : AnswerHead) (rest : Bytes), answer = head.bytes ++ rest →
      (Carries (kept head) ((HttpHeadersFilter.filter config request
          context.response).appendToBuffer order) ↔ KeepsFields head) := by
    rintro head rest rfl
    rw [parseResponse_head] at hparse
    have hhead := hasHead_of_parseBody (parseResponse_expectBody_ok hparse)
    exact carries_kept_iff hhead hconnection order
  constructor
  · rintro ⟨head, rest, hbytes, hcarries⟩
    exact ⟨head, rest, hbytes, (hexact head rest hbytes).mp hcarries⟩
  · rintro ⟨head, rest, hbytes, hkeeps⟩
    exact ⟨head, rest, hbytes, (hexact head rest hbytes).mpr hkeeps⟩

def cookieHead (lines : List Bytes) (hlines : ∀ line ∈ lines, IsHeaderLine line) :
    AnswerHead where
  version := ascii "HTTP/1.1"
  status := ascii "200"
  code := 200
  phrase := ascii "OK"
  lines := lines
  version_spaces := by decide
  status_spaces := by decide
  status_code := by decide
  phrase_ne_nil := by decide
  isLine := by decide
  isHeaderLines := hlines

def oneCookie : AnswerHead := cookieHead [ascii "Set-Cookie: a"] (by decide)

def twoCookies : AnswerHead :=
  cookieHead [ascii "Set-Cookie: a", ascii "Set-Cookie: b"] (by decide)

theorem hasKeptFields_bytes_iff (head : AnswerHead) :
    HasKeptFields head.bytes ↔ KeepsFields head := by
  constructor
  · rintro ⟨other, rest, hbytes, hkeeps⟩
    rw [← List.append_nil head.bytes] at hbytes
    rw [(AnswerHead.bytes_unique hbytes).1]
    exact hkeeps
  · intro hkeeps
    exact ⟨head, [], (List.append_nil _).symm, hkeeps⟩

theorem parseResponse_bytes {head : AnswerHead}
    (hlength : valueOf head.headers contentLength = []) :
    parseResponse {} head.bytes = some ⟨.kParseOK, ⟨.kGotAll, head.decoded⟩, []⟩ := by
  have hbody : parseBody head.decoded [] = (.kParseOK, head.decoded, []) :=
    parseBody_of_no_length hlength
  rw [← List.append_nil head.bytes, parseResponse_head, parseResponse_expectBody_of_ok hbody]

/-- An answer that arrives in one chunk. -/
theorem answered_of_parse {env : Environment} {request : HttpRequest} {input answer left : Bytes}
    {handled : Handled} {context : HttpResponseContext}
    (hrequest : onRequest env request input = .ret handled)
    (hforwarded : handled.forwarded = true)
    (hparse : parseResponse {} answer = some ⟨.kParseOK, context, left⟩) :
    Answered env request input (.upstream answer)
      (HttpHeadersFilter.filter env.config handled.exchange.request context.response) := by
  have hanswered := Answered.upstream hrequest hforwarded Arrived.nothing
    (show parseResponse {} ([] ++ answer) = _ from hparse)
  exact hanswered

end Cuber.RelayedHeaders
