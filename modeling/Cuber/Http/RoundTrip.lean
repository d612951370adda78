import Cuber.Http.Acceptance
import Cuber.Http.UpstreamAnswer

/-!
# What is written reads back

`appendToBuffer` and the parsers are written independently of each other.  A
request that the parser stored is written as a head that denotes it again, but
for the query.  A response reads back when the start of its status line fits
the buffer that it is formatted into.
-/

namespace Cuber.RoundTrip

open Cuber.Acceptance
open Cuber.Buffer
open Cuber.Context
open Cuber.Execution
open Cuber.Grammar
open Cuber.Headers
open Cuber.Maps
open Cuber.Request
open Cuber.Response
open Cuber.ResponseContext
open Cuber.Text
open Cuber.UpstreamAnswer

/-! ## Requests -/

/-- A request whose head can be written and read back. -/
structure IsWritable (request : HttpRequest) : Prop where
  method_known : request.method ≠ .kInvalid
  version_known : request.version ≠ .kUnknown
  path_line : IsLine request.path
  path_spaces : SP ∉ request.path
  path_question : question ∉ request.path
  headers_clean : IsClean request.headers

theorem methodOf_methodString {request : HttpRequest}
    (hmethod : request.method ≠ .kInvalid) :
    methodOf request.methodString = request.method := by
  rw [HttpRequest.methodString]
  cases hname : request.method with
  | kInvalid => exact absurd hname hmethod
  | kGet | kPost | kHead | kPut | kDelete | kTrace | kOptions => decide

theorem isLine_methodString (request : HttpRequest) : IsLine request.methodString := by
  rw [HttpRequest.methodString]
  cases request.method <;> decide

theorem isVersion_versionString {request : HttpRequest}
    (hversion : request.version ≠ .kUnknown) : IsVersion request.versionString := by
  rw [HttpRequest.versionString]
  cases hname : request.version with
  | kUnknown => exact absurd hname hversion
  | kHttp10 => exact Or.inr rfl
  | kHttp11 => exact Or.inl rfl

theorem versionOf_versionString {request : HttpRequest}
    (hversion : request.version ≠ .kUnknown) :
    (if request.versionString = ascii "HTTP/1.1" then Version.kHttp11 else .kHttp10) =
      request.version := by
  rw [HttpRequest.versionString]
  cases hname : request.version with
  | kUnknown => exact absurd hname hversion
  | kHttp10 | kHttp11 => decide

/-- Two lines with a blank between them are a line. -/
theorem isLine_append_SP {front back : Bytes} (hfront : IsLine front) (hback : IsLine back) :
    IsLine (front ++ SP :: back) := by
  rw [isLine_append_iff]
  refine ⟨hfront, ?_, ?_⟩
  · rw [isLine_cons_iff]
    exact ⟨fun hcr => absurd hcr.1 (by decide), hback⟩
  · rintro ⟨_, hhead⟩
    exact absurd hhead (by simp [SP, LF])

section Requests

variable {request : HttpRequest}

def writtenHead (request : HttpRequest) (hwritable : IsWritable request) :
    RequestHead where
  method := request.methodString
  target := request.path
  version := request.versionString
  lines := request.headers.entries.map formatLine
  method_known := by
    rw [methodOf_methodString hwritable.method_known]
    exact hwritable.method_known
  target_spaces := hwritable.path_spaces
  version_known := isVersion_versionString hwritable.version_known
  isLine := by
    have hversion : IsLine request.versionString := by
      rcases isVersion_versionString hwritable.version_known with h | h <;>
      · rw [h]
        decide
    exact isLine_append_SP (isLine_methodString request)
      (isLine_append_SP hwritable.path_line hversion)
  isHeaderLines := by
    intro line hline
    obtain ⟨entry, hentry, rfl⟩ := List.mem_map.mp hline
    exact isHeaderLine_formatLine (hwritable.headers_clean entry hentry)

theorem appendToBuffer_eq (hwritable : IsWritable request) :
    request.appendToBuffer = (writtenHead request hwritable).bytes ++ request.writtenBody := by
  simp [HttpRequest.appendToBuffer, RequestHead.bytes, RequestHead.requestLine,
    HttpRequest.requestLine, writtenHead]

/-- The head that is written denotes the request, less its query and its
body. -/
theorem decoded_writtenHead (hwritable : IsWritable request) :
    (writtenHead request hwritable).decoded =
      { request with
        locationEndPos := request.path.length
        query := []
        body := [] } := by
  have hpath : (writtenHead request hwritable).decoded.path = request.path := by
    apply List.takeWhile_eq_self_iff.mpr
    intro byte hbyte
    simpa using fun heq : byte = question => hwritable.path_question (heq ▸ hbyte)
  have hquery : (writtenHead request hwritable).decoded.query = [] := by
    apply List.dropWhile_eq_nil_iff.mpr
    intro byte hbyte
    simpa using fun heq : byte = question => hwritable.path_question (heq ▸ hbyte)
  have hheaders : (writtenHead request hwritable).decoded.headers = request.headers := by
    have hlines := storeLines_formatLine hwritable.headers_clean OrderedMap.empty
    exact hlines.trans (OrderedMap.insertAll_of_perm (List.Perm.refl _))
  have hmethod : (writtenHead request hwritable).decoded.method = request.method :=
    methodOf_methodString hwritable.method_known
  have hversion : (writtenHead request hwritable).decoded.version = request.version :=
    versionOf_versionString hwritable.version_known
  calc
    (writtenHead request hwritable).decoded =
        { method := (writtenHead request hwritable).decoded.method
          version := (writtenHead request hwritable).decoded.version
          path := (writtenHead request hwritable).decoded.path
          locationEndPos := (writtenHead request hwritable).decoded.path.length
          query := (writtenHead request hwritable).decoded.query
          headers := (writtenHead request hwritable).decoded.headers } := rfl
    _ = _ := by rw [hmethod, hversion, hpath, hquery, hheaders]

/-- A written request is accepted again, up to its body. -/
theorem parseRequest_appendToBuffer (hwritable : IsWritable request) :
    parseRequest {} request.appendToBuffer =
      .ret ⟨.kParseOK, ⟨.kGotAll, { request with
        locationEndPos := request.path.length
        query := []
        body := [] }⟩, request.writtenBody⟩ := by
  rw [appendToBuffer_eq hwritable, ← decoded_writtenHead hwritable]
  exact (writtenHead request hwritable).parseRequest_eq {} _

end Requests

/-- What the parser decodes can be written and read back. -/
theorem isWritable_decoded (head : RequestHead) : IsWritable head.decoded where
  method_known := head.method_known
  version_known := by
    simp only [RequestHead.decoded]
    split_ifs <;> decide
  path_line := by
    have htarget : IsLine head.target :=
      (show IsLine ([SP] ++ (head.target ++ SP :: head.version)) from
        head.isLine.right).right.left
    rw [← List.takeWhile_append_dropWhile (p := fun byte => byte ≠ question)
      (l := head.target)] at htarget
    exact htarget.left
  path_spaces := fun hspace =>
    head.target_spaces ((List.takeWhile_prefix _).subset hspace)
  path_question := by
    intro hquestion
    simpa using List.mem_takeWhile_imp hquestion
  headers_clean := isClean_storeLines isClean_empty head.isHeaderLines

/-- A request with a query, a repeated field and blanks around a value. -/
def spacedRequest : Bytes :=
  ascii "GET /a?b HTTP/1.0\r\nHost: x\r\nHost:  y \r\n: z\r\n\r\n"

theorem SP_not_mem_cStr {text : Bytes} (hspaces : SP ∉ text) : SP ∉ cStr text := by
  intro hmem
  exact hspaces ((List.takeWhile_prefix _).subset hmem)

theorem isLine_cStr {text : Bytes} (hline : IsLine text) : IsLine (cStr text) := by
  obtain ⟨rest, hrest⟩ := List.takeWhile_prefix (fun byte : Byte => byte ≠ 0) (l := text)
  rw [← hrest] at hline
  exact hline.left

theorem isLine_intText (value : ℤ) : IsLine (intText value) :=
  isLine_of_CR_not_mem (not_mem_intText (by decide) (by decide) value)

theorem isCleanEntry_contentLength (length : ℕ) :
    IsCleanEntry (contentLength, decimalText length) := by
  apply isCleanEntry_of_isspace (by decide) (by decide)
  intro byte hbyte
  exact isspace_eq_false_of_isdigit ((isDecimal_decimalText length).2 byte hbyte)

section Responses

variable {response : HttpResponse}

def reencodedHeaders (response : HttpResponse) : HeaderMap :=
  if response.body ≠ [] ∧ response.headers.find? contentLength = none then
    response.headers.insert contentLength (decimalText response.body.length)
  else response.headers

theorem isCleanEntry_writtenHeaders (hheaders : IsClean response.headers)
    (order : EntryOrder response.headers) :
    ∀ entry ∈ response.writtenHeaders order, IsCleanEntry entry := by
  have horder : ∀ entry ∈ order.entries, IsCleanEntry entry := fun entry hentry =>
    hheaders entry (order.perm.mem_iff.mp hentry)
  rw [HttpResponse.writtenHeaders]
  split_ifs
  · intro entry hentry
    rcases List.mem_cons.mp hentry with rfl | hentry
    · exact isCleanEntry_contentLength _
    · exact horder entry hentry
  · exact horder

theorem storeLines_writtenHeaders (hheaders : IsClean response.headers)
    (order : EntryOrder response.headers) :
    storeLines OrderedMap.empty ((response.writtenHeaders order).map formatLine) =
      reencodedHeaders response := by
  rw [storeLines_formatLine (isCleanEntry_writtenHeaders hheaders order),
    HttpResponse.writtenHeaders, reencodedHeaders]
  split_ifs with hadded
  · exact OrderedMap.insertAll_cons_of_perm order.perm hadded.2 _
  · exact OrderedMap.insertAll_of_perm order.perm

end Responses

/-- The length is the only header that may have been added. -/
def SameUpToLength (before after : HeaderMap) : Prop :=
  after = before ∨
    before.find? contentLength = none ∧
      ∃ value, after = before.insert contentLength value

/-- A response reads back from what `appendToBuffer` writes, up to an added
length. -/
def SurvivesReencoding (response : HttpResponse) (order : EntryOrder response.headers) :
    Prop :=
  ∃ context left,
    parseResponse {} (response.appendToBuffer order) = some ⟨.kParseOK, context, left⟩ ∧
      context.response.statusCode = response.statusCode ∧
      context.response.statusMessage = response.statusMessage ∧
      context.response.body = response.body ∧
      SameUpToLength response.headers context.response.headers

theorem sameUpToLength_reencodedHeaders (response : HttpResponse) :
    SameUpToLength response.headers (reencodedHeaders response) := by
  rw [reencodedHeaders]
  split_ifs with hadded
  · exact Or.inr ⟨hadded.2, _, rfl⟩
  · exact Or.inl rfl

section Reencoding

variable {head : AnswerHead} {rest left : Bytes} {response : HttpResponse}

/-- The fields of a response that are those of its head. -/
structure HasHead (response : HttpResponse) (head : AnswerHead) : Prop where
  version : response.version = head.version
  statusCode : response.statusCode = head.code
  statusMessage : response.statusMessage = head.phrase
  headers : response.headers = head.headers

theorem hasHead_of_parseBody
    (hbody : parseBody head.decoded rest = (.kParseOK, response, left)) :
    HasHead response head := by
  rcases parseBody_ok_cases hbody with ⟨_, rfl, _⟩ | ⟨value, _, _, _, rfl, _⟩
  · exact ⟨rfl, rfl, rfl, rfl⟩
  · exact ⟨rfl, rfl, rfl, rfl⟩

/-- The head that is written for a response with the status line of `head`. -/
def reencodedHead (head : AnswerHead) (response : HttpResponse)
    (hheaders : IsClean response.headers) (order : EntryOrder response.headers) :
    AnswerHead where
  version := cStr head.version
  status := intText head.code
  code := head.code
  phrase := head.phrase
  lines := (response.writtenHeaders order).map formatLine
  version_spaces := SP_not_mem_cStr head.version_spaces
  status_spaces := not_mem_intText (by decide) (by decide) head.code
  status_code :=
    stoi_intText (stoi_bounds head.status_code).1 (stoi_bounds head.status_code).2
  phrase_ne_nil := head.phrase_ne_nil
  isLine := by
    apply isLine_append_SP (isLine_cStr head.isLine.left)
    exact isLine_append_SP (isLine_intText head.code) head.isLine_phrase
  isHeaderLines := by
    intro line hline
    obtain ⟨entry, hentry, rfl⟩ := List.mem_map.mp hline
    exact isHeaderLine_formatLine (isCleanEntry_writtenHeaders hheaders order entry hentry)

/-- Where the status fits, a head of the grammar and the body are written. -/
theorem appendToBuffer_of_statusFits (hfits : head.StatusFits)
    (hhead : HasHead response head) (hheaders : IsClean response.headers)
    (order : EntryOrder response.headers) :
    response.appendToBuffer order =
      (reencodedHead head response hheaders order).bytes ++ response.body := by
  have hstart : response.statusStart =
      cStr head.version ++ SP :: (intText head.code ++ [SP]) := by
    rw [HttpResponse.statusStart, hhead.version, hhead.statusCode]
    apply List.take_of_length_le
    rw [AnswerHead.StatusFits] at hfits
    simp only [List.length_append, List.length_cons, List.length_nil]
    omega
  rw [HttpResponse.appendToBuffer, hstart, hhead.statusMessage]
  simp [AnswerHead.bytes, AnswerHead.statusLine, reencodedHead]

theorem headers_reencodedHead (hheaders : IsClean response.headers)
    (order : EntryOrder response.headers) :
    (reencodedHead head response hheaders order).headers = reencodedHeaders response :=
  storeLines_writtenHeaders hheaders order

theorem valueOf_reencodedHeaders_of_find? {text : Bytes}
    (hfind : response.headers.find? contentLength = some text) :
    valueOf (reencodedHeaders response) contentLength = text := by
  rw [reencodedHeaders, if_neg (by simp [hfind]), valueOf, hfind]
  rfl

/-- A default page, which is sent with its length unless an empty length was
stored, is read back. -/
theorem exists_parseBody_of_page {reread : HttpResponse}
    (hstored : reread.headers = reencodedHeaders response)
    (htext : valueOf response.headers contentLength = [])
    (hpage : reread.body = response.body) (hshort : response.body.length ≤ intMax) :
    ∃ left', parseBody reread response.body =
      (.kParseOK, reread.setBody response.body, left') := by
  have hsame : reread.setBody response.body = reread := by
    rw [← hpage]
    rfl
  cases hfind : response.headers.find? contentLength with
  | some text =>
      have hempty : text = [] := by simpa [valueOf, hfind] using htext
      have hread : valueOf reread.headers contentLength = [] := by
        rw [hstored, valueOf_reencodedHeaders_of_find? hfind, hempty]
      exact ⟨_, by rw [parseBody_of_no_length hread, hsame]⟩
  | none =>
      by_cases hempty : response.body = []
      · have hread : valueOf reread.headers contentLength = [] := by
          rw [hstored, reencodedHeaders, if_neg (by simp [hempty])]
          exact htext
        exact ⟨_, by rw [parseBody_of_no_length hread, hsame]⟩
      · have hread : valueOf reread.headers contentLength =
            decimalText response.body.length := by
          rw [hstored, reencodedHeaders, if_pos ⟨hempty, hfind⟩, valueOf,
            OrderedMap.find?_insert, if_pos rfl]
          rfl
        have hdecimal := isDecimal_decimalText response.body.length
        refine ⟨[], parseBody_of_exact_length (hread ▸ hdecimal.1) ?_
          (toSizeT_natCast hshort)⟩
        rw [hread, stoi_of_isDecimal hdecimal, decimalValue_decimalText, if_pos hshort]

/-- A body that was sent with its length is read back. -/
theorem parseBody_of_counted {reread : HttpResponse} {value : ℤ}
    (hstored : reread.headers = reencodedHeaders response)
    (htext : valueOf response.headers contentLength ≠ [])
    (hvalue : stoi (valueOf response.headers contentLength) = some value)
    (hlength : toSizeT value = response.body.length) :
    parseBody reread response.body =
      (.kParseOK, reread.setBody response.body, []) := by
  cases hfind : response.headers.find? contentLength with
  | none => simp [valueOf, hfind] at htext
  | some text =>
      have hread : valueOf reread.headers contentLength =
          valueOf response.headers contentLength := by
        rw [hstored, valueOf_reencodedHeaders_of_find? hfind, valueOf, hfind]
        rfl
      exact parseBody_of_exact_length (hread ▸ htext) (hread ▸ hvalue) hlength

/-- What follows the blank line is read back as the body. -/
theorem exists_parseBody_reencodedHead
    (hbody : parseBody head.decoded rest = (.kParseOK, response, left))
    (hheaders : IsClean response.headers) (order : EntryOrder response.headers) :
    ∃ left', parseBody (reencodedHead head response hheaders order).decoded response.body =
      (.kParseOK, (reencodedHead head response hheaders order).decoded.setBody
        response.body, left') := by
  have hstored : (reencodedHead head response hheaders order).decoded.headers =
      reencodedHeaders response := headers_reencodedHead hheaders order
  rcases parseBody_ok_cases hbody with ⟨htext, rfl, _⟩ | ⟨value, htext, hvalue, hle, rfl, _⟩
  · apply exists_parseBody_of_page hstored htext rfl
    cases hmap : bodyMessageMap head.code with
    | none => simp [AnswerHead.decoded, hmap]
    | some page => simpa [AnswerHead.decoded, hmap] using (length_bodyMessageMap hmap).2
  · exact ⟨[], parseBody_of_counted hstored htext hvalue
      (by simp [HttpResponse.setBody, hle])⟩

/-- Where the status fits, the response reads back. -/
theorem survivesReencoding_of_statusFits (hfits : head.StatusFits)
    (hbody : parseBody head.decoded rest = (.kParseOK, response, left))
    (order : EntryOrder response.headers) : SurvivesReencoding response order := by
  have hhead := hasHead_of_parseBody hbody
  have hheaders : IsClean response.headers := by
    rw [hhead.headers]
    exact head.isClean_headers
  obtain ⟨left', hreread⟩ := exists_parseBody_reencodedHead hbody hheaders order
  refine ⟨⟨.kGotAll, (reencodedHead head response hheaders order).decoded.setBody
    response.body⟩, left', ?_, hhead.statusCode.symm, hhead.statusMessage.symm, rfl, ?_⟩
  · rw [appendToBuffer_of_statusFits hfits hhead hheaders, parseResponse_head]
    exact parseResponse_expectBody_of_ok hreread
  · change SameUpToLength response.headers
      (reencodedHead head response hheaders order).headers
    rw [headers_reencodedHead]
    exact sameUpToLength_reencodedHeaders response

/-- A status line that was cut lacks one of its spaces. -/
theorem count_statusStart (hfits : ¬ head.StatusFits) (hhead : HasHead response head) :
    response.statusStart.count SP ≤ 1 := by
  have hversion := List.count_eq_zero_of_not_mem (SP_not_mem_cStr head.version_spaces)
  have hcode := List.count_eq_zero_of_not_mem
    (@not_mem_intText SP (by decide) (by decide) head.code)
  have hcut : response.statusStart =
      (cStr head.version ++ SP :: intText head.code).take 63 := by
    rw [HttpResponse.statusStart, hhead.version, hhead.statusCode,
      show cStr head.version ++ SP :: (intText head.code ++ [SP]) =
        (cStr head.version ++ SP :: intText head.code) ++ [SP] by simp]
    apply List.take_append_of_le_length
    rw [AnswerHead.StatusFits] at hfits
    simp only [List.length_append, List.length_cons]
    omega
  calc
    response.statusStart.count SP
        ≤ (cStr head.version ++ SP :: intText head.code).count SP := by
          rw [hcut]
          exact (List.take_sublist _ _).count_le SP
    _ = 1 := by simp [hversion, hcode]

/-- A status line that was cut off does not read back with the same phrase:
there is at most one blank before the phrase. -/
theorem statusFits_of_survivesReencoding (hhead : HasHead response head)
    {order : EntryOrder response.headers} (hsurvives : SurvivesReencoding response order) :
    head.StatusFits := by
  by_contra hfits
  have hfew := count_statusStart hfits hhead
  obtain ⟨context, left, hparse, _, hphrase, _⟩ := hsurvives
  obtain ⟨reread, body, hbytes, hbody⟩ := exists_answerHead_of_accepted hparse
  rw [(hasHead_of_parseBody hbody).statusMessage] at hphrase
  set before := reread.version ++ SP :: (reread.status ++ [SP]) with hbefore
  have hstatusLine : reread.statusLine = before ++ response.statusMessage := by
    simp [AnswerHead.statusLine, hbefore, hphrase]
  -- the line that was read ends no later than the one that was written
  have hshort : before.length ≤ response.statusStart.length := by
    obtain ⟨offset, hle, hfind⟩ := exists_findCRLF_le
      (response.statusStart ++ response.statusMessage)
      (joinLines ((response.writtenHeaders order).map formatLine) ++ CR :: LF ::
        response.body)
    have hfirst := findCRLF_line reread.isLine
      (joinLines reread.lines ++ CR :: LF :: body)
    rw [← AnswerHead.statusLine, ← reread.bytes_append, ← hbytes,
      HttpResponse.appendToBuffer, hfind, hstatusLine] at hfirst
    have hlength := Option.some.inj hfirst
    simp only [List.length_append] at hle hlength
    omega
  have hleft : before <+: response.appendToBuffer order := by
    rw [hbytes, reread.bytes_append, hstatusLine, List.append_assoc]
    exact List.prefix_append _ _
  have hright : response.statusStart <+: response.appendToBuffer order := by
    rw [HttpResponse.appendToBuffer, List.append_assoc]
    exact List.prefix_append _ _
  have hbegins := List.prefix_of_prefix_length_le hleft hright hshort
  have hmany := hbegins.sublist.count_le SP
  have htwo : 2 ≤ before.count SP := by
    simp only [hbefore, List.count_append, List.count_cons_self, List.count_nil]
    omega
  omega

end Reencoding

/-- The start of the status line of an answer fits the buffer in which the
server formats it. -/
def StatusLineFits (bytes : Bytes) : Prop :=
  ∃ head : AnswerHead, ∃ rest, bytes = head.bytes ++ rest ∧ head.StatusFits

def keyOrder (headers : HeaderMap) : EntryOrder headers :=
  ⟨headers.entries, List.Perm.refl _⟩

def greeting : HttpResponse where
  headers := OrderedMap.empty.insert contentLength (ascii "2")
  statusCode := k200Ok
  statusMessage := ascii "OK"
  body := ascii "hi"

def greetingBytes : Bytes := ascii "HTTP/1.1 200 OK\r\nContent-Length: 2\r\n\r\nhi"

/-- The version token of an answer that leaves no room for the status code. -/
def longVersion : Bytes := List.replicate 63 digitOne

def longAnswer : HttpResponse where
  statusCode := k200Ok
  version := longVersion
  statusMessage := ascii "OK"

end Cuber.RoundTrip
