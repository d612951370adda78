import Cuber.Http.RoundTrip

/-!
# Responses that say where they end

A client that keeps its connection open needs the length of the body in the
head.  `HttpResponse::appendToBuffer` writes a stored length as it is and adds
one only to a body that is not empty.  This module works out which lines a
response is written as, and when they state its length.
-/

namespace Cuber.Delimiting

open Cuber.Acceptance
open Cuber.Buffer
open Cuber.Headers
open Cuber.Maps
open Cuber.Response
open Cuber.RoundTrip
open Cuber.Text

/-- A header line that states a body of so many bytes. -/
def StatesLength (length : ℕ) (line : Bytes) : Prop :=
  (entryOf line).1 = contentLength ∧ IsDecimal (entryOf line).2 ∧
    decimalValue (entryOf line).2 = length

/-- A message whose head, from the second line to the first blank line, states
the number of bytes that follow the blank line. -/
def SelfDelimiting (bytes : Bytes) : Prop :=
  ∃ first lines body, bytes = joinLines (first :: lines) ++ CR :: LF :: body ∧
    (∀ line ∈ first :: lines, IsHeadLine line) ∧
    ∃ line ∈ lines, StatesLength body.length line

/-- A message with nothing after its first blank line. -/
def EndsAtBlankLine (bytes : Bytes) : Prop :=
  ∃ lines, bytes = joinLines lines ++ [CR, LF] ∧ ∀ line ∈ lines, IsHeadLine line

theorem entryOf_formatLine {entry : Bytes × Bytes} (hentry : IsCleanEntry entry) :
    entryOf (formatLine entry) = entry := by
  have hline : formatLine entry = entry.1 ++ colon :: (SP :: entry.2) := rfl
  rw [entryOf, hline, takeWhile_ne_append hentry.field_colon,
    dropWhile_ne_append hentry.field_colon, List.tail_cons,
    trim_cons_of_isspace (by decide), hentry.value_trim]

theorem isHeadLine_formatLine {entry : Bytes × Bytes} (hentry : IsCleanEntry entry) :
    IsHeadLine (formatLine entry) := by
  obtain ⟨hline, hcolon⟩ := isHeaderLine_formatLine hentry
  exact ⟨hline, List.ne_nil_of_mem hcolon⟩

/-! ## The lines of a response -/

section Lines

variable (response : HttpResponse)

/-- The lines that the status line comes out as.  It is broken in two when the
start of it was cut off behind a CR and the reason phrase begins with LF. -/
def statusLines : List Bytes :=
  if response.statusStart.getLast? = some CR ∧ response.statusMessage.head? = some LF then
    [response.statusStart.dropLast, response.statusMessage.tail]
  else [response.statusStart ++ response.statusMessage]

/-- The header lines as they are written. -/
def headerLines (order : EntryOrder response.headers) : List Bytes :=
  (response.writtenHeaders order).map formatLine

/-- A response has the length of its body in its headers, or will be given
it. -/
def HasLength : Prop :=
  response.headers.find? contentLength = none ∧ response.body ≠ [] ∨
    ∃ text, response.headers.find? contentLength = some text ∧ IsDecimal text ∧
      decimalValue text = response.body.length

variable {response}

theorem appendToBuffer_eq_joinLines (order : EntryOrder response.headers) :
    response.appendToBuffer order =
      joinLines (statusLines response ++ headerLines response order) ++
        CR :: LF :: response.body := by
  rw [joinLines_append, HttpResponse.appendToBuffer, statusLines, headerLines]
  split_ifs with hbroken
  · obtain ⟨front, hfront⟩ := List.getLast?_eq_some_iff.mp hbroken.1
    obtain ⟨phrase, hphrase⟩ := List.head?_eq_some_iff.mp hbroken.2
    simp [hfront, hphrase, joinLines]
  · simp [joinLines]

variable (response) in
theorem three_le_length_statusStart : 3 ≤ response.statusStart.length := by
  have hcode : 0 < (intText response.statusCode).length := by
    have hdigits := List.length_pos_of_ne_nil
      (isDecimal_decimalText response.statusCode.natAbs).1
    rw [intText]
    split_ifs
    · simp
    · exact hdigits
  simp only [HttpResponse.statusStart, List.length_take, List.length_append,
    List.length_cons, List.length_nil]
  omega

/-- The status line is one line if its parts are. -/
theorem isLine_of_mem_statusLines (hstart : IsLine response.statusStart)
    (hmessage : IsLine response.statusMessage) :
    ∀ line ∈ statusLines response, IsLine line := by
  rw [statusLines]
  split_ifs with hbroken
  · obtain ⟨front, hfront⟩ := List.getLast?_eq_some_iff.mp hbroken.1
    obtain ⟨phrase, hphrase⟩ := List.head?_eq_some_iff.mp hbroken.2
    rw [hfront] at hstart
    rw [hphrase] at hmessage
    simp only [hfront, hphrase, List.dropLast_concat, List.tail_cons, List.mem_cons,
      List.not_mem_nil, or_false, forall_eq_or_imp, forall_eq]
    exact ⟨hstart.left, (isLine_cons_iff.mp hmessage).2⟩
  · simp only [List.mem_singleton, forall_eq]
    rw [isLine_append_iff]
    exact ⟨hstart, hmessage, hbroken⟩

variable (response) in
theorem exists_statusLines_eq_cons :
    ∃ first, first ≠ [] ∧ statusLines response = first :: (statusLines response).tail := by
  have hlength := three_le_length_statusStart response
  rw [statusLines]
  split_ifs
  · refine ⟨_, List.ne_nil_of_length_pos ?_, rfl⟩
    rw [List.length_dropLast]
    omega
  · refine ⟨_, List.ne_nil_of_length_pos ?_, rfl⟩
    rw [List.length_append]
    omega

theorem isHeadLine_of_mem_headerLines (hclean : IsClean response.headers)
    (order : EntryOrder response.headers) :
    ∀ line ∈ headerLines response order, IsHeadLine line := by
  intro line hline
  obtain ⟨entry, hentry, rfl⟩ := List.mem_map.mp hline
  exact isHeadLine_formatLine (isCleanEntry_writtenHeaders hclean order entry hentry)

/-- The header lines state the length exactly when the response has it or is
given it. -/
theorem exists_statesLength_headerLines_iff (hclean : IsClean response.headers)
    (order : EntryOrder response.headers) :
    (∃ line ∈ headerLines response order, StatesLength response.body.length line) ↔
      HasLength response := by
  have hentries : (∃ line ∈ headerLines response order,
        StatesLength response.body.length line) ↔
      ∃ text, (contentLength, text) ∈ response.writtenHeaders order ∧ IsDecimal text ∧
        decimalValue text = response.body.length := by
    constructor
    · rintro ⟨line, hline, hlength⟩
      obtain ⟨⟨field, text⟩, hentry, rfl⟩ := List.mem_map.mp hline
      rw [StatesLength, entryOf_formatLine
        (isCleanEntry_writtenHeaders hclean order _ hentry)] at hlength
      obtain ⟨rfl, htext⟩ := hlength
      exact ⟨text, hentry, htext⟩
    · rintro ⟨text, hentry, htext⟩
      refine ⟨_, List.mem_map_of_mem hentry, ?_⟩
      rw [StatesLength, entryOf_formatLine
        (isCleanEntry_writtenHeaders hclean order _ hentry)]
      exact ⟨rfl, htext⟩
  have hstored : ∀ text, (contentLength, text) ∈ order.entries ↔
      response.headers.find? contentLength = some text := by
    intro text
    rw [order.perm.mem_iff, OrderedMap.find?_eq_some_iff]
  rw [hentries, HttpResponse.writtenHeaders, HasLength]
  split_ifs with hadded
  · refine ⟨fun _ => Or.inl ⟨hadded.2, hadded.1⟩, fun _ => ?_⟩
    exact ⟨_, List.mem_cons_self, isDecimal_decimalText _, decimalValue_decimalText _⟩
  · simp only [hstored]
    constructor
    · exact Or.inr
    · rintro (⟨hnone, hbody⟩ | htext)
      · exact absurd ⟨hbody, hnone⟩ hadded
      · exact htext

theorem isHeadLine_of_mem_lines (hclean : IsClean response.headers)
    (hstart : IsLine response.statusStart) (hmessage : IsLine response.statusMessage)
    (hblank : [] ∉ statusLines response) (order : EntryOrder response.headers) :
    ∀ line ∈ statusLines response ++ headerLines response order, IsHeadLine line := by
  intro line hline
  rcases List.mem_append.mp hline with hstatus | hheader
  · refine ⟨isLine_of_mem_statusLines hstart hmessage line hstatus, ?_⟩
    rintro rfl
    exact hblank hstatus
  · exact isHeadLine_of_mem_headerLines hclean order line hheader

variable (response) in
/-- The lines between the first line of a response and its first blank line. -/
def linesAfterFirst (order : EntryOrder response.headers) : List Bytes :=
  if [] ∈ statusLines response then []
  else (statusLines response).tail ++ headerLines response order

/-- The head of a written response.  When the second half of a broken status line
is empty, it is the blank line. -/
theorem exists_head_appendToBuffer (hclean : IsClean response.headers)
    (hstart : IsLine response.statusStart) (hmessage : IsLine response.statusMessage)
    (order : EntryOrder response.headers) :
    ∃ first body, response.appendToBuffer order =
        joinLines (first :: linesAfterFirst response order) ++ CR :: LF :: body ∧
      (∀ line ∈ first :: linesAfterFirst response order, IsHeadLine line) ∧
      ([] ∉ statusLines response → body = response.body) := by
  obtain ⟨first, hfirst, hlines⟩ := exists_statusLines_eq_cons response
  have hisLine := isLine_of_mem_statusLines hstart hmessage
  rw [appendToBuffer_eq_joinLines, linesAfterFirst]
  by_cases hblank : [] ∈ statusLines response
  · have hbroken : statusLines response = [first, []] := by
      rw [statusLines] at hlines hblank ⊢
      split_ifs at hlines hblank ⊢
      · rw [List.tail_cons] at hlines
        simp_all
      · simp_all
    refine ⟨first, joinLines (headerLines response order) ++ CR :: LF :: response.body,
      ?_, ?_, absurd hblank⟩
    · rw [if_pos hblank, hbroken]
      simp [joinLines]
    · rw [if_pos hblank]
      simp only [List.mem_singleton, forall_eq]
      exact ⟨hisLine first (by rw [hlines]; simp), hfirst⟩
  · have hall := isHeadLine_of_mem_lines hclean hstart hmessage hblank order
    rw [hlines, List.cons_append] at hall
    refine ⟨first, response.body, ?_, ?_, fun _ => rfl⟩
    · rw [if_neg hblank, ← List.cons_append, ← hlines]
    · rwa [if_neg hblank]

/-- When a written response is self-delimiting: its status line must not bring
about a blank line, and the length is stated in its headers or in the second
half of a broken status line. -/
theorem selfDelimiting_appendToBuffer_iff (hclean : IsClean response.headers)
    (hstart : IsLine response.statusStart) (hmessage : IsLine response.statusMessage)
    (order : EntryOrder response.headers) :
    SelfDelimiting (response.appendToBuffer order) ↔
      [] ∉ statusLines response ∧
        ((∃ line ∈ (statusLines response).tail,
            StatesLength response.body.length line) ∨
          HasLength response) := by
  obtain ⟨first, body, hbytes, hhead, hbody⟩ :=
    exists_head_appendToBuffer hclean hstart hmessage order
  have hstates : SelfDelimiting (response.appendToBuffer order) ↔
      ∃ line ∈ linesAfterFirst response order, StatesLength body.length line := by
    constructor
    · rintro ⟨other, lines, body', hbytes', hhead', hline⟩
      obtain ⟨heq, rfl⟩ := head_unique hhead hhead' (hbytes.symm.trans hbytes')
      rw [List.cons.injEq] at heq
      rwa [heq.2]
    · intro hline
      exact ⟨first, _, body, hbytes, hhead, hline⟩
  rw [hstates, ← exists_statesLength_headerLines_iff hclean order, linesAfterFirst]
  by_cases hblank : [] ∈ statusLines response
  · simp [hblank]
  · rw [if_neg hblank, hbody hblank]
    simp only [hblank, not_false_iff, true_and, List.mem_append, or_and_right, exists_or]

/-- A response with an unbroken status line ends at the blank line exactly when
it has no body. -/
theorem endsAtBlankLine_appendToBuffer_iff (hclean : IsClean response.headers)
    (hstart : IsLine response.statusStart) (hmessage : IsLine response.statusMessage)
    (hblank : [] ∉ statusLines response) (order : EntryOrder response.headers) :
    EndsAtBlankLine (response.appendToBuffer order) ↔ response.body = [] := by
  have hall := isHeadLine_of_mem_lines hclean hstart hmessage hblank order
  rw [appendToBuffer_eq_joinLines]
  constructor
  · rintro ⟨lines, hbytes, hlines⟩
    exact (head_unique hall hlines hbytes).2
  · intro hbody
    rw [hbody]
    exact ⟨_, rfl, hall⟩

end Lines

end Cuber.Delimiting
