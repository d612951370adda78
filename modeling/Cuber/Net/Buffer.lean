import Cuber.Base.Text

/-!
# The readable bytes of a buffer

`Buffer` is a byte queue: data is appended at its end and retrieved from its
front, and the parsers look at the readable bytes only.  A buffer is therefore
modelled by the list of its readable bytes; `append` is list append and
`retrieve` drops a prefix.

The second half describes how a byte string splits into lines terminated by
CRLF.  A header section is a run of lines that contain a colon, and
`exists_headerSection` says how far such a run can reach.
-/

namespace Cuber.Buffer

open Cuber.Text

def findCRLF : Bytes → Option ℕ
  | [] => none
  | head :: tail =>
      if head = CR ∧ tail.head? = some LF then some 0
      else (findCRLF tail).map (· + 1)

def retrieve (buffer : Bytes) (length : ℕ) : Bytes :=
  buffer.drop length

/-- A line that can stand in front of a CRLF. -/
def IsLine (line : Bytes) : Prop :=
  findCRLF line = none

instance (line : Bytes) : Decidable (IsLine line) :=
  inferInstanceAs (Decidable (_ = _))

theorem isLine_nil : IsLine [] := rfl

/-- The first CRLF ends the first line. -/
theorem findCRLF_line {line : Bytes} (hline : IsLine line) (rest : Bytes) :
    findCRLF (line ++ CR :: LF :: rest) = some line.length := by
  induction line with
  | nil => simp [findCRLF]
  | cons head tail ih =>
      rw [IsLine, findCRLF] at hline
      split_ifs at hline with hcrlf
      have htail : IsLine tail := Option.map_eq_none_iff.mp hline
      rw [List.cons_append, findCRLF, if_neg, ih htail]
      · simp
      · rintro ⟨hhead, hnext⟩
        cases tail with
        | nil => simp [CR, LF] at hnext
        | cons second tail => exact hcrlf ⟨hhead, hnext⟩

/-- The first CRLF ends a line, and every line followed by CRLF is found. -/
theorem findCRLF_eq_some_iff {buffer : Bytes} {offset : ℕ} :
    findCRLF buffer = some offset ↔
      ∃ line rest, buffer = line ++ CR :: LF :: rest ∧ IsLine line ∧
        line.length = offset := by
  constructor
  · intro hfind
    induction buffer generalizing offset with
    | nil => simp [findCRLF] at hfind
    | cons head tail ih =>
        rw [findCRLF] at hfind
        split_ifs at hfind with hcrlf
        · obtain ⟨rfl, hnext⟩ := hcrlf
          obtain ⟨rest, rfl⟩ := List.head?_eq_some_iff.mp hnext
          cases hfind
          exact ⟨[], rest, rfl, isLine_nil, rfl⟩
        · obtain ⟨offset', hfind', rfl⟩ := Option.map_eq_some_iff.mp hfind
          obtain ⟨line, rest, rfl, hline, rfl⟩ := ih hfind'
          refine ⟨head :: line, rest, rfl, ?_, rfl⟩
          rw [IsLine, findCRLF, if_neg, Option.map_eq_none_iff]
          · exact hline
          · rintro ⟨hhead, hnext⟩
            refine hcrlf ⟨hhead, ?_⟩
            cases line with
            | nil => simp at hnext
            | cons second line => exact hnext
  · rintro ⟨line, rest, rfl, hline, rfl⟩
    exact findCRLF_line hline rest

/-- The first CRLF is not behind any other one. -/
theorem exists_findCRLF_le (front rest : Bytes) :
    ∃ offset, offset ≤ front.length ∧
      findCRLF (front ++ CR :: LF :: rest) = some offset := by
  induction front with
  | nil => exact ⟨0, le_rfl, by simp [findCRLF]⟩
  | cons head tail ih =>
      obtain ⟨offset, hle, hfind⟩ := ih
      rw [List.cons_append, findCRLF]
      split_ifs with hcrlf
      · exact ⟨0, Nat.zero_le _, rfl⟩
      · exact ⟨offset + 1, Nat.succ_le_succ hle, by rw [hfind]; rfl⟩

/-- A buffer is an unfinished line or starts with a finished one. -/
theorem line_cases (buffer : Bytes) :
    IsLine buffer ∨
      ∃ line rest, buffer = line ++ CR :: LF :: rest ∧ IsLine line := by
  cases hfind : findCRLF buffer with
  | none => exact Or.inl hfind
  | some offset =>
      obtain ⟨line, rest, hbuffer, hline, _⟩ := findCRLF_eq_some_iff.mp hfind
      exact Or.inr ⟨line, rest, hbuffer, hline⟩

theorem isLine_cons_iff {head : Byte} {tail : Bytes} :
    IsLine (head :: tail) ↔
      ¬ (head = CR ∧ tail.head? = some LF) ∧ IsLine tail := by
  rw [IsLine, findCRLF]
  split_ifs with hcrlf
  · simp [hcrlf]
  · simp [hcrlf, IsLine]

theorem isLine_of_CR_not_mem {line : Bytes} (hcr : CR ∉ line) : IsLine line := by
  induction line with
  | nil => rfl
  | cons head tail ih =>
      rw [List.mem_cons, not_or] at hcr
      rw [isLine_cons_iff]
      exact ⟨fun hcrlf => hcr.1 hcrlf.1.symm, ih hcr.2⟩

/-- Two pieces form a line unless one of them has a CRLF or one comes about
where they meet. -/
theorem isLine_append_iff {front back : Bytes} :
    IsLine (front ++ back) ↔
      IsLine front ∧ IsLine back ∧
        ¬ (front.getLast? = some CR ∧ back.head? = some LF) := by
  induction front with
  | nil => simp [isLine_nil]
  | cons head tail ih =>
      rw [List.cons_append, isLine_cons_iff, ih, isLine_cons_iff]
      cases tail with
      | nil =>
          simp [isLine_nil]
          tauto
      | cons second tail =>
          simp only [List.cons_append, List.head?_cons, List.getLast?_cons_cons]
          tauto

theorem IsLine.left {front back : Bytes} (hline : IsLine (front ++ back)) :
    IsLine front :=
  (isLine_append_iff.mp hline).1

theorem IsLine.right {front back : Bytes} (hline : IsLine (front ++ back)) :
    IsLine back :=
  (isLine_append_iff.mp hline).2.1

@[simp]
theorem retrieve_line (line rest : Bytes) :
    retrieve (line ++ CR :: LF :: rest) (line.length + 2) = rest := by
  simp [retrieve, List.drop_append]

@[simp]
theorem length_retrieve (buffer : Bytes) (length : ℕ) :
    (retrieve buffer length).length = buffer.length - length :=
  List.length_drop

/-! ## Sections of lines -/

def joinLines (lines : List Bytes) : Bytes :=
  lines.flatMap fun line => line ++ [CR, LF]

@[simp]
theorem joinLines_nil : joinLines [] = [] := rfl

theorem joinLines_cons_append (line : Bytes) (lines : List Bytes) (rest : Bytes) :
    joinLines (line :: lines) ++ rest =
      line ++ CR :: LF :: (joinLines lines ++ rest) := by
  simp [joinLines]

theorem joinLines_append (lines more : List Bytes) :
    joinLines (lines ++ more) = joinLines lines ++ joinLines more :=
  List.flatMap_append

/-- A line of a message head, as opposed to the blank line that ends it. -/
def IsHeadLine (line : Bytes) : Prop :=
  IsLine line ∧ line ≠ []

/-- The first line of a text is determined by it. -/
theorem line_unique {line line' rest rest' : Bytes} (hline : IsLine line)
    (hline' : IsLine line')
    (heq : line ++ CR :: LF :: rest = line' ++ CR :: LF :: rest') :
    line = line' ∧ rest = rest' := by
  have hfind := findCRLF_line hline rest
  rw [heq, findCRLF_line hline' rest'] at hfind
  have hlength : line.length = line'.length := (Option.some.inj hfind).symm
  obtain ⟨hfirst, hrest⟩ := List.append_inj heq hlength
  exact ⟨hfirst, by simpa using hrest⟩

/-- A message has one head and one body: the head ends at the first blank
line. -/
theorem head_unique {lines lines' : List Bytes} {body body' : Bytes}
    (hlines : ∀ line ∈ lines, IsHeadLine line)
    (hlines' : ∀ line ∈ lines', IsHeadLine line)
    (heq : joinLines lines ++ CR :: LF :: body = joinLines lines' ++ CR :: LF :: body') :
    lines = lines' ∧ body = body' := by
  induction lines generalizing lines' with
  | nil =>
      cases lines' with
      | nil => simpa using heq
      | cons line' lines' =>
          have hline' := hlines' line' (by simp)
          rw [joinLines_cons_append] at heq
          exact absurd (line_unique isLine_nil hline'.1 heq).1.symm hline'.2
  | cons line lines ih =>
      have hline := hlines line (by simp)
      rw [joinLines_cons_append] at heq
      cases lines' with
      | nil => exact absurd (line_unique hline.1 isLine_nil heq).1 hline.2
      | cons line' lines' =>
          rw [joinLines_cons_append] at heq
          obtain ⟨rfl, hrest⟩ := line_unique hline.1 (hlines' line' (by simp)).1 heq
          obtain ⟨rfl, rfl⟩ := ih (fun other hother => hlines other (by simp [hother]))
            (fun other hother => hlines' other (by simp [hother])) hrest
          exact ⟨rfl, rfl⟩

def IsHeaderLine (line : Bytes) : Prop :=
  IsLine line ∧ colon ∈ line

instance (line : Bytes) : Decidable (IsHeaderLine line) :=
  inferInstanceAs (Decidable (_ ∧ _))

def IsMalformedHeader (line : Bytes) : Prop :=
  IsLine line ∧ line ≠ [] ∧ colon ∉ line

theorem header_cases {line : Bytes} (hline : IsLine line) :
    IsHeaderLine line ∨ line = [] ∨ IsMalformedHeader line := by
  by_cases hcolon : colon ∈ line
  · exact Or.inl ⟨hline, hcolon⟩
  · by_cases hblank : line = []
    · exact Or.inr (Or.inl hblank)
    · exact Or.inr (Or.inr ⟨hline, hblank, hcolon⟩)

/-- A buffer read as header lines: after the longest run of header lines there
is an unfinished line, the blank line that ends the section, or a line without
a colon. -/
theorem exists_headerSection (buffer : Bytes) :
    ∃ lines rest, buffer = joinLines lines ++ rest ∧
      (∀ line ∈ lines, IsHeaderLine line) ∧
      (IsLine rest ∨ (∃ tail, rest = CR :: LF :: tail) ∨
        ∃ line tail, rest = line ++ CR :: LF :: tail ∧ IsMalformedHeader line) := by
  induction hlength : buffer.length using Nat.strong_induction_on
    generalizing buffer with
  | _ bound ih =>
      rcases line_cases buffer with hline | ⟨line, tail, rfl, hline⟩
      · exact ⟨[], buffer, rfl, by simp, Or.inl hline⟩
      · rcases header_cases hline with hheader | rfl | hmalformed
        · have hshort : tail.length < bound := by
            rw [← hlength]
            simp
            omega
          obtain ⟨lines, rest, rfl, hlines, hrest⟩ := ih _ hshort tail rfl
          refine ⟨line :: lines, rest, (joinLines_cons_append _ _ _).symm, ?_, hrest⟩
          intro other hother
          rcases List.mem_cons.mp hother with rfl | hother
          · exact hheader
          · exact hlines other hother
        · exact ⟨[], _, rfl, by simp, Or.inr (Or.inl ⟨tail, rfl⟩)⟩
        · exact ⟨[], _, rfl, by simp, Or.inr (Or.inr ⟨line, tail, rfl, hmalformed⟩)⟩

end Cuber.Buffer
