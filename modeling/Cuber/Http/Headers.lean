import Cuber.Core.Maps
import Cuber.Net.Buffer

/-!
# Header fields

Requests and responses store their header fields in a map from field names to
trimmed values, filled line by line.
-/

namespace Cuber.Headers

open Cuber.Buffer
open Cuber.Maps
open Cuber.Text

abbrev HeaderMap := OrderedMap Bytes Bytes

/-- The value stored for a header: the bytes after the colon without the
blanks at either end. -/
def trim (text : Bytes) : Bytes :=
  (text.dropWhile isspace).rdropWhile isspace

def contentLength : Bytes := ascii "Content-Length"

def storeLine (headers : HeaderMap) (line : Bytes) : HeaderMap :=
  match cut colon line with
  | some (field, value) => headers.insert field (trim value)
  | none => headers

def storeLines (headers : HeaderMap) (lines : List Bytes) : HeaderMap :=
  lines.foldl storeLine headers

def valueOf (headers : HeaderMap) (field : Bytes) : Bytes :=
  (headers.find? field).getD []

/-! ## Writing header lines -/

/-- A header as both `appendToBuffer` functions write it, without the CRLF. -/
def formatLine (entry : Bytes × Bytes) : Bytes :=
  entry.1 ++ (ascii ": " ++ entry.2)

/-- A header that reads back as it is written. -/
structure IsCleanEntry (entry : Bytes × Bytes) : Prop where
  field_line : IsLine entry.1
  field_colon : colon ∉ entry.1
  value_line : IsLine entry.2
  value_trim : trim entry.2 = entry.2

/-- A trimmed text begins with no blank. -/
theorem dropWhile_trim (text : Bytes) :
    (trim text).dropWhile isspace = trim text := by
  rw [trim]
  obtain ⟨back, hback⟩ := List.rdropWhile_prefix isspace (l := text.dropWhile isspace)
  cases hcore : (text.dropWhile isspace).rdropWhile isspace with
  | nil => rfl
  | cons head tail =>
      rw [hcore, List.cons_append] at hback
      have hfirst : ¬ isspace head = true := by
        have hidem := List.dropWhile_idempotent isspace (l := text)
        intro hspace
        rw [← hback, List.dropWhile_cons_of_pos hspace] at hidem
        have hlength := congrArg List.length hidem
        have hle := (List.dropWhile_suffix (l := tail ++ back) isspace).length_le
        simp only [List.length_cons] at hlength
        omega
      exact List.dropWhile_cons_of_neg hfirst

theorem trim_trim (text : Bytes) : trim (trim text) = trim text := by
  rw [trim, dropWhile_trim, trim]
  exact List.rdropWhile_idempotent isspace _

theorem trim_eq_self {text : Bytes} (hspaces : ∀ byte ∈ text, isspace byte = false) :
    trim text = text := by
  have hfront : text.dropWhile isspace = text := by
    cases text with
    | nil => rfl
    | cons head tail =>
        exact List.dropWhile_cons_of_neg (by simp [hspaces head (by simp)])
  rw [trim, hfront, List.rdropWhile_eq_self_iff]
  intro hne
  simp [hspaces _ (List.getLast_mem hne)]

theorem trim_cons_of_isspace {byte : Byte} (hspace : isspace byte = true)
    (text : Bytes) : trim (byte :: text) = trim text := by
  rw [trim, List.dropWhile_cons_of_pos hspace, trim]

theorem getLast?_trim_ne {byte : Byte} (hspace : isspace byte = true) (text : Bytes) :
    (trim text).getLast? ≠ some byte := by
  intro hlast
  have hne : trim text ≠ [] := by
    intro hnil
    rw [hnil] at hlast
    cases hlast
  rw [List.getLast?_eq_some_getLast hne, Option.some.injEq] at hlast
  rw [← hlast] at hspace
  exact List.rdropWhile_last_not isspace _ hne hspace

theorem isLine_trim {text : Bytes} (hline : IsLine text) : IsLine (trim text) := by
  obtain ⟨front, hfront⟩ := List.dropWhile_suffix (l := text) isspace
  obtain ⟨back, hback⟩ := List.rdropWhile_prefix isspace (l := text.dropWhile isspace)
  rw [← hfront, ← hback] at hline
  exact hline.right.left

/-- A header whose value has no blanks. -/
theorem isCleanEntry_of_isspace {field value : Bytes} (hfield : IsLine field)
    (hcolon : colon ∉ field) (hspaces : ∀ byte ∈ value, isspace byte = false) :
    IsCleanEntry (field, value) where
  field_line := hfield
  field_colon := hcolon
  value_line := isLine_of_CR_not_mem fun hcr => absurd (hspaces CR hcr) (by decide)
  value_trim := trim_eq_self hspaces

section Entries

variable {entry : Bytes × Bytes} {headers : HeaderMap} {line : Bytes}

theorem isHeaderLine_formatLine (hentry : IsCleanEntry entry) :
    IsHeaderLine (formatLine entry) := by
  have hseparator : ascii ": " = [colon, SP] := rfl
  refine ⟨?_, by simp [formatLine, hseparator]⟩
  rw [formatLine, hseparator, isLine_append_iff, isLine_append_iff]
  refine ⟨hentry.field_line, ⟨by decide, hentry.value_line, ?_⟩, ?_⟩
  · rintro ⟨hlast, _⟩
    exact absurd hlast (by decide)
  · rintro ⟨_, hhead⟩
    exact absurd hhead (by simp [colon, LF])

theorem storeLine_formatLine (hentry : IsCleanEntry entry) (headers : HeaderMap) :
    storeLine headers (formatLine entry) = headers.insert entry.1 entry.2 := by
  have hcut : cut colon (formatLine entry) = some (entry.1, SP :: entry.2) :=
    cut_append hentry.field_colon _
  rw [storeLine, hcut]
  simp only [trim_cons_of_isspace (show isspace SP = true by decide), hentry.value_trim]

theorem storeLines_formatLine {entries : List (Bytes × Bytes)}
    (hentries : ∀ entry ∈ entries, IsCleanEntry entry) (headers : HeaderMap) :
    storeLines headers (entries.map formatLine) = headers.insertAll entries := by
  induction entries generalizing headers with
  | nil => rfl
  | cons entry entries ih =>
      have hfirst := storeLine_formatLine (hentries entry (by simp)) headers
      rw [List.map_cons, storeLines, List.foldl_cons, hfirst]
      exact ih (fun other hother => hentries other (by simp [hother])) _

/-- Every header in the map reads back as it is written. -/
def IsClean (headers : HeaderMap) : Prop :=
  ∀ entry ∈ headers.entries, IsCleanEntry entry

theorem isClean_empty : IsClean OrderedMap.empty := by
  rintro entry ⟨⟩

theorem isClean_insert (hheaders : IsClean headers) (hentry : IsCleanEntry entry) :
    IsClean (headers.insert entry.1 entry.2) := by
  rintro ⟨field, value⟩ hmem
  rw [← OrderedMap.find?_eq_some_iff, OrderedMap.find?_insert] at hmem
  split_ifs at hmem with hfield
  · cases hmem
    rw [hfield]
    exact hentry
  · exact hheaders _ (OrderedMap.find?_eq_some_iff.mp hmem)

/-- A header line is stored as a clean entry. -/
theorem isClean_storeLine (hheaders : IsClean headers) (hline : IsHeaderLine line) :
    IsClean (storeLine headers line) := by
  obtain ⟨hline, hcolon⟩ := hline
  obtain ⟨⟨field, value⟩, hcut⟩ :=
    Option.isSome_iff_exists.mp (cut_isSome_iff.mpr hcolon)
  obtain ⟨rfl, hfield⟩ := cut_eq_some hcut
  rw [storeLine, hcut]
  have hvalue : IsLine ([colon] ++ value) := hline.right
  have hentry : IsCleanEntry (field, trim value) :=
    ⟨hline.left, hfield, isLine_trim hvalue.right, trim_trim value⟩
  exact isClean_insert hheaders hentry

theorem isClean_storeLines {lines : List Bytes} (hheaders : IsClean headers)
    (hlines : ∀ line ∈ lines, IsHeaderLine line) :
    IsClean (storeLines headers lines) := by
  induction lines generalizing headers with
  | nil => exact hheaders
  | cons line lines ih =>
      exact ih (isClean_storeLine hheaders (hlines line (by simp)))
        fun other hother => hlines other (by simp [hother])

/-- The entries of an unordered map in the order in which an iteration meets
them. -/
structure EntryOrder (headers : HeaderMap) where
  entries : List (Bytes × Bytes)
  perm : entries.Perm headers.entries

end Entries

end Cuber.Headers
