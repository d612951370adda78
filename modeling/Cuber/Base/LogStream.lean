import Cuber.Base.Text

/-!
# Log streams

A record is put together in a buffer of fixed size.  A text is appended if a byte
is left free behind it, and a number if there is room for the longest one; what
does not fit is left out, and what comes next may still be appended.
-/

namespace Cuber.LogStreams

open Cuber.Text

def kSmallBuffer : ℕ := 4000
def kLargeBuffer : ℕ := 4000 * 1000
def kMaxNumericSize : ℕ := 44

structure FixedBuffer (size : ℕ) where
  data : Bytes
  fits : data.length ≤ size
  deriving DecidableEq

namespace FixedBuffer

variable {size : ℕ}

def new : FixedBuffer size := ⟨[], Nat.zero_le size⟩

def avail (buffer : FixedBuffer size) : ℕ := size - buffer.data.length

def reset (_buffer : FixedBuffer size) : FixedBuffer size := new

theorem fits_append {buffer : FixedBuffer size} {text : Bytes}
    (hroom : text.length ≤ buffer.avail) : (buffer.data ++ text).length ≤ size := by
  have hfits := buffer.fits
  rw [avail] at hroom
  rw [List.length_append]
  omega

def append (buffer : FixedBuffer size) (text : Bytes) : FixedBuffer size :=
  if hroom : buffer.avail > text.length then
    ⟨buffer.data ++ text, fits_append (Nat.le_of_lt hroom)⟩
  else buffer

theorem data_append (buffer : FixedBuffer size) (text : Bytes) :
    (buffer.append text).data =
      if buffer.avail > text.length then buffer.data ++ text else buffer.data := by
  rw [append]
  split_ifs <;> rfl

theorem data_append_of_lt {buffer : FixedBuffer size} {text : Bytes}
    (hroom : text.length < buffer.avail) : (buffer.append text).data = buffer.data ++ text := by
  rw [data_append, if_pos hroom]

@[simp]
theorem data_new : (new : FixedBuffer size).data = [] := rfl

end FixedBuffer

/-! ## Streams -/

abbrev LogStream := FixedBuffer kSmallBuffer

/-- No `int` is too long for the room that `formatInteger` asks for. -/
theorem length_intText_le (value : Int32) :
    (intText value.toInt).length ≤ kMaxNumericSize := by
  have hlow := value.le_toInt
  have hhigh := value.toInt_lt
  have hdigits : (decimalText value.toInt.natAbs).length ≤ 10 := by
    apply length_decimalText_le (by decide)
    omega
  rw [intText]
  split_ifs
  · rw [List.length_cons, kMaxNumericSize]
    omega
  · rw [kMaxNumericSize]
    omega

def formatInteger (stream : LogStream) (value : Int32) : LogStream :=
  if hroom : stream.avail ≥ kMaxNumericSize then
    ⟨stream.data ++ intText value.toInt,
      FixedBuffer.fits_append ((length_intText_le value).trans hroom)⟩
  else stream

inductive Piece where
  | text (content : Bytes)
  | number (value : Int32)

namespace Piece

def bytes : Piece → Bytes
  | .text content => content
  | .number value => intText value.toInt

def need : Piece → ℕ
  | .text content => content.length + 1
  | .number _ => kMaxNumericSize

end Piece

def put (stream : LogStream) : Piece → LogStream
  | .text content => stream.append content
  | .number value => formatInteger stream value

def write (stream : LogStream) (pieces : List Piece) : LogStream :=
  pieces.foldl put stream

/-- How far a stream is filled by pieces, by their lengths alone. -/
def used (start : ℕ) (pieces : List Piece) : ℕ :=
  pieces.foldl (fun length piece =>
    if length + piece.need ≤ kSmallBuffer then length + piece.bytes.length else length) start

section Pieces

variable {stream : LogStream} {byte : Byte} {pieces : List Piece}

/-- A piece is added if there is room for what it needs. -/
theorem data_put (stream : LogStream) (piece : Piece) :
    (put stream piece).data =
      if stream.data.length + piece.need ≤ kSmallBuffer then stream.data ++ piece.bytes
      else stream.data := by
  have hfits := stream.fits
  cases piece with
  | text content =>
      have hroom : stream.avail > content.length ↔
          stream.data.length + (Piece.text content).need ≤ kSmallBuffer := by
        rw [FixedBuffer.avail, Piece.need]
        omega
      simp only [put, FixedBuffer.data_append, hroom, Piece.bytes]
  | number value =>
      have hroom : stream.avail ≥ kMaxNumericSize ↔
          stream.data.length + (Piece.number value).need ≤ kSmallBuffer := by
        rw [FixedBuffer.avail, Piece.need]
        omega
      simp only [put, formatInteger, ← hroom, Piece.bytes]
      split_ifs <;> rfl

theorem mem_put_iff (piece : Piece) :
    byte ∈ (put stream piece).data ↔ byte ∈ stream.data ∨
      stream.data.length + piece.need ≤ kSmallBuffer ∧ byte ∈ piece.bytes := by
  rw [data_put]
  split_ifs with hroom
  · simp [hroom]
  · simp [hroom]

theorem write_cons (stream : LogStream) (piece : Piece) (pieces : List Piece) :
    write stream (piece :: pieces) = write (put stream piece) pieces := rfl

theorem write_append (stream : LogStream) (front back : List Piece) :
    write stream (front ++ back) = write (write stream front) back :=
  List.foldl_append

theorem write_concat (stream : LogStream) (pieces : List Piece) (piece : Piece) :
    write stream (pieces ++ [piece]) = put (write stream pieces) piece :=
  List.foldl_concat put stream piece pieces

theorem length_write (stream : LogStream) (pieces : List Piece) :
    (write stream pieces).data.length = used stream.data.length pieces := by
  induction pieces generalizing stream with
  | nil => rfl
  | cons piece pieces ih =>
      rw [write_cons, ih, used, used, List.foldl_cons, data_put]
      split_ifs <;> simp

/-- Pieces without a byte leave it to those before. -/
theorem mem_write_iff (hclean : ∀ piece ∈ pieces, byte ∉ piece.bytes) :
    byte ∈ (write stream pieces).data ↔ byte ∈ stream.data := by
  induction pieces generalizing stream with
  | nil => rfl
  | cons piece pieces ih =>
      have hpiece := hclean piece (by simp)
      rw [write_cons, ih fun other hother => hclean other (by simp [hother]), mem_put_iff]
      simp [hpiece]

/-- A stream does not end in a byte in which no piece does. -/
theorem getLast?_write_ne (hstream : stream.data.getLast? ≠ some byte)
    (hpieces : ∀ piece ∈ pieces, piece.bytes.getLast? ≠ some byte) :
    (write stream pieces).data.getLast? ≠ some byte := by
  induction pieces generalizing stream with
  | nil => exact hstream
  | cons piece pieces ih =>
      rw [write_cons]
      apply ih _ fun other hother => hpieces other (by simp [hother])
      rw [data_put]
      split_ifs with hroom
      · have hpiece := hpieces piece (by simp)
        cases hlast : piece.bytes.getLast? with
        | none =>
            rw [List.getLast?_eq_none_iff.mp hlast, List.append_nil]
            exact hstream
        | some last =>
            rw [List.getLast?_append, hlast]
            rw [hlast] at hpiece
            exact hpiece
      · exact hstream

end Pieces

end Cuber.LogStreams
