import Cuber.Core.Refinement
import Cuber.Net.Buffer

/-!
# The storage of a buffer

`Buffer` keeps its readable bytes between two indices into a vector.  Bytes
are retrieved by moving the first index, and appended in front of the end of
the vector; where there is no room left the bytes are moved to the front, or
the vector grows.

Sizes are 64-bit numbers and their sums wrap.  `refines_iff_fits` says when the
operations do what they do to a list of bytes.
-/

namespace Cuber.BufferStorage

open Cuber.Execution
open Cuber.Refinement
open Cuber.Runs
open Cuber.Text

/-! ## Sizes -/

def sizeValues : ℕ := 2 ^ 64

def maxSize : ℕ := 2 ^ 63 - 1

def sizeAdd (left right : ℕ) : ℕ := (left + right) % sizeValues

def sizeSub (left right : ℕ) : ℕ := (left + sizeValues - right) % sizeValues

def intSizes : ℕ := 2 ^ 31

def toInt (size : ℕ) : ℤ :=
  if size % (2 * intSizes) < intSizes then (size % (2 * intSizes) : ℕ)
  else (size % (2 * intSizes) : ℕ) - (2 * intSizes : ℕ)

def ofInt (value : ℤ) : ℕ := (value % sizeValues).toNat

theorem sizeAdd_of_lt {left right : ℕ} (hlt : left + right < sizeValues) :
    sizeAdd left right = left + right :=
  Nat.mod_eq_of_lt hlt

theorem sizeSub_of_le {left right : ℕ} (hle : right ≤ left) (hlt : left < sizeValues) :
    sizeSub left right = left - right := by
  rw [sizeSub, show left + sizeValues - right = (left - right) + sizeValues by omega,
    Nat.add_mod_right]
  exact Nat.mod_eq_of_lt (by omega)

theorem ofInt_toInt_of_lt {size : ℕ} (hlt : size < intSizes) : ofInt (toInt size) = size := by
  have hmod : size % (2 * intSizes) = size := Nat.mod_eq_of_lt (by omega)
  have hvalues : size < sizeValues := hlt.trans (by decide)
  rw [toInt, hmod, if_pos hlt, ofInt, Int.emod_eq_of_lt (by omega) (by omega)]
  exact Int.toNat_natCast size

/-- Whatever the size, the result is one that an `int` can hold, or larger than any vector. -/
theorem ofInt_toInt_cases (size : ℕ) :
    ofInt (toInt size) < intSizes ∨ maxSize < ofInt (toInt size) := by
  have hvalues : 4 * intSizes ≤ sizeValues := by decide
  have hmax : maxSize + 2 * intSizes ≤ sizeValues := by decide
  have hmod : size % (2 * intSizes) < 2 * intSizes := Nat.mod_lt _ (by decide)
  rw [toInt]
  split_ifs with hhalf
  · left
    rw [ofInt, Int.emod_eq_of_lt (by omega) (by omega)]
    omega
  · right
    rw [ofInt, ← Int.add_emod_right, Int.emod_eq_of_lt (by omega) (by omega)]
    omega

theorem ofInt_lt (value : ℤ) : ofInt value < sizeValues := by
  have hpos : 0 < sizeValues := by decide
  have hlt := Int.emod_lt_of_pos value (Int.natCast_pos.mpr hpos)
  rw [ofInt]
  omega

/-! ## Operations -/

inductive BufferFault where
  | assertionFailed
  /-- The vector would be longer than it can be. -/
  | lengthError
  /-- A copy that leaves the memory it is about. -/
  | outOfBounds
  deriving DecidableEq

structure Buffer where
  buffer : Bytes
  readerIndex : ℕ
  writerIndex : ℕ
  deriving DecidableEq

def kCheapPrepend : ℕ := 8
def kInitialSize : ℕ := 1024

namespace Buffer

def new (initialSize : ℕ) : Buffer where
  buffer := List.replicate (kCheapPrepend + initialSize) NUL
  readerIndex := kCheapPrepend
  writerIndex := kCheapPrepend

def readableBytes (buffer : Buffer) : ℕ := sizeSub buffer.writerIndex buffer.readerIndex

def writableBytes (buffer : Buffer) : ℕ := sizeSub buffer.buffer.length buffer.writerIndex

def prependableBytes (buffer : Buffer) : ℕ := buffer.readerIndex

/-- The memory from the first readable byte on. -/
def peek (buffer : Buffer) : Bytes := buffer.buffer.drop buffer.readerIndex

def store (buffer : Buffer) (offset : ℕ) (data : Bytes) : Exec BufferFault Buffer :=
  if offset + data.length ≤ buffer.buffer.length then
    .ret { buffer with
      buffer := buffer.buffer.take offset ++ data ++
        buffer.buffer.drop (offset + data.length) }
  else .fault .outOfBounds

def load (source : Bytes) (length : ℕ) : Exec BufferFault Bytes :=
  if length ≤ source.length then .ret (source.take length) else .fault .outOfBounds

def resize (buffer : Buffer) (size : ℕ) : Exec BufferFault Buffer :=
  if size ≤ maxSize then
    .ret { buffer with
      buffer := buffer.buffer.take size ++ List.replicate (size - buffer.buffer.length) NUL }
  else .fault .lengthError

def retrieveAll (buffer : Buffer) : Buffer :=
  { buffer with readerIndex := kCheapPrepend, writerIndex := kCheapPrepend }

def retrieve (buffer : Buffer) (length : ℕ) : Exec BufferFault Buffer :=
  if length ≤ buffer.readableBytes then
    if length < buffer.readableBytes then
      .ret { buffer with readerIndex := sizeAdd buffer.readerIndex length }
    else .ret buffer.retrieveAll
  else .fault .assertionFailed

/-- `stop` is the index of the end of what is retrieved. -/
def retrieveUntil (buffer : Buffer) (stop : ℕ) : Exec BufferFault Buffer :=
  if buffer.readerIndex ≤ stop then
    if stop ≤ buffer.writerIndex then buffer.retrieve (sizeSub stop buffer.readerIndex)
    else .fault .assertionFailed
  else .fault .assertionFailed

def retrieveAsString (buffer : Buffer) (length : ℕ) : Exec BufferFault (Bytes × Buffer) :=
  if length ≤ buffer.readableBytes then
    (load buffer.peek length).bind fun result =>
      (buffer.retrieve length).bind fun buffer => .ret (result, buffer)
  else .fault .assertionFailed

def hasWritten (buffer : Buffer) (length : ℕ) : Exec BufferFault Buffer :=
  if length ≤ buffer.writableBytes then
    .ret { buffer with writerIndex := sizeAdd buffer.writerIndex length }
  else .fault .assertionFailed

def unwrite (buffer : Buffer) (length : ℕ) : Exec BufferFault Buffer :=
  if length ≤ buffer.readableBytes then
    .ret { buffer with writerIndex := sizeSub buffer.writerIndex length }
  else .fault .assertionFailed

def prepend (buffer : Buffer) (data : Bytes) : Exec BufferFault Buffer :=
  if data.length ≤ buffer.prependableBytes then
    ({ buffer with readerIndex := sizeSub buffer.readerIndex data.length } : Buffer).store
      (sizeSub buffer.readerIndex data.length) data
  else .fault .assertionFailed

def makeSpace (buffer : Buffer) (length : ℕ) : Exec BufferFault Buffer :=
  if sizeAdd buffer.writableBytes buffer.prependableBytes < sizeAdd length kCheapPrepend then
    buffer.resize (sizeAdd buffer.writerIndex length)
  else if kCheapPrepend < buffer.readerIndex then
    let readable := buffer.readableBytes
    (load buffer.peek readable).bind fun data =>
      (buffer.store kCheapPrepend data).bind fun buffer =>
        let moved : Buffer := { buffer with
          readerIndex := kCheapPrepend
          writerIndex := sizeAdd kCheapPrepend readable }
        if readable = moved.readableBytes then .ret moved else .fault .assertionFailed
  else .fault .assertionFailed

def ensureWritableBytes (buffer : Buffer) (length : ℕ) : Exec BufferFault Buffer :=
  (if buffer.writableBytes < length then buffer.makeSpace length else .ret buffer).bind
    fun buffer =>
      if length ≤ buffer.writableBytes then .ret buffer else .fault .assertionFailed

/-- `length` of the bytes at `data` are appended. -/
def append (buffer : Buffer) (data : Bytes) (length : ℕ) : Exec BufferFault Buffer :=
  (buffer.ensureWritableBytes length).bind fun buffer =>
    (load data length).bind fun copied =>
      (buffer.store buffer.writerIndex copied).bind fun buffer => buffer.hasWritten length

/-- `Buffer::toStringPiece`: the memory, and the number of bytes as an `int`. -/
def toStringPiece (buffer : Buffer) : Bytes × ℤ :=
  (buffer.peek, toInt buffer.readableBytes)

def shrink (buffer : Buffer) (reserve : ℕ) : Exec BufferFault Buffer :=
  ((new kInitialSize).ensureWritableBytes (sizeAdd buffer.readableBytes reserve)).bind
    fun other => other.append buffer.toStringPiece.1 (ofInt buffer.toStringPiece.2)

/-- The size of the second vector for `readv`. -/
def extraSize : ℕ := 65536

/-- The total size of the vectors for `readv`. -/
def readCapacity (buffer : Buffer) : ℕ :=
  if buffer.writableBytes < extraSize then buffer.writableBytes + extraSize
  else buffer.writableBytes

/-- `Buffer::readFd`.  `received` is what `readv` puts in the vectors, `none` its failure. -/
def readFd (buffer : Buffer) : (received : Option Bytes) → Exec BufferFault Buffer
  | none => .ret buffer
  | some received =>
      let writable := buffer.writableBytes
      (buffer.store buffer.writerIndex (received.take writable)).bind fun buffer =>
        if received.length ≤ writable then
          .ret { buffer with writerIndex := sizeAdd buffer.writerIndex received.length }
        else
          ({ buffer with writerIndex := buffer.buffer.length } : Buffer).append
            (received.drop writable) (received.length - writable)

/-- Bytes put at `beginWrite` and then told to `hasWritten`. -/
def write (buffer : Buffer) (data : Bytes) : Exec BufferFault Buffer :=
  (buffer.store buffer.writerIndex data).bind fun buffer => buffer.hasWritten data.length

/-! ## The bytes in the vector -/

def contents (buffer : Buffer) : Bytes :=
  (buffer.buffer.take buffer.writerIndex).drop buffer.readerIndex

/-- The indices are in order, inside the vector. -/
def Ordered (buffer : Buffer) : Prop :=
  buffer.readerIndex ≤ buffer.writerIndex ∧ buffer.writerIndex ≤ buffer.buffer.length

/-- A buffer with given bytes in front of its contents and behind them. -/
def split (front content back : Bytes) : Buffer where
  buffer := front ++ content ++ back
  readerIndex := front.length
  writerIndex := front.length + content.length

/-- What holds between the operations of a buffer with these contents: the vector has
room for the bytes in front, and is no longer than it can be. -/
structure Holds (buffer : Buffer) (content : Bytes) : Prop where
  ordered : buffer.Ordered
  contents : buffer.contents = content
  large : kCheapPrepend ≤ buffer.buffer.length
  small : buffer.buffer.length ≤ maxSize

section Layout

variable {front content back data : Bytes} {length : ℕ} {buffer : Buffer}

theorem maxSize_lt : 2 * maxSize + 1 < sizeValues := by decide

theorem length_buffer_split (front content back : Bytes) :
    (split front content back).buffer.length =
      front.length + content.length + back.length := by
  rw [split, List.length_append, List.length_append]

theorem contents_split (front content back : Bytes) :
    (split front content back).contents = content := by
  have hcontent : front.length + content.length = (front ++ content).length :=
    List.length_append.symm
  rw [contents, split, hcontent, List.take_left, List.drop_left]

theorem ordered_split (front content back : Bytes) : (split front content back).Ordered := by
  constructor
  · exact Nat.le_add_right _ _
  · rw [length_buffer_split]
    exact Nat.le_add_right _ _

theorem holds_split
    (hlarge : kCheapPrepend ≤ front.length + content.length + back.length)
    (hsmall : front.length + content.length + back.length ≤ maxSize) :
    (split front content back).Holds content where
  ordered := ordered_split front content back
  contents := contents_split front content back
  large := by rwa [length_buffer_split]
  small := by rwa [length_buffer_split]

/-- The indices divide the vector. -/
theorem exists_split (hordered : buffer.Ordered) :
    ∃ front back, buffer = split front buffer.contents back := by
  obtain ⟨hreader, hwriter⟩ := hordered
  refine ⟨buffer.buffer.take buffer.readerIndex, buffer.buffer.drop buffer.writerIndex, ?_⟩
  have hfront : (buffer.buffer.take buffer.readerIndex).length = buffer.readerIndex :=
    List.length_take_of_le (hreader.trans hwriter)
  have hcontents : buffer.contents.length = buffer.writerIndex - buffer.readerIndex := by
    rw [contents, List.length_drop, List.length_take_of_le hwriter]
  have hjoin : buffer.buffer.take buffer.readerIndex ++ buffer.contents =
      buffer.buffer.take buffer.writerIndex := by
    calc
      buffer.buffer.take buffer.readerIndex ++ buffer.contents =
          (buffer.buffer.take buffer.writerIndex).take buffer.readerIndex ++
            buffer.contents := by rw [List.take_take, Nat.min_eq_left hreader]
      _ = buffer.buffer.take buffer.writerIndex := List.take_append_drop _ _
  cases buffer with
  | mk storage reader writer =>
      rw [split, hjoin, hfront, hcontents, List.take_append_drop]
      congr 1
      exact (Nat.add_sub_cancel' hreader).symm

/-- The sizes of a vector that is not too long. -/
theorem readableBytes_split
    (hsmall : front.length + content.length + back.length ≤ maxSize) :
    (split front content back).readableBytes = content.length := by
  have hlt := maxSize_lt
  change sizeSub (front.length + content.length) front.length = content.length
  rw [sizeSub_of_le (by omega) (by omega)]
  omega

theorem writableBytes_split
    (hsmall : front.length + content.length + back.length ≤ maxSize) :
    (split front content back).writableBytes = back.length := by
  have hlt := maxSize_lt
  rw [writableBytes, length_buffer_split]
  change sizeSub _ (front.length + content.length) = back.length
  rw [sizeSub_of_le (by omega) (by omega)]
  omega

theorem prependableBytes_split (front content back : Bytes) :
    (split front content back).prependableBytes = front.length := rfl

theorem peek_split (front content back : Bytes) :
    (split front content back).peek = content ++ back := by
  rw [peek, split, List.append_assoc, List.drop_left]

theorem load_append (data rest : Bytes) : load (data ++ rest) data.length = .ret data := by
  rw [load, if_pos (by simp), List.take_left]

/-- A copy over a hole of the same length. -/
theorem store_eq {front hole back : Bytes} (hbuffer : buffer.buffer = front ++ hole ++ back)
    (hhole : hole.length = data.length) :
    buffer.store front.length data =
      .ret { buffer with buffer := front ++ data ++ back } := by
  have hfits : front.length + data.length ≤ buffer.buffer.length := by
    rw [hbuffer, List.length_append, List.length_append]
    omega
  have hfront : buffer.buffer.take front.length = front := by
    rw [hbuffer, List.append_assoc, List.take_left]
  have hback : buffer.buffer.drop (front.length + data.length) = back := by
    rw [hbuffer, ← hhole, ← List.length_append, List.drop_left]
  rw [store, if_pos hfits, hfront, hback]

theorem Holds.exists_split {content : Bytes} (hholds : buffer.Holds content) :
    ∃ front back, buffer = split front content back ∧
      kCheapPrepend ≤ front.length + content.length + back.length ∧
      front.length + content.length + back.length ≤ maxSize := by
  obtain ⟨front, back, hsplit⟩ := Buffer.exists_split hholds.ordered
  rw [hholds.contents] at hsplit
  refine ⟨front, back, hsplit, ?_, ?_⟩
  · rw [← length_buffer_split, ← hsplit]
    exact hholds.large
  · rw [← length_buffer_split, ← hsplit]
    exact hholds.small

end Layout

/-! ## Retrieving and prepending -/

section Retrieving

variable {buffer : Buffer} {content data : Bytes} {length : ℕ}

theorem Holds.readableBytes (hholds : buffer.Holds content) :
    buffer.readableBytes = content.length := by
  obtain ⟨front, back, rfl, _, hsmall⟩ := hholds.exists_split
  exact readableBytes_split hsmall

/-- The assertions of the constructor. -/
theorem sizes_new {initialSize : ℕ} (hsmall : kCheapPrepend + initialSize ≤ maxSize) :
    (new initialSize).readableBytes = 0 ∧ (new initialSize).writableBytes = initialSize ∧
      (new initialSize).prependableBytes = kCheapPrepend := by
  have hlt := maxSize_lt
  have hlength : (new initialSize).buffer.length = kCheapPrepend + initialSize :=
    List.length_replicate
  have hwriter : (new initialSize).writerIndex = kCheapPrepend := rfl
  have hreader : (new initialSize).readerIndex = kCheapPrepend := rfl
  refine ⟨?_, ?_, hreader⟩
  · rw [readableBytes, hwriter, hreader, sizeSub_of_le le_rfl (by omega), Nat.sub_self]
  · rw [writableBytes, hlength, hwriter, sizeSub_of_le (by omega) (by omega)]
    exact Nat.add_sub_cancel_left _ _

theorem holds_new {initialSize : ℕ} (hsmall : kCheapPrepend + initialSize ≤ maxSize) :
    (new initialSize).Holds [] := by
  have hlength : (new initialSize).buffer.length = kCheapPrepend + initialSize :=
    List.length_replicate
  refine ⟨⟨le_rfl, ?_⟩, ?_, ?_, ?_⟩
  · rw [hlength]
    exact Nat.le_add_right _ _
  · apply List.drop_eq_nil_of_le
    exact List.length_take_le _ _
  · rw [hlength]
    exact Nat.le_add_right _ _
  · rwa [hlength]

/-- Both indices go back to where they began. -/
theorem holds_retrieveAll (hholds : buffer.Holds content) : buffer.retrieveAll.Holds [] where
  ordered := ⟨le_rfl, hholds.large⟩
  contents := List.drop_eq_nil_of_le (List.length_take_le _ _)
  large := hholds.large
  small := hholds.small

/-- Retrieving takes bytes from the front. -/
theorem retrieve_spec (hholds : buffer.Holds content) (hlength : length ≤ content.length) :
    ∃ after, buffer.retrieve length = .ret after ∧ after.Holds (content.drop length) := by
  rw [retrieve, hholds.readableBytes, if_pos hlength]
  split_ifs with hless
  · obtain ⟨front, back, rfl, hlarge, hsmall⟩ := hholds.exists_split
    have hlt := maxSize_lt
    have htake : (content.take length).length = length := List.length_take_of_le hlength
    have hafter : { split front content back with
          readerIndex := sizeAdd (split front content back).readerIndex length } =
        split (front ++ content.take length) (content.drop length) back := by
      change Buffer.mk _ (sizeAdd front.length length) _ = _
      rw [sizeAdd_of_lt (by omega)]
      simp only [split, Buffer.mk.injEq, List.length_append, htake, List.length_drop,
        List.append_assoc, List.take_append_drop, true_and]
      omega
    refine ⟨_, rfl, ?_⟩
    rw [hafter]
    apply holds_split
    · simp only [List.length_append, htake, List.length_drop]
      omega
    · simp only [List.length_append, htake, List.length_drop]
      omega
  · rw [List.drop_eq_nil_of_le (by omega)]
    exact ⟨_, rfl, holds_retrieveAll hholds⟩

theorem retrieveUntil_spec (hholds : buffer.Holds content) (hlength : length ≤ content.length) :
    ∃ after, buffer.retrieveUntil (buffer.readerIndex + length) = .ret after ∧
      after.Holds (content.drop length) := by
  obtain ⟨front, back, hsplit, _, hsmall⟩ := hholds.exists_split
  have hlt := maxSize_lt
  have hreader : buffer.readerIndex = front.length := by rw [hsplit, split]
  have hwriter : buffer.writerIndex = front.length + content.length := by rw [hsplit, split]
  rw [retrieveUntil, if_pos (Nat.le_add_right _ _), if_pos (by omega),
    sizeSub_of_le (Nat.le_add_right _ _) (by omega), Nat.add_sub_cancel_left]
  exact retrieve_spec hholds hlength

theorem retrieveAsString_spec (hholds : buffer.Holds content)
    (hlength : length ≤ content.length) :
    ∃ after, buffer.retrieveAsString length = .ret (content.take length, after) ∧
      after.Holds (content.drop length) := by
  obtain ⟨after, hretrieve, hafter⟩ := retrieve_spec hholds hlength
  refine ⟨after, ?_, hafter⟩
  have hload : load buffer.peek length = .ret (content.take length) := by
    obtain ⟨front, back, rfl, _⟩ := hholds.exists_split
    rw [peek_split, load, if_pos (by simp; omega), List.take_append_of_le_length hlength]
  rw [retrieveAsString, hholds.readableBytes, if_pos hlength, hload, Exec.ret_bind, hretrieve,
    Exec.ret_bind]

/-- Unwriting takes bytes from the end. -/
theorem unwrite_spec (hholds : buffer.Holds content) (hlength : length ≤ content.length) :
    ∃ after, buffer.unwrite length = .ret after ∧
      after.Holds (content.take (content.length - length)) := by
  rw [unwrite, hholds.readableBytes, if_pos hlength]
  obtain ⟨front, back, rfl, hlarge, hsmall⟩ := hholds.exists_split
  have hlt := maxSize_lt
  have hafter : { split front content back with
        writerIndex := sizeSub (split front content back).writerIndex length } =
      split front (content.take (content.length - length))
        (content.drop (content.length - length) ++ back) := by
    change Buffer.mk _ _ (sizeSub (front.length + content.length) length) = _
    rw [sizeSub_of_le (by omega) (by omega)]
    simp only [split, Buffer.mk.injEq, List.length_take, List.append_assoc, true_and]
    refine ⟨?_, by omega⟩
    rw [← List.append_assoc (content.take _), List.take_append_drop]
  refine ⟨_, rfl, ?_⟩
  rw [hafter]
  apply holds_split
  · simp only [List.length_append, List.length_take, List.length_drop]
    omega
  · simp only [List.length_append, List.length_take, List.length_drop]
    omega

/-- Prepending puts bytes to the front, where there is room for them. -/
theorem prepend_spec (hholds : buffer.Holds content)
    (hlength : data.length ≤ buffer.prependableBytes) :
    ∃ after, buffer.prepend data = .ret after ∧ after.Holds (data ++ content) := by
  obtain ⟨front, back, rfl, hlarge, hsmall⟩ := hholds.exists_split
  rw [prependableBytes_split] at hlength
  have hlt := maxSize_lt
  obtain ⟨kept, hole, rfl, hhole⟩ : ∃ kept hole, front = kept ++ hole ∧
      hole.length = data.length := by
    refine ⟨front.take (front.length - data.length), front.drop (front.length - data.length),
      (List.take_append_drop _ _).symm, ?_⟩
    rw [List.length_drop]
    omega
  rw [List.length_append] at hlarge hsmall
  have hreader : sizeSub (split (kept ++ hole) content back).readerIndex data.length =
      kept.length := by
    change sizeSub (kept ++ hole).length data.length = kept.length
    rw [List.length_append, sizeSub_of_le (by omega) (by omega)]
    omega
  refine ⟨split kept (data ++ content) back, ?_, ?_⟩
  · rw [prepend, prependableBytes_split, if_pos hlength, hreader,
      @store_eq data _ kept hole (content ++ back) (by simp [split]) hhole]
    simp only [split, List.length_append, List.append_assoc, hhole, Nat.add_assoc]
  · apply holds_split
    · rw [List.length_append]
      omega
    · rw [List.length_append]
      omega

end Retrieving

/-! ## Making room -/

/-- So many bytes fit behind the contents once these are at the front, or the vector can
be made long enough for them. -/
def HasRoom (buffer : Buffer) (length : ℕ) : Prop :=
  length + kCheapPrepend ≤ buffer.writableBytes + buffer.prependableBytes ∨
    buffer.writerIndex + length ≤ maxSize

section Room

variable {front content back data : Bytes} {length : ℕ} {buffer : Buffer}

theorem hasRoom_split_iff
    (hsmall : front.length + content.length + back.length ≤ maxSize) :
    (split front content back).HasRoom length ↔
      length + kCheapPrepend ≤ back.length + front.length ∨
        front.length + content.length + length ≤ maxSize := by
  rw [HasRoom, writableBytes_split hsmall, prependableBytes_split]
  rfl

/-- The vector grows. -/
theorem resize_split (hmore : back.length ≤ length)
    (hfits : front.length + content.length + length ≤ maxSize) :
    (split front content back).resize (front.length + content.length + length) =
      .ret (split front content (back ++ List.replicate (length - back.length) NUL)) := by
  have htake : (front ++ content ++ back).take (front.length + content.length + length) =
      front ++ content ++ back := by
    apply List.take_of_length_le
    rw [List.length_append, List.length_append]
    omega
  have hzeros : front.length + content.length + length - (split front content back).buffer.length =
      length - back.length := by
    rw [length_buffer_split]
    omega
  rw [resize, if_pos hfits, hzeros]
  simp only [split, htake]
  simp only [List.append_assoc]

theorem resize_frame {size : ℕ} {after : Buffer} (hresize : buffer.resize size = .ret after) :
    after.buffer.length = size ∧ after.writerIndex = buffer.writerIndex ∧ size ≤ maxSize := by
  rw [resize] at hresize
  split_ifs at hresize with hfits
  rw [← Exec.ret.inj hresize]
  refine ⟨?_, rfl, hfits⟩
  rw [List.length_append, List.length_take, List.length_replicate]
  omega

/-- The contents move to the front. -/
theorem makeSpace_of_room (hsmall : front.length + content.length + back.length ≤ maxSize)
    (hroom : ¬ sizeAdd back.length front.length < sizeAdd length kCheapPrepend)
    (hreader : kCheapPrepend < front.length) :
    ∃ front' back', front'.length = kCheapPrepend ∧
      back'.length + kCheapPrepend = front.length + back.length ∧
      (split front content back).makeSpace length = .ret (split front' content back') := by
  have hlt := maxSize_lt
  obtain ⟨all, hall⟩ : ∃ all, all = front ++ content ++ back := ⟨_, rfl⟩
  have hlength : all.length = front.length + content.length + back.length := by
    rw [hall, List.length_append, List.length_append]
  have hfront : (all.take kCheapPrepend).length = kCheapPrepend := by
    apply List.length_take_of_le
    omega
  have hhole : ((all.drop kCheapPrepend).take content.length).length = content.length := by
    apply List.length_take_of_le
    rw [List.length_drop]
    omega
  have hparts : (split front content back).buffer =
      all.take kCheapPrepend ++ (all.drop kCheapPrepend).take content.length ++
        (all.drop kCheapPrepend).drop content.length := by
    rw [List.append_assoc, List.take_append_drop, List.take_append_drop, hall]
    rfl
  have hstore := store_eq hparts hhole
  rw [hfront] at hstore
  refine ⟨all.take kCheapPrepend, (all.drop kCheapPrepend).drop content.length, hfront, ?_, ?_⟩
  · rw [List.length_drop, List.length_drop]
    omega
  · have hmoved : Buffer.mk (all.take kCheapPrepend ++ content ++
          (all.drop kCheapPrepend).drop content.length)
          kCheapPrepend (sizeAdd kCheapPrepend content.length) =
        split (all.take kCheapPrepend) content
          ((all.drop kCheapPrepend).drop content.length) := by
      rw [split, hfront, sizeAdd_of_lt (by omega)]
    have hreadable : (split (all.take kCheapPrepend) content
        ((all.drop kCheapPrepend).drop content.length)).readableBytes = content.length := by
      apply readableBytes_split
      rw [hfront, List.length_drop, List.length_drop]
      omega
    rw [makeSpace, writableBytes_split hsmall, prependableBytes_split, if_neg hroom,
      if_pos (show kCheapPrepend < (split front content back).readerIndex from hreader),
      readableBytes_split hsmall, peek_split]
    dsimp only
    rw [load_append, Exec.ret_bind, hstore, Exec.ret_bind, hmoved, hreadable, if_pos rfl]

/-- Space is made without a change of the content. -/
theorem ensureWritableBytes_spec {content : Bytes} (hholds : buffer.Holds content)
    (hroom : buffer.HasRoom length) :
    ∃ after, buffer.ensureWritableBytes length = .ret after ∧ after.Holds content ∧
      length ≤ after.writableBytes := by
  obtain ⟨front, back, rfl, hlarge, hsmall⟩ := hholds.exists_split
  have hlt := maxSize_lt
  rw [hasRoom_split_iff hsmall] at hroom
  rw [ensureWritableBytes, writableBytes_split hsmall]
  by_cases hless : back.length < length
  · rw [if_pos hless]
    have hsum : sizeAdd back.length front.length = back.length + front.length :=
      sizeAdd_of_lt (by omega)
    have hneed : sizeAdd length kCheapPrepend = length + kCheapPrepend := by
      apply sizeAdd_of_lt
      rw [kCheapPrepend] at hlarge ⊢
      omega
    by_cases hmove : sizeAdd back.length front.length < sizeAdd length kCheapPrepend
    · have hfits : front.length + content.length + length ≤ maxSize := by
        rw [hsum, hneed] at hmove
        omega
      have hgrown : (split front content back).makeSpace length =
          .ret (split front content (back ++ List.replicate (length - back.length) NUL)) := by
        rw [makeSpace, writableBytes_split hsmall, prependableBytes_split, if_pos hmove]
        change (split front content back).resize
          (sizeAdd (front.length + content.length) length) = _
        rw [sizeAdd_of_lt (by omega)]
        exact resize_split hless.le hfits
      have hback : (back ++ List.replicate (length - back.length) NUL).length = length := by
        rw [List.length_append, List.length_replicate]
        omega
      have hwritable := @writableBytes_split front content
        (back ++ List.replicate (length - back.length) NUL) (by omega)
      rw [hgrown, Exec.ret_bind, hwritable, hback, if_pos le_rfl]
      refine ⟨_, rfl, ?_, by rw [hwritable, hback]⟩
      exact holds_split (by omega) (by omega)
    · have hreader : kCheapPrepend < front.length := by
        rw [hsum, hneed] at hmove
        omega
      obtain ⟨front', back', hfront, hback, hmoved⟩ := makeSpace_of_room hsmall hmove hreader
      have hwritable := @writableBytes_split front' content back' (by omega)
      have henough : length ≤ back'.length := by
        rw [hsum, hneed] at hmove
        omega
      rw [hmoved, Exec.ret_bind, hwritable, if_pos henough]
      refine ⟨_, rfl, ?_, by rwa [hwritable]⟩
      exact holds_split (by omega) (by omega)
  · rw [if_neg hless, Exec.ret_bind, writableBytes_split hsmall, if_pos (by omega)]
    refine ⟨_, rfl, hholds, ?_⟩
    rw [writableBytes_split hsmall]
    omega

/-- Without room the operation fails, or the sum of the sizes wraps and the vector ends up
shorter than its contents. -/
theorem ensureWritableBytes_of_not_room {content : Bytes} {after : Buffer}
    (hholds : buffer.Holds content) (hlength : length < sizeValues)
    (hroom : ¬ buffer.HasRoom length)
    (hensure : buffer.ensureWritableBytes length = .ret after) :
    after.buffer.length < after.writerIndex ∧ sizeValues ≤ buffer.writerIndex + length ∧
      (sizeValues ≤ length + kCheapPrepend →
        buffer.writableBytes + buffer.prependableBytes < kCheapPrepend) := by
  obtain ⟨front, back, rfl, hlarge, hsmall⟩ := hholds.exists_split
  have hlt := maxSize_lt
  rw [hasRoom_split_iff hsmall, not_or, Nat.not_le, Nat.not_le] at hroom
  obtain ⟨hfew, hlong⟩ := hroom
  obtain ⟨made, hmake, hreturn⟩ := Exec.bind_eq_ret_iff.mp hensure
  split_ifs at hreturn with henough
  cases hreturn
  rw [writableBytes_split hsmall, if_pos (by omega)] at hmake
  by_cases hmove : sizeAdd back.length front.length < sizeAdd length kCheapPrepend
  · rw [makeSpace, writableBytes_split hsmall, prependableBytes_split, if_pos hmove] at hmake
    obtain ⟨hsize, hwriter, hfits⟩ := resize_frame hmake
    have hindex : (split front content back).writerIndex = front.length + content.length := rfl
    rw [hindex] at hsize hwriter hfits ⊢
    have hwrap : sizeValues ≤ front.length + content.length + length := by
      by_contra hno
      rw [sizeAdd_of_lt (by omega)] at hfits
      omega
    refine ⟨?_, hwrap, fun hover => ?_⟩
    · rw [hsize, hwriter, sizeAdd, Nat.mod_eq_sub_mod hwrap, Nat.mod_eq_of_lt (by omega)]
      omega
    · rw [writableBytes_split hsmall, prependableBytes_split]
      have height : kCheapPrepend < sizeValues := by decide
      rw [sizeAdd_of_lt (by omega), sizeAdd, Nat.mod_eq_sub_mod hover,
        Nat.mod_eq_of_lt (by omega)] at hmove
      omega
  · by_cases hreader : kCheapPrepend < front.length
    · obtain ⟨front', back', hfront, hback, hmoved⟩ := makeSpace_of_room hsmall hmove hreader
      rw [hmoved] at hmake
      cases hmake
      rw [writableBytes_split (by omega)] at henough
      omega
    · rw [makeSpace, writableBytes_split hsmall, prependableBytes_split, if_neg hmove,
        if_neg (show ¬ kCheapPrepend < (split front content back).readerIndex
          from hreader)] at hmake
      cases hmake

end Room

/-! ## Appending -/

section Appending

variable {buffer : Buffer} {front content back data hole : Bytes} {length : ℕ}

/-- Bytes behind the contents become part of them. -/
theorem store_split (hhole : hole.length = data.length) :
    (split front content (hole ++ back)).store (split front content (hole ++ back)).writerIndex
        data =
      .ret { split front content (hole ++ back) with
        buffer := front ++ content ++ data ++ back } := by
  have hparts : (split front content (hole ++ back)).buffer =
      (front ++ content) ++ hole ++ back := by
    simp only [split, List.append_assoc]
  have hstore := store_eq hparts hhole
  rw [List.length_append] at hstore
  exact hstore

/-- A part of the room is used. -/
theorem Holds.exists_hole {content : Bytes} (hholds : buffer.Holds content)
    (hfits : data.length ≤ buffer.writableBytes) :
    ∃ front hole back, buffer = split front content (hole ++ back) ∧
      hole.length = data.length ∧
      kCheapPrepend ≤ front.length + content.length + (data.length + back.length) ∧
      front.length + content.length + (data.length + back.length) ≤ maxSize := by
  obtain ⟨front, back, rfl, hlarge, hsmall⟩ := hholds.exists_split
  rw [writableBytes_split hsmall] at hfits
  refine ⟨front, back.take data.length, back.drop data.length, ?_, ?_, ?_, ?_⟩
  · rw [List.take_append_drop]
  · exact List.length_take_of_le hfits
  · rw [List.length_drop]
    omega
  · rw [List.length_drop]
    omega

/-- Bytes that fit behind the content are added to it. -/
theorem write_spec (hholds : buffer.Holds content) (hfits : data.length ≤ buffer.writableBytes) :
    ∃ after, buffer.write data = .ret after ∧ after.Holds (content ++ data) := by
  obtain ⟨front, hole, back, rfl, hhole, hlarge, hsmall⟩ := hholds.exists_hole hfits
  have hlt := maxSize_lt
  have hwritten : (Buffer.mk (front ++ content ++ data ++ back) front.length
        (front.length + content.length)).hasWritten data.length =
      .ret (split front (content ++ data) back) := by
    have hwritable : (Buffer.mk (front ++ content ++ data ++ back) front.length
        (front.length + content.length)).writableBytes = data.length + back.length := by
      change sizeSub (front ++ content ++ data ++ back).length _ = _
      simp only [List.length_append]
      rw [sizeSub_of_le (by omega) (by omega)]
      omega
    rw [hasWritten, hwritable, if_pos (Nat.le_add_right _ _)]
    dsimp only
    rw [sizeAdd_of_lt (by omega)]
    simp only [split, List.length_append, List.append_assoc, Nat.add_assoc]
  refine ⟨split front (content ++ data) back, ?_, ?_⟩
  · rw [write, store_split hhole, Exec.ret_bind]
    exact hwritten
  · apply holds_split
    · rw [List.length_append]
      omega
    · rw [List.length_append]
      omega

/-- The first bytes of the memory at the pointer are appended. -/
theorem append_spec (hholds : buffer.Holds content) (hroom : buffer.HasRoom data.length)
    (rest : Bytes) :
    ∃ after, buffer.append (data ++ rest) data.length = .ret after ∧
      after.Holds (content ++ data) := by
  obtain ⟨middle, hensure, hmiddle, hfits⟩ := ensureWritableBytes_spec hholds hroom
  obtain ⟨after, hwrite, hafter⟩ := write_spec hmiddle hfits
  refine ⟨after, ?_, hafter⟩
  rw [append, hensure, Exec.ret_bind, load_append, Exec.ret_bind]
  exact hwrite

theorem append_of_not_room {after : Buffer} (hholds : buffer.Holds content)
    (hlength : length < sizeValues) (hroom : ¬ buffer.HasRoom length) :
    buffer.append data length ≠ .ret after := by
  intro happend
  obtain ⟨middle, hensure, hload⟩ := Exec.bind_eq_ret_iff.mp happend
  obtain ⟨copied, hcopied, hstores⟩ := Exec.bind_eq_ret_iff.mp hload
  obtain ⟨stored, hstore, _⟩ := Exec.bind_eq_ret_iff.mp hstores
  have hbroken := (ensureWritableBytes_of_not_room hholds hlength hroom hensure).1
  rw [store, if_neg (by omega)] at hstore
  cases hstore

/-- What does not fit goes through the second vector, when the first one is full. -/
theorem readFd_overflow {received : Bytes} (hholds : buffer.Holds content)
    (hmore : buffer.writableBytes < received.length) :
    ∃ full : Buffer, full.Holds (content ++ received.take buffer.writableBytes) ∧
      buffer.readFd (some received) =
        full.append (received.drop buffer.writableBytes)
          (received.length - buffer.writableBytes) ∧
      (full.HasRoom (received.length - buffer.writableBytes) ↔
        buffer.HasRoom received.length) := by
  obtain ⟨front, back, rfl, hlarge, hsmall⟩ := hholds.exists_split
  rw [writableBytes_split hsmall] at hmore ⊢
  obtain ⟨first, hfirst⟩ : ∃ first, first = received.take back.length := ⟨_, rfl⟩
  have hlength : first.length = back.length := by
    rw [hfirst]
    exact List.length_take_of_le hmore.le
  have hstore := @store_split front content [] first back hlength.symm
  simp only [List.append_nil] at hstore
  refine ⟨split front (content ++ first) [], ?_, ?_, ?_⟩
  · rw [← hfirst]
    apply holds_split
    · simp only [List.length_append, List.length_nil]
      omega
    · simp only [List.length_append, List.length_nil]
      omega
  · rw [readFd, writableBytes_split hsmall, ← hfirst, hstore, Exec.ret_bind, if_neg (by omega)]
    have hfull : Buffer.mk (front ++ content ++ first) front.length
        (front ++ content ++ first).length = split front (content ++ first) [] := by
      simp only [split, List.append_assoc, List.append_nil, List.length_append]
    dsimp only
    rw [← hfull]
    rfl
  · rw [hasRoom_split_iff hsmall, hasRoom_split_iff (by
      simp only [List.length_append, List.length_nil]
      omega)]
    simp only [List.length_append, List.length_nil]
    omega

/-- What `readv` has received is added, from the second vector too. -/
theorem readFd_spec {received : Bytes} (hholds : buffer.Holds content)
    (hroom : buffer.HasRoom received.length) :
    ∃ after, buffer.readFd (some received) = .ret after ∧
      after.Holds (content ++ received) := by
  by_cases hall : received.length ≤ buffer.writableBytes
  · obtain ⟨after, hwrite, hafter⟩ := write_spec hholds hall
    obtain ⟨stored, hstore, hwritten⟩ := Exec.bind_eq_ret_iff.mp hwrite
    rw [readFd, List.take_of_length_le hall, hstore, Exec.ret_bind, if_pos hall]
    rw [hasWritten] at hwritten
    split_ifs at hwritten
    exact ⟨after, hwritten, hafter⟩
  · obtain ⟨full, hfull, hstore, hrest⟩ := readFd_overflow hholds (Nat.not_le.mp hall)
    have hmore : full.HasRoom (received.drop buffer.writableBytes).length := by
      rw [List.length_drop]
      exact hrest.mpr hroom
    obtain ⟨after, happend, hafter⟩ := append_spec hfull hmore []
    refine ⟨after, ?_, ?_⟩
    · rw [hstore, ← happend, List.append_nil, List.length_drop]
    · rwa [List.append_assoc, List.take_append_drop] at hafter

/-- What there is no room for does not get into the buffer. -/
theorem readFd_of_not_room {received : Bytes} {after : Buffer} (hholds : buffer.Holds content)
    (hlength : received.length ≤ maxSize) (hroom : ¬ buffer.HasRoom received.length) :
    buffer.readFd (some received) ≠ .ret after := by
  intro hread
  by_cases hall : received.length ≤ buffer.writableBytes
  · obtain ⟨front, back, rfl, _, hsmall⟩ := hholds.exists_split
    rw [writableBytes_split hsmall] at hall
    rw [hasRoom_split_iff hsmall] at hroom
    omega
  · obtain ⟨full, hfull, hoverflow, hrest⟩ := readFd_overflow hholds (Nat.not_le.mp hall)
    have hlt := maxSize_lt
    rw [hoverflow] at hread
    exact append_of_not_room hfull (by omega) (fun hmore => hroom (hrest.mp hmore)) hread

/-! ### The copy that `shrink` makes -/

theorem hasRoom_new_iff :
    (new kInitialSize).HasRoom length ↔ kCheapPrepend + length ≤ maxSize := by
  obtain ⟨_, hwritable, hprependable⟩ := @sizes_new kInitialSize (by decide)
  have hwriter : (new kInitialSize).writerIndex = kCheapPrepend := rfl
  rw [HasRoom, hwritable, hprependable, hwriter, kInitialSize, kCheapPrepend, maxSize]
  omega

/-- As many bytes are kept as the number of bytes makes for an `int`. -/
theorem shrink_take {reserve kept : ℕ} (hholds : buffer.Holds content)
    (hkept : ofInt (toInt content.length) = kept) (hle : kept ≤ content.length)
    (hint : kept < intSizes)
    (hfits : kCheapPrepend + sizeAdd content.length reserve ≤ maxSize) :
    ∃ after, buffer.shrink reserve = .ret after ∧ after.Holds (content.take kept) := by
  obtain ⟨other, hensure, hother, _⟩ :=
    ensureWritableBytes_spec (holds_new (by decide)) (hasRoom_new_iff.mpr hfits)
  have htake : (content.take kept).length = kept := List.length_take_of_le hle
  have hroom : other.HasRoom (content.take kept).length := by
    obtain ⟨front, back, rfl, _, hsmall⟩ := hother.exists_split
    rw [hasRoom_split_iff hsmall, List.length_nil, htake]
    rw [intSizes] at hint
    rw [kCheapPrepend, maxSize]
    omega
  obtain ⟨front, back, hsplit, _, _⟩ := hholds.exists_split
  obtain ⟨after, happend, hafter⟩ := append_spec hother hroom (content.drop kept ++ back)
  refine ⟨after, ?_, hafter⟩
  rw [shrink, toStringPiece, hholds.readableBytes, hensure, Exec.ret_bind, hkept, ← happend,
    htake, hsplit, peek_split, ← List.append_assoc, List.take_append_drop]

theorem shrink_spec {reserve : ℕ} (hholds : buffer.Holds content)
    (hint : content.length < intSizes)
    (hfits : kCheapPrepend + sizeAdd content.length reserve ≤ maxSize) :
    ∃ after, buffer.shrink reserve = .ret after ∧ after.Holds content := by
  have hshrink := shrink_take hholds (ofInt_toInt_of_lt hint) le_rfl hint hfits
  rwa [List.take_length] at hshrink

/-- A buffer that is too large for an `int` is not kept by `shrink`. -/
theorem shrink_of_not_fits {reserve : ℕ} {after : Buffer} (hholds : buffer.Holds content)
    (hnot : ¬ (content.length < intSizes ∧
      kCheapPrepend + sizeAdd content.length reserve ≤ maxSize))
    (hshrink : buffer.shrink reserve = .ret after) : after.contents ≠ content := by
  have hsum : sizeAdd content.length reserve < sizeValues := Nat.mod_lt _ (by decide)
  obtain ⟨other, hensure, happend⟩ := Exec.bind_eq_ret_iff.mp hshrink
  rw [hholds.readableBytes] at hensure
  by_cases hfits : kCheapPrepend + sizeAdd content.length reserve ≤ maxSize
  · have hmany : intSizes ≤ content.length := by
      by_contra hsmall
      exact hnot ⟨Nat.not_le.mp hsmall, hfits⟩
    rcases ofInt_toInt_cases content.length with hint | hmore
    · obtain ⟨short, hshort, hkept⟩ :=
        shrink_take hholds rfl (hint.le.trans hmany) hint hfits
      rw [hshrink] at hshort
      cases hshort
      rw [hkept.contents]
      intro hall
      have hlength := congrArg List.length hall
      rw [List.length_take_of_le (hint.le.trans hmany)] at hlength
      omega
    · obtain ⟨same, hsame, hother, _⟩ :=
        ensureWritableBytes_spec (holds_new (by decide)) (hasRoom_new_iff.mpr hfits)
      rw [hensure] at hsame
      cases hsame
      have hroom : ¬ other.HasRoom (ofInt (toInt content.length)) := by
        obtain ⟨front, back, rfl, _, hsmall⟩ := hother.exists_split
        rw [hasRoom_split_iff hsmall]
        omega
      rw [toStringPiece, hholds.readableBytes] at happend
      exact absurd happend (append_of_not_room hother (ofInt_lt _) hroom)
  · -- The new buffer has too much room for the sizes to wrap without being noticed.
    obtain ⟨_, hwrap, hover⟩ := ensureWritableBytes_of_not_room (holds_new (by decide)) hsum
      (fun hroom => hfits (hasRoom_new_iff.mp hroom)) hensure
    have hwriter : (new kInitialSize).writerIndex = kCheapPrepend := rfl
    rw [hwriter, Nat.add_comm] at hwrap
    have hfew := hover hwrap
    rw [(@sizes_new kInitialSize (by decide)).2.2] at hfew
    omega

end Appending

end Buffer

/-! ## Runs -/

universe u

structure Data where
  bytes : Bytes
  fits : bytes.length ≤ maxSize

/-- An argument of the constructor for which there is a vector. -/
abbrev InitialSize := { size : ℕ // kCheapPrepend + size ≤ maxSize }

inductive Event (ι : Type u) where
  | append (i : ι) (data : Data)
  | prepend (i : ι) (data : Data)
  | retrieve (i : ι) (length : UInt64)
  /-- The end is `offset` bytes behind `peek`. -/
  | retrieveUntil (i : ι) (offset : UInt64)
  | retrieveAll (i : ι)
  | retrieveAsString (i : ι) (length : UInt64)
  | unwrite (i : ι) (length : UInt64)
  | ensureWritableBytes (i : ι) (length : UInt64)
  | write (i : ι) (data : Data)
  | shrink (i : ι) (reserve : UInt64)
  | swap (i j : ι)
  | readFd (i : ι) (received : Option Data)

structure Buffers (ι : Type u) where
  buffers : ι → Buffer
  strings : List Bytes := []

/-- Lists of bytes in place of the buffers. -/
structure Queues (ι : Type u) where
  queues : ι → Bytes := fun _ => []
  strings : List Bytes := []

section Machines

variable {ι : Type u} [DecidableEq ι]

namespace Buffers

def initial (sizes : ι → InitialSize) : Buffers ι where
  buffers i := .new (sizes i)

def on (state : Buffers ι) (i : ι) (operation : Buffer → Exec BufferFault Buffer) :
    Exec BufferFault (Buffers ι) :=
  (operation (state.buffers i)).bind fun buffer =>
    .ret { state with buffers := Function.update state.buffers i buffer }

def step (state : Buffers ι) : Event ι → Exec BufferFault (Buffers ι)
  | .append i data => state.on i fun buffer => buffer.append data.bytes data.bytes.length
  | .prepend i data => state.on i fun buffer => buffer.prepend data.bytes
  | .retrieve i length => state.on i fun buffer => buffer.retrieve length.toNat
  | .retrieveUntil i offset =>
      state.on i fun buffer => buffer.retrieveUntil (buffer.readerIndex + offset.toNat)
  | .retrieveAll i => state.on i fun buffer => .ret buffer.retrieveAll
  | .retrieveAsString i length =>
      ((state.buffers i).retrieveAsString length.toNat).bind fun (result, buffer) =>
        .ret {
          buffers := Function.update state.buffers i buffer
          strings := state.strings ++ [result] }
  | .unwrite i length => state.on i fun buffer => buffer.unwrite length.toNat
  | .ensureWritableBytes i length =>
      state.on i fun buffer => buffer.ensureWritableBytes length.toNat
  | .write i data => state.on i fun buffer => buffer.write data.bytes
  | .shrink i reserve => state.on i fun buffer => buffer.shrink reserve.toNat
  | .swap i j => .ret { state with buffers := state.buffers ∘ Equiv.swap i j }
  | .readFd i received => state.on i fun buffer => buffer.readFd (received.map Data.bytes)

end Buffers

namespace Queues

def on (state : Queues ι) (i : ι) (operation : Bytes → Bytes) : Queues ι :=
  { state with queues := Function.update state.queues i (operation (state.queues i)) }

def next (state : Queues ι) : Event ι → Queues ι
  | .append i data => state.on i (· ++ data.bytes)
  | .prepend i data => state.on i (data.bytes ++ ·)
  | .retrieve i length => state.on i fun queue => Cuber.Buffer.retrieve queue length.toNat
  | .retrieveUntil i offset =>
      state.on i fun queue => Cuber.Buffer.retrieve queue offset.toNat
  | .retrieveAll i => state.on i fun _ => []
  | .retrieveAsString i length =>
      { state.on i fun queue => Cuber.Buffer.retrieve queue length.toNat with
        strings := state.strings ++ [(state.queues i).take length.toNat] }
  | .unwrite i length => state.on i fun queue => queue.take (queue.length - length.toNat)
  | .ensureWritableBytes i _ => state.on i id
  | .write i data => state.on i (· ++ data.bytes)
  | .shrink i _ => state.on i id
  | .swap i j => { state with queues := state.queues ∘ Equiv.swap i j }
  | .readFd i received => state.on i (· ++ (received.map Data.bytes).getD [])

end Queues

/-- What the assertions at the beginning of an operation ask for, and what `readv` can
bring. -/
def Requires (state : Buffers ι) : Event ι → Prop
  | .append _ _ | .retrieveAll _ | .ensureWritableBytes _ _ | .shrink _ _ | .swap _ _ => True
  | .prepend i data => data.bytes.length ≤ (state.buffers i).prependableBytes
  | .retrieve i length | .retrieveAsString i length | .unwrite i length =>
      length.toNat ≤ (state.buffers i).readableBytes
  | .retrieveUntil i offset =>
      (state.buffers i).readerIndex + offset.toNat ≤ (state.buffers i).writerIndex
  | .write i data => data.bytes.length ≤ (state.buffers i).writableBytes
  | .readFd i received =>
      ∀ data ∈ received, data.bytes.length ≤ (state.buffers i).readCapacity

/-- No vector is needed that is longer than it can be, and what is copied to shrink a buffer
can be counted by an `int`. -/
def Fits (state : Buffers ι) : Event ι → Prop
  | .append i data => (state.buffers i).HasRoom data.bytes.length
  | .ensureWritableBytes i length => (state.buffers i).HasRoom length.toNat
  | .shrink i reserve =>
      (state.buffers i).readableBytes < intSizes ∧
        kCheapPrepend + sizeAdd (state.buffers i).readableBytes reserve.toNat ≤ maxSize
  | .readFd i received => ∀ data ∈ received, (state.buffers i).HasRoom data.bytes.length
  | _ => True

/-- The indices are in order, and the readable bytes are those of the lists. -/
structure Represents (state : Buffers ι) (ideal : Queues ι) : Prop where
  ordered : ∀ i, (state.buffers i).Ordered
  contents : ∀ i, (state.buffers i).contents = ideal.queues i
  strings : state.strings = ideal.strings

structure Invariant (state : Buffers ι) (ideal : Queues ι) : Prop where
  holds : ∀ i, (state.buffers i).Holds (ideal.queues i)
  strings : state.strings = ideal.strings

section Simulation

open Cuber.BufferStorage.Buffer

variable {state : Buffers ι} {ideal : Queues ι} {i : ι}
  {operation : Buffer → Exec BufferFault Buffer} {change : Bytes → Bytes}

omit [DecidableEq ι] in
theorem Invariant.represents (hinvariant : Invariant state ideal) :
    Represents state ideal where
  ordered := fun i => (hinvariant.holds i).ordered
  contents := fun i => (hinvariant.holds i).contents
  strings := hinvariant.strings

theorem Invariant.update (hinvariant : Invariant state ideal) {buffer : Buffer}
    {content : Bytes} (hholds : buffer.Holds content) :
    ∀ j, (Function.update state.buffers i buffer j).Holds
      (Function.update ideal.queues i content j) := by
  intro j
  by_cases hsame : j = i
  · rw [hsame, Function.update_self, Function.update_self]
    exact hholds
  · rw [Function.update_of_ne hsame, Function.update_of_ne hsame]
    exact hinvariant.holds j

/-- An operation of one buffer leaves the others alone. -/
theorem on_spec (hinvariant : Invariant state ideal)
    (hoperation : ∃ after, operation (state.buffers i) = .ret after ∧
      after.Holds (change (ideal.queues i))) :
    ∃ state', state.on i operation = .ret state' ∧ Invariant state' (ideal.on i change) := by
  obtain ⟨after, hreturns, hafter⟩ := hoperation
  refine ⟨{ state with buffers := Function.update state.buffers i after }, ?_,
    hinvariant.update hafter, hinvariant.strings⟩
  rw [Buffers.on, hreturns, Exec.ret_bind]

theorem buffers_on {state' : Buffers ι} (hon : state.on i operation = .ret state') :
    operation (state.buffers i) = .ret (state'.buffers i) := by
  obtain ⟨after, hreturns, hret⟩ := Exec.bind_eq_ret_iff.mp hon
  rw [hreturns, ← Exec.ret.inj hret]
  simp only [Function.update_self]

/-- An operation that fits does what it is for. -/
theorem step_spec (hinvariant : Invariant state ideal) (event : Event ι)
    (hrequires : Requires state event) (hfits : Fits state event) :
    ∃ state', state.step event = .ret state' ∧ Invariant state' (ideal.next event) := by
  have hreadable : ∀ i, (state.buffers i).readableBytes = (ideal.queues i).length :=
    fun i => (hinvariant.holds i).readableBytes
  cases event with
  | append i data =>
      rw [Buffers.step, Queues.next]
      apply on_spec hinvariant
      have happend := append_spec (hinvariant.holds i) hfits []
      rwa [List.append_nil] at happend
  | prepend i data =>
      rw [Buffers.step, Queues.next]
      apply on_spec hinvariant
      exact prepend_spec (hinvariant.holds i) hrequires
  | retrieve i length =>
      rw [Requires, hreadable i] at hrequires
      rw [Buffers.step, Queues.next]
      apply on_spec hinvariant
      exact retrieve_spec (hinvariant.holds i) hrequires
  | retrieveUntil i offset =>
      rw [Buffers.step, Queues.next]
      apply on_spec hinvariant
      apply retrieveUntil_spec (hinvariant.holds i)
      obtain ⟨front, back, hsplit, _⟩ := (hinvariant.holds i).exists_split
      rw [Requires, hsplit] at hrequires
      exact Nat.le_of_add_le_add_left hrequires
  | retrieveAll i =>
      rw [Buffers.step, Queues.next]
      apply on_spec hinvariant
      exact ⟨_, rfl, holds_retrieveAll (hinvariant.holds i)⟩
  | retrieveAsString i length =>
      rw [Requires, hreadable i] at hrequires
      obtain ⟨after, hretrieve, hafter⟩ := retrieveAsString_spec (hinvariant.holds i) hrequires
      rw [Buffers.step, hretrieve, Exec.ret_bind]
      refine ⟨_, rfl, hinvariant.update hafter, ?_⟩
      exact congrArg (· ++ [(ideal.queues i).take length.toNat]) hinvariant.strings
  | unwrite i length =>
      rw [Requires, hreadable i] at hrequires
      rw [Buffers.step, Queues.next]
      apply on_spec hinvariant
      exact unwrite_spec (hinvariant.holds i) hrequires
  | ensureWritableBytes i length =>
      rw [Buffers.step, Queues.next]
      apply on_spec hinvariant
      obtain ⟨after, hensure, hafter, _⟩ := ensureWritableBytes_spec (hinvariant.holds i) hfits
      exact ⟨after, hensure, hafter⟩
  | write i data =>
      rw [Buffers.step, Queues.next]
      apply on_spec hinvariant
      exact write_spec (hinvariant.holds i) hrequires
  | shrink i reserve =>
      rw [Fits, hreadable i] at hfits
      rw [Buffers.step, Queues.next]
      apply on_spec hinvariant
      exact shrink_spec (hinvariant.holds i) hfits.1 hfits.2
  | swap i j =>
      exact ⟨_, rfl, fun k => hinvariant.holds (Equiv.swap i j k), hinvariant.strings⟩
  | readFd i received =>
      rw [Buffers.step, Queues.next]
      apply on_spec hinvariant
      cases received with
      | none =>
          refine ⟨_, rfl, ?_⟩
          rw [Option.map_none, Option.getD_none, List.append_nil]
          exact hinvariant.holds i
      | some data => exact readFd_spec (hinvariant.holds i) (hfits data rfl)

/-- Otherwise the operation fails, or breaks the indices, or loses bytes. -/
theorem step_of_not_fits {state' : Buffers ι} (hinvariant : Invariant state ideal)
    (event : Event ι) (hfits : ¬ Fits state event) (hstep : state.step event = .ret state') :
    ¬ Represents state' (ideal.next event) := by
  have hlt := maxSize_lt
  cases event with
  | append i data =>
      rw [Buffers.step] at hstep
      have hlength : data.bytes.length < sizeValues := by
        have hbound := data.fits
        omega
      exact absurd (buffers_on hstep)
        (append_of_not_room (hinvariant.holds i) hlength hfits)
  | ensureWritableBytes i length =>
      rw [Buffers.step] at hstep
      have hbroken := (ensureWritableBytes_of_not_room (hinvariant.holds i)
        (UInt64.toNat_lt length) hfits (buffers_on hstep)).1
      intro hrepresents
      exact Nat.not_le.mpr hbroken (hrepresents.ordered i).2
  | shrink i reserve =>
      rw [Buffers.step] at hstep
      rw [Fits, (hinvariant.holds i).readableBytes] at hfits
      have hshrink := buffers_on hstep
      have hlost := shrink_of_not_fits (hinvariant.holds i) hfits hshrink
      intro hrepresents
      apply hlost
      rw [hrepresents.contents i]
      exact Function.update_self i _ _
  | readFd i received =>
      rw [Buffers.step] at hstep
      cases received with
      | none => exact absurd (by simp [Fits]) hfits
      | some data =>
          have hroom : ¬ (state.buffers i).HasRoom data.bytes.length := by
            intro hroom
            apply hfits
            rintro other hother
            cases hother
            exact hroom
          exact absurd (buffers_on hstep)
            (readFd_of_not_room (hinvariant.holds i) data.fits hroom)
  | prepend i data => exact absurd trivial hfits
  | retrieve i length => exact absurd trivial hfits
  | retrieveUntil i offset => exact absurd trivial hfits
  | retrieveAll i => exact absurd trivial hfits
  | retrieveAsString i length => exact absurd trivial hfits
  | unwrite i length => exact absurd trivial hfits
  | write i data => exact absurd trivial hfits
  | swap i j => exact absurd trivial hfits

omit [DecidableEq ι] in
theorem initial_invariant (sizes : ι → InitialSize) : Invariant (.initial sizes) {} where
  holds := fun i => holds_new (sizes i).2
  strings := rfl

end Simulation

/-- Where the operations are given what they ask for, their indices stay in order, no
assertion fails and the readable bytes are those of a list, if and only if no vector is
needed that is too long and no buffer is shrunk that holds more bytes than an `int` can
count. -/
theorem refines_iff_fits (sizes : ι → InitialSize) (events : List (Event ι))
    (hrequires : Meets Buffers.step Requires (.initial sizes) events) :
    Refines Buffers.step Queues.next Represents (.initial sizes) {} events ↔
      Meets Buffers.step Fits (.initial sizes) events := by
  apply refines_iff_meets
  · exact fun state ideal => Invariant.represents
  · exact fun state ideal event hinvariant => step_spec hinvariant event
  · exact fun state ideal event state' hinvariant _ => step_of_not_fits hinvariant event
  · exact initial_invariant sizes
  · exact hrequires

end Machines

/-- A line is appended to a small buffer, and retrieved and taken back in part. -/
def someEvents : List (Event Unit) :=
  [.append () { bytes := ascii "GET / HTTP/1.1\r\n", fits := by decide },
    .retrieve () 4, .unwrite () 2, .shrink () 16]

def smallBuffer : Unit → InitialSize := fun _ => ⟨4, by decide⟩

theorem someEvents_refine :
    Refines Buffers.step Queues.next Represents (.initial smallBuffer) {} someEvents ↔
      Meets Buffers.step Fits (.initial smallBuffer) someEvents := by
  apply refines_iff_fits
  obtain ⟨first, hfirst, hinvariant⟩ := step_spec (initial_invariant smallBuffer)
    (.append () { bytes := ascii "GET / HTTP/1.1\r\n", fits := by decide })
    trivial (Or.inr (by decide))
  have hretrieve : Requires first (.retrieve () 4) := by
    rw [Requires, (hinvariant.holds ()).readableBytes]
    decide
  obtain ⟨second, hsecond, hlater⟩ := step_spec hinvariant _ hretrieve trivial
  have hunwrite : Requires second (.unwrite () 2) := by
    rw [Requires, (hlater.holds ()).readableBytes]
    decide
  rw [someEvents, meets_cons_iff hfirst, meets_cons_iff hsecond]
  exact ⟨trivial, hretrieve, hunwrite, fun third _ => ⟨trivial, fun _ _ => trivial⟩⟩

/-- As many bytes as there are numbers of 32 bits. -/
def manyBytes : Data where
  bytes := List.replicate (2 ^ 32) NUL
  fits := by
    rw [List.length_replicate]
    decide

def shrinkingEvents : List (Event Unit) := [.append () manyBytes, .shrink () 0]

/-- All bytes of a buffer are lost when it is shrunk. -/
theorem manyBytes_lost :
    Meets Buffers.step Requires (.initial smallBuffer) shrinkingEvents ∧
      ∃ state, runFrom Buffers.step (.initial smallBuffer) shrinkingEvents = .ret state ∧
        (state.buffers ()).contents = [] ∧
        ¬ Represents state (shrinkingEvents.foldl Queues.next {}) := by
  refine ⟨⟨trivial, fun first _ => ⟨trivial, fun _ _ => trivial⟩⟩, ?_⟩
  have hlength : manyBytes.bytes.length = 2 ^ 32 := List.length_replicate
  have hroom : (Buffers.initial smallBuffer).buffers () |>.HasRoom manyBytes.bytes.length := by
    right
    rw [hlength]
    decide
  obtain ⟨first, hfirst, hinvariant⟩ :=
    step_spec (initial_invariant smallBuffer) (.append () manyBytes) trivial hroom
  have hholds : (first.buffers ()).Holds manyBytes.bytes := hinvariant.holds ()
  have hkept : ofInt (toInt manyBytes.bytes.length) = 0 := by
    rw [hlength]
    decide
  have hfits : kCheapPrepend + sizeAdd manyBytes.bytes.length 0 ≤ maxSize := by
    rw [hlength]
    decide
  obtain ⟨after, hshrink, hafter⟩ :=
    Buffer.shrink_take hholds hkept (Nat.zero_le _) (by decide) hfits
  rw [List.take_zero] at hafter
  refine ⟨{ first with buffers := Function.update first.buffers () after }, ?_, ?_, ?_⟩
  · apply runFrom_cons_eq_ret_iff.mpr ⟨first, hfirst, runFrom_cons_eq_ret_iff.mpr ⟨_, ?_, rfl⟩⟩
    rw [Buffers.step, Buffers.on, show (0 : UInt64).toNat = 0 from rfl, hshrink, Exec.ret_bind]
  · simp only [Function.update_self]
    exact hafter.contents
  · intro hrepresents
    have hqueue : (shrinkingEvents.foldl Queues.next {}).queues () = manyBytes.bytes := rfl
    have hall := hrepresents.contents ()
    simp only [Function.update_self] at hall
    rw [hafter.contents, hqueue] at hall
    rw [← hall] at hlength
    cases hlength

end Cuber.BufferStorage
