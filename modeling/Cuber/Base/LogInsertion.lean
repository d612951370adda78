import Cuber.Base.LogStream
import Cuber.Core.Memory
import Cuber.Core.Runs

/-!
# Insertions into the memory of a log stream

A `LogStream` writes into an array behind a cursor.  Texts are copied there.  The
digits of a number are written backwards, with a table that is read to the left of
its middle for negative remainders, and then reversed in place.
-/

namespace Cuber.LogInsertion

open Cuber.Execution
open Cuber.LogStreams
open Cuber.Memory
open Cuber.Runs
open Cuber.Text

/-! ## Conversion of numbers -/

def readTable (table : Bytes) (index : ℤ) : Exec BoundsFault Byte :=
  if index < 0 then .fault .outOfBounds
  else
    match table[index.toNat]? with
    | some byte => .ret byte
    | none => .fault .outOfBounds

def digits : Bytes := ascii "9876543210123456789"

/-- Where `zero` points to in `digits`. -/
def zero : ℤ := 9

def digitsHex : Bytes := ascii "0123456789ABCDEF"

/-- A base with the way in which a remainder is looked up. -/
structure Radix where
  base : ℕ
  one_lt : 1 < base
  digit : ℤ → Exec BoundsFault Byte

def decimal : Radix where
  base := 10
  one_lt := by decide
  digit lsd := readTable digits (zero + lsd)

def hexadecimal : Radix where
  base := 16
  one_lt := by decide
  digit lsd := readTable digitsHex lsd

section Conversion

variable {size : ℕ}

/-- The loop of `convert` and `convertHex`, with the address behind the digits. -/
def storeDigits (radix : Radix) (block : Block Byte size) (p : ℕ) (i : ℤ) :
    Exec BoundsFault (Block Byte size × ℕ) :=
  (radix.digit (i.tmod radix.base)).bind fun byte =>
    (block.store p byte).bind fun block =>
      if i.tdiv radix.base = 0 then .ret (block, p + 1)
      else storeDigits radix block (p + 1) (i.tdiv radix.base)
termination_by i.natAbs
decreasing_by
  rename_i hrest
  have hne : i ≠ 0 := by
    rintro rfl
    exact hrest (Int.zero_tdiv _)
  rw [Int.natAbs_tdiv]
  exact Nat.div_lt_self (Int.natAbs_pos.mpr hne) radix.one_lt

def convert (block : Block Byte size) (buf : ℕ) (value : ℤ) :
    Exec BoundsFault (Block Byte size × ℕ) :=
  (storeDigits decimal block buf value).bind fun (block, p) =>
    (if value < 0 then (block.store p minus).bind fun block => .ret (block, p + 1)
      else .ret (block, p)).bind fun (block, p) =>
      (block.store p NUL).bind fun block =>
        (block.reverse buf p).bind fun block => .ret (block, p - buf)

def convertHex (block : Block Byte size) (buf : ℕ) (value : ℕ) :
    Exec BoundsFault (Block Byte size × ℕ) :=
  (storeDigits hexadecimal block buf value).bind fun (block, p) =>
    (block.store p NUL).bind fun block =>
      (block.reverse buf p).bind fun block => .ret (block, p - buf)

end Conversion

/-! ## Streams and their operands -/

/-- A `FixedBuffer` with its array and the cursor `cur_`. -/
structure RawBuffer (size : ℕ) where
  data : Block Byte size
  cur : ℕ

namespace RawBuffer

variable {size : ℕ}

def avail (buffer : RawBuffer size) : ℤ :=
  (size : ℤ) - buffer.cur

def append (buffer : RawBuffer size) (text : Bytes) (len : ℕ) :
    Exec BoundsFault (RawBuffer size) :=
  if toSizeT buffer.avail > len then
    (buffer.data.copy buffer.cur (text.take len)).bind fun data =>
      .ret { data, cur := buffer.cur + len }
  else .ret buffer

def content (buffer : RawBuffer size) : Bytes :=
  buffer.data.front buffer.cur

end RawBuffer

abbrev Stream := RawBuffer kSmallBuffer

namespace Stream

/-- `LogStream::formatInteger`, for any type of integers. -/
def formatInteger (stream : Stream) (value : ℤ) : Exec BoundsFault Stream :=
  if stream.avail ≥ kMaxNumericSize then
    (convert stream.data stream.cur value).bind fun (data, len) =>
      .ret { data, cur := stream.cur + len }
  else .ret stream

def formatPointer (stream : Stream) (value : ℕ) : Exec BoundsFault Stream :=
  if stream.avail ≥ kMaxNumericSize then
    let buf := stream.cur
    (stream.data.store buf digitZero).bind fun data =>
      (data.store (buf + 1) letterX).bind fun data =>
        (convertHex data (buf + 2) value).bind fun (data, len) =>
          .ret { data, cur := stream.cur + (len + 2) }
  else .ret stream

end Stream

/-- A `StringPiece` with the bytes that it points to, which an `int` counts. -/
structure StringPiece where
  bytes : Bytes
  length_le : bytes.length ≤ intMax

inductive Operand where
  | bool (value : Bool)
  | char (value : Byte)
  | short (value : Int16)
  | unsignedShort (value : UInt16)
  | int (value : Int32)
  | unsignedInt (value : UInt32)
  | long (value : Int64)
  | unsignedLong (value : UInt64)
  | longLong (value : Int64)
  | unsignedLongLong (value : UInt64)
  | pointer (value : UInt64)
  /-- A pointer to bytes up to a NUL, or the null pointer. -/
  | cString (value : Option Bytes)
  | string (value : Bytes)
  | stringPiece (value : StringPiece)
  | buffer (value : FixedBuffer kSmallBuffer)

def toStringPiece (buffer : FixedBuffer kSmallBuffer) : StringPiece where
  bytes := buffer.data
  length_le := buffer.fits.trans (by decide)

namespace Stream

def insertStringPiece (stream : Stream) (value : StringPiece) : Exec BoundsFault Stream :=
  stream.append value.bytes (toSizeT value.bytes.length)

def insert (stream : Stream) : Operand → Exec BoundsFault Stream
  | .bool value => stream.append [if value then digitOne else digitZero] 1
  | .char value => stream.append [value] 1
  | .short value => stream.formatInteger value.toInt32.toInt
  | .unsignedShort value => stream.formatInteger value.toUInt32.toNat
  | .int value => stream.formatInteger value.toInt
  | .unsignedInt value => stream.formatInteger value.toNat
  | .long value => stream.formatInteger value.toInt
  | .unsignedLong value => stream.formatInteger value.toNat
  | .longLong value => stream.formatInteger value.toInt
  | .unsignedLongLong value => stream.formatInteger value.toNat
  | .pointer value => stream.formatPointer value.toNat
  | .cString (some value) => stream.append value (cStr value).length
  | .cString none => stream.append (ascii "(null)") 6
  | .string value => stream.append value value.length
  | .stringPiece value => stream.insertStringPiece value
  | .buffer value => stream.insertStringPiece (toStringPiece value)

end Stream

/-! ## Texts -/

/-- The digits of a number from the last to the first, of which there is at least one. -/
def numeral (base value : ℕ) : List ℕ :=
  if value = 0 then [0] else Nat.digits base value

def hexDigit (digit : ℕ) : Byte :=
  digitsHex[digit]?.getD NUL

def hexText (value : ℕ) : Bytes :=
  (numeral 16 value).reverse.map hexDigit

def Operand.text : Operand → Bytes
  | .bool value => [if value then digitOne else digitZero]
  | .char value => [value]
  | .short value => intText value.toInt
  | .unsignedShort value => intText value.toNat
  | .int value => intText value.toInt
  | .unsignedInt value => intText value.toNat
  | .long value | .longLong value => intText value.toInt
  | .unsignedLong value | .unsignedLongLong value => intText value.toNat
  | .pointer value => ascii "0x" ++ hexText value.toNat
  | .cString (some value) => cStr value
  | .cString none => ascii "(null)"
  | .string value => value
  | .stringPiece value => value.bytes
  | .buffer value => value.data

/-! ## Digits -/

theorem numeral_eq_cons {base : ℕ} (hbase : 1 < base) (value : ℕ) :
    numeral base value =
      value % base :: if value / base = 0 then [] else numeral base (value / base) := by
  by_cases hzero : value = 0
  · simp [numeral, hzero]
  · rw [numeral, if_neg hzero, Nat.digits_def' hbase (Nat.pos_of_ne_zero hzero)]
    by_cases hlast : value / base = 0
    · rw [if_pos hlast, hlast, Nat.digits_zero]
    · rw [if_neg hlast, numeral, if_neg hlast]

theorem length_numeral_le {base value digits : ℕ} (hbase : 1 < base) (hpos : 0 < digits)
    (hvalue : value < base ^ digits) : (numeral base value).length ≤ digits := by
  by_cases hzero : value = 0
  · rw [numeral, if_pos hzero]
    exact hpos
  · rw [numeral, if_neg hzero]
    exact (Nat.digits_length_le_iff hbase value).mpr hvalue

theorem decimalText_eq_map (value : ℕ) :
    decimalText value =
      ((numeral 10 value).map fun digit => Fin.ofNat 256 (48 + digit)).reverse := by
  rw [decimalText, numeral]
  split_ifs
  · rfl
  · exact List.map_reverse

/-- Remainders and quotients keep the sign of a number. -/
theorem tmod_tdiv_of_sign {sign : ℤ} (hsign : sign = 1 ∨ sign = -1) (value base : ℕ) :
    (sign * value).tmod base = sign * (value % base : ℕ) ∧
      (sign * value).tdiv base = sign * (value / base : ℕ) := by
  rcases hsign with rfl | rfl
  · simp only [one_mul]
    exact ⟨(Int.ofNat_tmod ..).symm, (Int.ofNat_tdiv ..).symm⟩
  · simp only [neg_one_mul]
    exact ⟨by rw [Int.neg_tmod, Int.ofNat_tmod], by rw [Int.neg_tdiv, Int.ofNat_tdiv]⟩

section Conversion

variable {size : ℕ}

/-- The loop writes the digits from the last to the first, also of a negative number. -/
theorem storeDigits_writes {radix : Radix} {sign : ℤ} (hsign : sign = 1 ∨ sign = -1)
    {glyph : ℕ → Byte}
    (hglyph : ∀ digit, digit < radix.base → radix.digit (sign * digit) = .ret (glyph digit))
    (block : Block Byte size) (p value : ℕ)
    (hfits : p + (numeral radix.base value).length ≤ size) :
    ∃ block', storeDigits radix block p (sign * value) =
        .ret (block', p + (numeral radix.base value).length) ∧
      block.Writes p ((numeral radix.base value).map glyph) block' := by
  induction value using Nat.strong_induction_on generalizing block p with
  | _ value ih =>
      obtain ⟨hrest, hquotient⟩ := tmod_tdiv_of_sign hsign value radix.base
      have hdigit := hglyph _ (Nat.mod_lt value (Nat.lt_trans Nat.zero_lt_one radix.one_lt))
      rw [numeral_eq_cons radix.one_lt, List.length_cons] at hfits
      obtain ⟨middle, hstore, hwrites⟩ :
          ∃ middle, block.store p (glyph (value % radix.base)) = .ret middle ∧
            block.Writes p [glyph (value % radix.base)] middle :=
        Block.writes_store (by omega)
      rw [storeDigits, hrest, hquotient, hdigit, Exec.ret_bind, hstore, Exec.ret_bind,
        numeral_eq_cons radix.one_lt]
      by_cases hlast : value / radix.base = 0
      · rw [if_pos (by rw [hlast, Int.ofNat_zero, mul_zero]), if_pos hlast]
        exact ⟨middle, rfl, hwrites⟩
      · have hsignNe : sign ≠ 0 := by
          rcases hsign with rfl | rfl
          · decide
          · decide
        have hne : sign * (value / radix.base : ℕ) ≠ 0 :=
          mul_ne_zero hsignNe (Int.natCast_ne_zero.mpr hlast)
        rw [if_neg hlast] at hfits
        rw [if_neg hne, if_neg hlast]
        have hsmaller : value / radix.base < value := by
          apply Nat.div_lt_self _ radix.one_lt
          by_contra hzero
          rw [Nat.eq_zero_of_not_pos hzero, Nat.zero_div] at hlast
          exact hlast rfl
        obtain ⟨block', hret, hlater⟩ := ih _ hsmaller middle (p + 1) (by omega)
        refine ⟨block', ?_, hwrites.trans hlater⟩
        rw [hret, List.length_cons]
        congr 2
        omega

theorem digit_decimal :
    ∀ digit, digit < decimal.base →
      decimal.digit (1 * digit) = .ret (Fin.ofNat 256 (48 + digit)) ∧
        decimal.digit (-1 * digit) = .ret (Fin.ofNat 256 (48 + digit)) := by
  decide

theorem digit_hexadecimal :
    ∀ digit, digit < hexadecimal.base →
      hexadecimal.digit (1 * digit) = .ret (hexDigit digit) := by
  decide

/-- The digits of a number of either sign. -/
theorem storeDigits_decimal (block : Block Byte size) (p : ℕ) (value : ℤ)
    (hfits : p + (decimalText value.natAbs).length ≤ size) :
    ∃ block', storeDigits decimal block p value =
        .ret (block', p + (decimalText value.natAbs).length) ∧
      block.Writes p (decimalText value.natAbs).reverse block' := by
  obtain ⟨sign, hsign, hvalue⟩ : ∃ sign : ℤ, (sign = 1 ∨ sign = -1) ∧
      value = sign * value.natAbs := by
    rcases Int.natAbs_eq value with heq | heq
    · exact ⟨1, .inl rfl, by rw [one_mul, ← heq]⟩
    · exact ⟨-1, .inr rfl, by rw [neg_one_mul, ← heq]⟩
  have hglyph : ∀ digit, digit < decimal.base →
      decimal.digit (sign * digit) = .ret (Fin.ofNat 256 (48 + digit)) := by
    intro digit hdigit
    rcases hsign with rfl | rfl
    · exact (digit_decimal digit hdigit).1
    · exact (digit_decimal digit hdigit).2
  have hlength : (decimalText value.natAbs).length = (numeral 10 value.natAbs).length := by
    rw [decimalText_eq_map, List.length_reverse, List.length_map]
  rw [hlength] at hfits ⊢
  obtain ⟨block', hret, hwrites⟩ := storeDigits_writes hsign hglyph block p _ hfits
  refine ⟨block', ?_, ?_⟩
  · rw [← hvalue] at hret
    exact hret
  · rw [decimalText_eq_map, List.reverse_reverse]
    exact hwrites

/-- What is written behind an address is ended with a NUL and reversed. -/
theorem terminate_writes {block block' : Block Byte size} {p : ℕ} {written : Bytes}
    (hwrites : block.Writes p written block') (hfits : p + written.length < size) :
    ∃ block'', ((block'.store (p + written.length) NUL).bind fun block =>
        (block.reverse p (p + written.length)).bind fun block =>
          (.ret (block, p + written.length - p) : Exec BoundsFault (Block Byte size × ℕ))) =
        .ret (block'', written.length) ∧
      block.Writes p written.reverse block'' := by
  obtain ⟨ended, hstore, hended⟩ := hwrites.store NUL hfits
  obtain ⟨block'', hreverse, hreversed⟩ := hended.reverse
  refine ⟨block'', ?_, hreversed⟩
  rw [hstore, Exec.ret_bind, hreverse, Exec.ret_bind, Nat.add_sub_cancel_left]

/-- The digits, and a sign behind those of a negative number. -/
theorem storeSigned_writes (block : Block Byte size) (p : ℕ) (value : ℤ)
    (hfits : p + (intText value).length ≤ size) :
    ∃ block', ((storeDigits decimal block p value).bind fun (block, p) =>
        if value < 0 then (block.store p minus).bind fun block => .ret (block, p + 1)
        else .ret (block, p)) = .ret (block', p + (intText value).length) ∧
      block.Writes p (intText value).reverse block' := by
  by_cases hnegative : value < 0
  · have htext : intText value = minus :: decimalText value.natAbs := if_pos hnegative
    rw [htext, List.length_cons] at hfits
    obtain ⟨middle, hdigits, hwrites⟩ := storeDigits_decimal block p value (by omega)
    obtain ⟨block', hstore, hsign⟩ : ∃ block', middle.store
        (p + (decimalText value.natAbs).reverse.length) minus = .ret block' ∧
          middle.Writes (p + (decimalText value.natAbs).reverse.length) [minus] block' :=
      Block.writes_store (by rw [List.length_reverse]; omega)
    refine ⟨block', ?_, ?_⟩
    · rw [List.length_reverse] at hstore
      simp only [hdigits, Exec.ret_bind, if_pos hnegative, hstore, htext, List.length_cons,
        Nat.add_assoc]
    · rw [htext, List.reverse_cons]
      exact hwrites.trans hsign
  · have htext : intText value = decimalText value.natAbs := if_neg hnegative
    rw [htext] at hfits ⊢
    obtain ⟨block', hdigits, hwrites⟩ := storeDigits_decimal block p value hfits
    refine ⟨block', ?_, hwrites⟩
    simp only [hdigits, Exec.ret_bind, if_neg hnegative]

/-- `convert` writes a numeral, and needs a byte more for the NUL. -/
theorem convert_writes (block : Block Byte size) (buf : ℕ) (value : ℤ)
    (hfits : buf + (intText value).length < size) :
    ∃ block', convert block buf value = .ret (block', (intText value).length) ∧
      block.Writes buf (intText value) block' := by
  obtain ⟨middle, hstore, hwrites⟩ :=
    storeSigned_writes block buf value (Nat.le_of_lt hfits)
  obtain ⟨block', hend, hreversed⟩ := terminate_writes hwrites
    (by rw [List.length_reverse]; exact hfits)
  rw [List.length_reverse] at hend
  rw [List.reverse_reverse] at hreversed
  obtain ⟨⟨unsigned, q⟩, hdigits, hsign⟩ := Exec.bind_eq_ret_iff.mp hstore
  simp only at hsign
  refine ⟨block', ?_, hreversed⟩
  simp only [convert, hdigits, Exec.ret_bind, hsign]
  exact hend

/-- The hexadecimal digits end up in the right order. -/
theorem convertHex_writes (block : Block Byte size) (buf value : ℕ)
    (hfits : buf + (hexText value).length < size) :
    ∃ block', convertHex block buf value = .ret (block', (hexText value).length) ∧
      block.Writes buf (hexText value) block' := by
  have hlength : (hexText value).length = ((numeral 16 value).map hexDigit).length := by
    rw [hexText, List.length_map, List.length_map, List.length_reverse]
  rw [hlength] at hfits ⊢
  obtain ⟨middle, hstore, hwrites⟩ := storeDigits_writes (.inl rfl) digit_hexadecimal block buf
    value (by rw [← List.length_map hexDigit]; exact Nat.le_of_lt hfits)
  obtain ⟨block', hend, hreversed⟩ := terminate_writes hwrites hfits
  rw [← List.map_reverse] at hreversed
  refine ⟨block', ?_, hreversed⟩
  rw [one_mul] at hstore
  rw [convertHex, hstore, Exec.ret_bind]
  rw [List.length_map] at hend ⊢
  exact hend

end Conversion

/-! ## One insertion -/

/-- The room that an operand must find: a byte is left free behind a text. -/
def Operand.need : Operand → ℕ
  | .bool _ | .char _ => 2
  | .short _ | .unsignedShort _ | .int _ | .unsignedInt _ | .long _ | .unsignedLong _
  | .longLong _ | .unsignedLongLong _ | .pointer _ => kMaxNumericSize
  | .cString (some value) => (cStr value).length + 1
  | .cString none => 7
  | .string value => value.length + 1
  | .stringPiece value => value.bytes.length + 1
  | .buffer value => value.data.length + 1

/-- A text was added if there was room for it, and the buffer was not left. -/
structure Adds {size : ℕ} (buffer : RawBuffer size) (text : Bytes) (need : ℕ)
    (buffer' : RawBuffer size) : Prop where
  cur_le : buffer'.cur ≤ size
  content : buffer'.content =
    if buffer.cur + need ≤ size then buffer.content ++ text else buffer.content

section Insertion

variable {size : ℕ} {buffer : RawBuffer size} {stream : Stream}

theorem RawBuffer.length_content (hcur : buffer.cur ≤ size) :
    buffer.content.length = buffer.cur :=
  Block.length_front hcur

theorem adds_of_writes {data : Block Byte size} {text : Bytes} {need : ℕ}
    (hroom : buffer.cur + need ≤ size) (hwrites : buffer.data.Writes buffer.cur text data) :
    Adds buffer text need { data, cur := buffer.cur + text.length } where
  cur_le := hwrites.fits
  content := by
    rw [if_pos hroom]
    exact hwrites.front

theorem adds_of_lt {text : Bytes} {need : ℕ} (hcur : buffer.cur ≤ size)
    (hroom : ¬ buffer.cur + need ≤ size) : Adds buffer text need buffer where
  cur_le := hcur
  content := (if_neg hroom).symm

/-- A text is copied behind the cursor if a byte would be left free. -/
theorem append_adds (hsize : size ≤ intMax) (hcur : buffer.cur ≤ size) {text : Bytes} {len : ℕ}
    (hlen : len ≤ text.length) :
    ∃ buffer', buffer.append text len = .ret buffer' ∧
      Adds buffer (text.take len) (len + 1) buffer' := by
  have hlength : (text.take len).length = len := by
    rw [List.length_take, Nat.min_eq_left hlen]
  have havail : toSizeT buffer.avail = size - buffer.cur := by
    rw [RawBuffer.avail, ← Int.ofNat_sub hcur]
    exact toSizeT_natCast (by omega)
  by_cases hroom : buffer.cur + (len + 1) ≤ size
  · obtain ⟨data, hcopy, hwrites⟩ : ∃ data, buffer.data.copy buffer.cur (text.take len) =
        .ret data ∧ buffer.data.Writes buffer.cur (text.take len) data :=
      Block.writes_copy (by omega)
    have hadds := adds_of_writes hroom hwrites
    rw [hlength] at hadds
    refine ⟨_, ?_, hadds⟩
    rw [RawBuffer.append, if_pos (by omega), hcopy, Exec.ret_bind]
  · refine ⟨buffer, ?_, adds_of_lt hcur hroom⟩
    rw [RawBuffer.append, if_neg (by omega)]

theorem append_all_adds (hsize : size ≤ intMax) (hcur : buffer.cur ≤ size) (text : Bytes) :
    ∃ buffer', buffer.append text text.length = .ret buffer' ∧
      Adds buffer text (text.length + 1) buffer' := by
  have hadds := append_adds hsize hcur (Nat.le_refl text.length)
  rw [List.take_length] at hadds
  exact hadds

theorem formatInteger_adds (hcur : stream.cur ≤ kSmallBuffer) {value : ℤ}
    (hlength : (intText value).length < kMaxNumericSize) :
    ∃ stream', stream.formatInteger value = .ret stream' ∧
      Adds stream (intText value) kMaxNumericSize stream' := by
  by_cases hroom : stream.cur + kMaxNumericSize ≤ kSmallBuffer
  · obtain ⟨data, hret, hwrites⟩ := convert_writes stream.data stream.cur value (by omega)
    refine ⟨_, ?_, adds_of_writes hroom hwrites⟩
    rw [Stream.formatInteger, if_pos (by rw [RawBuffer.avail]; omega), hret]
    rfl
  · refine ⟨stream, ?_, adds_of_lt hcur hroom⟩
    rw [Stream.formatInteger, if_neg (by rw [RawBuffer.avail]; omega)]

/-- A pointer is added as a hexadecimal number if there is room for any number. -/
theorem formatPointer_adds (hcur : stream.cur ≤ kSmallBuffer) {value : ℕ}
    (hlength : (hexText value).length + 2 < kMaxNumericSize) :
    ∃ stream', stream.formatPointer value = .ret stream' ∧
      Adds stream (ascii "0x" ++ hexText value) kMaxNumericSize stream' := by
  by_cases hroom : stream.cur + kMaxNumericSize ≤ kSmallBuffer
  · obtain ⟨first, hfirst, hzero⟩ : ∃ first, stream.data.store stream.cur digitZero =
        .ret first ∧ stream.data.Writes stream.cur [digitZero] first :=
      Block.writes_store (by omega)
    obtain ⟨second, hsecond, hx⟩ : ∃ second, first.store (stream.cur + 1) letterX = .ret second ∧
        first.Writes (stream.cur + 1) [letterX] second :=
      Block.writes_store (by omega)
    obtain ⟨data, hret, hwrites⟩ := convertHex_writes second (stream.cur + 2) value (by omega)
    have htext : ascii "0x" ++ hexText value = [digitZero] ++ [letterX] ++ hexText value := by rfl
    have hadds := adds_of_writes hroom ((hzero.trans hx).trans hwrites)
    rw [← htext] at hadds
    refine ⟨_, ?_, hadds⟩
    have hcursor : (ascii "0x" ++ hexText value).length = (hexText value).length + 2 := by
      rw [htext, List.length_append]
      exact Nat.add_comm ..
    simp only [Stream.formatPointer, hfirst, hsecond, hret, Exec.ret_bind, hcursor]
    rw [if_pos (by rw [RawBuffer.avail]; omega)]
  · refine ⟨stream, ?_, adds_of_lt hcur hroom⟩
    rw [Stream.formatPointer, if_neg (by rw [RawBuffer.avail]; omega)]

/-- An integer of 64 bits leaves enough of the room for the NUL. -/
theorem length_intText_lt {value : ℤ} (hvalue : value.natAbs < 10 ^ 20) :
    (intText value).length < kMaxNumericSize := by
  have hdigits := length_decimalText_le (by decide) hvalue
  rw [intText, kMaxNumericSize]
  split_ifs
  · rw [List.length_cons]
    omega
  · omega

theorem length_hexText_lt (value : UInt64) :
    (hexText value.toNat).length + 2 < kMaxNumericSize := by
  have hvalue : value.toNat < 16 ^ 16 := value.toNat_lt
  have hdigits := length_numeral_le (by decide) (by decide) hvalue
  rw [hexText, List.length_map, List.length_reverse, kMaxNumericSize]
  omega

theorem natAbs_toNat_lt {value limit : ℕ} (hvalue : value < limit) (hlimit : limit ≤ 10 ^ 20) :
    (value : ℤ).natAbs < 10 ^ 20 := by
  rw [Int.natAbs_natCast]
  exact Nat.lt_of_lt_of_le hvalue hlimit

theorem natAbs_lt_of_bounds {value : ℤ} {limit : ℕ} (hlow : -(limit : ℤ) ≤ value)
    (hhigh : value < limit) (hlimit : limit < 10 ^ 20) : value.natAbs < 10 ^ 20 := by
  have hle : value.natAbs ≤ limit := by omega
  exact Nat.lt_of_le_of_lt hle hlimit

theorem insertStringPiece_adds (hcur : stream.cur ≤ kSmallBuffer) (value : StringPiece) :
    ∃ stream', stream.insertStringPiece value = .ret stream' ∧
      Adds stream value.bytes (value.bytes.length + 1) stream' := by
  rw [Stream.insertStringPiece, toSizeT_natCast value.length_le]
  exact append_all_adds (by decide) hcur value.bytes

/-- An insertion returns, and adds the text of the operand if there is room for it. -/
theorem insert_adds (hcur : stream.cur ≤ kSmallBuffer) (operand : Operand) :
    ∃ stream', stream.insert operand = .ret stream' ∧
      Adds stream operand.text operand.need stream' := by
  have hsize : kSmallBuffer ≤ intMax := by decide
  cases operand with
  | bool value => exact append_all_adds hsize hcur [if value then digitOne else digitZero]
  | char value => exact append_all_adds hsize hcur [value]
  | short value =>
      rw [Stream.insert, Int16.toInt_toInt32]
      exact formatInteger_adds hcur (length_intText_lt
        (natAbs_lt_of_bounds value.le_toInt value.toInt_lt (by decide)))
  | unsignedShort value =>
      rw [Stream.insert, UInt16.toNat_toUInt32]
      exact formatInteger_adds hcur (length_intText_lt
        (natAbs_toNat_lt value.toNat_lt (by decide)))
  | int value =>
      exact formatInteger_adds hcur (length_intText_lt
        (natAbs_lt_of_bounds value.le_toInt value.toInt_lt (by decide)))
  | unsignedInt value =>
      exact formatInteger_adds hcur (length_intText_lt
        (natAbs_toNat_lt value.toNat_lt (by decide)))
  | long value =>
      exact formatInteger_adds hcur (length_intText_lt
        (natAbs_lt_of_bounds value.le_toInt value.toInt_lt (by decide)))
  | unsignedLong value =>
      exact formatInteger_adds hcur (length_intText_lt
        (natAbs_toNat_lt value.toNat_lt (by decide)))
  | longLong value =>
      exact formatInteger_adds hcur (length_intText_lt
        (natAbs_lt_of_bounds value.le_toInt value.toInt_lt (by decide)))
  | unsignedLongLong value =>
      exact formatInteger_adds hcur (length_intText_lt
        (natAbs_toNat_lt value.toNat_lt (by decide)))
  | pointer value => exact formatPointer_adds hcur (length_hexText_lt value)
  | cString value =>
      cases value with
      | none => exact append_all_adds hsize hcur (ascii "(null)")
      | some value =>
          have hbegins : cStr value <+: value := List.takeWhile_prefix _
          have hadds := append_adds hsize hcur hbegins.length_le
          rw [← List.prefix_iff_eq_take.mp hbegins] at hadds
          exact hadds
  | string value => exact append_all_adds hsize hcur value
  | stringPiece value => exact insertStringPiece_adds hcur value
  | buffer value => exact insertStringPiece_adds hcur (toStringPiece value)

/-! ## Sequences of insertions -/

/-- The operands for which there is room, from a number of bytes on. -/
def kept (used : ℕ) : List Operand → List Operand
  | [] => []
  | operand :: operands =>
      if used + operand.need ≤ kSmallBuffer then
        operand :: kept (used + operand.text.length) operands
      else kept used operands

theorem kept_sublist (used : ℕ) (operands : List Operand) :
    (kept used operands).Sublist operands := by
  induction operands generalizing used with
  | nil => exact .slnil
  | cons operand operands ih =>
      rw [kept]
      split_ifs
      · exact (ih _).cons_cons operand
      · exact (ih used).cons operand

/-- After insertions the array has the texts for which there was room. -/
theorem content_of_run (hcur : stream.cur ≤ kSmallBuffer) (operands : List Operand) :
    ∃ stream', runFrom Stream.insert stream operands = .ret stream' ∧
      stream'.cur ≤ kSmallBuffer ∧
      stream'.content =
        stream.content ++ ((kept stream.cur operands).map Operand.text).flatten := by
  induction operands generalizing stream with
  | nil => exact ⟨stream, rfl, hcur, (List.append_nil _).symm⟩
  | cons operand operands ih =>
      obtain ⟨middle, hinsert, hadds⟩ := insert_adds hcur operand
      obtain ⟨stream', hrun, hcur', hcontent⟩ := ih hadds.cur_le
      refine ⟨stream', runFrom_cons_eq_ret_iff.mpr ⟨middle, hinsert, hrun⟩, hcur', ?_⟩
      have hlength := RawBuffer.length_content hcur
      have hmiddle := RawBuffer.length_content hadds.cur_le
      have hadded := hadds.content
      rw [kept]
      split_ifs at hadded ⊢
      · have hused : middle.cur = stream.cur + operand.text.length := by
          rw [← hmiddle, hadded, List.length_append, hlength]
        calc
          stream'.content =
              middle.content ++ ((kept middle.cur operands).map Operand.text).flatten := hcontent
          _ = stream.content ++ operand.text ++
              ((kept (stream.cur + operand.text.length) operands).map
                Operand.text).flatten := by rw [hadded, hused]
          _ = stream.content ++ (operand.text ++
              ((kept (stream.cur + operand.text.length) operands).map
                Operand.text).flatten) := List.append_assoc _ _ _
      · have hused : middle.cur = stream.cur := by rw [← hmiddle, hadded, hlength]
        rw [hcontent, hadded, hused]

/-- Insertions return, whatever was in the array, with the cursor in it; before the cursor
stand the texts of some of the operands. -/
theorem content_of_insertions (data : Block Byte kSmallBuffer) (operands : List Operand) :
    ∃ (stream : Stream) (present : List Operand),
      runFrom Stream.insert { data, cur := 0 } operands = .ret stream ∧
      stream.cur ≤ kSmallBuffer ∧
      present.Sublist operands ∧
      stream.content = (present.map Operand.text).flatten := by
  obtain ⟨stream, hrun, hcur, hcontent⟩ :=
    @content_of_run { data, cur := 0 } (Nat.zero_le _) operands
  exact ⟨stream, _, hrun, hcur, kept_sublist 0 operands, hcontent⟩

/-! ## Records -/

/-- The operand that a piece of a record is. -/
def ofPiece : Piece → Operand
  | .text content => .string content
  | .number value => .int value

/-- The bytes of a record are those that the pieces leave in the array. -/
theorem content_ofPiece (hcur : stream.cur ≤ kSmallBuffer) {record : LogStream}
    (hrecord : stream.content = record.data) (pieces : List Piece) :
    ∃ stream', runFrom Stream.insert stream (pieces.map ofPiece) = .ret stream' ∧
      stream'.content = (write record pieces).data := by
  induction pieces generalizing stream record with
  | nil => exact ⟨stream, rfl, hrecord⟩
  | cons piece pieces ih =>
      have htext : (ofPiece piece).text = piece.bytes := by
        cases piece with
        | text content => rfl
        | number value => rfl
      have hneed : (ofPiece piece).need = piece.need := by
        cases piece with
        | text content => rfl
        | number value => rfl
      obtain ⟨middle, hinsert, hadds⟩ := insert_adds hcur (ofPiece piece)
      have hmiddle : middle.content = (put record piece).data := by
        rw [hadds.content, data_put, htext, hneed, hrecord, ← hrecord,
          RawBuffer.length_content hcur]
      obtain ⟨stream', hrun, hcontent⟩ := ih hadds.cur_le hmiddle
      exact ⟨stream', runFrom_cons_eq_ret_iff.mpr ⟨middle, hinsert, hrun⟩, hcontent⟩

end Insertion

end Cuber.LogInsertion
