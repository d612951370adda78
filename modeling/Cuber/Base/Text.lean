import Mathlib

/-!
# Bytes and the C++ string operations the server uses

Network data and `std::string` values are lists of bytes.  The operations
below are the standard-library calls the HTTP code makes on them: searching
with `std::find` and `rfind`, the character classes of the C locale,
`std::stoi`, and the cut at the first NUL byte made by `c_str()`.
-/

namespace Cuber.Text

abbrev Byte := Fin 256
abbrev Bytes := List Byte

def ascii (text : String) : Bytes :=
  text.toList.map fun char => Fin.ofNat 256 char.toNat

def NUL : Byte := 0
def CR : Byte := 13
def LF : Byte := 10
def SP : Byte := 32
def slash : Byte := 47
def colon : Byte := 58
def question : Byte := 63
def minus : Byte := 45
def dot : Byte := 46
def percent : Byte := 37
def hash : Byte := 35
def digitZero : Byte := 48
def digitOne : Byte := 49
def letterX : Byte := 120

/-- `isspace` in the C locale. -/
def isspace (byte : Byte) : Bool :=
  byte = SP || (9 ≤ byte.val && byte.val ≤ 13)

def isdigit (byte : Byte) : Bool :=
  48 ≤ byte.val && byte.val ≤ 57

/-- `tolower` in the C locale. -/
def tolower (byte : Byte) : Byte :=
  if 65 ≤ byte.val ∧ byte.val ≤ 90 then byte + 32 else byte

/-- The bytes before and after the first occurrence of a byte; `none` is
`std::find` returning the end of its range. -/
def cut (byte : Byte) : Bytes → Option (Bytes × Bytes)
  | [] => none
  | head :: tail =>
      if head = byte then some ([], tail)
      else (cut byte tail).map fun parts => (head :: parts.1, parts.2)

/-- What is cut at a byte is put together by it. -/
theorem cut_eq_some {byte : Byte} {text before after : Bytes}
    (hcut : cut byte text = some (before, after)) :
    text = before ++ byte :: after ∧ byte ∉ before := by
  induction text generalizing before with
  | nil => simp [cut] at hcut
  | cons head tail ih =>
      rw [cut] at hcut
      split_ifs at hcut with hhead
      · simp only [Option.some.injEq, Prod.mk.injEq] at hcut
        obtain ⟨rfl, rfl⟩ := hcut
        simp [hhead]
      · obtain ⟨⟨before', after'⟩, hparts, heq⟩ := Option.map_eq_some_iff.mp hcut
        simp only [Prod.mk.injEq] at heq
        obtain ⟨rfl, rfl⟩ := heq
        obtain ⟨htext, hnot⟩ := ih hparts
        refine ⟨by rw [htext]; rfl, ?_⟩
        rw [List.mem_cons, not_or]
        exact ⟨fun heq => hhead heq.symm, hnot⟩

theorem cut_eq_none_iff {byte : Byte} {text : Bytes} :
    cut byte text = none ↔ byte ∉ text := by
  induction text with
  | nil => simp [cut]
  | cons head tail ih =>
      rw [cut, List.mem_cons, not_or]
      by_cases hhead : head = byte
      · simp [hhead]
      · rw [if_neg hhead, Option.map_eq_none_iff, ih]
        exact ⟨fun h => ⟨fun heq => hhead heq.symm, h⟩, fun h => h.2⟩

theorem cut_isSome_iff {byte : Byte} {text : Bytes} :
    (cut byte text).isSome ↔ byte ∈ text := by
  rw [← not_iff_not, Bool.not_eq_true, Option.isSome_eq_false_iff,
    Option.isNone_iff_eq_none, cut_eq_none_iff]

theorem cut_append {byte : Byte} {before : Bytes} (hbefore : byte ∉ before)
    (after : Bytes) : cut byte (before ++ byte :: after) = some (before, after) := by
  induction before with
  | nil => simp [cut]
  | cons head tail ih =>
      rw [List.mem_cons, not_or] at hbefore
      rw [List.cons_append, cut, if_neg (Ne.symm hbefore.1), ih hbefore.2]
      rfl

def rfind (byte : Byte) : Bytes → Option ℕ
  | [] => none
  | head :: tail =>
      match rfind byte tail with
      | some index => some (index + 1)
      | none => if head = byte then some 0 else none

/-- The bytes a C function sees when handed `c_str()`. -/
def cStr (text : Bytes) : Bytes :=
  text.takeWhile fun byte => byte ≠ 0

/-! ## Decimal numbers -/

def decimalValue (digits : Bytes) : ℕ :=
  digits.foldl (fun value digit => value * 10 + (digit.val - 48)) 0

def IsDecimal (text : Bytes) : Prop :=
  text ≠ [] ∧ ∀ byte ∈ text, isdigit byte = true

instance (text : Bytes) : Decidable (IsDecimal text) :=
  inferInstanceAs (Decidable (_ ∧ _))

def intMax : ℕ := 2147483647

/-- The sign and the remaining characters, as `strtol` reads them. -/
def signOf : Bytes → Bool × Bytes
  | [] => (false, [])
  | head :: tail =>
      if head = 45 then (true, tail)
      else if head = 43 then (false, tail)
      else (false, head :: tail)

/-- `std::stoi`: blanks, an optional sign and the longest run of digits;
`none` is the exception thrown when there is no digit or the value does not
fit an `int`. -/
def stoi (text : Bytes) : Option ℤ :=
  let signed := signOf (text.dropWhile isspace)
  let digits := signed.2.takeWhile isdigit
  if digits = [] then none
  else
    let magnitude : ℤ := decimalValue digits
    let value := if signed.1 then -magnitude else magnitude
    if -(intMax : ℤ) - 1 ≤ value ∧ value ≤ intMax then some value else none

/-- `static_cast<size_t>` of an `int` on a 64-bit machine. -/
def toSizeT (value : ℤ) : ℕ :=
  (value % 2 ^ 64).toNat

theorem isspace_eq_false_of_isdigit {byte : Byte} (hdigit : isdigit byte = true) :
    isspace byte = false := by
  have hval : 48 ≤ byte.val := by
    simp only [isdigit, Bool.and_eq_true, decide_eq_true_eq] at hdigit
    exact hdigit.1
  have hsp : byte ≠ SP := by
    rintro rfl
    exact absurd hval (by decide)
  simp only [isspace, hsp, decide_false, Bool.false_or, Bool.and_eq_false_iff,
    decide_eq_false_iff_not]
  right
  omega

theorem signOf_of_isdigit {head : Byte} {tail : Bytes}
    (hdigit : isdigit head = true) :
    signOf (head :: tail) = (false, head :: tail) := by
  have hminus : head ≠ 45 := by rintro rfl; exact absurd hdigit (by decide)
  have hplus : head ≠ 43 := by rintro rfl; exact absurd hdigit (by decide)
  simp [signOf, hminus, hplus]

/-- On a string of digits `stoi` reads the number it denotes, and throws
exactly when that number exceeds the largest `int`. -/
theorem stoi_of_isDecimal {text : Bytes} (hdecimal : IsDecimal text) :
    stoi text =
      if decimalValue text ≤ intMax then some (decimalValue text : ℤ)
      else none := by
  obtain ⟨hne, hdigits⟩ := hdecimal
  obtain ⟨head, tail, rfl⟩ := List.exists_cons_of_ne_nil hne
  have hhead : isdigit head = true := hdigits head (by simp)
  have hblank : (head :: tail).dropWhile isspace = head :: tail := by
    rw [List.dropWhile_cons_of_neg]
    simp [isspace_eq_false_of_isdigit hhead]
  have htake : (head :: tail).takeWhile isdigit = head :: tail :=
    List.takeWhile_eq_self_iff.mpr hdigits
  simp only [stoi, hblank, signOf_of_isdigit hhead, htake, if_neg hne,
    Bool.false_eq_true, if_false]
  have hlow : -(intMax : ℤ) - 1 ≤ (decimalValue (head :: tail) : ℤ) := by omega
  by_cases hfits : decimalValue (head :: tail) ≤ intMax
  · rw [if_pos hfits]
    exact if_pos ⟨hlow, by exact_mod_cast hfits⟩
  · rw [if_neg hfits]
    exact if_neg fun h => hfits (by exact_mod_cast h.2)

/-- What `stoi` reads fits an `int`. -/
theorem stoi_bounds {text : Bytes} {value : ℤ} (hvalue : stoi text = some value) :
    -(intMax : ℤ) - 1 ≤ value ∧ value ≤ intMax := by
  simp only [stoi] at hvalue
  split_ifs at hvalue with _ hsign hfits hfits
  · cases hvalue
    exact hfits
  · cases hvalue
    exact hfits

theorem toSizeT_natCast {value : ℕ} (hvalue : value ≤ intMax) :
    toSizeT (value : ℤ) = value := by
  have hbound : (value : ℤ) < 2 ^ 64 := by
    have : (value : ℤ) ≤ intMax := by exact_mod_cast hvalue
    simp only [intMax] at this
    omega
  rw [toSizeT, Int.emod_eq_of_lt (by omega) hbound, Int.toNat_natCast]

/-! ## Printing numbers -/

/-- The decimal digits of a number, as `printf` writes them. -/
def decimalText (value : ℕ) : Bytes :=
  if value = 0 then [digitZero]
  else (Nat.digits 10 value).reverse.map fun digit => Fin.ofNat 256 (48 + digit)

/-- What `snprintf` leaves of a text in a buffer of a given size. -/
def snprintf (size : ℕ) (text : Bytes) : Bytes :=
  text.take (size - 1)

/-- `printf` of an `int` with `%d`. -/
def intText (value : ℤ) : Bytes :=
  if value < 0 then minus :: decimalText value.natAbs else decimalText value.natAbs

/-- Digits written from the last to the first denote their number. -/
theorem decimalValue_map_reverse (digits : List ℕ) (hdigits : ∀ digit ∈ digits, digit < 10) :
    decimalValue (digits.reverse.map fun digit => Fin.ofNat 256 (48 + digit)) =
      Nat.ofDigits 10 digits := by
  induction digits with
  | nil => rfl
  | cons digit digits ih =>
      have hdigit := hdigits digit (by simp)
      have hvalue : (Fin.ofNat 256 (48 + digit)).val - 48 = digit := by
        simp only [Fin.val_ofNat]
        omega
      rw [List.reverse_cons, List.map_append, decimalValue, List.foldl_append]
      rw [← decimalValue, ih fun other hother => hdigits other (by simp [hother])]
      simp only [List.map_cons, List.map_nil, List.foldl_cons, List.foldl_nil, hvalue,
        Nat.ofDigits_cons]
      ring

theorem decimalValue_decimalText (value : ℕ) : decimalValue (decimalText value) = value := by
  rw [decimalText]
  split_ifs with hzero
  · rw [hzero]
    rfl
  · rw [decimalValue_map_reverse _ fun digit => Nat.digits_lt_base (by decide),
      Nat.ofDigits_digits]

theorem isDecimal_decimalText (value : ℕ) : IsDecimal (decimalText value) := by
  rw [decimalText]
  split_ifs with hzero
  · exact ⟨by simp, by simp [isdigit, digitZero]⟩
  · refine ⟨by simp [Nat.digits_eq_nil_iff_eq_zero, hzero], ?_⟩
    intro byte hbyte
    obtain ⟨digit, hdigit, rfl⟩ := List.mem_map.mp hbyte
    have hlt : digit < 10 := Nat.digits_lt_base (by decide) (List.mem_reverse.mp hdigit)
    simp only [isdigit, Fin.val_ofNat, Bool.and_eq_true, decide_eq_true_eq]
    omega

theorem decimalText_injective : Function.Injective decimalText := by
  intro left right heq
  rw [← decimalValue_decimalText left, heq, decimalValue_decimalText]

theorem length_decimalText_le {value digits : ℕ} (hpos : 0 < digits)
    (hvalue : value < 10 ^ digits) : (decimalText value).length ≤ digits := by
  rw [decimalText]
  split_ifs
  · exact hpos
  · rw [List.length_map, List.length_reverse]
    exact (Nat.digits_length_le_iff (by decide) value).mpr hvalue

/-- A printed number is made of digits and possibly a minus sign. -/
theorem mem_intText {value : ℤ} {byte : Byte} (hbyte : byte ∈ intText value) :
    byte = minus ∨ isdigit byte = true := by
  have hdigits := (isDecimal_decimalText value.natAbs).2
  rw [intText] at hbyte
  split_ifs at hbyte
  · rcases List.mem_cons.mp hbyte with hminus | hdigit
    · exact Or.inl hminus
    · exact Or.inr (hdigits byte hdigit)
  · exact Or.inr (hdigits byte hbyte)

theorem not_mem_decimalText {byte : Byte} (hdigit : isdigit byte = false) (value : ℕ) :
    byte ∉ decimalText value := by
  intro hmem
  rw [(isDecimal_decimalText value).2 byte hmem] at hdigit
  cases hdigit

theorem not_mem_intText {byte : Byte} (hminus : byte ≠ minus) (hdigit : isdigit byte = false)
    (value : ℤ) : byte ∉ intText value := by
  intro hmem
  rcases mem_intText hmem with hsign | hother
  · exact hminus hsign
  · rw [hother] at hdigit
    cases hdigit

/-- `stoi` reads back what `printf` writes of an `int`. -/
theorem stoi_intText {value : ℤ} (hlow : -(intMax : ℤ) - 1 ≤ value)
    (hhigh : value ≤ intMax) : stoi (intText value) = some value := by
  obtain ⟨hne, hdigits⟩ := isDecimal_decimalText value.natAbs
  have htake : (decimalText value.natAbs).takeWhile isdigit = decimalText value.natAbs :=
    List.takeWhile_eq_self_iff.mpr hdigits
  by_cases hneg : value < 0
  · have hblank : (minus :: decimalText value.natAbs).dropWhile isspace =
        minus :: decimalText value.natAbs :=
      List.dropWhile_cons_of_neg (by decide)
    have hsign : signOf (minus :: decimalText value.natAbs) =
        (true, decimalText value.natAbs) := rfl
    have hvalue : -(value.natAbs : ℤ) = value := by omega
    simp only [stoi, intText, if_pos hneg, hblank, hsign, htake, if_neg hne, if_true,
      decimalValue_decimalText, hvalue]
    exact if_pos ⟨hlow, hhigh⟩
  · rw [intText, if_neg hneg, stoi_of_isDecimal ⟨hne, hdigits⟩, decimalValue_decimalText,
      if_pos (by omega)]
    exact congrArg some (by omega)

theorem isspace_of_isDigit {char : Char} (hdigit : char.isDigit = true) :
    isspace (Fin.ofNat 256 char.toNat) = false := by
  apply isspace_eq_false_of_isdigit
  simp only [Char.isDigit, Bool.and_eq_true, decide_eq_true_eq] at hdigit
  have hlow : 48 ≤ char.toNat := hdigit.1
  have hhigh : char.toNat ≤ 57 := hdigit.2
  simp only [isdigit, Fin.val_ofNat, Bool.and_eq_true, decide_eq_true_eq]
  omega

theorem isspace_of_mem_repr (value : ℕ) :
    ∀ byte ∈ ascii value.repr, isspace byte = false := by
  intro byte hbyte
  obtain ⟨char, hchar, rfl⟩ := List.mem_map.mp hbyte
  apply isspace_of_isDigit
  rw [Nat.toList_repr] at hchar
  exact Nat.isDigit_of_mem_toDigits (by decide) (by decide) hchar

/-- There are no blanks in a number that `std::to_string` prints. -/
theorem isspace_of_mem_toString (value : ℤ) :
    ∀ byte ∈ ascii (toString value), isspace byte = false := by
  rw [Int.toString_eq_repr, Int.repr_eq_if]
  split_ifs
  · exact isspace_of_mem_repr _
  · have hsign : ascii ("-" ++ (-value).toNat.repr) = minus :: ascii (-value).toNat.repr := by
      simp [ascii, minus]
    rw [hsign]
    intro byte hbyte
    rcases List.mem_cons.mp hbyte with rfl | hbyte
    · decide
    · exact isspace_of_mem_repr _ byte hbyte

end Cuber.Text
