import Trstctl.Go.Ascii
import Trstctl.Go.Encoding

/-!
# What JSON keeps of a text

Writing a string as JSON and reading it back replaces invalid bytes and keeps
valid text.  Names built from digits and hexadecimal digests are ASCII text and
therefore kept.
-/

namespace Trstctl.Go

theorem bytes_eq_flatMap (text : String) :
    bytes text = text.toList.flatMap String.utf8EncodeChar := by
  rw [bytes]
  change text.toByteArray.data.toList = _
  rw [← String.utf8Encode_toList]
  simp [List.utf8Encode]

theorem isAscii_bytes {text : String} (ascii : ∀ char ∈ text.toList, char.val.toNat < 0x80) :
    IsAscii (bytes text) := by
  rw [bytes_eq_flatMap]
  intro byte member
  obtain ⟨char, charMember, byteMember⟩ := List.mem_flatMap.mp member
  have small := ascii char charMember
  have size : char.utf8Size = 1 := by
    rw [Char.utf8Size,
      if_pos (UInt32.le_iff_toNat_le.mpr (by simpa using Nat.lt_succ_iff.mp small))]
  rw [String.utf8EncodeChar_eq_singleton size] at byteMember
  obtain rfl := List.mem_singleton.mp byteMember
  change (char.val.toUInt8).toNat < 0x80
  rw [UInt32.toNat_toUInt8]
  omega

theorem isAscii_decimal (value : Nat) : IsAscii (decimal value) := by
  refine isAscii_bytes fun char member => ?_
  change char ∈ (Nat.repr value).toList at member
  rw [Nat.toList_repr] at member
  have digit := Nat.isDigit_of_mem_toDigits (by decide) (by decide) member
  simp only [Char.isDigit, Bool.and_eq_true, decide_eq_true_eq] at digit
  exact lt_of_le_of_lt (UInt32.le_iff_toNat_le.mp digit.2) (by decide)

theorem isAscii_hexEncode (text : Bytes) : IsAscii (hexEncode text) := by
  intro byte member
  obtain ⟨source, -, digits⟩ := List.mem_flatMap.mp member
  have bound : ∀ value : Nat, value < 16 → (hexDigit value).toNat < 0x80 := by decide
  have source_bound := source.toNat_lt
  rcases List.mem_pair.mp digits with rfl | rfl
  · exact bound _ (by omega)
  · exact bound _ (by omega)

theorem IsAscii.append {first second : Bytes} (firstAscii : IsAscii first)
    (secondAscii : IsAscii second) :
    IsAscii (first ++ second) := by
  intro byte member
  rcases List.mem_append.mp member with before | after
  · exact firstAscii byte before
  · exact secondAscii byte after

theorem decodeRune_width_pos (lead : UInt8) (rest : Bytes) :
    0 < (decodeRune (lead :: rest)).2 := by
  unfold decodeRune
  dsimp only
  split_ifs
  · exact Nat.one_pos
  · split
    · split <;> simp
    · split <;> simp
    · split <;> simp
    · exact Nat.one_pos

theorem flatMap_segmentsFrom (pending : Nat) (text : Bytes) :
    (segmentsFrom pending text).flatMap Prod.snd = text.drop pending := by
  induction text generalizing pending with
  | nil => cases pending <;> simp [segmentsFrom]
  | cons lead rest ih =>
      cases pending with
      | succ pending => exact ih pending
      | zero =>
          have width := decodeRune_width_pos lead rest
          obtain ⟨count, count_eq⟩ := Nat.exists_eq_add_of_lt width
          rw [segmentsFrom]
          simp only [List.flatMap_cons, ih, count_eq]
          simp

theorem throughJson_of_utf8Valid {text : Bytes} (valid : utf8Valid text = true) :
    throughJson text = text := by
  have segment_valid := List.all_eq_true.mp valid
  calc throughJson text = (segments text).flatMap Prod.snd := by
        refine List.flatMap_congr fun segment member => if_neg ?_
        have whole := segment_valid segment member
        rw [Bool.not_eq_true'] at whole
        rw [whole]
        exact Bool.false_ne_true
    _ = text := flatMap_segmentsFrom 0 text

theorem utf8Valid_of_ascii {text : Bytes} (ascii : IsAscii text) :
    utf8Valid text = true := by
  rw [utf8Valid, segments_of_ascii text ascii, List.all_map, List.all_eq_true]
  intro byte member
  have small := ascii byte member
  have other : byte.toNat ≠ runeError := by
    unfold runeError
    unfold Rune
    omega
  simp [other]

theorem throughJson_of_ascii {text : Bytes} (ascii : IsAscii text) :
    throughJson text = text :=
  throughJson_of_utf8Valid (utf8Valid_of_ascii ascii)

/-!
## Numbers and digests as text

Decimal and hexadecimal text determines what was written, holds no NUL byte and
reads back.
-/

theorem bytes_injective {left right : String} (equal : bytes left = bytes right) :
    left = right := by
  apply String.toByteArray_inj.mp
  apply ByteArray.ext
  exact Array.toList_inj.mp equal

theorem decimal_injective {left right : Nat} (equal : decimal left = decimal right) :
    left = right := by
  have texts : Nat.repr left = Nat.repr right := bytes_injective equal
  have digits := congrArg String.toList texts
  rw [Nat.toList_repr, Nat.toList_repr] at digits
  simpa using congrArg (fun text => Nat.ofDigitChars 10 text 0) digits

theorem utf8EncodeChar_digit {char : Char} (isDigit : char.isDigit = true) :
    String.utf8EncodeChar char = [char.val.toUInt8] ∧ char.val.toUInt8.toNat = char.toNat ∧
      0x30 ≤ char.toNat ∧ char.toNat ≤ 0x39 := by
  simp only [Char.isDigit, Bool.and_eq_true, decide_eq_true_eq] at isDigit
  have low := UInt32.le_iff_toNat_le.mp isDigit.1
  have high := UInt32.le_iff_toNat_le.mp isDigit.2
  have size : char.utf8Size = 1 := by
    rw [Char.utf8Size, if_pos (UInt32.le_iff_toNat_le.mpr (high.trans (by decide)))]
  simp only [Char.reduceVal, UInt32.reduceToNat] at low high
  refine ⟨String.utf8EncodeChar_eq_singleton size, ?_, low, high⟩
  rw [UInt32.toNat_toUInt8]
  change char.val.toNat % 256 = char.val.toNat
  omega

theorem decimal_eq_flatMap (value : Nat) :
    decimal value = (Nat.toDigits 10 value).flatMap String.utf8EncodeChar := by
  change bytes (Nat.repr value) = _
  rw [bytes_eq_flatMap, Nat.toList_repr]

theorem isDigit_of_mem_toDigits {value : Nat} {char : Char}
    (member : char ∈ Nat.toDigits 10 value) :
    char.isDigit = true :=
  Nat.isDigit_of_mem_toDigits (by decide) (by decide) member

theorem digit_of_mem_decimal {value : Nat} {byte : UInt8} (member : byte ∈ decimal value) :
    0x30 ≤ byte.toNat ∧ byte.toNat ≤ 0x39 := by
  rw [decimal_eq_flatMap] at member
  obtain ⟨char, charMember, byteMember⟩ := List.mem_flatMap.mp member
  obtain ⟨encoded, byte_eq, low, high⟩ :=
    utf8EncodeChar_digit (isDigit_of_mem_toDigits charMember)
  rw [encoded] at byteMember
  obtain rfl := List.mem_singleton.mp byteMember
  rw [byte_eq]
  exact ⟨low, high⟩

theorem foldl_flatMap_digits (digits : List Char) (areDigits : ∀ char ∈ digits, char.isDigit = true)
    (start : Nat) :
    (digits.flatMap String.utf8EncodeChar).foldl
        (fun value byte => 10 * value + (byte.toNat - 0x30)) start =
      Nat.ofDigitChars 10 digits start := by
  induction digits generalizing start with
  | nil => rfl
  | cons char rest ih =>
      obtain ⟨encoded, byte_eq, _, _⟩ :=
        utf8EncodeChar_digit (areDigits char List.mem_cons_self)
      rw [List.flatMap_cons, List.foldl_append, encoded,
        ih fun other member => areDigits other (List.mem_cons_of_mem char member),
        List.foldl_cons, List.foldl_nil, byte_eq]
      rfl

theorem parseDigits_decimal (value : Nat) : parseDigits (decimal value) = some value := by
  have digits : (decimal value).all (fun byte => 0x30 ≤ byte && byte ≤ 0x39) = true := by
    refine List.all_eq_true.mpr fun byte member => ?_
    simpa [UInt8.le_iff_toNat_le] using digit_of_mem_decimal member
  have written : decimal value ≠ [] := by
    rw [decimal_eq_flatMap]
    have someDigit : Nat.toDigits 10 value ≠ [] := Nat.toDigits_ne_nil
    obtain ⟨first, rest, digits_eq⟩ := List.exists_cons_of_ne_nil someDigit
    have member : first ∈ Nat.toDigits 10 value := by
      rw [digits_eq]
      exact List.mem_cons_self
    have isDigit := isDigit_of_mem_toDigits member
    rw [digits_eq, List.flatMap_cons, (utf8EncodeChar_digit isDigit).1]
    exact List.cons_ne_nil _ _
  rw [parseDigits, if_pos ⟨written, digits⟩, decimal_eq_flatMap,
    foldl_flatMap_digits _ fun char => isDigit_of_mem_toDigits]
  simp

theorem zero_notMem_decimal (value : Nat) : (0 : UInt8) ∉ decimal value := by
  intro member
  have digit := digit_of_mem_decimal member
  exact absurd digit.1 (by decide)

/-- The value of a hexadecimal digit, in either case. -/
def hexValue (byte : UInt8) : Option Nat :=
  if 0x30 ≤ byte.toNat ∧ byte.toNat ≤ 0x39 then some (byte.toNat - 0x30)
  else if 0x61 ≤ byte.toNat ∧ byte.toNat ≤ 0x66 then some (byte.toNat - 0x57)
  else if 0x41 ≤ byte.toNat ∧ byte.toNat ≤ 0x46 then some (byte.toNat - 0x37)
  else none

/-- `hex.DecodeString`, without the text of its errors. -/
def hexDecode : Bytes → Option Bytes
  | [] => some []
  | [_] => none
  | high :: low :: rest =>
      match hexValue high, hexValue low, hexDecode rest with
      | some high, some low, some rest => some ((high * 16 + low).toUInt8 :: rest)
      | _, _, _ => none

theorem hexDecode_hexEncode (text : Bytes) : hexDecode (hexEncode text) = some text := by
  induction text with
  | nil => rfl
  | cons byte rest ih =>
      have digits : ∀ value : Nat, value < 16 → hexValue (hexDigit value) = some value := by
        decide
      have bound := byte.toNat_lt
      have whole : (byte.toNat / 16 * 16 + byte.toNat % 16).toUInt8 = byte := by
        rw [Nat.div_add_mod']
        exact UInt8.ofNat_toNat
      change hexDecode (hexDigit (byte.toNat / 16) :: hexDigit (byte.toNat % 16) ::
        hexEncode rest) = _
      rw [hexDecode, digits _ (by omega), digits _ (by omega), ih]
      simp only [whole]

theorem length_hexEncode (text : Bytes) : (hexEncode text).length = 2 * text.length := by
  induction text with
  | nil => rfl
  | cons byte rest ih =>
      rw [hexEncode, List.flatMap_cons, List.length_append, ← hexEncode, ih]
      simp only [List.length_cons, List.length_nil]
      omega

theorem hexEncode_injective {left right : Bytes} (equal : hexEncode left = hexEncode right) :
    left = right := by
  have decoded := congrArg hexDecode equal
  rw [hexDecode_hexEncode, hexDecode_hexEncode] at decoded
  exact Option.some.inj decoded

theorem zero_notMem_hexEncode (text : Bytes) : (0 : UInt8) ∉ hexEncode text := by
  intro member
  obtain ⟨source, -, digits⟩ := List.mem_flatMap.mp member
  have nonzero : ∀ value : Nat, value < 16 → hexDigit value ≠ 0 := by decide
  have bound := source.toNat_lt
  rcases List.mem_pair.mp digits with zero | zero
  · exact nonzero _ (by omega) zero.symm
  · exact nonzero _ (by omega) zero.symm

end Trstctl.Go
