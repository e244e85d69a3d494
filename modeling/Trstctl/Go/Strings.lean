import Mathlib.Algebra.Group.Nat.Defs
import Mathlib.Data.List.Basic
import Mathlib.Data.List.DropRight

/-!
# Byte strings, runes and the string functions of the standard library

A Go string is a sequence of bytes.  Ranging over it, or converting it to
`[]rune`, decodes UTF-8 and yields U+FFFD for every byte that starts no valid
encoding.  The functions of package `strings` used by the modelled code are
defined here on byte sequences with exactly that treatment of invalid input.
-/

namespace Trstctl.Go

/-- A Go string or byte slice. -/
abbrev Bytes := List UInt8

/-- Membership in a list of strings is decided by the one equality of bytes. -/
instance lawfulBEqBytes : LawfulBEq Bytes :=
  inferInstance

/-- A Unicode code point as a Go `rune`. -/
abbrev Rune := Nat

/-- The bytes of a string constant of the source. -/
def bytes (text : String) : Bytes :=
  text.toUTF8.data.toList

/-- `utf8.RuneError`, the replacement character. -/
def runeError : Rune := 0xFFFD

/-- A continuation byte within the given bounds. -/
def continues (low high : Nat) (byte : UInt8) : Bool :=
  low ≤ byte.toNat && byte.toNat ≤ high

/-- Least and greatest second byte that may follow a leading byte, together
with the number of bytes of the encoding.  `none` for a byte that leads no
encoding. -/
def leadingByte (lead : Nat) : Option (Nat × Nat × Nat) :=
  if lead < 0xC2 then none
  else if lead ≤ 0xDF then some (0x80, 0xBF, 2)
  else if lead = 0xE0 then some (0xA0, 0xBF, 3)
  else if lead = 0xED then some (0x80, 0x9F, 3)
  else if lead ≤ 0xEF then some (0x80, 0xBF, 3)
  else if lead = 0xF0 then some (0x90, 0xBF, 4)
  else if lead ≤ 0xF3 then some (0x80, 0xBF, 4)
  else if lead = 0xF4 then some (0x80, 0x8F, 4)
  else none

/-- `utf8.DecodeRune`: the first rune and the number of bytes it takes.  An
invalid encoding gives `runeError` with width one. -/
def decodeRune : Bytes → Rune × Nat
  | [] => (runeError, 0)
  | lead :: rest =>
      if lead.toNat < 0x80 then (lead.toNat, 1)
      else
        match leadingByte lead.toNat, rest with
        | some (low, high, 2), second :: _ =>
            if continues low high second then
              ((lead.toNat % 0x20) * 0x40 + second.toNat % 0x40, 2)
            else (runeError, 1)
        | some (low, high, 3), second :: third :: _ =>
            if continues low high second && continues 0x80 0xBF third then
              ((lead.toNat % 0x10) * 0x1000 + (second.toNat % 0x40) * 0x40 +
                third.toNat % 0x40, 3)
            else (runeError, 1)
        | some (low, high, 4), second :: third :: fourth :: _ =>
            if continues low high second && continues 0x80 0xBF third &&
                continues 0x80 0xBF fourth then
              ((lead.toNat % 0x08) * 0x40000 + (second.toNat % 0x40) * 0x1000 +
                (third.toNat % 0x40) * 0x40 + fourth.toNat % 0x40, 4)
            else (runeError, 1)
        | _, _ => (runeError, 1)

/-- The runes of a byte string, each with the bytes it was decoded from.
`pending` counts the bytes of the current rune that are still to be passed. -/
def segmentsFrom : Nat → Bytes → List (Rune × Bytes)
  | _, [] => []
  | pending + 1, _ :: rest => segmentsFrom pending rest
  | 0, lead :: rest =>
      let (rune, width) := decodeRune (lead :: rest)
      (rune, (lead :: rest).take width) :: segmentsFrom (width - 1) rest

/-- The runes of a byte string with their encodings, in order. -/
def segments (text : Bytes) : List (Rune × Bytes) :=
  segmentsFrom 0 text

/-- The conversion `[]rune(text)`. -/
def runes (text : Bytes) : List Rune :=
  (segments text).map Prod.fst

/-- `utf8.Valid`. -/
def utf8Valid (text : Bytes) : Bool :=
  (segments text).all fun segment =>
    !(segment.1 == runeError && segment.2.length == 1)

/-- `utf8.AppendRune` to an empty slice. -/
def encodeRune (rune : Rune) : Bytes :=
  if rune < 0x80 then [rune.toUInt8]
  else if rune < 0x800 then
    [(0xC0 + rune / 0x40).toUInt8, (0x80 + rune % 0x40).toUInt8]
  else if 0x110000 ≤ rune ∨ (0xD800 ≤ rune ∧ rune < 0xE000) then
    [0xEF, 0xBF, 0xBD]
  else if rune < 0x10000 then
    [(0xE0 + rune / 0x1000).toUInt8, (0x80 + rune / 0x40 % 0x40).toUInt8,
      (0x80 + rune % 0x40).toUInt8]
  else
    [(0xF0 + rune / 0x40000).toUInt8, (0x80 + rune / 0x1000 % 0x40).toUInt8,
      (0x80 + rune / 0x40 % 0x40).toUInt8, (0x80 + rune % 0x40).toUInt8]

/-- A run of code points `low`, `low + stride`, up to `high` that share one
distance to their lower case. -/
structure CaseRange where
  low : Nat
  high : Nat
  stride : Nat
  delta : Int

/-- Runs in which the two cases alternate. -/
def CaseRange.pairs (delta : Int) (bounds : List (Nat × Nat)) : List CaseRange :=
  bounds.map fun (low, high) => ⟨low, high, 2, delta⟩

/-- Code points that no run covers. -/
def CaseRange.singles (mappings : List (Nat × Int)) : List CaseRange :=
  mappings.map fun (rune, delta) => ⟨rune, rune, 1, delta⟩

/-- The simple lower-case mappings of the Unicode character database above
ASCII. -/
def lowerRanges : List CaseRange :=
  [⟨0xC0, 0xD6, 1, 32⟩, ⟨0xD8, 0xDE, 1, 32⟩, ⟨0x189, 0x18A, 1, 205⟩, ⟨0x1B1, 0x1B2, 1, 217⟩,
    ⟨0x388, 0x38A, 1, 37⟩, ⟨0x38E, 0x38F, 1, 63⟩, ⟨0x391, 0x3A1, 1, 32⟩, ⟨0x3A3, 0x3AB, 1, 32⟩,
    ⟨0x3FD, 0x3FF, 1, -130⟩, ⟨0x400, 0x40F, 1, 80⟩, ⟨0x410, 0x42F, 1, 32⟩, ⟨0x531, 0x556, 1, 48⟩,
    ⟨0x10A0, 0x10C5, 1, 7264⟩, ⟨0x13A0, 0x13EF, 1, 38864⟩, ⟨0x13F0, 0x13F5, 1, 8⟩,
    ⟨0x1C90, 0x1CBA, 1, -3008⟩, ⟨0x1CBD, 0x1CBF, 1, -3008⟩, ⟨0x1F08, 0x1F0F, 1, -8⟩,
    ⟨0x1F18, 0x1F1D, 1, -8⟩, ⟨0x1F28, 0x1F2F, 1, -8⟩, ⟨0x1F38, 0x1F3F, 1, -8⟩,
    ⟨0x1F48, 0x1F4D, 1, -8⟩, ⟨0x1F59, 0x1F5F, 2, -8⟩, ⟨0x1F68, 0x1F6F, 1, -8⟩,
    ⟨0x1F88, 0x1F8F, 1, -8⟩, ⟨0x1F98, 0x1F9F, 1, -8⟩, ⟨0x1FA8, 0x1FAF, 1, -8⟩,
    ⟨0x1FB8, 0x1FB9, 1, -8⟩, ⟨0x1FBA, 0x1FBB, 1, -74⟩, ⟨0x1FC8, 0x1FCB, 1, -86⟩,
    ⟨0x1FD8, 0x1FD9, 1, -8⟩, ⟨0x1FDA, 0x1FDB, 1, -100⟩, ⟨0x1FE8, 0x1FE9, 1, -8⟩,
    ⟨0x1FEA, 0x1FEB, 1, -112⟩, ⟨0x1FF8, 0x1FF9, 1, -128⟩, ⟨0x1FFA, 0x1FFB, 1, -126⟩,
    ⟨0x2160, 0x216F, 1, 16⟩, ⟨0x24B6, 0x24CF, 1, 26⟩, ⟨0x2C00, 0x2C2F, 1, 48⟩,
    ⟨0x2C7E, 0x2C7F, 1, -10815⟩, ⟨0xFF21, 0xFF3A, 1, 32⟩, ⟨0x10400, 0x10427, 1, 40⟩,
    ⟨0x104B0, 0x104D3, 1, 40⟩, ⟨0x10570, 0x1057A, 1, 39⟩, ⟨0x1057C, 0x1058A, 1, 39⟩,
    ⟨0x1058C, 0x10592, 1, 39⟩, ⟨0x10594, 0x10595, 1, 39⟩, ⟨0x10C80, 0x10CB2, 1, 64⟩,
    ⟨0x118A0, 0x118BF, 1, 32⟩, ⟨0x16E40, 0x16E5F, 1, 32⟩, ⟨0x1E900, 0x1E921, 1, 34⟩] ++
  CaseRange.pairs 1
    [(0x100, 0x12E), (0x132, 0x136), (0x139, 0x147), (0x14A, 0x176), (0x179, 0x17D), (0x182, 0x184),
      (0x1A0, 0x1A4), (0x1B3, 0x1B5), (0x1CB, 0x1DB), (0x1DE, 0x1EE), (0x1F2, 0x1F4),
      (0x1F8, 0x21E), (0x222, 0x232), (0x246, 0x24E), (0x370, 0x372), (0x3D8, 0x3EE),
      (0x460, 0x480), (0x48A, 0x4BE), (0x4C1, 0x4CD), (0x4D0, 0x52E), (0x1E00, 0x1E94),
      (0x1EA0, 0x1EFE), (0x2C67, 0x2C6B), (0x2C80, 0x2CE2), (0x2CEB, 0x2CED), (0xA640, 0xA66C),
      (0xA680, 0xA69A), (0xA722, 0xA72E), (0xA732, 0xA76E), (0xA779, 0xA77B), (0xA77E, 0xA786),
      (0xA790, 0xA792), (0xA796, 0xA7A8), (0xA7B4, 0xA7C2), (0xA7C7, 0xA7C9), (0xA7D6, 0xA7D8)] ++
  CaseRange.singles
    [(0x130, -199), (0x178, -121), (0x181, 210), (0x186, 206), (0x187, 1), (0x18B, 1), (0x18E, 79),
      (0x18F, 202), (0x190, 203), (0x191, 1), (0x193, 205), (0x194, 207), (0x196, 211),
      (0x197, 209), (0x198, 1), (0x19C, 211), (0x19D, 213), (0x19F, 214), (0x1A6, 218), (0x1A7, 1),
      (0x1A9, 218), (0x1AC, 1), (0x1AE, 218), (0x1AF, 1), (0x1B7, 219), (0x1B8, 1), (0x1BC, 1),
      (0x1C4, 2), (0x1C5, 1), (0x1C7, 2), (0x1C8, 1), (0x1CA, 2), (0x1F1, 2), (0x1F6, -97),
      (0x1F7, -56), (0x220, -130), (0x23A, 10795), (0x23B, 1), (0x23D, -163), (0x23E, 10792),
      (0x241, 1), (0x243, -195), (0x244, 69), (0x245, 71), (0x376, 1), (0x37F, 116), (0x386, 38),
      (0x38C, 64), (0x3CF, 8), (0x3F4, -60), (0x3F7, 1), (0x3F9, -7), (0x3FA, 1), (0x4C0, 15),
      (0x10C7, 7264), (0x10CD, 7264), (0x1E9E, -7615), (0x1FBC, -9), (0x1FCC, -9), (0x1FEC, -7),
      (0x1FFC, -9), (0x2126, -7517), (0x212A, -8383), (0x212B, -8262), (0x2132, 28), (0x2183, 1),
      (0x2C60, 1), (0x2C62, -10743), (0x2C63, -3814), (0x2C64, -10727), (0x2C6D, -10780),
      (0x2C6E, -10749), (0x2C6F, -10783), (0x2C70, -10782), (0x2C72, 1), (0x2C75, 1), (0x2CF2, 1),
      (0xA77D, -35332), (0xA78B, 1), (0xA78D, -42280), (0xA7AA, -42308), (0xA7AB, -42319),
      (0xA7AC, -42315), (0xA7AD, -42305), (0xA7AE, -42308), (0xA7B0, -42258), (0xA7B1, -42282),
      (0xA7B2, -42261), (0xA7B3, 928), (0xA7C4, -48), (0xA7C5, -42307), (0xA7C6, -35384),
      (0xA7D0, 1), (0xA7F5, 1)]

/-- `unicode.ToLower`. -/
def lowerRune (rune : Rune) : Rune :=
  if rune < 0x80 then
    if 0x41 ≤ rune ∧ rune ≤ 0x5A then rune + 32 else rune
  else
    match lowerRanges.find? fun range =>
        range.low ≤ rune && rune ≤ range.high && (rune - range.low) % range.stride == 0 with
    | some range => (rune + range.delta).toNat
    | none => rune

/-- `strings.ToLower`: every rune is lowered and encoded again, so an invalid
byte becomes the encoding of U+FFFD. -/
def toLower (text : Bytes) : Bytes :=
  (runes text).flatMap fun rune => encodeRune (lowerRune rune)

/-- `strings.Split` at a separator of one byte. -/
def split (separator : UInt8) (text : Bytes) : List Bytes :=
  text.splitOn separator

/-- The upper case of an ASCII byte. -/
def upperByte (byte : UInt8) : UInt8 :=
  if 0x61 ≤ byte ∧ byte ≤ 0x7A then byte - 0x20 else byte

def isSpace (rune : Rune) : Bool :=
  (0x09 ≤ rune && rune ≤ 0x0D) || rune == 0x20 || rune == 0x85 || rune == 0xA0 ||
    rune == 0x1680 || (0x2000 ≤ rune && rune ≤ 0x200A) || rune == 0x2028 ||
    rune == 0x2029 || rune == 0x202F || rune == 0x205F || rune == 0x3000

def trimSpace (text : Bytes) : Bytes :=
  let space := fun segment : Rune × Bytes => isSpace segment.1
  (((segments text).dropWhile space).rdropWhile space).flatMap Prod.snd

def hasPrefix (text start : Bytes) : Bool :=
  start.isPrefixOf text

def hasSuffix (text ending : Bytes) : Bool :=
  ending.isSuffixOf text

/-- `strings.Contains` and `bytes.Contains`. -/
def contains : Bytes → Bytes → Bool
  | [], pattern => pattern.isEmpty
  | byte :: rest, pattern =>
      pattern.isPrefixOf (byte :: rest) || contains rest pattern

/-- `bytes.Index`: where a pattern first occurs. -/
def index (pattern : Bytes) : Bytes → Option Nat
  | [] => if pattern.isEmpty then some 0 else none
  | byte :: rest =>
      if pattern.isPrefixOf (byte :: rest) then some 0
      else (index pattern rest).map (· + 1)

/-- `slices.Compact`: of equal neighbours one is kept. -/
def compact : List Bytes → List Bytes
  | [] => []
  | [item] => [item]
  | item :: next :: rest =>
      if item = next then compact (next :: rest) else item :: compact (next :: rest)

theorem mem_compact {items : List Bytes} {item : Bytes} :
    item ∈ compact items ↔ item ∈ items := by
  fun_induction compact items with
  | case1 => simp
  | case2 => simp
  | case3 next rest ih => simp [ih]
  | case4 first next rest different ih => simp [ih]

/-- The conversion of an unsigned 64-bit value by `binary.BigEndian`. -/
def bigEndian64 (value : Nat) : Bytes :=
  [(value / 2 ^ 56).toUInt8, (value / 2 ^ 48).toUInt8, (value / 2 ^ 40).toUInt8,
    (value / 2 ^ 32).toUInt8, (value / 2 ^ 24).toUInt8, (value / 2 ^ 16).toUInt8,
    (value / 2 ^ 8).toUInt8, value.toUInt8]

@[simp] theorem length_bigEndian64 (value : Nat) :
    (bigEndian64 value).length = 8 := rfl

theorem bigEndian64_injective {value other : Nat} (bounded : value < 2 ^ 64)
    (otherBounded : other < 2 ^ 64) (equal : bigEndian64 value = bigEndian64 other) :
    value = other := by
  simp only [bigEndian64, List.cons.injEq, and_true, ← UInt8.toNat_inj,
    Nat.toUInt8, UInt8.toNat_ofNat'] at equal
  omega

/-- A byte string every byte of which is below 0x80. -/
def IsAscii (text : Bytes) : Prop :=
  ∀ byte ∈ text, byte.toNat < 0x80

theorem decodeRune_of_ascii (lead : UInt8) (rest : Bytes) (ascii : lead.toNat < 0x80) :
    decodeRune (lead :: rest) = (lead.toNat, 1) := by
  simp [decodeRune, ascii]

theorem segments_of_ascii (text : Bytes) (ascii : IsAscii text) :
    segments text = text.map fun byte => (byte.toNat, [byte]) := by
  induction text with
  | nil => rfl
  | cons lead rest ih =>
      have leadAscii : lead.toNat < 0x80 := ascii lead List.mem_cons_self
      have restAscii : IsAscii rest := fun byte member =>
        ascii byte (List.mem_cons_of_mem lead member)
      have tail := ih restAscii
      unfold segments at tail ⊢
      simp [segmentsFrom, decodeRune_of_ascii lead rest leadAscii, tail]

theorem runes_of_ascii (text : Bytes) (ascii : IsAscii text) :
    runes text = text.map UInt8.toNat := by
  rw [runes, segments_of_ascii text ascii, List.map_map]
  rfl

end Trstctl.Go
