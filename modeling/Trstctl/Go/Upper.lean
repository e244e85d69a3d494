import Trstctl.Go.Case

/-!
# Upper case and the places of a keyword

Raising the case of a text can change its length, so a place in the raised text
is in general no place in the text.  A word of ASCII letters that only those
letters lead to stands in the raised text where it stands in the text in either
case; what moves it is the growth of what stands before it.
-/

namespace Trstctl.Go

/-- The simple upper-case mappings of the Unicode character database above
ASCII. -/
def upperRanges : List CaseRange :=
  [⟨0xE0, 0xF6, 1, -32⟩, ⟨0xF8, 0xFE, 1, -32⟩, ⟨0x23F, 0x240, 1, 10815⟩, ⟨0x256, 0x257, 1, -205⟩,
    ⟨0x28A, 0x28B, 1, -217⟩, ⟨0x37B, 0x37D, 1, 130⟩, ⟨0x3AD, 0x3AF, 1, -37⟩, ⟨0x3B1, 0x3C1, 1, -32⟩,
    ⟨0x3C3, 0x3CB, 1, -32⟩, ⟨0x3CD, 0x3CE, 1, -63⟩, ⟨0x430, 0x44F, 1, -32⟩, ⟨0x450, 0x45F, 1, -80⟩,
    ⟨0x561, 0x586, 1, -48⟩, ⟨0x10D0, 0x10FA, 1, 3008⟩, ⟨0x10FD, 0x10FF, 1, 3008⟩,
    ⟨0x13F8, 0x13FD, 1, -8⟩, ⟨0x1C83, 0x1C84, 1, -6242⟩, ⟨0x1F00, 0x1F07, 1, 8⟩,
    ⟨0x1F10, 0x1F15, 1, 8⟩, ⟨0x1F20, 0x1F27, 1, 8⟩, ⟨0x1F30, 0x1F37, 1, 8⟩, ⟨0x1F40, 0x1F45, 1, 8⟩,
    ⟨0x1F51, 0x1F57, 2, 8⟩, ⟨0x1F60, 0x1F67, 1, 8⟩, ⟨0x1F70, 0x1F71, 1, 74⟩,
    ⟨0x1F72, 0x1F75, 1, 86⟩, ⟨0x1F76, 0x1F77, 1, 100⟩, ⟨0x1F78, 0x1F79, 1, 128⟩,
    ⟨0x1F7A, 0x1F7B, 1, 112⟩, ⟨0x1F7C, 0x1F7D, 1, 126⟩, ⟨0x1F80, 0x1F87, 1, 8⟩,
    ⟨0x1F90, 0x1F97, 1, 8⟩, ⟨0x1FA0, 0x1FA7, 1, 8⟩, ⟨0x1FB0, 0x1FB1, 1, 8⟩, ⟨0x1FD0, 0x1FD1, 1, 8⟩,
    ⟨0x1FE0, 0x1FE1, 1, 8⟩, ⟨0x2170, 0x217F, 1, -16⟩, ⟨0x24D0, 0x24E9, 1, -26⟩,
    ⟨0x2C30, 0x2C5F, 1, -48⟩, ⟨0x2D00, 0x2D25, 1, -7264⟩, ⟨0xAB70, 0xABBF, 1, -38864⟩,
    ⟨0xFF41, 0xFF5A, 1, -32⟩, ⟨0x10428, 0x1044F, 1, -40⟩, ⟨0x104D8, 0x104FB, 1, -40⟩,
    ⟨0x10597, 0x105A1, 1, -39⟩, ⟨0x105A3, 0x105B1, 1, -39⟩, ⟨0x105B3, 0x105B9, 1, -39⟩,
    ⟨0x105BB, 0x105BC, 1, -39⟩, ⟨0x10CC0, 0x10CF2, 1, -64⟩, ⟨0x118C0, 0x118DF, 1, -32⟩,
    ⟨0x16E60, 0x16E7F, 1, -32⟩, ⟨0x1E922, 0x1E943, 1, -34⟩] ++
  CaseRange.pairs (-1)
    [(0x101, 0x12F), (0x133, 0x137), (0x13A, 0x148), (0x14B, 0x177), (0x17A, 0x17E), (0x183, 0x185),
      (0x1A1, 0x1A5), (0x1B4, 0x1B6), (0x1CE, 0x1DC), (0x1DF, 0x1EF), (0x1F9, 0x21F),
      (0x223, 0x233), (0x247, 0x24F), (0x371, 0x373), (0x3D9, 0x3EF), (0x461, 0x481),
      (0x48B, 0x4BF), (0x4C2, 0x4CE), (0x4D1, 0x52F), (0x1E01, 0x1E95), (0x1EA1, 0x1EFF),
      (0x2C68, 0x2C6C), (0x2C81, 0x2CE3), (0x2CEC, 0x2CEE), (0xA641, 0xA66D), (0xA681, 0xA69B),
      (0xA723, 0xA72F), (0xA733, 0xA76F), (0xA77A, 0xA77C), (0xA77F, 0xA787), (0xA791, 0xA793),
      (0xA797, 0xA7A9), (0xA7B5, 0xA7C3), (0xA7C8, 0xA7CA), (0xA7D7, 0xA7D9)] ++
  CaseRange.singles
    [(0xB5, 743), (0xFF, 121), (0x131, -232), (0x17F, -300), (0x180, 195), (0x188, -1), (0x18C, -1),
      (0x192, -1), (0x195, 97), (0x199, -1), (0x19A, 163), (0x19E, 130), (0x1A8, -1), (0x1AD, -1),
      (0x1B0, -1), (0x1B9, -1), (0x1BD, -1), (0x1BF, 56), (0x1C5, -1), (0x1C6, -2), (0x1C8, -1),
      (0x1C9, -2), (0x1CB, -1), (0x1CC, -2), (0x1DD, -79), (0x1F2, -1), (0x1F3, -2), (0x1F5, -1),
      (0x23C, -1), (0x242, -1), (0x250, 10783), (0x251, 10780), (0x252, 10782), (0x253, -210),
      (0x254, -206), (0x259, -202), (0x25B, -203), (0x25C, 42319), (0x260, -205), (0x261, 42315),
      (0x263, -207), (0x265, 42280), (0x266, 42308), (0x268, -209), (0x269, -211), (0x26A, 42308),
      (0x26B, 10743), (0x26C, 42305), (0x26F, -211), (0x271, 10749), (0x272, -213), (0x275, -214),
      (0x27D, 10727), (0x280, -218), (0x282, 42307), (0x283, -218), (0x287, 42282), (0x288, -218),
      (0x289, -69), (0x28C, -71), (0x292, -219), (0x29D, 42261), (0x29E, 42258), (0x345, 84),
      (0x377, -1), (0x3AC, -38), (0x3C2, -31), (0x3CC, -64), (0x3D0, -62), (0x3D1, -57),
      (0x3D5, -47), (0x3D6, -54), (0x3D7, -8), (0x3F0, -86), (0x3F1, -80), (0x3F2, 7),
      (0x3F3, -116), (0x3F5, -96), (0x3F8, -1), (0x3FB, -1), (0x4CF, -15), (0x1C80, -6254),
      (0x1C81, -6253), (0x1C82, -6244), (0x1C85, -6243), (0x1C86, -6236), (0x1C87, -6181),
      (0x1C88, 35266), (0x1D79, 35332), (0x1D7D, 3814), (0x1D8E, 35384), (0x1E9B, -59), (0x1FB3, 9),
      (0x1FBE, -7205), (0x1FC3, 9), (0x1FE5, 7), (0x1FF3, 9), (0x214E, -28), (0x2184, -1),
      (0x2C61, -1), (0x2C65, -10795), (0x2C66, -10792), (0x2C73, -1), (0x2C76, -1), (0x2CF3, -1),
      (0x2D27, -7264), (0x2D2D, -7264), (0xA78C, -1), (0xA794, 48), (0xA7D1, -1), (0xA7F6, -1),
      (0xAB53, -928)]

/-- `unicode.ToUpper`. -/
def upperRune (rune : Rune) : Rune :=
  if rune < 0x80 then
    if 0x61 ≤ rune ∧ rune ≤ 0x7A then rune - 32 else rune
  else
    match upperRanges.find? fun range =>
        range.low ≤ rune && rune ≤ range.high && (rune - range.low) % range.stride == 0 with
    | some range => (rune + range.delta).toNat
    | none => rune

/-- `strings.ToUpper`: every rune is raised and encoded again, so an invalid
byte becomes the encoding of U+FFFD. -/
def toUpper (text : Bytes) : Bytes :=
  (runes text).flatMap fun rune => encodeRune (upperRune rune)

/-- `strings.LastIndex`: where a pattern last occurs. -/
def lastIndex (pattern : Bytes) : Bytes → Option Nat
  | [] => if pattern.isEmpty then some 0 else none
  | byte :: rest =>
      match lastIndex pattern rest with
      | some place => some (place + 1)
      | none => if pattern.isPrefixOf (byte :: rest) then some 0 else none

/-- A text with its ASCII letters in upper case. -/
def raiseCase (text : Bytes) : Bytes :=
  text.map upperByte

theorem raiseCase_cons (byte : UInt8) (rest : Bytes) :
    raiseCase (byte :: rest) = upperByte byte :: raiseCase rest :=
  rfl

theorem raiseCase_append (front rest : Bytes) :
    raiseCase (front ++ rest) = raiseCase front ++ raiseCase rest :=
  List.map_append

@[simp] theorem length_raiseCase (text : Bytes) : (raiseCase text).length = text.length :=
  List.length_map _

/-- A range above ASCII leads above ASCII, apart from U+0131 and U+017F. -/
def CaseRange.raisesWide (range : CaseRange) : Bool :=
  range.low + range.delta ≥ 0x80 ||
    (range.low == range.high &&
      (range.low + range.delta == 0x49 || range.low + range.delta == 0x53))

theorem raisesWide_upperRanges : upperRanges.all CaseRange.raisesWide = true := by
  decide +kernel

variable {rune : Nat}

theorem upperRune_wide (wide : 0x80 ≤ rune) :
    0x80 ≤ upperRune rune ∨ upperRune rune = 0x49 ∨ upperRune rune = 0x53 := by
  unfold upperRune Rune
  rw [if_neg (Nat.not_lt.mpr wide)]
  split
  · rename_i range found
    have raises := List.all_eq_true.mp raisesWide_upperRanges range
      (List.mem_of_find?_eq_some found)
    have inside := List.find?_some found
    simp only [CaseRange.raisesWide, Bool.or_eq_true, Bool.and_eq_true, decide_eq_true_eq,
      beq_iff_eq] at raises inside
    omega
  · exact Or.inl wide

theorem wide_of_mem_encodeRune (wide : 0x80 ≤ rune) {byte : UInt8}
    (member : byte ∈ encodeRune rune) :
    0x80 ≤ byte.toNat := by
  unfold encodeRune Rune at member
  rw [if_neg (Nat.not_lt.mpr wide)] at member
  (repeat' split at member) <;>
    simp only [List.mem_cons, List.not_mem_nil, or_false] at member <;>
    rcases member with rfl | rfl | rfl | rfl <;>
    simp only [Nat.toUInt8, UInt8.toNat_ofNat', UInt8.reduceToNat] <;>
    omega

theorem encodeRune_upperRune {byte : UInt8} (ascii : byte.toNat < 0x80) :
    encodeRune (upperRune byte.toNat) = [upperByte byte] := by
  have small : upperRune byte.toNat < 0x80 := by
    simp only [upperRune, if_pos ascii]
    unfold Rune
    split <;> omega
  simp only [encodeRune, if_pos small, List.cons.injEq, and_true]
  simp only [upperRune, if_pos ascii, upperByte, UInt8.le_iff_toNat_le]
  by_cases lower : 0x61 ≤ byte.toNat ∧ byte.toNat ≤ 0x7A
  · rw [if_pos lower, if_pos (by simpa using lower)]
    apply UInt8.toNat_inj.mp
    rw [UInt8.toNat_sub_of_le _ _ (by rw [UInt8.le_iff_toNat_le]; simp; omega), Nat.toUInt8,
      UInt8.toNat_ofNat']
    simp
    omega
  · rw [if_neg lower, if_neg (by simpa using lower)]
    simp

/-- Bytes that make up a rune above ASCII at the start of a text, whatever part
of the rest is kept. -/
structure WideRune (front rest : Bytes) (rune : Nat) : Prop where
  proper : front ≠ []
  high : ∀ byte ∈ front, 0x80 ≤ byte.toNat
  wide : 0x80 ≤ rune
  decoded : ∀ kept, kept <+: rest → segments (front ++ kept) = (rune, front) :: segments kept

/-- A byte above ASCII starts a rune above ASCII. -/
theorem wideRune_decodeRune {lead : UInt8} {rest : Bytes} (wide : 0x80 ≤ lead.toNat) :
    WideRune ((lead :: rest).take (decodeRune (lead :: rest)).2)
      ((lead :: rest).drop (decodeRune (lead :: rest)).2) (decodeRune (lead :: rest)).1 where
  proper := by
    obtain ⟨more, more_eq⟩ := Nat.exists_eq_add_of_le' (decodeRune_width lead rest).1
    rw [more_eq, List.take_succ_cons]
    exact List.cons_ne_nil _ _
  high := by
    have decoded := decodedRune_decodeRune lead rest
    generalize decodeRune (lead :: rest) = result at decoded
    cases decoded with
    | ascii small => exact absurd wide (Nat.not_le.mpr small)
    | invalid large => simpa using wide
    | two least most second => simpa using ⟨wide, second.1⟩
    | three least most lowest second third => simpa using ⟨wide, second.1, third.1⟩
    | four least most lowest second third fourth =>
        simpa using ⟨wide, second.1, third.1, fourth.1⟩
  wide := by
    have decoded := decodedRune_decodeRune lead rest
    generalize decodeRune (lead :: rest) = result at decoded
    cases decoded with
    | ascii small => exact absurd wide (Nat.not_le.mpr small)
    | invalid large => unfold runeError; decide
    | two least most second => unfold IsTail at second; dsimp only; unfold Rune; omega
    | three least most lowest second third =>
        unfold IsTail at second
        dsimp only
        unfold Rune
        omega
    | four least most lowest second third fourth =>
        unfold IsTail at second
        dsimp only
        unfold Rune
        omega
  decoded := by
    intro kept starts
    obtain ⟨cut, rest_eq⟩ := starts
    have width := decodeRune_width lead rest
    obtain ⟨more, more_eq⟩ := Nat.exists_eq_add_of_le' width.1
    have front : (lead :: rest).take (more + 1) ++ kept = lead :: (rest.take more ++ kept) := rfl
    have whole : lead :: ((rest.take more ++ kept) ++ cut) = lead :: rest := by
      rw [more_eq, List.drop_succ_cons] at rest_eq
      rw [List.append_assoc, rest_eq, List.take_append_drop]
    have length : ((lead :: rest).take (more + 1)).length = more + 1 := by
      rw [List.length_take, List.length_cons]
      omega
    have enough : (decodeRune (lead :: ((rest.take more ++ kept) ++ cut))).2 ≤
        (rest.take more ++ kept).length + 1 := by
      rw [whole, more_eq, List.length_append, List.length_take]
      omega
    have same := decodeRune_cut cut enough
    rw [whole] at same
    rw [more_eq, front, segments_cons, same, more_eq, ← front,
      List.take_append_of_le_length (le_of_eq length.symm), List.take_take, Nat.min_self,
      List.drop_append_of_le_length (le_of_eq length.symm),
      List.drop_eq_nil_of_le (le_of_eq length), List.nil_append]

theorem text_induction {motive : Bytes → Prop} (nil : motive [])
    (ascii : ∀ byte rest, byte.toNat < 0x80 → motive rest → motive (byte :: rest))
    (wide : ∀ front rest rune, WideRune front rest rune → motive rest → motive (front ++ rest))
    (text : Bytes) :
    motive text := by
  induction length_eq : text.length using Nat.strong_induction_on generalizing text with
  | _ length ih =>
      cases text with
      | nil => exact nil
      | cons lead rest =>
          by_cases small : lead.toNat < 0x80
          · refine ascii lead rest small (ih rest.length ?_ rest rfl)
            rw [← length_eq, List.length_cons]
            exact Nat.lt_succ_self _
          · have width := decodeRune_width lead rest
            have start := @wideRune_decodeRune lead rest (Nat.not_lt.mp small)
            have later := ih _ (by
              rw [← length_eq, List.length_drop, List.length_cons]
              omega) ((lead :: rest).drop (decodeRune (lead :: rest)).2) rfl
            have taken := wide _ _ _ start later
            rwa [List.take_append_drop] at taken

theorem toUpper_cons {byte : UInt8} (ascii : byte.toNat < 0x80) (rest : Bytes) :
    toUpper (byte :: rest) = upperByte byte :: toUpper rest := by
  have decoded := decodeRune_of_ascii byte rest ascii
  rw [toUpper, runes, segments_cons, decoded, List.map_cons, List.flatMap_cons,
    encodeRune_upperRune ascii]
  rfl

theorem WideRune.toUpper_append {front rest : Bytes} (start : WideRune front rest rune)
    {kept : Bytes} (starts : kept <+: rest) :
    toUpper (front ++ kept) = encodeRune (upperRune rune) ++ toUpper kept := by
  rw [toUpper, runes, start.decoded kept starts]
  rfl

/-- A word of letters in upper case that are the upper case of no letter above
ASCII. -/
def IsKeyword (word : Bytes) : Prop :=
  ∀ byte ∈ word, byte.toNat < 0x80 ∧ byte ≠ 0x49 ∧ byte ≠ 0x53

instance (word : Bytes) : Decidable (IsKeyword word) :=
  List.decidableBAll (fun byte : UInt8 => byte.toNat < 0x80 ∧ byte ≠ 0x49 ∧ byte ≠ 0x53) word

theorem WideRune.not_mem_front {front rest : Bytes} (start : WideRune front rest rune)
    {letter : UInt8} (ascii : letter.toNat < 0x80) :
    letter ∉ raiseCase front := by
  intro member
  obtain ⟨byte, byteMember, rfl⟩ := List.mem_map.mp member
  have wide := start.high byte byteMember
  unfold upperByte at ascii
  split at ascii
  · rename_i lower
    rw [UInt8.le_iff_toNat_le, UInt8.le_iff_toNat_le] at lower
    simp at lower
    omega
  · omega

theorem WideRune.not_mem_raised {front rest : Bytes} (start : WideRune front rest rune)
    {letter : UInt8} (keyword : letter.toNat < 0x80 ∧ letter ≠ 0x49 ∧ letter ≠ 0x53) :
    letter ∉ encodeRune (upperRune rune) := by
  intro member
  rcases upperRune_wide start.wide with wide | raised | raised
  · exact absurd keyword.1 (Nat.not_lt.mpr (wide_of_mem_encodeRune wide member))
  · rw [raised] at member
    exact keyword.2.1 (List.mem_singleton.mp member)
  · rw [raised] at member
    exact keyword.2.2 (List.mem_singleton.mp member)

theorem isPrefixOf_append {letter : UInt8} {word front : Bytes} (absent : letter ∉ front)
    (proper : front ≠ []) (text : Bytes) :
    (letter :: word).isPrefixOf (front ++ text) = false := by
  obtain ⟨byte, rest, rfl⟩ := List.exists_cons_of_ne_nil proper
  have different : letter ≠ byte := fun same => absent (same ▸ List.mem_cons_self)
  rw [List.cons_append, List.isPrefixOf_cons_cons, beq_false_of_ne different, Bool.false_and]

theorem isPrefixOf_toUpper {word : Bytes} (keyword : IsKeyword word) (text : Bytes) :
    word.isPrefixOf (toUpper text) = word.isPrefixOf (raiseCase text) := by
  induction word generalizing text with
  | nil => rw [List.isPrefixOf_nil_left, List.isPrefixOf_nil_left]
  | cons letter word ih =>
      obtain ⟨letterKeyword, wordKeyword⟩ := List.forall_mem_cons.mp keyword
      induction text using text_induction with
      | nil => rfl
      | ascii byte rest small _ =>
          rw [toUpper_cons small, raiseCase_cons, List.isPrefixOf_cons_cons,
            List.isPrefixOf_cons_cons, ih wordKeyword]
      | wide front rest rune start _ =>
          rw [start.toUpper_append (List.prefix_refl _), raiseCase_append,
            isPrefixOf_append (start.not_mem_raised letterKeyword) (encodeRune_ne_nil _),
            isPrefixOf_append (start.not_mem_front letterKeyword.1)
              (mt List.map_eq_nil_iff.mp start.proper)]

/-- Every place where a pattern occurs. -/
def places (pattern : Bytes) : Bytes → List Nat
  | [] => if pattern.isEmpty then [0] else []
  | byte :: rest =>
      (if pattern.isPrefixOf (byte :: rest) then [0] else []) ++ (places pattern rest).map (· + 1)

theorem index_eq_head? (pattern text : Bytes) :
    index pattern text = (places pattern text).head? := by
  induction text with
  | nil =>
      rw [index, places]
      split <;> rfl
  | cons byte rest ih =>
      rw [index, places, ih]
      split
      · rfl
      · rw [List.nil_append, List.head?_map]

theorem lastIndex_eq_getLast? (pattern text : Bytes) :
    lastIndex pattern text = (places pattern text).getLast? := by
  induction text with
  | nil =>
      rw [lastIndex, places]
      split <;> rfl
  | cons byte rest ih =>
      rw [lastIndex, places, ih, List.getLast?_append, List.getLast?_map]
      cases (places pattern rest).getLast? with
      | none =>
          dsimp only [Option.map_none, Option.none_or]
          split <;> rfl
      | some place => rfl

theorem places_append {letter : UInt8} {word front : Bytes} (absent : letter ∉ front)
    (text : Bytes) :
    places (letter :: word) (front ++ text) =
      (places (letter :: word) text).map (front.length + ·) := by
  induction front with
  | nil => simp
  | cons byte front ih =>
      have different : letter ≠ byte := fun same => absent (same ▸ List.mem_cons_self)
      have others : letter ∉ front := fun member => absent (List.mem_cons_of_mem byte member)
      rw [List.cons_append, places, List.isPrefixOf_cons_cons, beq_false_of_ne different,
        Bool.false_and, if_neg Bool.false_ne_true, ih others, List.nil_append, List.map_map]
      refine List.map_congr_left fun place _ => ?_
      rw [Function.comp_apply, List.length_cons]
      omega

def raisedLength (text : Bytes) (place : Nat) : Nat :=
  (toUpper (text.take place)).length

theorem raisedLength_succ {byte : UInt8} (ascii : byte.toNat < 0x80) (rest : Bytes) (place : Nat) :
    raisedLength (byte :: rest) (place + 1) = raisedLength rest place + 1 := by
  rw [raisedLength, List.take_succ_cons, toUpper_cons ascii, List.length_cons, raisedLength]

theorem WideRune.raisedLength_add {front rest : Bytes} (start : WideRune front rest rune)
    (place : Nat) :
    raisedLength (front ++ rest) (front.length + place) =
      (encodeRune (upperRune rune)).length + raisedLength rest place := by
  rw [raisedLength, List.take_length_add_append, start.toUpper_append (List.take_prefix _ _),
    List.length_append, raisedLength]

/-- A keyword occurs in the raised text where it occurs in the text in some case. -/
theorem places_toUpper {word : Bytes} (keyword : IsKeyword word) (proper : word ≠ [])
    (text : Bytes) :
    places word (toUpper text) = (places word (raiseCase text)).map (raisedLength text) := by
  obtain ⟨letter, tail, rfl⟩ := List.exists_cons_of_ne_nil proper
  obtain ⟨letterKeyword, -⟩ := List.forall_mem_cons.mp keyword
  induction text using text_induction with
  | nil => rfl
  | ascii byte rest small ih =>
      have starts := isPrefixOf_toUpper keyword (byte :: rest)
      rw [toUpper_cons small, raiseCase_cons] at starts
      rw [toUpper_cons small, raiseCase_cons, places, places, starts, ih, List.map_append,
        List.map_map, List.map_map]
      congr 1
      · split <;> rfl
      · exact List.map_congr_left fun place _ => (raisedLength_succ small rest place).symm
  | wide front rest rune start ih =>
      rw [start.toUpper_append (List.prefix_refl _), raiseCase_append,
        places_append (start.not_mem_raised letterKeyword),
        places_append (start.not_mem_front letterKeyword.1), ih, List.map_map, List.map_map,
        length_raiseCase]
      exact List.map_congr_left fun place _ => (start.raisedLength_add place).symm

theorem index_toUpper {word : Bytes} (keyword : IsKeyword word) (proper : word ≠ [])
    (text : Bytes) :
    index word (toUpper text) = (index word (raiseCase text)).map (raisedLength text) := by
  rw [index_eq_head?, index_eq_head?, places_toUpper keyword proper, List.head?_map]

theorem lastIndex_toUpper {word : Bytes} (keyword : IsKeyword word) (proper : word ≠ [])
    (text : Bytes) :
    lastIndex word (toUpper text) = (lastIndex word (raiseCase text)).map (raisedLength text) := by
  rw [lastIndex_eq_getLast?, lastIndex_eq_getLast?, places_toUpper keyword proper,
    List.getLast?_map]

theorem prefix_drop_of_mem_places {pattern text : Bytes} {place : Nat}
    (member : place ∈ places pattern text) :
    pattern <+: text.drop place := by
  induction text generalizing place with
  | nil =>
      rw [places] at member
      split at member
      · rename_i empty
        rw [List.isEmpty_iff.mp empty]
        exact List.nil_prefix
      · cases member
  | cons byte rest ih =>
      rw [places, List.mem_append, List.mem_map] at member
      rcases member with start | ⟨later, laterMember, rfl⟩
      · split at start
        · rename_i starts
          obtain rfl := List.mem_singleton.mp start
          exact List.isPrefixOf_iff_prefix.mp starts
        · cases start
      · exact ih laterMember

theorem prefix_drop_of_index {pattern text : Bytes} {place : Nat}
    (found : index pattern text = some place) :
    pattern <+: text.drop place :=
  prefix_drop_of_mem_places (List.mem_of_head? (index_eq_head? pattern text ▸ found))

theorem prefix_drop_of_lastIndex {pattern text : Bytes} {place : Nat}
    (found : lastIndex pattern text = some place) :
    pattern <+: text.drop place :=
  prefix_drop_of_mem_places (List.mem_of_getLast? (lastIndex_eq_getLast? pattern text ▸ found))

theorem index_eq_zero_iff {pattern text : Bytes} (proper : pattern ≠ []) :
    index pattern text = some 0 ↔ pattern <+: text := by
  refine ⟨prefix_drop_of_index, fun starts => ?_⟩
  cases text with
  | nil => exact absurd (List.prefix_nil.mp starts) proper
  | cons byte rest => rw [index, if_pos (List.isPrefixOf_iff_prefix.mpr starts)]

/-- A pattern is found in the start of a text when it is found in the text and
ends in that start. -/
theorem index_take {pattern : Bytes} (proper : pattern ≠ []) (text : Bytes) (length place : Nat) :
    index pattern (text.take length) = some place ↔
      index pattern text = some place ∧ place + pattern.length ≤ length := by
  have nowhere : index pattern [] = none := by
    rw [index, if_neg (mt List.isEmpty_iff.mp proper)]
  have some := List.length_pos_of_ne_nil proper
  induction text generalizing length place with
  | nil => simp [nowhere]
  | cons byte rest ih =>
      cases length with
      | zero =>
          rw [List.take_zero, nowhere]
          exact ⟨nofun, fun found => by omega⟩
      | succ length =>
          have start : pattern.isPrefixOf (byte :: rest.take length) = true ↔
              pattern.isPrefixOf (byte :: rest) = true ∧ pattern.length ≤ length + 1 := by
            rw [← List.take_succ_cons, List.isPrefixOf_iff_prefix, List.isPrefixOf_iff_prefix,
              List.prefix_take_iff]
          rw [List.take_succ_cons, index, index]
          by_cases whole : pattern.isPrefixOf (byte :: rest) = true
          · by_cases short : pattern.length ≤ length + 1
            · rw [if_pos (start.mpr ⟨whole, short⟩), if_pos whole]
              refine ⟨fun found => ⟨found, ?_⟩, And.left⟩
              rw [← Option.some.inj found]
              omega
            · rw [if_neg fun starts => short (start.mp starts).2, if_pos whole]
              constructor
              · intro found
                obtain ⟨later, laterFound, rfl⟩ := Option.map_eq_some_iff.mp found
                have within := ((ih length later).mp laterFound).2
                omega
              · rintro ⟨found, within⟩
                have zero := Option.some.inj found
                omega
          · rw [if_neg fun starts => whole (start.mp starts).1, if_neg whole,
              Option.map_eq_some_iff, Option.map_eq_some_iff]
            constructor
            · rintro ⟨later, laterFound, rfl⟩
              obtain ⟨found, within⟩ := (ih length later).mp laterFound
              exact ⟨⟨later, found, rfl⟩, by omega⟩
            · rintro ⟨⟨later, found, rfl⟩, within⟩
              exact ⟨later, (ih length later).mpr ⟨found, by omega⟩, rfl⟩

theorem toUpper_append (text : Bytes) {byte : UInt8} (ascii : byte.toNat < 0x80) (more : Bytes) :
    toUpper (text ++ byte :: more) = toUpper text ++ toUpper (byte :: more) := by
  simp [toUpper, runes, segments_append text ascii more]

theorem upperByte_small_iff {byte : UInt8} : (upperByte byte).toNat < 0x80 ↔ byte.toNat < 0x80 := by
  unfold upperByte
  split
  · rename_i lower
    rw [UInt8.le_iff_toNat_le, UInt8.le_iff_toNat_le] at lower
    rw [UInt8.toNat_sub_of_le _ _ (by rw [UInt8.le_iff_toNat_le]; simp at lower ⊢; omega)]
    simp at lower ⊢
    omega
  · rfl

theorem raisedLength_of_start {word text : Bytes} (ascii : IsAscii word)
    (starts : word <+: raiseCase text) (place : Nat) :
    raisedLength text place =
      min place word.length + raisedLength (text.drop word.length) (place - word.length) := by
  induction word generalizing text place with
  | nil => simp
  | cons letter word ih =>
      obtain ⟨small, others⟩ := List.forall_mem_cons.mp ascii
      cases text with
      | nil => exact absurd (List.prefix_nil.mp starts) (List.cons_ne_nil _ _)
      | cons byte rest =>
          obtain ⟨same, tail⟩ := List.cons_prefix_cons.mp starts
          rw [same, upperByte_small_iff] at small
          cases place with
          | zero => simp [raisedLength]
          | succ place =>
              rw [raisedLength_succ small, ih others tail, List.length_cons,
                List.drop_succ_cons, Nat.add_sub_add_right]
              omega

theorem raisedLength_of_word {word text : Bytes} (ascii : IsAscii word) (proper : word ≠ [])
    {place later : Nat} (stands : word <+: raiseCase (text.drop place)) (after : place ≤ later) :
    raisedLength text later =
      raisedLength text place + raisedLength (text.drop place) (later - place) := by
  obtain ⟨letter, tail, rfl⟩ := List.exists_cons_of_ne_nil proper
  obtain ⟨more, rfl⟩ := Nat.exists_eq_add_of_le after
  rw [Nat.add_sub_cancel_left, raisedLength, List.take_add, raisedLength, raisedLength]
  cases rest_eq : text.drop place with
  | nil =>
      rw [rest_eq] at stands
      exact absurd (List.prefix_nil.mp stands) (List.cons_ne_nil _ _)
  | cons byte rest =>
      rw [rest_eq] at stands
      have small := ascii letter List.mem_cons_self
      rw [(List.cons_prefix_cons.mp stands).1, upperByte_small_iff] at small
      cases more with
      | zero => simp [toUpper, runes, segments, segmentsFrom]
      | succ more =>
          rw [List.take_succ_cons, toUpper_append _ small, List.length_append]

theorem toUpper_of_ascii {text : Bytes} (ascii : IsAscii text) :
    toUpper text = raiseCase text := by
  induction text with
  | nil => rfl
  | cons byte rest ih =>
      obtain ⟨small, restAscii⟩ := List.forall_mem_cons.mp ascii
      rw [toUpper_cons small, ih restAscii, raiseCase_cons]

theorem isPrefixOf_append_barrier {word : Bytes} {barrier : UInt8} (absent : barrier ∉ word)
    (text more : Bytes) :
    word.isPrefixOf (text ++ barrier :: more) = word.isPrefixOf text := by
  induction word generalizing text with
  | nil => rw [List.isPrefixOf_nil_left, List.isPrefixOf_nil_left]
  | cons letter word ih =>
      obtain ⟨other, others⟩ := not_or.mp (mt List.mem_cons.mpr absent)
      cases text with
      | nil =>
          rw [List.nil_append, List.isPrefixOf_cons_cons, beq_false_of_ne (Ne.symm other)]
          rfl
      | cons byte text =>
          rw [List.cons_append, List.isPrefixOf_cons_cons, List.isPrefixOf_cons_cons,
            ih others]

/-- A word occurs in front of a byte that it does not contain, or behind it. -/
theorem places_append_barrier {word : Bytes} (proper : word ≠ []) {barrier : UInt8}
    (absent : barrier ∉ word) (text more : Bytes) :
    places word (text ++ barrier :: more) =
      places word text ++ (places word more).map (text.length + 1 + ·) := by
  induction text with
  | nil =>
      have apart := isPrefixOf_append_barrier absent [] more
      rw [List.nil_append] at apart
      obtain ⟨letter, tail, rfl⟩ := List.exists_cons_of_ne_nil proper
      rw [List.nil_append, places, places, apart]
      simp [Nat.add_comm]
  | cons byte text ih =>
      have apart := isPrefixOf_append_barrier absent (byte :: text) more
      rw [List.cons_append] at apart
      rw [List.cons_append, places, places, apart, ih, List.append_assoc, List.map_append,
        List.map_map]
      refine congrArg _ (congrArg _ (List.map_congr_left fun place _ => ?_))
      rw [Function.comp_apply, List.length_cons]
      omega

theorem index_append_barrier {word : Bytes} (proper : word ≠ []) {barrier : UInt8}
    (absent : barrier ∉ word) (text more : Bytes) :
    index word (text ++ barrier :: more) =
      (index word text).or ((index word more).map (text.length + 1 + ·)) := by
  simp only [index_eq_head?, places_append_barrier proper absent, List.head?_append,
    List.head?_map]

theorem lastIndex_append_barrier {word : Bytes} (proper : word ≠ []) {barrier : UInt8}
    (absent : barrier ∉ word) (text more : Bytes) :
    lastIndex word (text ++ barrier :: more) =
      ((lastIndex word more).map (text.length + 1 + ·)).or (lastIndex word text) := by
  simp only [lastIndex_eq_getLast?, places_append_barrier proper absent, List.getLast?_append,
    List.getLast?_map]

theorem isSome_index (word text : Bytes) : (index word text).isSome = contains text word := by
  induction text with
  | nil =>
      rw [index, contains]
      cases word.isEmpty with
      | true => rfl
      | false => rfl
  | cons byte rest ih =>
      rw [index, contains, ← ih]
      cases word.isPrefixOf (byte :: rest) with
      | true => rfl
      | false => exact Option.isSome_map

theorem isSome_lastIndex (word text : Bytes) :
    (lastIndex word text).isSome = contains text word := by
  rw [← isSome_index, index_eq_head?, lastIndex_eq_getLast?]
  cases places word text with
  | nil => rfl
  | cons place rest =>
      rw [List.getLast?_cons, List.head?_cons, Option.isSome_some, Option.isSome_some]

theorem contains_append_barrier {word : Bytes} (proper : word ≠ []) {barrier : UInt8}
    (absent : barrier ∉ word) (text more : Bytes) :
    contains (text ++ barrier :: more) word = (contains text word || contains more word) := by
  rw [← isSome_index, index_append_barrier proper absent, Option.isSome_or, Option.isSome_map,
    isSome_index, isSome_index]

end Trstctl.Go
