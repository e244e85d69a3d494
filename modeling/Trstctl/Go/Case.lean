import Trstctl.Go.Trim

/-!
# Encoding runes and lowering their case

What is encoded from runes is decoded to the same runes, so lowering the case
of a text maps its runes.  The table of lower cases leads to no upper case and
to no white space: a lowered text stays as it is when it is lowered again, and
trimming it is lowering the trimmed text.
-/

namespace Trstctl.Go

/-- A code point that has an encoding. -/
def IsScalar (rune : Rune) : Prop :=
  rune < 0x110000 ∧ ¬(0xD800 ≤ rune ∧ rune < 0xE000)

theorem isScalar_runeError : IsScalar runeError := by
  unfold IsScalar runeError
  decide

/-- Every decoded rune has an encoding. -/
theorem isScalar_decodeRune (lead : UInt8) (rest : Bytes) :
    IsScalar (decodeRune (lead :: rest)).1 := by
  by_cases ascii : lead.toNat < 0x80
  · rw [decodeRune_of_ascii lead rest ascii]
    exact ⟨by change lead.toNat < _; omega, by change ¬(_ ≤ lead.toNat ∧ _); omega⟩
  simp only [decodeRune, if_neg ascii]
  split
  · rename_i low high second tail leads
    split
    · unfold IsScalar Rune
      dsimp only
      omega
    · exact isScalar_runeError
  · rename_i low high second third tail leads
    split
    · rename_i valid
      simp only [continues, Bool.and_eq_true, decide_eq_true_eq] at valid
      have ranges := leadingByte_ranges leads
      unfold IsScalar Rune
      dsimp only
      omega
    · exact isScalar_runeError
  · rename_i low high second third fourth tail leads
    split
    · rename_i valid
      simp only [continues, Bool.and_eq_true, decide_eq_true_eq] at valid
      have ranges := leadingByte_ranges leads
      unfold IsScalar Rune
      dsimp only
      omega
    · exact isScalar_runeError
  · exact isScalar_runeError

theorem isScalar_of_mem_runes {text : Bytes} {rune : Rune} (member : rune ∈ runes text) :
    IsScalar rune := by
  induction length_eq : text.length using Nat.strong_induction_on generalizing text with
  | _ length ih =>
      cases text with
      | nil => cases member
      | cons lead rest =>
          have width := decodeRune_width lead rest
          rw [runes, segments_cons, List.map_cons, List.mem_cons] at member
          rcases member with rfl | later
          · exact isScalar_decodeRune lead rest
          · refine ih _ ?_ later rfl
            rw [← length_eq, List.length_drop, List.length_cons]
            omega

theorem toNat_toUInt8 {value : Nat} (small : value < 256) : value.toUInt8.toNat = value := by
  rw [Nat.toUInt8, UInt8.toNat_ofNat']
  omega

theorem leadingByte_three {lead second : Nat} (lead_bounds : 0xE0 ≤ lead ∧ lead ≤ 0xEF)
    (second_bounds : 0x80 ≤ second ∧ second ≤ 0xBF) (overlong : lead = 0xE0 → 0xA0 ≤ second)
    (surrogate : lead = 0xED → second ≤ 0x9F) :
    ∃ low high, leadingByte lead = some (low, high, 3) ∧ low ≤ second ∧ second ≤ high := by
  unfold leadingByte
  rw [if_neg (by omega), if_neg (by omega)]
  by_cases first : lead = 0xE0
  · exact ⟨_, _, if_pos first, overlong first, second_bounds.2⟩
  rw [if_neg first]
  by_cases beside : lead = 0xED
  · exact ⟨_, _, if_pos beside, second_bounds.1, surrogate beside⟩
  rw [if_neg beside]
  exact ⟨_, _, if_pos lead_bounds.2, second_bounds⟩

theorem leadingByte_four {lead second : Nat} (lead_bounds : 0xF0 ≤ lead ∧ lead ≤ 0xF4)
    (second_bounds : 0x80 ≤ second ∧ second ≤ 0xBF) (overlong : lead = 0xF0 → 0x90 ≤ second)
    (beyond : lead = 0xF4 → second ≤ 0x8F) :
    ∃ low high, leadingByte lead = some (low, high, 4) ∧ low ≤ second ∧ second ≤ high := by
  unfold leadingByte
  rw [if_neg (by omega), if_neg (by omega), if_neg (by omega), if_neg (by omega),
    if_neg (by omega)]
  by_cases first : lead = 0xF0
  · exact ⟨_, _, if_pos first, overlong first, second_bounds.2⟩
  rw [if_neg first]
  by_cases middle : lead ≤ 0xF3
  · exact ⟨_, _, if_pos middle, second_bounds⟩
  rw [if_neg middle]
  have last : lead = 0xF4 := by omega
  exact ⟨_, _, if_pos last, second_bounds.1, beyond last⟩

variable {rune : Nat}

/-- An encoded rune is decoded. -/
theorem decodeRune_encodeRune (scalar : IsScalar rune) (rest : Bytes) :
    decodeRune (encodeRune rune ++ rest) = (rune, (encodeRune rune).length) := by
  unfold IsScalar Rune at scalar
  obtain ⟨bounded, noSurrogate⟩ := scalar
  unfold encodeRune Rune
  split
  · rename_i ascii
    have lead := toNat_toUInt8 (show rune < 256 by omega)
    simp [decodeRune, lead, ascii]
  split
  · rename_i large small
    have lead := toNat_toUInt8 (show 0xC0 + rune / 0x40 < 256 by omega)
    have second := toNat_toUInt8 (show 0x80 + rune % 0x40 < 256 by omega)
    have leads : leadingByte (0xC0 + rune / 0x40) = some (0x80, 0xBF, 2) := by
      unfold leadingByte
      rw [if_neg (by omega), if_pos (by omega)]
    have valid : continues 0x80 0xBF (0x80 + rune % 0x40).toUInt8 = true := by
      simp only [continues, second, Bool.and_eq_true, decide_eq_true_eq]
      omega
    simp only [List.cons_append, decodeRune, lead, leads, valid, second, List.nil_append]
    rw [if_neg (by omega), if_pos trivial]
    simp only [List.length_cons, List.length_nil, Prod.mk.injEq, and_true]
    unfold Rune
    omega
  split
  · omega
  split
  · rename_i large surrogate small
    have lead := toNat_toUInt8 (show 0xE0 + rune / 0x1000 < 256 by omega)
    have second := toNat_toUInt8 (show 0x80 + rune / 0x40 % 0x40 < 256 by omega)
    have third := toNat_toUInt8 (show 0x80 + rune % 0x40 < 256 by omega)
    obtain ⟨low, high, leads, within⟩ := leadingByte_three
      (show 0xE0 ≤ 0xE0 + rune / 0x1000 ∧ 0xE0 + rune / 0x1000 ≤ 0xEF by omega)
      (show 0x80 ≤ 0x80 + rune / 0x40 % 0x40 ∧ 0x80 + rune / 0x40 % 0x40 ≤ 0xBF by omega)
      (fun first => by omega) (fun beside => by omega)
    have validSecond : continues low high (0x80 + rune / 0x40 % 0x40).toUInt8 = true := by
      simpa only [continues, second, Bool.and_eq_true, decide_eq_true_eq] using within
    have validThird : continues 0x80 0xBF (0x80 + rune % 0x40).toUInt8 = true := by
      simp only [continues, third, Bool.and_eq_true, decide_eq_true_eq]
      omega
    simp only [List.cons_append, decodeRune, lead, leads, validSecond, validThird, second, third,
      List.nil_append, Bool.and_self]
    rw [if_neg (by omega), if_pos trivial]
    simp only [List.length_cons, List.length_nil, Prod.mk.injEq, and_true]
    unfold Rune
    omega
  · rename_i large surrogate wide
    have lead := toNat_toUInt8 (show 0xF0 + rune / 0x40000 < 256 by omega)
    have second := toNat_toUInt8 (show 0x80 + rune / 0x1000 % 0x40 < 256 by omega)
    have third := toNat_toUInt8 (show 0x80 + rune / 0x40 % 0x40 < 256 by omega)
    have fourth := toNat_toUInt8 (show 0x80 + rune % 0x40 < 256 by omega)
    obtain ⟨low, high, leads, within⟩ := leadingByte_four
      (show 0xF0 ≤ 0xF0 + rune / 0x40000 ∧ 0xF0 + rune / 0x40000 ≤ 0xF4 by omega)
      (show 0x80 ≤ 0x80 + rune / 0x1000 % 0x40 ∧ 0x80 + rune / 0x1000 % 0x40 ≤ 0xBF by omega)
      (fun first => by omega) (fun last => by omega)
    have validSecond : continues low high (0x80 + rune / 0x1000 % 0x40).toUInt8 = true := by
      simpa only [continues, second, Bool.and_eq_true, decide_eq_true_eq] using within
    have validThird : continues 0x80 0xBF (0x80 + rune / 0x40 % 0x40).toUInt8 = true := by
      simp only [continues, third, Bool.and_eq_true, decide_eq_true_eq]
      omega
    have validFourth : continues 0x80 0xBF (0x80 + rune % 0x40).toUInt8 = true := by
      simp only [continues, fourth, Bool.and_eq_true, decide_eq_true_eq]
      omega
    simp only [List.cons_append, decodeRune, lead, leads, validSecond, validThird, validFourth,
      second, third, fourth, List.nil_append, Bool.and_self]
    rw [if_neg (by omega), if_pos trivial]
    simp only [List.length_cons, List.length_nil, Prod.mk.injEq, and_true]
    unfold Rune
    omega

theorem encodeRune_ne_nil (rune : Rune) : encodeRune rune ≠ [] := by
  unfold encodeRune
  (repeat' split) <;> exact List.cons_ne_nil _ _

theorem segments_flatMap_encodeRune {text : List Rune} (scalars : ∀ rune ∈ text, IsScalar rune) :
    segments (text.flatMap encodeRune) = text.map fun rune => (rune, encodeRune rune) := by
  induction text with
  | nil => rfl
  | cons rune rest ih =>
      obtain ⟨scalar, later⟩ := List.forall_mem_cons.mp scalars
      have decoded := decodeRune_encodeRune scalar (rest.flatMap encodeRune)
      obtain ⟨lead, tail, encoded⟩ := List.exists_cons_of_ne_nil (encodeRune_ne_nil rune)
      rw [List.flatMap_cons, List.map_cons, ← ih later]
      have cons : encodeRune rune ++ rest.flatMap encodeRune =
          lead :: (tail ++ rest.flatMap encodeRune) := by
        rw [encoded, List.cons_append]
      rw [cons, segments_cons, ← cons, decoded, List.take_left, List.drop_left]

/-- The lower case of the first code point of a range. -/
def CaseRange.lowered (range : CaseRange) : Nat :=
  (range.low + range.delta).toNat

/-- The numbers `first`, `first + stride`, up to `last` are not in the range. -/
def CaseRange.avoids (first last stride : Nat) (other : CaseRange) : Bool :=
  Nat.blt last other.low || Nat.blt other.high first ||
    ((stride == 2 || first == last) && other.stride == 2 && (first + other.low) % 2 == 1)

/-- The white space above ASCII. -/
def wideSpaces : List CaseRange :=
  [⟨0x85, 0x85, 1, 0⟩, ⟨0xA0, 0xA0, 1, 0⟩, ⟨0x1680, 0x1680, 1, 0⟩, ⟨0x2000, 0x200A, 1, 0⟩,
    ⟨0x2028, 0x2029, 1, 0⟩, ⟨0x202F, 0x202F, 1, 0⟩, ⟨0x205F, 0x205F, 1, 0⟩, ⟨0x3000, 0x3000, 1, 0⟩]

/-- A range without white space, above ASCII, whose lower cases are not upper
case, have encodings and are no white space. -/
def CaseRange.settled (range : CaseRange) : Bool :=
  let first := range.lowered
  let last := first + (range.high - range.low)
  0x80 ≤ range.low && range.low + range.delta == first &&
    (range.stride == 1 || range.stride == 2) &&
    lowerRanges.all (avoids first last range.stride) &&
    (0x80 ≤ first || (0x61 ≤ first && last ≤ 0x7A)) &&
    (last < 0xD800 || (0xE000 ≤ first && last < 0x110000)) &&
    wideSpaces.all (avoids first last range.stride) &&
    wideSpaces.all (avoids range.low range.high range.stride)

theorem settled_lowerRanges : lowerRanges.all CaseRange.settled = true := by
  have first : (lowerRanges.take 50).all CaseRange.settled = true := by decide +kernel
  have second : ((lowerRanges.drop 50).take 50).all CaseRange.settled = true := by decide +kernel
  have third : (((lowerRanges.drop 50).drop 50).take 50).all CaseRange.settled = true := by
    decide +kernel
  have last : (((lowerRanges.drop 50).drop 50).drop 50).all CaseRange.settled = true := by
    decide +kernel
  rw [← List.take_append_drop 50 lowerRanges, List.all_append, first,
    ← List.take_append_drop 50 (lowerRanges.drop 50), List.all_append, second,
    ← List.take_append_drop 50 ((lowerRanges.drop 50).drop 50), List.all_append, third, last]
  rfl

/-- A code point of the range. -/
def CaseRange.Has (range : CaseRange) (rune : Nat) : Prop :=
  range.low ≤ rune ∧ rune ≤ range.high ∧ (rune - range.low) % range.stride = 0

theorem CaseRange.not_has_of_avoids {first last stride number : Nat} {other : CaseRange}
    (avoided : avoids first last stride other = true) (least : first ≤ number)
    (most : number ≤ last) (step : stride = 1 ∨ stride = 2 ∧ (number - first) % 2 = 0) :
    ¬other.Has number := by
  simp only [avoids, Nat.blt_eq, Bool.or_eq_true, Bool.and_eq_true, beq_iff_eq] at avoided
  unfold Has
  rintro ⟨low, high, aligned⟩
  rcases avoided with (below | above) | ⟨⟨steps, otherStep⟩, odd⟩
  · omega
  · omega
  · rw [otherStep] at aligned
    omega

/-- What is known of the lower case of a code point of the table. -/
structure Lowered (rune target : Nat) : Prop where
  wide : 0x80 ≤ rune
  unlisted : ∀ other ∈ lowerRanges, ¬other.Has target
  small : 0x80 ≤ target ∨ 0x61 ≤ target ∧ target ≤ 0x7A
  scalar : IsScalar target
  unspaced : ∀ space ∈ wideSpaces, ¬space.Has target ∧ ¬space.Has rune

theorem lowered_of_has {range : CaseRange} (member : range ∈ lowerRanges) (has : range.Has rune) :
    Lowered rune (rune + range.delta).toNat := by
  have settled := List.all_eq_true.mp settled_lowerRanges range member
  simp only [CaseRange.settled, Bool.and_eq_true, Bool.or_eq_true, decide_eq_true_eq, beq_iff_eq,
    List.all_eq_true] at settled
  obtain ⟨⟨⟨⟨⟨⟨⟨least, first⟩, stride⟩, listed⟩, small⟩, scalar⟩, spaces⟩, sourceSpaces⟩ := settled
  obtain ⟨low, high, aligned⟩ := has
  have target : (rune + range.delta).toNat = range.lowered + (rune - range.low) := by
    omega
  have step : range.stride = 1 ∨ range.stride = 2 ∧ (rune - range.low) % 2 = 0 :=
    stride.imp_right fun two => ⟨two, two ▸ aligned⟩
  have targetStep : range.stride = 1 ∨
      range.stride = 2 ∧ (range.lowered + (rune - range.low) - range.lowered) % 2 = 0 := by
    rwa [Nat.add_sub_cancel_left]
  rw [target]
  exact
    { wide := by omega
      unlisted := fun other otherMember =>
        CaseRange.not_has_of_avoids (listed other otherMember) (by omega) (by omega) targetStep
      small := by omega
      scalar := by
        unfold IsScalar Rune
        omega
      unspaced := fun space spaceMember =>
        ⟨CaseRange.not_has_of_avoids (spaces space spaceMember) (by omega) (by omega) targetStep,
          CaseRange.not_has_of_avoids (sourceSpaces space spaceMember) low high step⟩ }

theorem isSpace_iff_of_wide (wide : 0x80 ≤ rune ∨ 0x61 ≤ rune ∧ rune ≤ 0x7A) :
    isSpace rune = true ↔ ∃ space ∈ wideSpaces, space.Has rune := by
  simp only [isSpace, wideSpaces, CaseRange.Has, Bool.or_eq_true, Bool.and_eq_true,
    decide_eq_true_eq, beq_iff_eq, List.mem_cons, List.not_mem_nil, or_false, or_and_right,
    exists_or, exists_eq_left, Nat.mod_one, and_true]
  unfold Rune
  omega

theorem Lowered.isSpace_eq {target : Nat} (lowered : Lowered rune target) :
    isSpace target = false ∧ isSpace rune = false := by
  constructor
  · rw [Bool.eq_false_iff, ne_eq, isSpace_iff_of_wide lowered.small]
    rintro ⟨space, member, has⟩
    exact (lowered.unspaced space member).1 has
  · rw [Bool.eq_false_iff, ne_eq, isSpace_iff_of_wide (Or.inl lowered.wide)]
    rintro ⟨space, member, has⟩
    exact (lowered.unspaced space member).2 has

theorem lowerRune_of_unlisted (small : 0x80 ≤ rune ∨ 0x61 ≤ rune ∧ rune ≤ 0x7A)
    (unlisted : ∀ range ∈ lowerRanges, ¬range.Has rune) :
    lowerRune rune = rune := by
  unfold lowerRune Rune
  by_cases ascii : rune < 0x80
  · rw [if_pos ascii, if_neg (by omega)]
  · rw [if_neg ascii]
    have none : (lowerRanges.find? fun range =>
        range.low ≤ rune && rune ≤ range.high &&
          (rune - range.low) % range.stride == 0) = none := by
      rw [List.find?_eq_none]
      intro range member
      simpa [CaseRange.Has, and_assoc] using unlisted range member
    rw [none]

theorem lowerRune_cases (rune : Nat) :
    lowerRune rune = rune ∨
      (0x41 ≤ rune ∧ rune ≤ 0x5A ∧ lowerRune rune = rune + 32) ∨
      Lowered rune (lowerRune rune) := by
  by_cases ascii : rune < 0x80
  · unfold lowerRune Rune
    rw [if_pos ascii]
    split
    · exact Or.inr (Or.inl ⟨by omega, by omega, rfl⟩)
    · exact Or.inl rfl
  · cases found : lowerRanges.find? fun range =>
        range.low ≤ rune && rune ≤ range.high && (rune - range.low) % range.stride == 0 with
    | none =>
        left
        unfold lowerRune
        rw [if_neg ascii, found]
    | some range =>
        right
        right
        have has : range.Has rune := by
          have holds := List.find?_some found
          simpa [CaseRange.Has, and_assoc] using holds
        have lower : lowerRune rune = (rune + range.delta).toNat := by
          unfold lowerRune
          rw [if_neg ascii, found]
        rw [lower]
        exact lowered_of_has (List.mem_of_find?_eq_some found) has

theorem lowerRune_lowerRune (rune : Rune) : lowerRune (lowerRune rune) = lowerRune rune := by
  rcases lowerRune_cases rune with same | ⟨least, most, lower⟩ | lowered
  · rw [same, same]
  · rw [lower]
    unfold lowerRune Rune
    rw [if_pos (by unfold Rune at *; omega), if_neg (by unfold Rune at *; omega)]
  · exact lowerRune_of_unlisted lowered.small lowered.unlisted

theorem isSpace_lowerRune (rune : Rune) : isSpace (lowerRune rune) = isSpace rune := by
  rcases lowerRune_cases rune with same | ⟨least, most, lower⟩ | lowered
  · rw [same]
  · rw [lower]
    unfold isSpace Rune at *
    rw [Bool.eq_iff_iff]
    simp only [Bool.or_eq_true, Bool.and_eq_true, decide_eq_true_eq, beq_iff_eq]
    omega
  · rw [lowered.isSpace_eq.1, lowered.isSpace_eq.2]

theorem isScalar_lowerRune {rune : Rune} (scalar : IsScalar rune) :
    IsScalar (lowerRune rune) := by
  rcases lowerRune_cases rune with same | ⟨least, most, lower⟩ | lowered
  · rwa [same]
  · rw [lower]
    unfold IsScalar Rune at *
    omega
  · exact lowered.scalar

theorem segments_toLower (text : Bytes) :
    segments (toLower text) =
      (runes text).map fun rune => (lowerRune rune, encodeRune (lowerRune rune)) := by
  have scalars : ∀ rune ∈ (runes text).map lowerRune, IsScalar rune := by
    intro rune member
    obtain ⟨source, sourceMember, rfl⟩ := List.mem_map.mp member
    exact isScalar_lowerRune (isScalar_of_mem_runes sourceMember)
  have encoded := segments_flatMap_encodeRune scalars
  rw [List.flatMap_map, List.map_map] at encoded
  exact encoded

theorem runes_toLower (text : Bytes) : runes (toLower text) = (runes text).map lowerRune := by
  rw [runes, segments_toLower, List.map_map]
  rfl

theorem toLower_toLower (text : Bytes) : toLower (toLower text) = toLower text := by
  rw [toLower, runes_toLower, List.flatMap_map, toLower]
  simp only [lowerRune_lowerRune]

theorem trimSpace_toLower (text : Bytes) : trimSpace (toLower text) = toLower (trimSpace text) := by
  have spaces : ((fun segment : Rune × Bytes => isSpace segment.1) ∘ fun segment : Rune × Bytes =>
      (lowerRune segment.1, encodeRune (lowerRune segment.1))) =
      fun segment : Rune × Bytes => isSpace segment.1 := by
    funext segment
    exact isSpace_lowerRune segment.1
  have lowered : segments (toLower text) = (segments text).map fun segment : Rune × Bytes =>
      (lowerRune segment.1, encodeRune (lowerRune segment.1)) := by
    rw [segments_toLower, runes, List.map_map]
    rfl
  rw [trimSpace, lowered, List.dropWhile_map, spaces, List.rdropWhile, ← List.map_reverse,
    List.dropWhile_map, spaces, ← List.map_reverse, List.flatMap_map, toLower, runes,
    segments_trimSpace, List.flatMap_map, List.rdropWhile]

/-!
## Text compared without regard to case

`strings.EqualFold` compares rune by rune under simple case folding.  Two runes
fold together when they have one lower case, but for the runes listed here: some
lower-case letters share their capital with another letter, and the dotted
capital I folds with nothing.
-/

/-- The runes whose case folding is not their lower case. -/
def foldExceptions : List (Rune × Rune) :=
  [(0xB5, 0x3BC), (0x130, 0x130), (0x17F, 0x73), (0x345, 0x3B9), (0x3C2, 0x3C3),
    (0x3D0, 0x3B2), (0x3D1, 0x3B8), (0x3D5, 0x3C6), (0x3D6, 0x3C0), (0x3F0, 0x3BA),
    (0x3F1, 0x3C1), (0x3F5, 0x3B5), (0x1C80, 0x432), (0x1C81, 0x434), (0x1C82, 0x43E),
    (0x1C83, 0x441), (0x1C84, 0x442), (0x1C85, 0x442), (0x1C86, 0x44A), (0x1C87, 0x463),
    (0x1C88, 0xA64B), (0x1E9B, 0x1E61), (0x1FBE, 0x3B9)]

/-- One rune for each orbit of `unicode.SimpleFold`. -/
def foldRune (rune : Rune) : Rune :=
  (foldExceptions.lookup rune).getD (lowerRune rune)

def foldRunes (text : Bytes) : List Rune :=
  (runes text).map foldRune

def equalFold (first second : Bytes) : Bool :=
  foldRunes first == foldRunes second

end Trstctl.Go
