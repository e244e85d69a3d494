import Trstctl.Go.JsonText

/-!
# Reading JSON strings back

A JSON string determines the text it was written from when that text is valid.
The writer replaces every byte of invalid text by one escape, which no valid
text is written with.  A raw message is written in its compact form.
-/

namespace Trstctl.Go

/-- The byte that an escape of one letter stands for. -/
def letterMeaning (letter : UInt8) : UInt8 :=
  if letter = 0x62 then 0x08
  else if letter = 0x66 then 0x0C
  else if letter = 0x6E then 0x0A
  else if letter = 0x72 then 0x0D
  else if letter = 0x74 then 0x09
  else letter

/-- The bytes that an escape of four digits stands for, with `none` for a
replaced byte. -/
def unitMeaning (unit : Bytes) : List (Option UInt8) :=
  if unit = bytes "fffd" then [none]
  else if unit = bytes "2028" then [some 0xE2, some 0x80, some 0xA8]
  else if unit = bytes "2029" then [some 0xE2, some 0x80, some 0xA9]
  else ((hexDecode (unit.drop 2)).getD []).map some

/-- What follows a backslash: its meaning, and the number of bytes it takes. -/
def escapeMeaning (text : Bytes) : List (Option UInt8) × Nat :=
  if text.head? = some 0x75 then (unitMeaning ((text.drop 1).take 4), 5)
  else ((text.head?.map fun letter => some (letterMeaning letter)).toList, 1)

/-- The bytes that the inside of a string stands for, after `pending` bytes of
the current escape. -/
def unescapeFrom : Nat → Bytes → List (Option UInt8)
  | _, [] => []
  | pending + 1, _ :: rest => unescapeFrom pending rest
  | 0, byte :: rest =>
      if byte = 0x5C then (escapeMeaning rest).1 ++ unescapeFrom (escapeMeaning rest).2 rest
      else some byte :: unescapeFrom 0 rest

theorem unescapeFrom_append (text rest : Bytes) :
    unescapeFrom text.length (text ++ rest) = unescapeFrom 0 rest := by
  induction text with
  | nil => rfl
  | cons byte text ih => exact ih

theorem unescapeFrom_escape {code rest : Bytes} {meaning : List (Option UInt8)}
    (read : escapeMeaning (code ++ rest) = (meaning, code.length)) :
    unescapeFrom 0 (0x5C :: (code ++ rest)) = meaning ++ unescapeFrom 0 rest := by
  rw [unescapeFrom, if_pos rfl, read]
  simp only [unescapeFrom_append]

variable {text : Bytes}

theorem unescapeFrom_plain (rest : Bytes) (plain : ∀ byte ∈ text, byte ≠ 0x5C) :
    unescapeFrom 0 (text ++ rest) = text.map some ++ unescapeFrom 0 rest := by
  induction text with
  | nil => rfl
  | cons byte text ih =>
      obtain ⟨first, others⟩ := List.forall_mem_cons.mp plain
      rw [List.cons_append, unescapeFrom, if_neg first, ih others]
      rfl

/-- The meaning of the code of one rune, for the codes that are not plain text
of several bytes. -/
def codeMeaning : Bytes → Option (List (Option UInt8))
  | [byte] => if byte = 0x5C then none else some [some byte]
  | [slash, letter] =>
      if slash = 0x5C ∧ letter ≠ 0x75 then some [some (letterMeaning letter)] else none
  | [slash, mark, first, second, third, fourth] =>
      if slash = 0x5C ∧ mark = 0x75 then some (unitMeaning [first, second, third, fourth]) else none
  | _ => none

theorem unescapeFrom_of_codeMeaning {code : Bytes} {meaning : List (Option UInt8)} (rest : Bytes)
    (read : codeMeaning code = some meaning) :
    unescapeFrom 0 (code ++ rest) = meaning ++ unescapeFrom 0 rest := by
  unfold codeMeaning at read
  split at read
  · split at read
    · cases read
    · rename_i byte plain
      rw [← Option.some.inj read, List.singleton_append, unescapeFrom, if_neg plain]
      rfl
  · split at read
    · rename_i slash letter escape
      obtain ⟨rfl, other⟩ := escape
      refine @unescapeFrom_escape [letter] rest meaning ?_
      have notUnit : ([letter] ++ rest).head? ≠ some 0x75 :=
        fun same => other (Option.some.inj same)
      rw [escapeMeaning, if_neg notUnit, ← Option.some.inj read]
      rfl
    · cases read
  · split at read
    · rename_i slash mark first second third fourth escape
      obtain ⟨rfl, rfl⟩ := escape
      refine @unescapeFrom_escape [0x75, first, second, third, fourth] rest meaning ?_
      have isUnit : ([0x75, first, second, third, fourth] ++ rest).head? = some 0x75 := rfl
      rw [escapeMeaning, if_pos isUnit, ← Option.some.inj read]
      rfl
    · cases read
  · cases read

theorem codeMeaning_ascii {byte : UInt8} (ascii : byte.toNat < 0x80) :
    codeMeaning (jsonRune (byte.toNat, [byte])) = some [some byte] := by
  have all : ∀ value < 0x80, codeMeaning (jsonRune (value, [value.toUInt8])) =
      some [some value.toUInt8] := by
    decide +kernel
  have read := all byte.toNat ascii
  have same : byte.toNat.toUInt8 = byte := UInt8.ofNat_toNat
  rw [same] at read
  exact read

theorem exists_decodeRune_of_mem {pending : Nat} {segment : Rune × Bytes}
    (member : segment ∈ segmentsFrom pending text) :
    ∃ lead rest, segment =
      ((decodeRune (lead :: rest)).1, (lead :: rest).take (decodeRune (lead :: rest)).2) := by
  induction text generalizing pending with
  | nil => cases pending <;> simp [segmentsFrom] at member
  | cons lead rest ih =>
      cases pending with
      | succ pending => exact ih member
      | zero =>
          rcases List.mem_cons.mp member with rfl | later
          · exact ⟨lead, rest, rfl⟩
          · exact ih later

theorem take_of_decodeRune_separator {lead : UInt8} {rest : Bytes} {offset : Nat}
    (small : offset < 2) (separator : (decodeRune (lead :: rest)).1 = 0x2028 + offset) :
    (lead :: rest).take (decodeRune (lead :: rest)).2 = [0xE2, 0x80, (0xA8 + offset).toUInt8] := by
  have decoded := decodedRune_decodeRune lead rest
  generalize decodeRune (lead :: rest) = result at decoded separator
  cases decoded with
  | ascii below =>
      change lead.toNat = 0x2028 + offset at separator
      omega
  | invalid large =>
      change 0xFFFD = 0x2028 + offset at separator
      omega
  | two least most second =>
      change lead.toNat % 0x20 * 0x40 + _ = 0x2028 + offset at separator
      omega
  | @three second third tail least most lowest isSecond isThird =>
      change lead.toNat % 0x10 * 0x1000 + _ + _ = 0x2028 + offset at separator
      unfold IsTail at isSecond isThird
      have leads : lead = 0xE2 := UInt8.toNat_inj.mp (show lead.toNat = 0xE2 by omega)
      have seconds : second = 0x80 := UInt8.toNat_inj.mp (show second.toNat = 0x80 by omega)
      have thirds : third = (0xA8 + offset).toUInt8 := by
        apply UInt8.toNat_inj.mp
        rw [Nat.toUInt8, UInt8.toNat_ofNat']
        omega
      rw [leads, seconds, thirds]
      rfl
  | four least most lowest second third fourth =>
      change lead.toNat % 0x08 * 0x40000 + _ + _ + _ = 0x2028 + offset at separator
      unfold IsTail at second
      omega

/-- What a segment of a text stands for in a JSON string. -/
def meaning (segment : Rune × Bytes) : List (Option UInt8) :=
  if segment.1 == runeError && segment.2.length == 1 then [none] else segment.2.map some

theorem jsonRune_of_high {rune : Nat} (high : 0x80 ≤ rune) (encoding : Bytes) :
    jsonRune (rune, encoding) =
      if rune = runeError && encoding.length == 1 then bytes "\\ufffd"
      else if rune = 0x2028 then bytes "\\u2028"
      else if rune = 0x2029 then bytes "\\u2029"
      else encoding := by
  have notAscii : ∀ code : Nat, code < 0x80 → rune ≠ code := by
    intro code small same
    omega
  have notHTML :
      ¬((decide (rune < 0x20) || rune == 0x3C || rune == 0x3E || rune == 0x26) = true) := by
    simp only [Bool.or_eq_true, decide_eq_true_eq, beq_iff_eq]
    omega
  unfold jsonRune
  simp only
  rw [if_neg (notAscii 0x22 (by decide)), if_neg (notAscii 0x5C (by decide)),
    if_neg (notAscii 0x08 (by decide)), if_neg (notAscii 0x0C (by decide)),
    if_neg (notAscii 0x0A (by decide)), if_neg (notAscii 0x0D (by decide)),
    if_neg (notAscii 0x09 (by decide)), if_neg notHTML]

theorem unescapeFrom_jsonRune {segment : Rune × Bytes} (member : segment ∈ segments text)
    (rest : Bytes) :
    unescapeFrom 0 (jsonRune segment ++ rest) = meaning segment ++ unescapeFrom 0 rest := by
  rcases segment_cases member with ⟨byte, ascii, rfl⟩ | ⟨high, plain⟩
  · have valid : (byte.toNat == runeError && [byte].length == 1) = false := by
      have other : byte.toNat ≠ runeError := Nat.ne_of_lt (Nat.lt_trans ascii (by decide))
      rw [beq_false_of_ne other, Bool.false_and]
    rw [unescapeFrom_of_codeMeaning rest (codeMeaning_ascii ascii), meaning, valid]
    rfl
  · obtain ⟨lead, tail, segment_eq⟩ := exists_decodeRune_of_mem member
    obtain ⟨rune, encoding⟩ := segment
    obtain ⟨rune_eq, encoding_eq⟩ := Prod.mk.inj segment_eq
    rw [jsonRune_of_high high]
    split
    · rename_i invalid
      rw [unescapeFrom_of_codeMeaning rest (show codeMeaning (bytes "\\ufffd") = some [none] by
        decide +kernel), meaning, if_pos (by simpa using invalid)]
    · rename_i valid
      have kept : meaning (rune, encoding) = encoding.map some := if_neg (by simpa using valid)
      rw [kept]
      split
      · rename_i line
        have taken := take_of_decodeRune_separator Nat.zero_lt_two (rune_eq.symm.trans line)
        rw [encoding_eq, taken]
        exact unescapeFrom_of_codeMeaning rest (by decide +kernel)
      · split
        · rename_i paragraph
          have taken := take_of_decodeRune_separator Nat.one_lt_two (rune_eq.symm.trans paragraph)
          rw [encoding_eq, taken]
          exact unescapeFrom_of_codeMeaning rest (by decide +kernel)
        · refine unescapeFrom_plain rest fun byte byteMember => ?_
          have bound := plain byte byteMember
          rintro rfl
          exact absurd bound (by decide)

theorem unescapeFrom_flatMap {items : List (Rune × Bytes)}
    (each : ∀ item ∈ items, item ∈ segments text) :
    unescapeFrom 0 (items.flatMap jsonRune) = items.flatMap meaning := by
  induction items with
  | nil => rfl
  | cons first rest ih =>
      obtain ⟨head, others⟩ := List.forall_mem_cons.mp each
      rw [List.flatMap_cons, List.flatMap_cons, unescapeFrom_jsonRune head,
        ih others]

theorem flatMap_meaning_of_utf8Valid (valid : utf8Valid text = true) :
    (segments text).flatMap meaning = text.map some := by
  have each := List.all_eq_true.mp valid
  calc (segments text).flatMap meaning =
      (segments text).flatMap fun segment => segment.2.map some := by
        refine List.flatMap_congr fun segment member => if_neg ?_
        have whole := each segment member
        rw [Bool.not_eq_true'] at whole
        rw [whole]
        exact Bool.false_ne_true
    _ = ((segments text).flatMap Prod.snd).map some := List.map_flatMap.symm
    _ = text.map some := congrArg (List.map some) (flatMap_segmentsFrom 0 text)

theorem none_mem_flatMap_meaning (invalid : utf8Valid text = false) :
    none ∈ (segments text).flatMap meaning := by
  obtain ⟨segment, member, replaced⟩ := List.all_eq_false.mp invalid
  rw [Bool.not_eq_true', Bool.not_eq_false] at replaced
  refine List.mem_flatMap.mpr ⟨segment, member, ?_⟩
  rw [meaning, if_pos replaced]
  exact List.mem_singleton_self none

theorem eq_of_jsonString_eq {left right : Bytes} (valid : utf8Valid left = true)
    (equal : jsonString left = jsonString right) :
    left = right := by
  have bodies := List.append_cancel_left (List.append_cancel_right equal)
  have meanings := congrArg (unescapeFrom 0) bodies
  rw [unescapeFrom_flatMap fun item member => member,
    unescapeFrom_flatMap fun item member => member, flatMap_meaning_of_utf8Valid valid] at meanings
  have otherValid : utf8Valid right = true := by
    by_contra invalid
    have replaced := none_mem_flatMap_meaning (Bool.eq_false_iff.mpr invalid)
    rw [← meanings] at replaced
    obtain ⟨byte, -, none_eq⟩ := List.mem_map.mp replaced
    cases none_eq
  rw [flatMap_meaning_of_utf8Valid otherValid] at meanings
  exact List.map_injective_iff.mpr (fun _ _ same => Option.some.inj same) meanings

/-- Where the compaction of a JSON text stands. -/
inductive JsonPlace where
  | outside
  | inside
  | escaped
deriving DecidableEq

/-- The place after one more byte. -/
def JsonPlace.next : JsonPlace → UInt8 → JsonPlace
  | .outside, byte => if byte = 0x22 then .inside else .outside
  | .inside, byte => if byte = 0x22 then .outside else if byte = 0x5C then .escaped else .inside
  | .escaped, _ => .inside

/-- The compaction of a JSON text after `pending` bytes of a separator. -/
def compactJSONFrom : JsonPlace → Nat → Bytes → Bytes
  | _, _, [] => []
  | place, pending + 1, _ :: rest => compactJSONFrom place pending rest
  | place, 0, byte :: rest =>
      if byte = 0x3C ∨ byte = 0x3E ∨ byte = 0x26 then
        bytes "\\u00" ++ hexEncode [byte] ++ compactJSONFrom (place.next byte) 0 rest
      else if byte = 0xE2 ∧ rest.take 2 = [0x80, 0xA8] then
        bytes "\\u2028" ++ compactJSONFrom place 2 rest
      else if byte = 0xE2 ∧ rest.take 2 = [0x80, 0xA9] then
        bytes "\\u2029" ++ compactJSONFrom place 2 rest
      else if place = .outside ∧ (bytes " \t\r\n").contains byte then compactJSONFrom place 0 rest
      else byte :: compactJSONFrom (place.next byte) 0 rest

/-- What `json.Marshal` writes of a valid `json.RawMessage`: the text without
white space between its tokens, with the escapes of HTML. -/
def compactJSON (text : Bytes) : Bytes :=
  compactJSONFrom .outside 0 text

end Trstctl.Go
