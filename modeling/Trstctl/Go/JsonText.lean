import Trstctl.Go.Json

/-!
# Reading JSON texts

A value inside a JSON text ends at the first comma or closing bracket outside
of strings and of nested brackets.  Texts that are put together from values can
therefore be taken apart again in only one way.
-/

namespace Trstctl.Go

/-- Where the reading of a text stands: how many brackets are open, whether it
is inside a string, and there behind a backslash. -/
structure Cursor where
  depth : Nat
  quoted : Bool
  escaped : Bool

namespace Cursor

/-- Outside of strings. -/
def outside (depth : Nat) : Cursor :=
  ⟨depth, false, false⟩

/-- Inside a string. -/
def inside (depth : Nat) : Cursor :=
  ⟨depth, true, false⟩

/-- One byte further. -/
def advance (cursor : Cursor) (byte : UInt8) : Cursor :=
  if cursor.escaped then { cursor with escaped := false }
  else if cursor.quoted then
    if byte = 0x5C then { cursor with escaped := true }
    else if byte = 0x22 then { cursor with quoted := false }
    else cursor
  else if byte = 0x22 then { cursor with quoted := true }
  else if byte = 0x7B ∨ byte = 0x5B then { cursor with depth := cursor.depth + 1 }
  else if byte = 0x7D ∨ byte = 0x5D then { cursor with depth := cursor.depth - 1 }
  else cursor

/-- The byte ends the value that is read. -/
def ends (cursor : Cursor) (byte : UInt8) : Bool :=
  !cursor.quoted && cursor.depth == 0 && (byte == 0x2C || byte == 0x7D || byte == 0x5D)

end Cursor

/-- The rest of the value that is read, and what follows it. -/
def splitValue : Cursor → Bytes → Bytes × Bytes
  | _, [] => ([], [])
  | cursor, byte :: rest =>
      if cursor.ends byte then ([], byte :: rest)
      else
        let parts := splitValue (cursor.advance byte) rest
        (byte :: parts.1, parts.2)

/-- Reading passes a text from one cursor to another without ending. -/
def Passes (source target : Cursor) (text : Bytes) : Prop :=
  ∀ rest, splitValue source (text ++ rest) =
    (text ++ (splitValue target rest).1, (splitValue target rest).2)

/-- A text that stands for a value at every depth. -/
def IsValue (text : Bytes) : Prop :=
  ∀ depth, Passes (.outside depth) (.outside depth) text

theorem passes_nil (cursor : Cursor) : Passes cursor cursor [] :=
  fun _ => rfl

theorem Passes.append {source middle target : Cursor} {first second : Bytes}
    (passesFirst : Passes source middle first) (passesSecond : Passes middle target second) :
    Passes source target (first ++ second) := by
  intro rest
  rw [List.append_assoc, passesFirst, passesSecond, List.append_assoc]

variable {cursor : Cursor} {byte : UInt8}

theorem passes_byte (goesOn : cursor.ends byte = false) :
    Passes cursor (cursor.advance byte) [byte] := by
  intro rest
  rw [List.singleton_append, splitValue, if_neg (by rw [goesOn]; exact Bool.false_ne_true)]
  rfl

variable {text : Bytes}

theorem Passes.cons {target : Cursor} (goesOn : cursor.ends byte = false)
    (passes : Passes (cursor.advance byte) target text) :
    Passes cursor target (byte :: text) :=
  (passes_byte goesOn).append passes

theorem eq_of_append_eq {first second firstRest secondRest : Bytes} (firstValue : IsValue first)
    (secondValue : IsValue second)
    (firstEnds : ∃ byte rest, firstRest = byte :: rest ∧ (Cursor.outside 0).ends byte = true)
    (secondEnds : ∃ byte rest, secondRest = byte :: rest ∧ (Cursor.outside 0).ends byte = true)
    (equal : first ++ firstRest = second ++ secondRest) :
    first = second ∧ firstRest = secondRest := by
  have stops : ∀ {rest : Bytes},
      (∃ byte more, rest = byte :: more ∧ (Cursor.outside 0).ends byte = true) →
        splitValue (.outside 0) rest = ([], rest) := by
    rintro rest ⟨byte, more, rfl, ends⟩
    rw [splitValue, if_pos ends]
  have split := congrArg (splitValue (.outside 0)) equal
  rw [firstValue 0, secondValue 0, stops firstEnds, stops secondEnds, List.append_nil,
    List.append_nil] at split
  exact Prod.mk.inj split

variable (depth : Nat)

theorem passes_plain (plain : ∀ byte ∈ text, byte ≠ 0x22 ∧ byte ≠ 0x5C) :
    Passes (.inside depth) (.inside depth) text := by
  induction text with
  | nil => exact passes_nil _
  | cons byte rest ih =>
      obtain ⟨⟨notQuote, notBackslash⟩, others⟩ := List.forall_mem_cons.mp plain
      have stays : (Cursor.inside depth).advance byte = .inside depth := by
        simp [Cursor.advance, Cursor.inside, notQuote, notBackslash]
      refine Passes.cons rfl ?_
      rw [stays]
      exact ih others

theorem passes_escape (byte : UInt8) (plain : ∀ other ∈ text, other ≠ 0x22 ∧ other ≠ 0x5C) :
    Passes (.inside depth) (.inside depth) (0x5C :: byte :: text) := by
  refine Passes.cons rfl (Passes.cons rfl ?_)
  have escaped : ((Cursor.inside depth).advance 0x5C).advance byte = .inside depth := rfl
  rw [escaped]
  exact passes_plain depth plain

theorem isValue_quoted (passes : ∀ depth, Passes (.inside depth) (.inside depth) text) :
    IsValue ([0x22] ++ text ++ [0x22]) := by
  intro depth
  have opens : (Cursor.outside depth).ends 0x22 = false := by
    simp [Cursor.ends, Cursor.outside]
  have opened : (Cursor.outside depth).advance 0x22 = .inside depth := rfl
  have closed : (Cursor.inside depth).advance 0x22 = .outside depth := rfl
  have first := passes_byte opens
  rw [opened] at first
  have last : Passes (.inside depth) ((Cursor.inside depth).advance 0x22) [0x22] :=
    passes_byte rfl
  rw [closed] at last
  exact (first.append (passes depth)).append last

/-- A byte that continues an encoding. -/
def IsTail (byte : UInt8) : Prop :=
  0x80 ≤ byte.toNat ∧ byte.toNat ≤ 0xBF

/-- What `decodeRune` makes of a text: an ASCII byte, an invalid byte or the
rune of a well-formed encoding. -/
inductive DecodedRune (lead : UInt8) : Bytes → Rune × Nat → Prop where
  | ascii {rest : Bytes} : lead.toNat < 0x80 → DecodedRune lead rest (lead.toNat, 1)
  | invalid {rest : Bytes} : 0x80 ≤ lead.toNat → DecodedRune lead rest (runeError, 1)
  | two {second : UInt8} {tail : Bytes} : 0xC2 ≤ lead.toNat → lead.toNat ≤ 0xDF → IsTail second →
      DecodedRune lead (second :: tail) (lead.toNat % 0x20 * 0x40 + second.toNat % 0x40, 2)
  | three {second third : UInt8} {tail : Bytes} : 0xE0 ≤ lead.toNat → lead.toNat ≤ 0xEF →
      (lead.toNat = 0xE0 → 0xA0 ≤ second.toNat) → IsTail second → IsTail third →
      DecodedRune lead (second :: third :: tail)
        (lead.toNat % 0x10 * 0x1000 + second.toNat % 0x40 * 0x40 + third.toNat % 0x40, 3)
  | four {second third fourth : UInt8} {tail : Bytes} : 0xF0 ≤ lead.toNat → lead.toNat ≤ 0xF4 →
      (lead.toNat = 0xF0 → 0x90 ≤ second.toNat) → IsTail second → IsTail third → IsTail fourth →
      DecodedRune lead (second :: third :: fourth :: tail)
        (lead.toNat % 0x08 * 0x40000 + second.toNat % 0x40 * 0x1000 + third.toNat % 0x40 * 0x40 +
          fourth.toNat % 0x40, 4)

theorem decodedRune_decodeRune (lead : UInt8) (rest : Bytes) :
    DecodedRune lead rest (decodeRune (lead :: rest)) := by
  by_cases high : lead.toNat < 0x80
  · have decoded : decodeRune (lead :: rest) = (lead.toNat, 1) := if_pos high
    rw [decoded]
    exact .ascii high
  have invalid : DecodedRune lead rest (runeError, 1) := .invalid (Nat.not_lt.mp high)
  cases leads : leadingByte lead.toNat with
  | none => simpa [decodeRune, high, leads] using invalid
  | some bounds =>
      obtain ⟨low, top, width⟩ := bounds
      obtain ⟨⟨lowBound, topBound⟩, ⟨rfl, range⟩ | ⟨rfl, range⟩ | ⟨rfl, range⟩⟩ :=
        leadingByte_ranges leads
      · rcases rest with _ | ⟨second, tail⟩
        · simpa [decodeRune, high, leads] using invalid
        · by_cases valid : continues low top second = true
          · have bounds := valid
            simp only [continues, Bool.and_eq_true, decide_eq_true_eq] at bounds
            have decoded : decodeRune (lead :: second :: tail) =
                (lead.toNat % 0x20 * 0x40 + second.toNat % 0x40, 2) := by
              simp [decodeRune, high, leads, valid]
            rw [decoded]
            exact .two range.1 range.2 ⟨by omega, by omega⟩
          · simpa [decodeRune, high, leads, valid] using invalid
      · rcases rest with _ | ⟨second, _ | ⟨third, tail⟩⟩
        · simpa [decodeRune, high, leads] using invalid
        · simpa [decodeRune, high, leads] using invalid
        · by_cases valid : (continues low top second && continues 0x80 0xBF third) = true
          · have bounds := valid
            simp only [continues, Bool.and_eq_true, decide_eq_true_eq] at bounds
            have decoded : decodeRune (lead :: second :: third :: tail) =
                (lead.toNat % 0x10 * 0x1000 +
                  second.toNat % 0x40 * 0x40 + third.toNat % 0x40, 3) := by
              simp [decodeRune, high, leads, valid]
            rw [decoded]
            exact .three range.1 range.2.1 (fun first => by omega) ⟨by omega, by omega⟩ bounds.2
          · simpa [decodeRune, high, leads, valid] using invalid
      · rcases rest with _ | ⟨second, _ | ⟨third, _ | ⟨fourth, tail⟩⟩⟩
        · simpa [decodeRune, high, leads] using invalid
        · simpa [decodeRune, high, leads] using invalid
        · simpa [decodeRune, high, leads] using invalid
        · by_cases valid : (continues low top second && continues 0x80 0xBF third &&
              continues 0x80 0xBF fourth) = true
          · have bounds := valid
            simp only [continues, Bool.and_eq_true, decide_eq_true_eq] at bounds
            have decoded : decodeRune (lead :: second :: third :: fourth :: tail) =
                (lead.toNat % 0x08 * 0x40000 + second.toNat % 0x40 * 0x1000 +
                  third.toNat % 0x40 * 0x40 +
                  fourth.toNat % 0x40, 4) := by
              simp [decodeRune, high, leads, valid]
            rw [decoded]
            exact .four range.1 range.2.1 (fun first => by omega) ⟨by omega, by omega⟩ bounds.1.2
              bounds.2
          · simpa [decodeRune, high, leads, valid] using invalid

/-- A rune that does not start with an ASCII byte is not ASCII, and none of its
bytes is. -/
theorem decodeRune_of_high {lead : UInt8} (rest : Bytes) (high : ¬lead.toNat < 0x80) :
    0x80 ≤ (decodeRune (lead :: rest)).1 ∧
      ∀ byte ∈ (lead :: rest).take (decodeRune (lead :: rest)).2, 0x80 ≤ byte.toNat := by
  have decoded := decodedRune_decodeRune lead rest
  generalize decodeRune (lead :: rest) = result at decoded
  have none : ∀ byte ∈ ([] : Bytes), 0x80 ≤ byte.toNat :=
    fun byte member => absurd member List.not_mem_nil
  cases decoded with
  | ascii small => exact absurd small high
  | invalid large => exact ⟨by decide, List.forall_mem_cons.mpr ⟨large, none⟩⟩
  | two least most second =>
      unfold IsTail at second
      refine ⟨?_, List.forall_mem_cons.mpr ⟨by omega, List.forall_mem_cons.mpr ⟨second.1, none⟩⟩⟩
      change 0x80 ≤ lead.toNat % 0x20 * 0x40 + _
      omega
  | three least most lowest second third =>
      unfold IsTail at second third
      refine ⟨?_, List.forall_mem_cons.mpr ⟨by omega, List.forall_mem_cons.mpr ⟨second.1,
        List.forall_mem_cons.mpr ⟨third.1, none⟩⟩⟩⟩
      change 0x80 ≤ lead.toNat % 0x10 * 0x1000 + _ + _
      omega
  | four least most lowest second third fourth =>
      unfold IsTail at second third fourth
      refine ⟨?_, List.forall_mem_cons.mpr ⟨by omega, List.forall_mem_cons.mpr ⟨second.1,
        List.forall_mem_cons.mpr ⟨third.1, List.forall_mem_cons.mpr ⟨fourth.1, none⟩⟩⟩⟩⟩
      change 0x80 ≤ lead.toNat % 0x08 * 0x40000 + _ + _ + _
      omega

variable {segment : Rune × Bytes}

theorem segment_cases {pending : Nat} (member : segment ∈ segmentsFrom pending text) :
    (∃ byte : UInt8, byte.toNat < 0x80 ∧ segment = (byte.toNat, [byte])) ∨
      (0x80 ≤ segment.1 ∧ ∀ byte ∈ segment.2, 0x80 ≤ byte.toNat) := by
  induction text generalizing pending with
  | nil => cases pending <;> simp [segmentsFrom] at member
  | cons lead rest ih =>
      cases pending with
      | succ pending => exact ih member
      | zero =>
          change segment ∈ ((decodeRune (lead :: rest)).1,
            (lead :: rest).take (decodeRune (lead :: rest)).2) :: _ at member
          rcases List.mem_cons.mp member with first | later
          · rw [first]
            by_cases ascii : lead.toNat < 0x80
            · refine Or.inl ⟨lead, ascii, ?_⟩
              have decoded : decodeRune (lead :: rest) = (lead.toNat, 1) := if_pos ascii
              rw [decoded]
              rfl
            · exact Or.inr (decodeRune_of_high rest ascii)
          · exact ih later

theorem plain_of_segment {rune : Rune} {encoding : Bytes}
    (member : (rune, encoding) ∈ segments text) (quote : rune ≠ 0x22) (backslash : rune ≠ 0x5C) :
    ∀ byte ∈ encoding, byte ≠ 0x22 ∧ byte ≠ 0x5C := by
  intro byte byteMember
  rcases segment_cases member with ⟨ascii, -, segment_eq⟩ | ⟨-, high⟩
  · obtain ⟨rfl, rfl⟩ := Prod.mk.inj segment_eq
    rw [List.mem_singleton.mp byteMember]
    constructor
    · rintro rfl
      exact quote rfl
    · rintro rfl
      exact backslash rfl
  · have bound := high byte byteMember
    constructor
    · rintro rfl
      exact absurd bound (by decide)
    · rintro rfl
      exact absurd bound (by decide)

theorem passes_letter (byte : UInt8) (escape : text = [0x5C, byte]) :
    Passes (.inside depth) (.inside depth) text := by
  rw [escape]
  exact passes_escape depth byte fun other member => absurd member List.not_mem_nil

theorem hexDigit_plain (value : Nat) (small : value < 16) :
    hexDigit value ≠ 0x22 ∧ hexDigit value ≠ 0x5C := by
  have all : ∀ value < 16, hexDigit value ≠ 0x22 ∧ hexDigit value ≠ 0x5C := by decide
  exact all value small

/-- One rune of a JSON string. -/
theorem passes_jsonRune (member : segment ∈ segments text) :
    Passes (.inside depth) (.inside depth) (jsonRune segment) := by
  obtain ⟨rune, encoding⟩ := segment
  unfold jsonRune
  simp only
  by_cases quote : rune = 0x22
  · rw [if_pos quote]
    exact passes_letter depth 0x22 (by decide)
  rw [if_neg quote]
  by_cases backslash : rune = 0x5C
  · rw [if_pos backslash]
    exact passes_letter depth 0x5C (by decide)
  rw [if_neg backslash]
  split
  · exact passes_letter depth 0x62 (by decide)
  split
  · exact passes_letter depth 0x66 (by decide)
  split
  · exact passes_letter depth 0x6E (by decide)
  split
  · exact passes_letter depth 0x72 (by decide)
  split
  · exact passes_letter depth 0x74 (by decide)
  split
  · have escape : bytes "\\u00" ++ hexEncode [rune.toUInt8] =
        0x5C :: 0x75 :: ([0x30, 0x30] ++ hexEncode [rune.toUInt8]) := by
      rw [show bytes "\\u00" = [0x5C, 0x75, 0x30, 0x30] from by decide]
      rfl
    rw [escape]
    refine passes_escape depth 0x75 fun other member => ?_
    rcases List.mem_append.mp member with zeros | digits
    · rcases List.mem_pair.mp zeros with rfl | rfl <;> decide
    · obtain ⟨source, -, digits⟩ := List.mem_flatMap.mp digits
      have bound := source.toNat_lt
      rcases List.mem_pair.mp digits with rfl | rfl
      · exact hexDigit_plain _ (by omega)
      · exact hexDigit_plain _ (by omega)
  split
  · rw [show bytes "\\ufffd" = 0x5C :: 0x75 :: [0x66, 0x66, 0x66, 0x64] from by decide]
    exact passes_escape depth 0x75 (by simp)
  split
  · rw [show bytes "\\u2028" = 0x5C :: 0x75 :: [0x32, 0x30, 0x32, 0x38] from by decide]
    exact passes_escape depth 0x75 (by simp)
  split
  · rw [show bytes "\\u2029" = 0x5C :: 0x75 :: [0x32, 0x30, 0x32, 0x39] from by decide]
    exact passes_escape depth 0x75 (by simp)
  exact passes_plain depth (plain_of_segment member quote backslash)

/-- One rune of a JSON string of a `json.Encoder` without the escapes of HTML. -/
def jsonRunePlain : Rune × Bytes → Bytes
  | (rune, encoding) =>
      if rune = 0x3C ∨ rune = 0x3E ∨ rune = 0x26 then encoding else jsonRune (rune, encoding)

/-- The JSON string of a `json.Encoder` after `SetEscapeHTML(false)`. -/
def jsonStringPlain (text : Bytes) : Bytes :=
  [0x22] ++ (segments text).flatMap jsonRunePlain ++ [0x22]

theorem passes_jsonRunePlain (member : segment ∈ segments text) :
    Passes (.inside depth) (.inside depth) (jsonRunePlain segment) := by
  obtain ⟨rune, encoding⟩ := segment
  simp only [jsonRunePlain]
  split
  · rename_i html
    refine passes_plain depth (plain_of_segment member ?_ ?_)
    · rintro rfl
      exact absurd html (by decide)
    · rintro rfl
      exact absurd html (by decide)
  · exact passes_jsonRune depth member

theorem passes_flatMap {items : List (Rune × Bytes)} {write : Rune × Bytes → Bytes}
    (each : ∀ item ∈ items, Passes cursor cursor (write item)) :
    Passes cursor cursor (items.flatMap write) := by
  induction items with
  | nil => exact passes_nil _
  | cons first rest ih =>
      obtain ⟨head, tail⟩ := List.forall_mem_cons.mp each
      rw [List.flatMap_cons]
      exact head.append (ih tail)

theorem isValue_jsonString (text : Bytes) : IsValue (jsonString text) :=
  isValue_quoted fun depth => passes_flatMap fun _ member => passes_jsonRune depth member

theorem isValue_jsonStringPlain (text : Bytes) : IsValue (jsonStringPlain text) :=
  isValue_quoted fun depth => passes_flatMap fun _ member => passes_jsonRunePlain depth member

/-- The bytes that structure a JSON text. -/
def structural : Bytes :=
  [0x22, 0x7B, 0x7D, 0x5B, 0x5D, 0x2C]

theorem isValue_scalar (scalar : ∀ byte ∈ text, byte ∉ structural) :
    IsValue text := by
  intro depth
  induction text with
  | nil => exact passes_nil _
  | cons byte rest ih =>
      obtain ⟨plain, others⟩ := List.forall_mem_cons.mp scalar
      simp only [structural, List.mem_cons, List.not_mem_nil, or_false, not_or] at plain
      obtain ⟨quote, opening, closing, openingArray, closingArray, comma⟩ := plain
      have stays : (Cursor.outside depth).advance byte = .outside depth := by
        simp [Cursor.advance, Cursor.outside, quote, opening, openingArray, closing, closingArray]
      refine Passes.cons ?_ ?_
      · simp [Cursor.ends, Cursor.outside, comma, closing, closingArray]
      · rw [stays]
        exact ih others

theorem IsValue.append {first second : Bytes} (firstValue : IsValue first)
    (secondValue : IsValue second) :
    IsValue (first ++ second) :=
  fun depth => (firstValue depth).append (secondValue depth)

theorem decimal_negSucc (value : Nat) :
    decimal (Int.negSucc value) = 0x2D :: decimal ((value + 1 : Nat) : Int) := by
  change bytes ("-" ++ Nat.repr (value + 1)) = 0x2D :: bytes (Nat.repr (value + 1))
  rw [bytes_eq_flatMap, bytes_eq_flatMap, String.toList_append, List.flatMap_append]
  rfl

theorem notMem_structural_of_digit (digit : 0x30 ≤ byte.toNat ∧ byte.toNat ≤ 0x39) :
    byte ∉ structural := by
  intro member
  simp only [structural, List.mem_cons, List.not_mem_nil, or_false] at member
  rcases member with rfl | rfl | rfl | rfl | rfl | rfl <;> exact absurd digit (by decide)

theorem isValue_decimal (value : Int) : IsValue (decimal value) := by
  cases value with
  | ofNat value =>
      exact isValue_scalar
        fun byte member => notMem_structural_of_digit (digit_of_mem_decimal member)
  | negSucc value =>
      rw [decimal_negSucc]
      refine isValue_scalar (List.forall_mem_cons.mpr ⟨by decide, ?_⟩)
      exact fun byte member => notMem_structural_of_digit (digit_of_mem_decimal member)

theorem isValue_jsonBool (value : Bool) : IsValue (jsonBool value) := by
  cases value with
  | true => exact isValue_scalar (by decide +kernel)
  | false => exact isValue_scalar (by decide +kernel)

variable {members : List Bytes}

theorem passes_members (values : ∀ member ∈ members, IsValue member) :
    Passes (.outside (depth + 1)) (.outside (depth + 1))
      (members.intersperse (bytes ",")).flatten := by
  induction members with
  | nil => exact passes_nil _
  | cons first rest ih =>
      obtain ⟨head, tail⟩ := List.forall_mem_cons.mp values
      cases rest with
      | nil => simpa using head (depth + 1)
      | cons second more =>
          have comma : Passes (.outside (depth + 1)) (.outside (depth + 1)) (bytes ",") := by
            rw [show bytes "," = [0x2C] from by decide]
            exact passes_byte (by simp [Cursor.ends, Cursor.outside])
          rw [List.intersperse_cons_cons, List.flatten_cons, List.flatten_cons]
          exact (head _).append (comma.append (ih tail))

theorem isValue_jsonObject (values : ∀ member ∈ members, IsValue member) :
    IsValue (jsonObject members) := by
  intro depth
  have opens : Passes (.outside depth) (.outside (depth + 1)) [0x7B] :=
    passes_byte (by simp [Cursor.ends, Cursor.outside])
  have closes : Passes (.outside (depth + 1)) (.outside depth) [0x7D] :=
    passes_byte (by simp [Cursor.ends, Cursor.outside])
  exact (opens.append (passes_members depth values)).append closes

theorem isValue_jsonArray (values : ∀ member ∈ members, IsValue member) :
    IsValue (jsonArray members) := by
  intro depth
  have opens : Passes (.outside depth) (.outside (depth + 1)) [0x5B] :=
    passes_byte (by simp [Cursor.ends, Cursor.outside])
  have closes : Passes (.outside (depth + 1)) (.outside depth) [0x5D] :=
    passes_byte (by simp [Cursor.ends, Cursor.outside])
  exact (opens.append (passes_members depth values)).append closes

theorem isValue_jsonPair (key : String) {value : Bytes} (isValue : IsValue value) :
    IsValue (jsonPair key value) := by
  have colon : IsValue (bytes ":") := isValue_scalar (by decide +kernel)
  exact ((isValue_jsonString _).append colon).append isValue

theorem jsonPair_injective {key : String} {value other : Bytes}
    (equal : jsonPair key value = jsonPair key other) :
    value = other :=
  List.append_cancel_left equal

/-- What follows the first member of an object or array. -/
def laterMembers (closing : UInt8) : List Bytes → Bytes
  | [] => [closing]
  | member :: rest => 0x2C :: (member ++ laterMembers closing rest)

theorem jsonJoin_cons (opening closing : UInt8) (member : Bytes) (rest : List Bytes) :
    jsonJoin [opening] [closing] (member :: rest) =
      opening :: (member ++ laterMembers closing rest) := by
  have members : ∀ (rest : List Bytes) (member : Bytes),
      ((member :: rest).intersperse (bytes ",")).flatten ++ [closing] =
        member ++ laterMembers closing rest := by
    intro rest
    induction rest with
    | nil => intro member; simp [laterMembers]
    | cons second more ih =>
        intro member
        rw [List.intersperse_cons_cons, List.flatten_cons, List.flatten_cons, List.append_assoc,
          List.append_assoc, ih second]
        rfl
  rw [jsonJoin, List.append_assoc, members]
  rfl

section Closing

variable {closing : UInt8}

theorem laterMembers_ends (closes : (Cursor.outside 0).ends closing = true) (members : List Bytes) :
    ∃ byte rest, laterMembers closing members = byte :: rest ∧
      (Cursor.outside 0).ends byte = true := by
  cases members with
  | nil => exact ⟨closing, [], rfl, closes⟩
  | cons member rest => exact ⟨0x2C, member ++ laterMembers closing rest, rfl, rfl⟩

theorem eq_of_laterMembers_eq (closes : (Cursor.outside 0).ends closing = true)
    (comma : closing ≠ 0x2C) {members others : List Bytes}
    (values : ∀ member ∈ members, IsValue member) (otherValues : ∀ member ∈ others, IsValue member)
    (equal : laterMembers closing members = laterMembers closing others) :
    members = others := by
  induction members generalizing others with
  | nil =>
      cases others with
      | nil => rfl
      | cons other more => exact absurd (List.cons.inj equal).1 comma
  | cons member rest ih =>
      cases others with
      | nil => exact absurd (List.cons.inj equal).1.symm comma
      | cons other more =>
          obtain ⟨value, restValues⟩ := List.forall_mem_cons.mp values
          obtain ⟨otherValue, moreValues⟩ := List.forall_mem_cons.mp otherValues
          obtain ⟨same, tails⟩ := eq_of_append_eq value otherValue (laterMembers_ends closes rest)
            (laterMembers_ends closes more) (List.cons.inj equal).2
          rw [same, ih restValues moreValues tails]

theorem eq_of_jsonJoin_eq (closes : (Cursor.outside 0).ends closing = true) (comma : closing ≠ 0x2C)
    {opening : UInt8} {member other : Bytes} {rest more : List Bytes}
    (values : ∀ value ∈ member :: rest, IsValue value)
    (otherValues : ∀ value ∈ other :: more, IsValue value)
    (equal : jsonJoin [opening] [closing] (member :: rest) =
      jsonJoin [opening] [closing] (other :: more)) :
    member :: rest = other :: more := by
  rw [jsonJoin_cons, jsonJoin_cons] at equal
  exact eq_of_laterMembers_eq closes comma values otherValues
    (congrArg (0x2C :: ·) (List.cons.inj equal).2)

theorem eq_of_laterMembers_append_eq (closes : (Cursor.outside 0).ends closing = true)
    {front otherFront tail otherTail : List Bytes} (lengths : front.length = otherFront.length)
    (values : ∀ member ∈ front, IsValue member)
    (otherValues : ∀ member ∈ otherFront, IsValue member)
    (equal : laterMembers closing (front ++ tail) =
      laterMembers closing (otherFront ++ otherTail)) :
    front = otherFront ∧ laterMembers closing tail = laterMembers closing otherTail := by
  induction front generalizing otherFront with
  | nil =>
      obtain rfl := List.eq_nil_of_length_eq_zero lengths.symm
      exact ⟨rfl, equal⟩
  | cons member rest ih =>
      cases otherFront with
      | nil => cases lengths
      | cons other more =>
          obtain ⟨value, restValues⟩ := List.forall_mem_cons.mp values
          obtain ⟨otherValue, moreValues⟩ := List.forall_mem_cons.mp otherValues
          obtain ⟨same, texts⟩ := eq_of_append_eq value otherValue
            (laterMembers_ends closes _) (laterMembers_ends closes _) (List.cons.inj equal).2
          obtain ⟨rests, tails⟩ :=
            ih (Nat.succ.inj lengths) restValues moreValues texts
          exact ⟨by rw [same, rests], tails⟩

end Closing

theorem eq_of_jsonObject_eq {member other : Bytes} {rest more : List Bytes}
    (values : ∀ value ∈ member :: rest, IsValue value)
    (otherValues : ∀ value ∈ other :: more, IsValue value)
    (equal : jsonObject (member :: rest) = jsonObject (other :: more)) :
    member :: rest = other :: more :=
  eq_of_jsonJoin_eq rfl (by decide) values otherValues equal

theorem eq_of_jsonArray_eq {member other : Bytes} {rest more : List Bytes}
    (values : ∀ value ∈ member :: rest, IsValue value)
    (otherValues : ∀ value ∈ other :: more, IsValue value)
    (equal : jsonArray (member :: rest) = jsonArray (other :: more)) :
    member :: rest = other :: more :=
  eq_of_jsonJoin_eq rfl (by decide) values otherValues equal

end Trstctl.Go
