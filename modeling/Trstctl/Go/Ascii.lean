import Trstctl.Go.Strings

/-!
# Trimming, splitting and lowering ASCII text

Further functions of package `strings`, and what the ones that decode runes do
at an ASCII byte: it never belongs to the encoding of a rune before it.
-/

namespace Trstctl.Go

theorem hasPrefix_iff {text start : Bytes} : hasPrefix text start = true ↔ start <+: text := by
  rw [hasPrefix, List.isPrefixOf_iff_prefix]

theorem hasSuffix_iff {text ending : Bytes} : hasSuffix text ending = true ↔ ending <:+ text := by
  rw [hasSuffix, List.isSuffixOf_iff_suffix]

def trimPrefix (text start : Bytes) : Bytes :=
  if hasPrefix text start then text.drop start.length else text

def trimSuffix (text ending : Bytes) : Bytes :=
  if hasSuffix text ending then text.take (text.length - ending.length) else text

/-- The value of a run of decimal digits. -/
def parseDigits (digits : Bytes) : Option Nat :=
  if digits ≠ [] ∧ digits.all (fun byte => 0x30 ≤ byte && byte ≤ 0x39) then
    some (digits.foldl (fun value byte => 10 * value + (byte.toNat - 0x30)) 0)
  else none

/-- `strconv.Atoi` on a 64-bit machine. -/
def atoi (text : Bytes) : Option Int :=
  match text with
  | 0x2D :: digits => do
      let value ← parseDigits digits
      if value ≤ 2 ^ 63 then some (-(value : Int)) else none
  | 0x2B :: digits => do
      let value ← parseDigits digits
      if value < 2 ^ 63 then some (value : Int) else none
  | digits => do
      let value ← parseDigits digits
      if value < 2 ^ 63 then some (value : Int) else none

/-- The lower case of an ASCII byte. -/
def lowerByte (byte : UInt8) : UInt8 :=
  if 0x41 ≤ byte ∧ byte ≤ 0x5A then byte + 0x20 else byte

/-- ASCII text in lower case. -/
def foldCase (text : Bytes) : Bytes :=
  text.map lowerByte

instance (text : Bytes) : Decidable (IsAscii text) :=
  List.decidableBAll (fun byte : UInt8 => byte.toNat < 0x80) text

variable {byte : UInt8}

theorem continues_of_ascii {low high : Nat} (ascii : byte.toNat < 0x80) (bound : 0x80 ≤ low) :
    continues low high byte = false := by
  simp only [continues, Bool.and_eq_false_iff, decide_eq_false_iff_not]
  omega

theorem leadingByte_ranges {lead low high width : Nat}
    (leads : leadingByte lead = some (low, high, width)) :
    (0x80 ≤ low ∧ high ≤ 0xBF) ∧
      ((width = 2 ∧ 0xC2 ≤ lead ∧ lead ≤ 0xDF) ∨
        (width = 3 ∧ 0xE0 ≤ lead ∧ lead ≤ 0xEF ∧ (lead = 0xE0 → low = 0xA0) ∧
          (lead = 0xED → high = 0x9F)) ∨
        (width = 4 ∧ 0xF0 ≤ lead ∧ lead ≤ 0xF4 ∧ (lead = 0xF0 → low = 0x90) ∧
          (lead = 0xF4 → high = 0x8F))) := by
  simp only [leadingByte] at leads
  split at leads
  · cases leads
  all_goals (repeat' split at leads) <;> simp at leads <;> omega

theorem leadingByte_bounds {lead low high width : Nat}
    (leads : leadingByte lead = some (low, high, width)) :
    0x80 ≤ low ∧ (width = 2 ∨ width = 3 ∨ width = 4) := by
  obtain ⟨⟨lowBound, -⟩, widths⟩ := leadingByte_ranges leads
  exact ⟨lowBound, widths.imp And.left (Or.imp And.left And.left)⟩

theorem decodeRune_append (lead : UInt8) (rest : Bytes) (ascii : byte.toNat < 0x80) (more : Bytes) :
    decodeRune (lead :: (rest ++ byte :: more)) = decodeRune (lead :: rest) ∧
      (decodeRune (lead :: rest)).2 ≤ rest.length + 1 := by
  by_cases leadAscii : lead.toNat < 0x80
  · simp [decodeRune, leadAscii]
  · cases leads : leadingByte lead.toNat with
    | none => simp [decodeRune, leadAscii, leads]
    | some bounds =>
        obtain ⟨low, high, width⟩ := bounds
        obtain ⟨lowBound, widths⟩ := leadingByte_bounds leads
        have stopsLow : continues low high byte = false := continues_of_ascii ascii lowBound
        have stops : continues 0x80 0xBF byte = false := continues_of_ascii ascii (le_refl _)
        rcases widths with rfl | rfl | rfl
        · rcases rest with _ | ⟨second, tail⟩
          · simp [decodeRune, leadAscii, leads, stopsLow]
          · simp only [decodeRune, leadAscii, leads, List.cons_append, if_false]
            split <;> simp
        · rcases rest with _ | ⟨second, _ | ⟨third, tail⟩⟩
          · cases more <;> simp [decodeRune, leadAscii, leads, stopsLow]
          · simp [decodeRune, leadAscii, leads, stops]
          · simp only [decodeRune, leadAscii, leads, List.cons_append, if_false]
            split <;> simp
        · rcases rest with _ | ⟨second, _ | ⟨third, _ | ⟨fourth, tail⟩⟩⟩
          · rcases more with _ | ⟨next, _ | ⟨after, more⟩⟩ <;>
              simp [decodeRune, leadAscii, leads, stopsLow]
          · cases more <;> simp [decodeRune, leadAscii, leads, stops]
          · simp [decodeRune, leadAscii, leads, stops]
          · simp only [decodeRune, leadAscii, leads, List.cons_append, if_false]
            split <;> simp

theorem segmentsFrom_append (pending : Nat) (text : Bytes) (ascii : byte.toNat < 0x80)
    (more : Bytes) (enough : pending ≤ text.length) :
    segmentsFrom pending (text ++ byte :: more) =
      segmentsFrom pending text ++ segments (byte :: more) := by
  induction text generalizing pending with
  | nil =>
      have none : pending = 0 := by simpa using enough
      subst none
      simp [segments, segmentsFrom]
  | cons lead rest ih =>
      cases pending with
      | succ pending =>
          exact ih pending (by simpa using enough)
      | zero =>
          obtain ⟨decoded, width⟩ := decodeRune_append lead rest ascii more
          have tail := ih ((decodeRune (lead :: rest)).2 - 1) (by omega)
          have front : (lead :: (rest ++ byte :: more)).take (decodeRune (lead :: rest)).2 =
              (lead :: rest).take (decodeRune (lead :: rest)).2 := by
            rw [← List.cons_append, List.take_append_of_le_length]
            simpa using width
          simp only [List.cons_append, segmentsFrom, decoded, tail, front]

variable (text : Bytes)

theorem segments_append (ascii : byte.toNat < 0x80) (more : Bytes) :
    segments (text ++ byte :: more) = segments text ++ segments (byte :: more) :=
  segmentsFrom_append 0 text ascii more (Nat.zero_le _)

theorem encodeRune_lowerRune (byte : UInt8) (ascii : byte.toNat < 0x80) :
    encodeRune (lowerRune byte.toNat) = [lowerByte byte] := by
  have small : lowerRune byte.toNat < 0x80 := by
    simp only [lowerRune, if_pos ascii]
    unfold Rune
    split <;> omega
  simp only [encodeRune, if_pos small, List.cons.injEq, and_true]
  simp only [lowerRune, if_pos ascii, lowerByte, UInt8.le_iff_toNat_le]
  by_cases upper : 0x41 ≤ byte.toNat ∧ byte.toNat ≤ 0x5A
  · rw [if_pos upper, if_pos (by simpa using upper)]
    apply UInt8.toNat_inj.mp
    simp [UInt8.toNat_add]
  · rw [if_neg upper, if_neg (by simpa using upper)]
    simp

theorem toLower_of_ascii (ascii : IsAscii text) :
    toLower text = foldCase text := by
  rw [toLower, runes_of_ascii text ascii, foldCase, List.flatMap_map, List.map_eq_flatMap]
  exact List.flatMap_congr fun byte member => encodeRune_lowerRune byte (ascii byte member)

theorem toLower_append (ascii : byte.toNat < 0x80) (more : Bytes) :
    toLower (text ++ byte :: more) = toLower text ++ toLower (byte :: more) := by
  simp [toLower, runes, segments_append text ascii more]

/-- Text of printable characters other than the space. -/
def IsGraphic (text : Bytes) : Prop :=
  ∀ byte ∈ text, 33 ≤ byte.toNat ∧ byte.toNat ≤ 126

theorem IsGraphic.ascii {text : Bytes} (graphic : IsGraphic text) : IsAscii text :=
  fun byte member => by have := graphic byte member; omega

theorem isSpace_of_graphic (graphic : 33 ≤ byte.toNat ∧ byte.toNat ≤ 126) :
    isSpace byte.toNat = false := by
  simp only [isSpace, Bool.or_eq_false_iff, Bool.and_eq_false_iff, decide_eq_false_iff_not,
    beq_eq_false_iff_ne]
  unfold Rune
  omega

/-- `strings.TrimLeftFunc` with `unicode.IsSpace`. -/
def trimLeftSpace (text : Bytes) : Bytes :=
  ((segments text).dropWhile fun segment => isSpace segment.1).flatMap Prod.snd

theorem flatMap_bytes :
    (text.map fun byte => (byte.toNat, [byte])).flatMap Prod.snd = text := by
  induction text with
  | nil => rfl
  | cons lead tail ih => simpa using ih

theorem trimSpace_append {ending : Bytes} (graphic : IsGraphic ending) (proper : ending ≠ []) :
    trimSpace (text ++ ending) = trimLeftSpace text ++ ending := by
  obtain ⟨first, rest, rfl⟩ := List.exists_cons_of_ne_nil proper
  have firstAscii : first.toNat < 0x80 := graphic.ascii first List.mem_cons_self
  have firstGraphic := isSpace_of_graphic (graphic first List.mem_cons_self)
  have decoded : segments (text ++ first :: rest) =
      segments text ++ (first :: rest).map fun byte => (byte.toNat, [byte]) := by
    rw [segments_append text firstAscii, segments_of_ascii _ graphic.ascii]
  have left : (segments (text ++ first :: rest)).dropWhile (fun segment => isSpace segment.1) =
      ((segments text).dropWhile fun segment => isSpace segment.1) ++
        (first :: rest).map fun byte => (byte.toNat, [byte]) := by
    rw [decoded, List.dropWhile_append]
    split
    · rename_i spaces
      rw [List.isEmpty_iff.mp spaces]
      simp [firstGraphic]
    · rfl
  have mapped : (first :: rest).map (fun byte => (byte.toNat, [byte])) ≠ [] := by
    rw [List.map_cons]
    exact List.cons_ne_nil _ _
  simp only [trimSpace, left]
  rw [List.rdropWhile_eq_self_iff.mpr]
  · rw [List.flatMap_append, flatMap_bytes, trimLeftSpace]
  · intro nonempty
    rw [List.getLast_append_of_ne_nil _ mapped, List.getLast_map]
    simpa using isSpace_of_graphic (graphic _ (List.getLast_mem _))

theorem trimSpace_of_graphic (graphic : IsGraphic text) :
    trimSpace text = text := by
  by_cases empty : text = []
  · subst empty
    rfl
  · exact trimSpace_append [] graphic empty

/-!
## Slash-separated paths

The functions of package `path/filepath` on Unix that the modelled code uses.
All of them work on the text of a path alone.
-/

namespace Path

def isAbs (path : Bytes) : Bool :=
  path.head? == some 0x2F

/-- One element of a path while cleaning; the last element kept stands first.
Going up from the root stays there. -/
def cleanElement (rooted : Bool) (kept : List Bytes) (element : Bytes) : List Bytes :=
  if element = [] ∨ element = bytes "." then kept
  else if element = bytes ".." then
    match kept with
    | [] => if rooted then [] else [element]
    | last :: before => if last = bytes ".." then element :: kept else before
  else element :: kept

/-- `path.Clean`, which `filepath.Clean` is on Unix. -/
def clean (path : Bytes) : Bytes :=
  let elements := ((split 0x2F path).foldl (cleanElement (isAbs path)) []).reverse
  if isAbs path then 0x2F :: List.intercalate [0x2F] elements
  else if elements.isEmpty then bytes "."
  else List.intercalate [0x2F] elements

def dir (path : Bytes) : Bytes :=
  clean (path.rdropWhile (· != 0x2F))

def base (path : Bytes) : Bytes :=
  if path.isEmpty then bytes "."
  else
    let name := (path.rdropWhile (· == 0x2F)).rtakeWhile (· != 0x2F)
    if name.isEmpty then bytes "/" else name

/-- `filepath.Join` of a directory and a name. -/
def join (directory name : Bytes) : Bytes :=
  if directory.isEmpty then (if name.isEmpty then [] else clean name)
  else clean (directory ++ [0x2F] ++ name)

end Path
end Trstctl.Go
