import Mathlib.Data.List.Infix
import Trstctl.Go.JsonText

/-!
# Decoding parts of a text

A run of runes of a text is decoded in the same way without what surrounds it,
so trimming white space twice is trimming it once.
-/

namespace Trstctl.Go

theorem decodeRune_width (lead : UInt8) (rest : Bytes) :
    1 ≤ (decodeRune (lead :: rest)).2 ∧ (decodeRune (lead :: rest)).2 ≤ rest.length + 1 := by
  have decoded := decodedRune_decodeRune lead rest
  generalize decodeRune (lead :: rest) = result at decoded
  cases decoded with
  | ascii small => simp
  | invalid large => simp
  | two least most second => simp
  | three least most lowest second third => simp
  | four least most lowest second third fourth => simp

theorem decodeRune_width_cases (lead : UInt8) (rest : Bytes) :
    (decodeRune (lead :: rest)).2 = 1 ∨
      ∃ low high, leadingByte lead.toNat = some (low, high, (decodeRune (lead :: rest)).2) := by
  by_cases ascii : lead.toNat < 0x80
  · exact Or.inl (by simp [decodeRune, ascii])
  · cases leads : leadingByte lead.toNat with
    | none => exact Or.inl (by simp [decodeRune, ascii, leads])
    | some bounds =>
        obtain ⟨low, high, width⟩ := bounds
        rcases (leadingByte_bounds leads).2 with rfl | rfl | rfl
        · rcases rest with _ | ⟨second, tail⟩
          · exact Or.inl (by simp [decodeRune, ascii, leads])
          · cases valid : continues low high second with
            | false => exact Or.inl (by simp [decodeRune, ascii, leads, valid])
            | true => exact Or.inr ⟨low, high, by simp [decodeRune, ascii, leads, valid]⟩
        · rcases rest with _ | ⟨second, _ | ⟨third, tail⟩⟩
          · exact Or.inl (by simp [decodeRune, ascii, leads])
          · exact Or.inl (by simp [decodeRune, ascii, leads])
          · cases valid : continues low high second && continues 0x80 0xBF third with
            | false => exact Or.inl (by simp [decodeRune, ascii, leads, valid])
            | true => exact Or.inr ⟨low, high, by simp [decodeRune, ascii, leads, valid]⟩
        · rcases rest with _ | ⟨second, _ | ⟨third, _ | ⟨fourth, tail⟩⟩⟩
          · exact Or.inl (by simp [decodeRune, ascii, leads])
          · exact Or.inl (by simp [decodeRune, ascii, leads])
          · exact Or.inl (by simp [decodeRune, ascii, leads])
          · cases valid : continues low high second && continues 0x80 0xBF third &&
                continues 0x80 0xBF fourth with
            | false => exact Or.inl (by simp [decodeRune, ascii, leads, valid])
            | true => exact Or.inr ⟨low, high, by simp [decodeRune, ascii, leads, valid]⟩

variable {lead : UInt8}

theorem decodeRune_append_of_enough {kept : Bytes} {low high width : Nat}
    (leads : leadingByte lead.toNat = some (low, high, width)) (enough : width ≤ kept.length + 1)
    (more : Bytes) :
    decodeRune (lead :: (kept ++ more)) = decodeRune (lead :: kept) := by
  by_cases ascii : lead.toNat < 0x80
  · simp [decodeRune, ascii]
  · rcases (leadingByte_bounds leads).2 with rfl | rfl | rfl
    · rcases kept with _ | ⟨second, tail⟩
      · simp at enough
      · simp [decodeRune, ascii, leads]
    · rcases kept with _ | ⟨second, _ | ⟨third, tail⟩⟩
      · simp at enough
      · simp at enough
      · simp [decodeRune, ascii, leads]
    · rcases kept with _ | ⟨second, _ | ⟨third, _ | ⟨fourth, tail⟩⟩⟩
      · simp at enough
      · simp at enough
      · simp at enough
      · simp [decodeRune, ascii, leads]

theorem decodeRune_of_narrow {rest : Bytes} (narrow : (decodeRune (lead :: rest)).2 = 1) :
    decodeRune (lead :: rest) = if lead.toNat < 0x80 then (lead.toNat, 1) else (runeError, 1) := by
  have decoded := decodedRune_decodeRune lead rest
  generalize decodeRune (lead :: rest) = result at decoded narrow
  cases decoded with
  | ascii small => rw [if_pos small]
  | invalid large => rw [if_neg (Nat.not_lt.mpr large)]
  | two least most second => cases narrow
  | three least most lowest second third => cases narrow
  | four least most lowest second third fourth => cases narrow

theorem decodeRune_cut {kept : Bytes} (cut : Bytes)
    (enough : (decodeRune (lead :: (kept ++ cut))).2 ≤ kept.length + 1) :
    decodeRune (lead :: kept) = decodeRune (lead :: (kept ++ cut)) := by
  rcases decodeRune_width_cases lead (kept ++ cut) with narrow | ⟨low, high, leads⟩
  · rcases decodeRune_width_cases lead kept with keptNarrow | ⟨low, high, leads⟩
    · rw [decodeRune_of_narrow narrow, decodeRune_of_narrow keptNarrow]
    · exact (decodeRune_append_of_enough leads (decodeRune_width lead kept).2 cut).symm
  · exact (decodeRune_append_of_enough leads enough cut).symm

theorem segmentsFrom_eq_segments (pending : Nat) (text : Bytes) :
    segmentsFrom pending text = segments (text.drop pending) := by
  induction text generalizing pending with
  | nil =>
      rw [List.drop_nil]
      cases pending with
      | zero => rfl
      | succ pending => rfl
  | cons lead rest ih =>
      cases pending with
      | zero => rfl
      | succ pending => exact ih pending

theorem segments_cons (lead : UInt8) (rest : Bytes) :
    segments (lead :: rest) =
      ((decodeRune (lead :: rest)).1, (lead :: rest).take (decodeRune (lead :: rest)).2) ::
        segments ((lead :: rest).drop (decodeRune (lead :: rest)).2) := by
  obtain ⟨width, width_eq⟩ := Nat.exists_eq_add_of_le' (decodeRune_width lead rest).1
  have unfolded : segments (lead :: rest) =
      ((decodeRune (lead :: rest)).1, (lead :: rest).take (decodeRune (lead :: rest)).2) ::
        segmentsFrom ((decodeRune (lead :: rest)).2 - 1) rest := rfl
  rw [unfolded, segmentsFrom_eq_segments, width_eq, Nat.add_sub_cancel, List.drop_succ_cons]

theorem flatMap_segments (text : Bytes) : (segments text).flatMap Prod.snd = text := by
  induction length_eq : text.length using Nat.strong_induction_on generalizing text with
  | _ length ih =>
      cases text with
      | nil => rfl
      | cons lead rest =>
          have width := decodeRune_width lead rest
          have shorter : ((lead :: rest).drop (decodeRune (lead :: rest)).2).length < length := by
            rw [← length_eq, List.length_drop, List.length_cons]
            omega
          rw [segments_cons, List.flatMap_cons, ih _ shorter _ rfl,
            List.take_append_drop]

variable {text : Bytes}

theorem exists_segments_of_suffix {before after : List (Rune × Bytes)}
    (segments_eq : segments text = before ++ after) :
    ∃ rest, segments rest = after := by
  induction before generalizing text with
  | nil => exact ⟨text, segments_eq⟩
  | cons first before ih =>
      cases text with
      | nil => cases segments_eq
      | cons lead rest =>
          rw [segments_cons, List.cons_append] at segments_eq
          exact ih (List.cons.inj segments_eq).2

/-- The first runes of a text are the runes of their encodings. -/
theorem segments_flatMap_of_append {before after : List (Rune × Bytes)}
    (segments_eq : segments text = before ++ after) :
    segments (before.flatMap Prod.snd) = before := by
  induction before generalizing text with
  | nil => rfl
  | cons first before ih =>
      cases text with
      | nil => cases segments_eq
      | cons lead rest =>
          have width := decodeRune_width lead rest
          obtain ⟨more, more_eq⟩ := Nat.exists_eq_add_of_le' width.1
          rw [segments_cons, List.cons_append] at segments_eq
          obtain ⟨first_eq, after_eq⟩ := List.cons.inj segments_eq
          -- what is cut off lies behind the first rune
          have cut := congrArg (List.flatMap Prod.snd) after_eq
          rw [flatMap_segments, List.flatMap_append] at cut
          have kept : (lead :: rest).take (more + 1) ++ before.flatMap Prod.snd =
              lead :: (rest.take more ++ before.flatMap Prod.snd) := rfl
          have whole : lead :: ((rest.take more ++ before.flatMap Prod.snd) ++
              after.flatMap Prod.snd) = lead :: rest := by
            rw [more_eq, List.drop_succ_cons] at cut
            rw [List.append_assoc, ← cut, List.take_append_drop]
          have enough : (decodeRune (lead :: ((rest.take more ++ before.flatMap Prod.snd) ++
              after.flatMap Prod.snd))).2 ≤
                (rest.take more ++ before.flatMap Prod.snd).length + 1 := by
            rw [whole, more_eq, List.length_append, List.length_take]
            omega
          have same := decodeRune_cut (after.flatMap Prod.snd) enough
          rw [whole] at same
          have length : ((lead :: rest).take (more + 1)).length = more + 1 := by
            rw [List.length_take, List.length_cons]
            omega
          rw [List.flatMap_cons, ← first_eq, more_eq, kept, segments_cons, same, more_eq, ← kept,
            List.take_append_of_le_length (le_of_eq length.symm), List.take_take,
            Nat.min_self, List.drop_append_of_le_length (le_of_eq length.symm),
            List.drop_eq_nil_of_le
            (le_of_eq length), List.nil_append, ih after_eq]

theorem trimSpace_infix (text : Bytes) : trimSpace text <:+: text := by
  have start := List.rdropWhile_prefix (fun segment : Rune × Bytes => isSpace segment.1)
    ((segments text).dropWhile fun segment => isSpace segment.1)
  have trimmed := start.isInfix.trans
    (List.dropWhile_suffix (l := segments text) fun segment => isSpace segment.1).isInfix
  have flat := trimmed.flatMap Prod.snd
  rwa [flatMap_segments] at flat

theorem segments_trimSpace (text : Bytes) :
    segments (trimSpace text) =
      ((segments text).dropWhile fun segment => isSpace segment.1).rdropWhile
        fun segment => isSpace segment.1 := by
  obtain ⟨rest, rest_eq⟩ := exists_segments_of_suffix
    (List.takeWhile_append_dropWhile (p := fun segment : Rune × Bytes => isSpace segment.1)
      (l := segments text)).symm
  obtain ⟨cut, cut_eq⟩ := List.rdropWhile_prefix (fun segment : Rune × Bytes => isSpace segment.1)
    ((segments text).dropWhile fun segment => isSpace segment.1)
  exact segments_flatMap_of_append (rest_eq.trans cut_eq.symm)

theorem dropWhile_of_start {Element : Type} {drops : Element → Bool} {elements start : List Element}
    (starts : start <+: elements.dropWhile drops) :
    start.dropWhile drops = start := by
  cases start with
  | nil => rfl
  | cons first rest =>
      obtain ⟨more, more_eq⟩ := starts
      have kept := List.head?_dropWhile_not drops elements
      rw [← more_eq, List.cons_append, List.head?_cons] at kept
      have stays : drops first = false := by simpa using kept
      rw [List.dropWhile_cons, stays]
      rfl

theorem trimSpace_trimSpace (text : Bytes) : trimSpace (trimSpace text) = trimSpace text := by
  have start := List.rdropWhile_prefix (fun segment : Rune × Bytes => isSpace segment.1)
    ((segments text).dropWhile fun segment => isSpace segment.1)
  rw [trimSpace, segments_trimSpace, dropWhile_of_start start, List.rdropWhile_idempotent]
  rfl

/-- A byte of white space. -/
def isWhite (byte : UInt8) : Bool :=
  isSpace byte.toNat

theorem trimSpace_of_ascii (ascii : IsAscii text) :
    trimSpace text = (text.dropWhile isWhite).rdropWhile isWhite := by
  rw [trimSpace, segments_of_ascii text ascii, List.dropWhile_map, List.rdropWhile,
    ← List.map_reverse, List.dropWhile_map, ← List.map_reverse, flatMap_bytes]
  rfl

theorem rdropWhile_behind {front spaces : Bytes} {last : UInt8} (graphic : isWhite last = false)
    (blank : ∀ byte ∈ spaces, isWhite byte = true) :
    (front ++ last :: spaces).rdropWhile isWhite = front ++ [last] := by
  rw [List.rdropWhile, List.reverse_append, List.reverse_cons, List.append_assoc,
    List.dropWhile_append_of_pos fun byte member => blank byte (List.mem_reverse.mp member),
    List.singleton_append, List.dropWhile_cons_of_neg (ne_true_of_eq_false graphic),
    List.reverse_cons, List.reverse_reverse]

theorem trimSpace_eq_append {front spaces : Bytes} {last : UInt8}
    (ascii : IsAscii (front ++ last :: spaces)) (graphic : isWhite last = false)
    (blank : ∀ byte ∈ spaces, isWhite byte = true) :
    trimSpace (front ++ last :: spaces) = front.dropWhile isWhite ++ [last] := by
  rw [trimSpace_of_ascii ascii, List.dropWhile_append]
  split
  · rename_i empty
    rw [List.isEmpty_iff.mp empty, List.dropWhile_cons_of_neg (ne_true_of_eq_false graphic),
      ← List.nil_append (last :: spaces)]
    exact rdropWhile_behind graphic blank
  · exact rdropWhile_behind graphic blank

theorem trimSpace_between (before text after : Bytes) (ascii : IsAscii (before ++ text ++ after))
    (blankBefore : ∀ byte ∈ before, isWhite byte = true)
    (blankAfter : ∀ byte ∈ after, isWhite byte = true)
    (starts : ∀ byte ∈ text.head?, isWhite byte = false)
    (stops : ∀ byte ∈ text.getLast?, isWhite byte = false) :
    trimSpace (before ++ text ++ after) = text := by
  rcases List.eq_nil_or_concat text with rfl | ⟨front, last, rfl⟩
  · have blank : (before ++ [] ++ after).dropWhile isWhite = [] := by
      rw [List.append_nil, List.dropWhile_append_of_pos blankBefore]
      exact List.dropWhile_eq_nil_iff.mpr blankAfter
    rw [trimSpace_of_ascii ascii, blank]
    rfl
  · rw [List.concat_eq_append] at *
    have graphic : isWhite last = false := stops last (by simp)
    have shape : before ++ (front ++ [last]) ++ after = (before ++ front) ++ last :: after := by
      simp
    rw [shape] at ascii ⊢
    rw [trimSpace_eq_append ascii graphic blankAfter, List.dropWhile_append_of_pos blankBefore]
    cases front with
    | nil => rfl
    | cons first front =>
        rw [List.dropWhile_cons_of_neg (ne_true_of_eq_false (starts first rfl))]

end Trstctl.Go
