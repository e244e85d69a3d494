import Mathlib.Data.List.Basic

/-!
# Self-delimiting codes

A code is self-delimiting when what is written of a value is read back off
whatever follows it.  Codes that write lengths in a fixed width are so up to a
limit on what is written.  Codes of parts compose: one after another, behind a
tag, and item by item behind a count.
-/

namespace Trstctl

variable {Symbol Value Second : Type}

/-- Of two values written within the limit, what is written tells which value
it is and where the rest begins. -/
def SelfDelimiting (limit : Nat) (write : Value → List Symbol) : Prop :=
  ∀ ⦃value other : Value⦄ ⦃rest otherRest : List Symbol⦄,
    (write value).length < limit → (write other).length < limit →
      write value ++ rest = write other ++ otherRest → value = other ∧ rest = otherRest

namespace SelfDelimiting

variable {limit : Nat} {write : Value → List Symbol} {writeSecond : Second → List Symbol}

theorem of_width {width : Nat} (widths : ∀ value, (write value).length = width)
    (injective : Function.Injective write) :
    SelfDelimiting limit write := by
  intro value other rest otherRest _ _ equal
  obtain ⟨written, rests⟩ := List.append_inj equal ((widths value).trans (widths other).symm)
  exact ⟨injective written, rests⟩

theorem injective (code : SelfDelimiting limit write) {value other : Value}
    (within : (write value).length < limit) (equal : write value = write other) :
    value = other := by
  have otherWithin : (write other).length < limit := equal ▸ within
  exact (@code value other [] [] within otherWithin (by rw [equal])).1

theorem append (first : SelfDelimiting limit write) (second : SelfDelimiting limit writeSecond) :
    SelfDelimiting limit fun pair : Value × Second => write pair.1 ++ writeSecond pair.2 := by
  intro pair other rest otherRest within otherWithin equal
  rw [List.length_append] at within otherWithin
  rw [List.append_assoc, List.append_assoc] at equal
  obtain ⟨firsts, rests⟩ := first (by omega) (by omega) equal
  obtain ⟨seconds, remaining⟩ := second (by omega) (by omega) rests
  exact ⟨Prod.ext firsts seconds, remaining⟩

theorem tagged (code : SelfDelimiting limit write) (tag : List Symbol) :
    SelfDelimiting limit fun value => tag ++ write value := by
  intro value other rest otherRest within otherWithin equal
  rw [List.length_append] at within otherWithin
  rw [List.append_assoc, List.append_assoc] at equal
  exact code (by omega) (by omega) (List.append_cancel_left equal)

theorem flatMap (code : SelfDelimiting limit write)
    {items others : List Value} {rest otherRest : List Symbol}
    (counts : items.length = others.length) (within : (items.flatMap write).length < limit)
    (otherWithin : (others.flatMap write).length < limit)
    (equal : items.flatMap write ++ rest = others.flatMap write ++ otherRest) :
    items = others ∧ rest = otherRest := by
  induction items generalizing others with
  | nil =>
      obtain rfl := List.eq_nil_of_length_eq_zero counts.symm
      exact ⟨rfl, equal⟩
  | cons item items ih =>
      cases others with
      | nil => cases counts
      | cons other others =>
          simp only [List.flatMap_cons, List.append_assoc, List.length_append] at *
          obtain ⟨same, after⟩ := code (by omega) (by omega) equal
          obtain ⟨sameLater, sameRest⟩ := ih (Nat.succ.inj counts) (by omega)
            (by omega) after
          rw [same, sameLater]
          exact ⟨rfl, sameRest⟩

end SelfDelimiting

theorem length_le_length_flatMap {write : Value → List Symbol}
    (nonempty : ∀ value, write value ≠ []) (items : List Value) :
    items.length ≤ (items.flatMap write).length := by
  induction items with
  | nil => exact Nat.le_refl 0
  | cons item items ih =>
      have positive : 0 < (write item).length := List.length_pos_iff.mpr (nonempty item)
      rw [List.flatMap_cons, List.length_append, List.length_cons]
      omega

namespace SelfDelimiting

variable {limit : Nat} {write : Value → List Symbol} {writeCount : Nat → List Symbol}

theorem counted {width : Nat} (widths : ∀ count, (writeCount count).length = width)
    (counts_injective : ∀ count other, count < limit → other < limit →
      writeCount count = writeCount other → count = other)
    (nonempty : ∀ value, write value ≠ [])
    (code : SelfDelimiting limit write) :
    SelfDelimiting limit fun items : List Value =>
      writeCount items.length ++ items.flatMap write := by
  intro items others rest otherRest within otherWithin equal
  rw [List.length_append] at within otherWithin
  rw [List.append_assoc, List.append_assoc] at equal
  have bound := length_le_length_flatMap nonempty items
  have otherBound := length_le_length_flatMap nonempty others
  obtain ⟨counts, after⟩ := List.append_inj equal
    ((widths items.length).trans (widths others.length).symm)
  have sameCount := counts_injective _ _ (by omega) (by omega) counts
  exact flatMap code sameCount (by omega) (by omega) after

theorem lengthPrefixed {width : Nat} (widths : ∀ count, (writeCount count).length = width)
    (counts_injective : ∀ count other, count < limit → other < limit →
      writeCount count = writeCount other → count = other) :
    SelfDelimiting limit fun text : List Symbol => writeCount text.length ++ text := by
  intro text other rest otherRest within otherWithin equal
  rw [List.length_append] at within otherWithin
  rw [List.append_assoc, List.append_assoc] at equal
  obtain ⟨lengths, after⟩ := List.append_inj equal
    ((widths text.length).trans (widths other.length).symm)
  exact List.append_inj after (counts_injective _ _ (by omega) (by omega) lengths)

end SelfDelimiting

theorem eq_of_flatMap_lengthPrefixed (limit : Nat) {width : Nat} {writeCount : Nat → List Symbol}
    (widths : ∀ count, (writeCount count).length = width)
    (counts_injective : ∀ count other, count < limit → other < limit →
      writeCount count = writeCount other → count = other)
    {texts others : List (List Symbol)}
    (counts : texts.length = others.length)
    (bounded : ∀ text ∈ texts, text.length < limit)
    (othersBounded : ∀ text ∈ others, text.length < limit)
    (equal : texts.flatMap (fun text => writeCount text.length ++ text) =
      others.flatMap fun text => writeCount text.length ++ text) :
    texts = others := by
  induction texts generalizing others with
  | nil => exact (List.eq_nil_of_length_eq_zero counts.symm).symm
  | cons text texts ih =>
      cases others with
      | nil => cases counts
      | cons other others =>
          obtain ⟨textBounded, textsBounded⟩ := List.forall_mem_cons.mp bounded
          obtain ⟨otherBounded, restBounded⟩ := List.forall_mem_cons.mp othersBounded
          rw [List.flatMap_cons, List.flatMap_cons, List.append_assoc, List.append_assoc] at equal
          obtain ⟨lengths, after⟩ := List.append_inj equal
            ((widths text.length).trans (widths other.length).symm)
          have sameLength := counts_injective _ _ textBounded otherBounded lengths
          obtain ⟨same, later⟩ := List.append_inj after sameLength
          rw [same, ih (Nat.succ.inj counts) textsBounded restBounded later]

/-!
## Fields between separators

A separator that does not occur in a field ends it: two joined texts that are
equal have the same first field and the same last field.
-/

namespace Separator

variable {α : Type} {separator : α}

theorem eq_of_append_cons_eq {first second firstRest secondRest : List α}
    (firstFree : separator ∉ first) (secondFree : separator ∉ second)
    (equal : first ++ separator :: firstRest = second ++ separator :: secondRest) :
    first = second ∧ firstRest = secondRest := by
  induction first generalizing second with
  | nil =>
      cases second with
      | nil => exact ⟨rfl, (List.cons.inj equal).2⟩
      | cons head tail =>
          have heads := (List.cons.inj equal).1
          exact absurd (heads ▸ List.mem_cons_self) secondFree
  | cons head tail ih =>
      cases second with
      | nil =>
          have heads := (List.cons.inj equal).1
          exact absurd (heads ▸ List.mem_cons_self) firstFree
      | cons head' tail' =>
          obtain ⟨heads, tails⟩ := List.cons.inj equal
          obtain ⟨sameTail, sameRest⟩ := ih
            (fun member => firstFree (List.mem_cons_of_mem _ member))
            (fun member => secondFree (List.mem_cons_of_mem _ member)) tails
          rw [heads, sameTail]
          exact ⟨rfl, sameRest⟩

theorem eq_of_append_cons_eq_last {first second firstRest secondRest : List α}
    (firstFree : separator ∉ firstRest) (secondFree : separator ∉ secondRest)
    (equal : first ++ separator :: firstRest = second ++ separator :: secondRest) :
    first = second ∧ firstRest = secondRest := by
  have backwards := congrArg List.reverse equal
  simp only [List.reverse_append, List.reverse_cons, List.append_assoc,
    List.singleton_append] at backwards
  obtain ⟨rests, befores⟩ := eq_of_append_cons_eq
    (fun member => firstFree (List.mem_reverse.mp member))
    (fun member => secondFree (List.mem_reverse.mp member)) backwards
  exact ⟨List.reverse_injective befores, List.reverse_injective rests⟩

end Separator
end Trstctl
