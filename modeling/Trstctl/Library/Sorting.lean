import Mathlib.Data.List.Sort

/-!
# Sorting by several keys

A comparison of one key after another, and the one result that sorting has when
no two items compare alike.
-/

namespace Trstctl.Sorting

variable {α β : Type}

/-- Items in the order of a key, and where it is the same in another order. -/
def thenBy [LE β] (key : α → β) (rest : α → α → Prop) (first second : α) : Prop :=
  key first ≤ key second ∧ (key second ≤ key first → rest first second)

section ThenBy

variable [LE β]
variable {key : α → β}
variable {rest : α → α → Prop}

instance [DecidableLE β] [DecidableRel rest] : DecidableRel (thenBy key rest) :=
  fun _ _ => inferInstanceAs (Decidable (_ ∧ (_ → _)))

instance [Std.Total (fun first second : β => first ≤ second)] [Std.Total rest] :
    Std.Total (thenBy key rest) where
  total first second := by
    by_cases below : key first ≤ key second
    · by_cases above : key second ≤ key first
      · rcases Std.Total.total (r := rest) first second with inOrder | reversed
        · exact Or.inl ⟨below, fun _ => inOrder⟩
        · exact Or.inr ⟨above, fun _ => reversed⟩
      · exact Or.inl ⟨below, fun above' => absurd above' above⟩
    · have above := (Std.Total.total (r := fun first second : β => first ≤ second)
        (key first) (key second)).resolve_left below
      exact Or.inr ⟨above, fun below' => absurd below' below⟩

instance [IsTrans β fun first second => first ≤ second] [IsTrans α rest] :
    IsTrans α (thenBy key rest) where
  trans first second third := by
    rintro ⟨below, inOrder⟩ ⟨nextBelow, nextInOrder⟩
    have chain {a b c : β} (left : a ≤ b) (right : b ≤ c) : a ≤ c :=
      IsTrans.trans (r := fun first second : β => first ≤ second) a b c left right
    refine ⟨chain below nextBelow, fun above => ?_⟩
    exact IsTrans.trans first second third (inOrder (chain nextBelow above))
      (nextInOrder (chain above below))

theorem thenBy_antisymm
    (antisymmetric : ∀ first second : β, first ≤ second → second ≤ first → first = second)
    {first second : α} (inOrder : thenBy key rest first second)
    (reversed : thenBy key rest second first) :
    key first = key second ∧ rest first second ∧ rest second first :=
  ⟨antisymmetric _ _ inOrder.1 reversed.1, inOrder.2 reversed.1, reversed.2 inOrder.1⟩

end ThenBy

theorem insertionSort_eq_of_perm {before : α → α → Prop} [DecidableRel before] [Std.Total before]
    [IsTrans α before] {first second : List α} (permutation : first.Perm second)
    (distinct : ∀ item ∈ first, ∀ other ∈ first, before item other → before other item →
      item = other) :
    first.insertionSort before = second.insertionSort before := by
  have sorts := (List.perm_insertionSort before first).trans
    (permutation.trans (List.perm_insertionSort before second).symm)
  refine sorts.eq_of_pairwise (fun item other member otherMember => ?_)
    (List.pairwise_insertionSort _ _) (List.pairwise_insertionSort _ _)
  refine distinct item ?_ other ?_
  · exact (List.perm_insertionSort _ first).mem_iff.mp member
  · exact permutation.mem_iff.mpr ((List.perm_insertionSort _ second).mem_iff.mp otherMember)

end Trstctl.Sorting
