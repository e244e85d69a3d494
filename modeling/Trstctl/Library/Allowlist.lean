import Mathlib.Data.List.Basic

/-!
# Lists that restrict

A list of entries restricts nothing when it is empty and otherwise permits the
items one of its entries covers.  A list is within another when it permits no
further item, and is the intersection of two others when it covers what both cover.
-/

namespace Trstctl.Allowlist

variable {α β : Type*} {covers : β → α → Prop} {within : α → α → Prop}
variable {item : β} {inner middle outer : List α}

/-- The list restricts nothing or an entry covers the item. -/
def Permits (covers : β → α → Prop) (list : List α) (item : β) : Prop :=
  list = [] ∨ ∃ entry ∈ list, covers item entry

/-- The outer list restricts nothing, or the inner one restricts and each of its
entries is covered. -/
def Within (covers : α → α → Prop) (inner outer : List α) : Prop :=
  outer = [] ∨ (inner ≠ [] ∧ ∀ entry ∈ inner, ∃ cover ∈ outer, covers entry cover)

instance [DecidableEq α] [∀ entry cover, Decidable (within entry cover)] (inner outer : List α) :
    Decidable (Within within inner outer) :=
  inferInstanceAs (Decidable (_ ∨ (_ ∧ _)))

theorem Within.refl (reflexive : ∀ entry, within entry entry) (list : List α) :
    Within within list list := by
  by_cases empty : list = []
  · exact .inl empty
  · exact .inr ⟨empty, fun entry member => ⟨entry, member, reflexive entry⟩⟩

theorem Within.trans
    (transitive : ∀ {first second third}, within first second → within second third →
      within first third)
    (lower : Within within inner middle)
    (upper : Within within middle outer) :
    Within within inner outer := by
  rcases upper with unrestricted | ⟨proper, covered⟩
  · exact .inl unrestricted
  · rcases lower with empty | ⟨innerProper, innerCovered⟩
    · exact absurd empty proper
    · refine .inr ⟨innerProper, fun entry member => ?_⟩
      obtain ⟨between, betweenMember, first⟩ := innerCovered entry member
      obtain ⟨cover, coverMember, second⟩ := covered between betweenMember
      exact ⟨cover, coverMember, transitive first second⟩

theorem Permits.of_within
    (transitive : ∀ {item first second}, covers item first → within first second →
      covers item second)
    (permitted : Permits covers inner item)
    (narrower : Within within inner outer) :
    Permits covers outer item := by
  rcases narrower with unrestricted | ⟨proper, covered⟩
  · exact .inl unrestricted
  · rcases permitted with empty | ⟨entry, member, covering⟩
    · exact absurd empty proper
    · obtain ⟨cover, coverMember, step⟩ := covered entry member
      exact .inr ⟨cover, coverMember, transitive covering step⟩

/-- One of the entries of the list lies above the item. -/
def Covered (within : α → α → Prop) (list : List α) (item : α) : Prop :=
  ∃ entry ∈ list, within item entry

/-- When two entries above a common item are nested, a list of common subentries of
two lists covers what both cover exactly when it covers the smaller entry of every
nested pair. -/
theorem covered_inter_iff {first second collected : List α}
    (reflexive : ∀ entry, within entry entry)
    (transitive : ∀ {low middle high}, within low middle → within middle high → within low high)
    (nested : ∀ {low left right}, within low left → within low right →
      within left right ∨ within right left)
    (sound : ∀ entry ∈ collected, Covered within first entry ∧ Covered within second entry) :
    (∀ entry, Covered within collected entry ↔
        Covered within first entry ∧ Covered within second entry) ↔
      ∀ left ∈ first, ∀ right ∈ second,
        (within left right → Covered within collected left) ∧
          (within right left → Covered within collected right) := by
  constructor
  · intro exactly left leftMember right rightMember
    refine ⟨fun below => (exactly left).mpr ⟨⟨left, leftMember, reflexive left⟩, ?_⟩,
      fun below => (exactly right).mpr ⟨?_, ⟨right, rightMember, reflexive right⟩⟩⟩
    · exact ⟨right, rightMember, below⟩
    · exact ⟨left, leftMember, below⟩
  · intro overlaps entry
    constructor
    · rintro ⟨cover, member, below⟩
      obtain ⟨⟨left, leftMember, aboveLeft⟩, ⟨right, rightMember, aboveRight⟩⟩ := sound cover member
      exact ⟨⟨left, leftMember, transitive below aboveLeft⟩,
        ⟨right, rightMember, transitive below aboveRight⟩⟩
    · rintro ⟨⟨left, leftMember, belowLeft⟩, ⟨right, rightMember, belowRight⟩⟩
      have overlap := overlaps left leftMember right rightMember
      rcases nested belowLeft belowRight with inner | inner
      · obtain ⟨cover, member, above⟩ := overlap.1 inner
        exact ⟨cover, member, transitive belowLeft above⟩
      · obtain ⟨cover, member, above⟩ := overlap.2 inner
        exact ⟨cover, member, transitive belowRight above⟩

end Trstctl.Allowlist
