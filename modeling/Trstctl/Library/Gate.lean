import Mathlib.Data.Set.Basic

/-!
# Gates that look at the last item only

A gate lets an item through when it follows the last one that went through.
Whether an item follows all the earlier ones is then a question of
transitivity, and on items among which following is not transitive some run
shows it.
-/

namespace Trstctl.Gate

variable {α : Type}

/-- The items that go through a gate, given the last one that did. -/
def passed (follows : α → α → Bool) : Option α → List α → List α
  | _, [] => []
  | none, item :: rest => item :: passed follows (some item) rest
  | some last, item :: rest =>
      if follows item last then item :: passed follows (some item) rest
      else passed follows (some last) rest

/-- Following is transitive among some items. -/
def TransitiveOn (follows : α → α → Bool) (items : Set α) : Prop :=
  ∀ first ∈ items, ∀ second ∈ items, ∀ third ∈ items,
    follows second first = true → follows third second = true → follows third first = true

variable {follows : α → α → Bool}

theorem follows_of_mem_passed {items : Set α} (transitive : TransitiveOn follows items)
    {last earlier : α} (isLast : last ∈ items) (isEarlier : earlier ∈ items)
    (followed : follows last earlier = true) {presented : List α}
    (within : ∀ item ∈ presented, item ∈ items) :
    ∀ item ∈ passed follows (some last) presented, follows item earlier = true := by
  induction presented generalizing last with
  | nil => exact List.forall_mem_nil _
  | cons first rest ih =>
      obtain ⟨isFirst, others⟩ := List.forall_mem_cons.mp within
      rw [passed]
      split
      next next =>
        have firstFollows := transitive earlier isEarlier last isLast first isFirst followed next
        exact List.forall_mem_cons.mpr
          ⟨firstFollows, ih isFirst firstFollows others⟩
      next => exact ih isLast followed others

theorem pairwise_passed_some {items : Set α} (transitive : TransitiveOn follows items)
    {presented : List α} (within : ∀ item ∈ presented, item ∈ items) (last : α)
    (reflexive : ∀ item ∈ items, follows item item = true) :
    (passed follows (some last) presented).Pairwise
      fun earlier later => follows later earlier = true := by
  induction presented generalizing last with
  | nil => exact List.Pairwise.nil
  | cons first rest ih =>
      obtain ⟨isFirst, others⟩ := List.forall_mem_cons.mp within
      rw [passed]
      split
      next =>
        exact List.Pairwise.cons
          (follows_of_mem_passed transitive isFirst isFirst (reflexive first isFirst) others)
          (ih others first)
      next => exact ih others last

/-- Among some items every run of the gate keeps every two items in order
exactly when following is transitive there. -/
theorem pairwise_passed_iff {items : Set α} (reflexive : ∀ item ∈ items, follows item item = true) :
    (∀ presented : List α, (∀ item ∈ presented, item ∈ items) →
        (passed follows none presented).Pairwise
          fun earlier later => follows later earlier = true) ↔
      TransitiveOn follows items := by
  constructor
  · -- Three items that break transitivity go through one after the other.
    intro ordered first isFirst second isSecond third isThird secondFollows thirdFollows
    have within : ∀ item ∈ [first, second, third], item ∈ items := by
      simp only [List.forall_mem_cons]
      exact ⟨isFirst, isSecond, isThird, List.forall_mem_nil _⟩
    have pairs := ordered [first, second, third] within
    simp only [passed, secondFollows, thirdFollows, if_true] at pairs
    exact (List.pairwise_cons.mp pairs).1 third (by simp)
  · intro transitive presented within
    cases presented with
    | nil => exact List.Pairwise.nil
    | cons first rest =>
        obtain ⟨isFirst, others⟩ := List.forall_mem_cons.mp within
        exact List.Pairwise.cons
          (follows_of_mem_passed transitive isFirst isFirst (reflexive first isFirst) others)
          (pairwise_passed_some transitive others first reflexive)

end Trstctl.Gate
