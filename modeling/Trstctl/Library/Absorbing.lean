import Mathlib.Order.Basic
import Trstctl.Library.Result

/-!
# Statements that add what is missing

A statement extends a state or fails.  One that adds what is missing leaves
nothing for itself to do, in the state it leaves and in every extension of it.
Such statements compose.
-/

namespace Trstctl

variable {σ ε α : Type}

theorem foldlM_of_settled {statement : σ → α → Except ε σ} {items : List α} {state : σ}
    (settled : ∀ item ∈ items, statement state item = .ok state) :
    items.foldlM statement state = .ok state := by
  induction items with
  | nil => rfl
  | cons item rest ih =>
      obtain ⟨head, tail⟩ := List.forall_mem_cons.mp settled
      rw [List.foldlM_cons, head]
      exact ih tail

variable [Preorder σ]

/-- A statement only extends the state, and has nothing to do in an extension of
the state that it left. -/
structure Absorbs (statement : σ → Except ε σ) : Prop where
  le : ∀ {state after}, statement state = .ok after → state ≤ after
  settled : ∀ {state after later}, statement state = .ok after → after ≤ later →
    statement later = .ok later

namespace Absorbs

theorem of_present {statement : σ → Except ε σ} {present : σ → Prop}
    (adds : ∀ {state after}, statement state = .ok after → state ≤ after ∧ present after)
    (stays : ∀ {state later}, state ≤ later → present state → present later)
    (nothing_to_do : ∀ {state}, present state → statement state = .ok state) :
    Absorbs statement where
  le succeeds := (adds succeeds).1
  settled succeeds extended := nothing_to_do (stays extended (adds succeeds).2)

theorem nothing : Absorbs fun state : σ => (.ok state : Except ε σ) where
  le := by
    intro state after succeeds
    cases succeeds
    exact le_rfl
  settled _ _ := rfl

theorem andThen {first second : σ → Except ε σ} (firstAbsorbs : Absorbs first)
    (secondAbsorbs : Absorbs second) :
    Absorbs fun state => first state >>= second where
  le := by
    intro state after succeeds
    obtain ⟨between, firstSucceeds, secondSucceeds⟩ := Result.bind_eq_ok.mp succeeds
    exact (firstAbsorbs.le firstSucceeds).trans (secondAbsorbs.le secondSucceeds)
  settled := by
    intro state after later succeeds extended
    obtain ⟨between, firstSucceeds, secondSucceeds⟩ := Result.bind_eq_ok.mp succeeds
    have extends_between := (secondAbsorbs.le secondSucceeds).trans extended
    refine Result.bind_eq_ok.mpr ⟨later, ?_, ?_⟩
    · exact firstAbsorbs.settled firstSucceeds extends_between
    · exact secondAbsorbs.settled secondSucceeds extended

theorem foldlM {statement : σ → α → Except ε σ}
    (absorbs : ∀ item, Absorbs fun state => statement state item) (items : List α) :
    Absorbs fun state => items.foldlM statement state := by
  induction items with
  | nil => exact nothing
  | cons item rest ih =>
      have composed := (absorbs item).andThen ih
      simpa only [List.foldlM_cons] using composed

theorem settled_of_mem {statement : σ → α → Except ε σ}
    (absorbs : ∀ item, Absorbs fun state => statement state item) {items : List α} {item : α}
    (member : item ∈ items) {state after : σ}
    (succeeds : items.foldlM statement state = .ok after) :
    statement after item = .ok after := by
  induction items generalizing state with
  | nil => cases member
  | cons head rest ih =>
      rw [List.foldlM_cons] at succeeds
      obtain ⟨between, headSucceeds, restSucceeds⟩ := Result.bind_eq_ok.mp succeeds
      rcases List.mem_cons.mp member with rfl | later
      · exact (absorbs item).settled headSucceeds ((foldlM absorbs rest).le restSucceeds)
      · exact ih later restSucceeds

end Absorbs

end Trstctl
