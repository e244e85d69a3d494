import Mathlib.Data.List.Basic

/-!
# Three-valued logic

The strong Kleene connectives and the order by information: `unknown` is below
every value, and a definite value only below itself.  The connectives are
monotone in this order, so that a definite result stays when more is known.
-/

namespace Trstctl

/-- A truth value or the lack of one. -/
inductive Truth where
  | no
  | yes
  | unknown
deriving DecidableEq

namespace Truth

/-- Conjunction. -/
def and : Truth → Truth → Truth
  | no, _ => no
  | _, no => no
  | unknown, _ => unknown
  | _, unknown => unknown
  | yes, yes => yes

/-- Disjunction. -/
def or : Truth → Truth → Truth
  | yes, _ => yes
  | _, yes => yes
  | unknown, _ => unknown
  | _, unknown => unknown
  | no, no => no

/-- Negation. -/
def not : Truth → Truth
  | unknown => unknown
  | yes => no
  | no => yes

/-- A decided proposition. -/
def ofBool : Bool → Truth
  | true => yes
  | false => no

/-- The second value is the first or replaces an unknown one. -/
def Refines (less more : Truth) : Prop :=
  less = unknown ∨ less = more

variable (value : Truth)

theorem Refines.refl : Refines value value :=
  Or.inr rfl

theorem unknown_refines : Refines unknown value :=
  Or.inl rfl

theorem Refines.eq {less more : Truth} (refines : Refines less more) (definite : less ≠ unknown) :
    more = less :=
  (refines.resolve_left definite).symm

theorem Refines.and {less more less' more' : Truth} (left : Refines less more)
    (right : Refines less' more') :
    Refines (less.and less') (more.and more') := by
  rcases left with rfl | rfl <;> rcases right with rfl | rfl
  · exact Or.inl rfl
  · cases less' with
    | no => cases more <;> exact Or.inr rfl
    | yes => exact Or.inl rfl
    | unknown => exact Or.inl rfl
  · cases less with
    | no => exact Or.inr rfl
    | yes => exact Or.inl rfl
    | unknown => exact Or.inl rfl
  · exact Or.inr rfl

theorem Refines.or {less more less' more' : Truth} (left : Refines less more)
    (right : Refines less' more') :
    Refines (less.or less') (more.or more') := by
  rcases left with rfl | rfl <;> rcases right with rfl | rfl
  · exact Or.inl rfl
  · cases less' with
    | yes => cases more <;> exact Or.inr rfl
    | no => exact Or.inl rfl
    | unknown => exact Or.inl rfl
  · cases less with
    | yes => exact Or.inr rfl
    | no => exact Or.inl rfl
    | unknown => exact Or.inl rfl
  · exact Or.inr rfl

@[simp] theorem or_no : value.or no = value := by
  cases value <;> rfl

@[simp] theorem no_or : no.or value = value := by
  cases value <;> rfl

@[simp] theorem no_and : no.and value = no := rfl

theorem Refines.antisymm {first second : Truth} (forward : Refines first second)
    (backward : Refines second first) :
    first = second := by
  rcases forward with rfl | rfl
  · exact (backward.elim id id).symm
  · rfl

theorem or_comm (first second : Truth) : first.or second = second.or first := by
  cases first <;> cases second <;> rfl

theorem or_assoc (first second third : Truth) :
    (first.or second).or third = first.or (second.or third) := by
  cases first <;> cases second <;> cases third <;> rfl

@[simp] theorem or_self : value.or value = value := by
  cases value <;> rfl

theorem and_comm (first second : Truth) : first.and second = second.and first := by
  cases first <;> cases second <;> rfl

theorem and_assoc (first second third : Truth) :
    (first.and second).and third = first.and (second.and third) := by
  cases first <;> cases second <;> cases third <;> rfl

theorem or_eq_no_iff {first second : Truth} : first.or second = no ↔ first = no ∧ second = no := by
  cases first <;> cases second <;> simp [or]

theorem or_eq_yes_iff {first second : Truth} :
    first.or second = yes ↔ first = yes ∨ second = yes := by
  cases first <;> cases second <;> simp [or]

@[simp] theorem yes_or : yes.or value = yes := rfl

@[simp] theorem or_yes : value.or yes = yes := by
  cases value <;> rfl

end Truth
end Trstctl
