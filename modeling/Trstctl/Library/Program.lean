import Mathlib.Data.List.Basic

/-!
# Stateful computations that may fail

A program changes a state and returns a value or an error; the changes made
before an error stay.  Triples say what holds of the state afterwards, for a
value and for an error, and follow the structure of the program.
-/

namespace Trstctl

/-- A computation on states of type `σ` that may fail with an error of type
`ε`. -/
abbrev Program (σ ε α : Type) := ExceptT ε (StateM σ) α

namespace Program

variable {σ ε α β : Type}

/-- What a program returns from a state, and the state it leaves. -/
def outcome (program : Program σ ε α) (state : σ) : Except ε α × σ :=
  program.run.run state

/-- A computation that reads the state and does not change it. -/
def reading (compute : σ → Except ε α) : Program σ ε α :=
  ExceptT.mk fun state => (compute state, state)

/-- A computation that only changes the state. -/
def update (change : σ → σ) : Program σ ε Unit :=
  ExceptT.mk fun state => (.ok (), change state)

theorem outcome_reading (compute : σ → Except ε α) (state : σ) :
    (reading compute).outcome state = (compute state, state) := rfl

/-- From a state with `before`, the program returns a value with `after` or an
error with `failed`. -/
def Triple (before : σ → Prop) (program : Program σ ε α) (after : α → σ → Prop)
    (failed : σ → Prop) : Prop :=
  ∀ state, before state →
    match program.outcome state with
    | (.ok value, next) => after value next
    | (.error _, next) => failed next

variable {before : σ → Prop} {failed : σ → Prop}

variable {after : α → σ → Prop}

theorem triple_pure {value : α} (holds : ∀ state, before state → after value state) :
    Triple before (pure value : Program σ ε α) after failed :=
  holds

theorem triple_throw {error : ε} (holds : ∀ state, before state → failed state) :
    Triple before (throw error : Program σ ε α) after failed :=
  holds

theorem triple_reading {compute : σ → Except ε α}
    (returns : ∀ state value, before state → compute state = .ok value → after value state)
    (fails : ∀ state, before state → failed state) :
    Triple before (reading compute) after failed := by
  intro state holds
  change match (compute state, state) with
    | (.ok value, next) => after value next
    | (.error _, next) => failed next
  cases computed : compute state with
  | ok value => exact returns state value holds computed
  | error error => exact fails state holds

theorem triple_reading_of_ok {compute : σ → Except ε α}
    (returns : ∀ state, before state → ∃ value, compute state = .ok value ∧ after value state) :
    Triple before (reading compute) after failed := by
  intro state holds
  obtain ⟨value, computed, afterwards⟩ := returns state holds
  change match (compute state, state) with
    | (.ok value, next) => after value next
    | (.error _, next) => failed next
  rw [computed]
  exact afterwards

theorem triple_update {after : Unit → σ → Prop} {change : σ → σ}
    (holds : ∀ state, before state → after () (change state)) :
    Triple before (update change : Program σ ε Unit) after failed :=
  holds

theorem outcome_bind (first : Program σ ε α) (second : α → Program σ ε β) (state : σ) :
    (first >>= second).outcome state =
      match first.outcome state with
      | (.ok value, next) => (second value).outcome next
      | (.error error, next) => (.error error, next) := by
  change (ExceptT.bindCont second (first.outcome state).1).run (first.outcome state).2 = _
  rcases first.outcome state with ⟨result, next⟩
  cases result with
  | ok value => rfl
  | error error => rfl

theorem Triple.bind {between : α → σ → Prop} {after : β → σ → Prop} {first : Program σ ε α}
    {second : α → Program σ ε β} (firstTriple : Triple before first between failed)
    (secondTriple : ∀ value, Triple (between value) (second value) after failed) :
    Triple before (first >>= second) after failed := by
  intro state holds
  have firstHolds := firstTriple state holds
  rw [outcome_bind]
  revert firstHolds
  rcases first.outcome state with ⟨result, next⟩
  intro firstHolds
  cases result with
  | ok value => exact secondTriple value next firstHolds
  | error error => exact firstHolds

theorem Triple.ite {condition : Prop} [Decidable condition] {first second : Program σ ε α}
    (positive : condition → Triple before first after failed)
    (negative : ¬ condition → Triple before second after failed) :
    Triple before (if condition then first else second) after failed := by
  by_cases chosen : condition
  · rw [if_pos chosen]
    exact positive chosen
  · rw [if_neg chosen]
    exact negative chosen

theorem Triple.guard {after : β → σ → Prop} {condition : Prop} [Decidable condition]
    {error : ε} {skipped : α → Program σ ε β} {rest : Program σ ε β}
    (fails : ∀ state, before state → failed state)
    (passes : ¬ condition → Triple before rest after failed) :
    Triple before
      (if condition then (throw error : Program σ ε α) >>= skipped else rest) after failed :=
  Triple.ite (fun _ => fails) passes

variable {program : Program σ ε α}

section Outcome

variable (triple : Triple before program after failed)

include triple

theorem Triple.weaken {stronger : σ → Prop} {weaker : α → σ → Prop}
    (first : ∀ state, stronger state → before state)
    (last : ∀ value state, after value state → weaker value state) :
    Triple stronger program weaker failed := by
  intro state holds
  have afterwards := triple state (first state holds)
  revert afterwards
  rcases program.outcome state with ⟨result, next⟩
  intro afterwards
  cases result with
  | ok value => exact last value next afterwards
  | error error => exact afterwards

theorem Triple.strengthen {stronger : σ → Prop} (first : ∀ state, stronger state → before state) :
    Triple stronger program after failed :=
  fun state holds => triple state (first state holds)

theorem Triple.weakenFailure {weaker : σ → Prop} (implies : ∀ state, failed state → weaker state) :
    Triple before program after weaker := by
  intro state holds
  have afterwards := triple state holds
  revert afterwards
  rcases program.outcome state with ⟨result, next⟩
  intro afterwards
  cases result with
  | ok value => exact afterwards
  | error error => exact implies next afterwards

theorem Triple.succeeds {state : σ}
    (holds : before state) {value : α} (returned : (program.outcome state).1 = .ok value) :
    after value (program.outcome state).2 := by
  have afterwards := triple state holds
  revert afterwards returned
  rcases program.outcome state with ⟨result, next⟩
  rintro rfl afterwards
  exact afterwards

theorem Triple.fails {state : σ}
    (holds : before state) {error : ε} (refused : (program.outcome state).1 = .error error) :
    failed (program.outcome state).2 := by
  have afterwards := triple state holds
  revert afterwards refused
  rcases program.outcome state with ⟨result, next⟩
  rintro rfl afterwards
  exact afterwards

end Outcome

theorem Triple.leaves (triple : Triple before program (fun _ => failed) failed) {state : σ}
    (holds : before state) :
    failed (program.outcome state).2 := by
  have afterwards := triple state holds
  revert afterwards
  rcases program.outcome state with ⟨result, next⟩
  intro afterwards
  cases result with
  | ok value => exact afterwards
  | error error => exact afterwards

theorem Triple.returns (triple : Triple before program after fun _ => False) {state : σ}
    (holds : before state) :
    ∃ value next, program.outcome state = (.ok value, next) ∧ after value next := by
  have afterwards := triple state holds
  revert afterwards
  rcases program.outcome state with ⟨result, next⟩
  intro afterwards
  cases result with
  | ok value => exact ⟨value, next, rfl, afterwards⟩
  | error error => exact afterwards.elim

end Program
end Trstctl
