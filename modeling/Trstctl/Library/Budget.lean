import Mathlib.Data.List.Basic

/-!
# Computations with a budget

A computation threads a state that may become spent, and a spent state stays
spent.  Two computations agree up to a relation when runs that leave their
states unspent have related results, whatever the states they start in.  The
rules derive agreement of sequences from agreement of the parts.
-/

namespace Trstctl

/-- A computation that never restores a spent state. -/
structure Budgeted (σ : Type) (spent : σ → Bool) (α : Type) where
  run : σ → α × σ
  lasting : ∀ state, spent state = true → spent (run state).2 = true

namespace Budgeted

variable {σ : Type} {spent : σ → Bool} {α β γ δ : Type}

instance : Monad (Budgeted σ spent) where
  pure value := ⟨fun state => (value, state), fun _ isSpent => isSpent⟩
  bind first second :=
    { run := fun state => (second (first.run state).1).run (first.run state).2
      lasting := fun state isSpent => (second _).lasting _ (first.lasting state isSpent) }

@[simp] theorem run_pure (value : α) (state : σ) :
    (pure value : Budgeted σ spent α).run state = (value, state) := rfl

@[simp] theorem run_bind (first : Budgeted σ spent α) (second : α → Budgeted σ spent β)
    (state : σ) :
    (first >>= second).run state = (second (first.run state).1).run (first.run state).2 := rfl

/-- A computation that stops with a result once the budget is spent. -/
def unlessSpent (stopped : α) (rest : Budgeted σ spent α) : Budgeted σ spent α where
  run state := if spent state then (stopped, state) else rest.run state
  lasting state isSpent := by rw [if_pos isSpent]; exact isSpent

theorem unspent_of_run {computation : Budgeted σ spent α} {state : σ}
    (unspent : spent (computation.run state).2 = false) :
    spent state = false := by
  cases isSpent : spent state with
  | false => rfl
  | true => exact absurd (computation.lasting state isSpent) (by simp [unspent])

/-- Runs that leave their states unspent have related results. -/
def Agrees (relation : α → β → Prop) (first : Budgeted σ spent α) (second : Budgeted σ spent β) :
    Prop :=
  ∀ state state', spent (first.run state).2 = false → spent (second.run state').2 = false →
    relation (first.run state).1 (second.run state').1

variable {relation : α → β → Prop} {relation' : γ → δ → Prop}

theorem agrees_pure {value : α} {value' : β} (related : relation value value') :
    Agrees relation (pure value : Budgeted σ spent α) (pure value') :=
  fun _ _ _ _ => related

variable {first : Budgeted σ spent α}

theorem Agrees.bind {first' : Budgeted σ spent β} {second : α → Budgeted σ spent γ}
    {second' : β → Budgeted σ spent δ} (agrees : Agrees relation first first')
    (continued : ∀ value value', relation value value' →
      Agrees relation' (second value) (second' value')) :
    Agrees relation' (first >>= second) (first' >>= second') := by
  intro state state' unspent unspent'
  have related := agrees state state' (unspent_of_run unspent) (unspent_of_run unspent')
  exact continued _ _ related _ _ unspent unspent'

theorem agrees_bind_right {first : Budgeted σ spent γ} {second : Budgeted σ spent β}
    {rest : β → Budgeted σ spent δ} (continued : ∀ value, Agrees relation' first (rest value)) :
    Agrees relation' first (second >>= rest) :=
  fun state _ unspent unspent' => continued _ state _ unspent unspent'

theorem agrees_bind_left {rest : α → Budgeted σ spent γ} {second : Budgeted σ spent δ}
    (continued : ∀ value, Agrees relation' (rest value) second) :
    Agrees relation' (first >>= rest) second :=
  fun _ state' unspent unspent' => continued _ _ state' unspent unspent'

theorem Agrees.ite {condition : Prop} [Decidable condition]
    {second : Budgeted σ spent α} {first' second' : Budgeted σ spent β}
    (holds : Agrees relation first first') (fails : Agrees relation second second') :
    Agrees relation (if condition then first else second)
      (if condition then first' else second') := by
  by_cases decided : condition
  · rw [if_pos decided, if_pos decided]
    exact holds
  · rw [if_neg decided, if_neg decided]
    exact fails

theorem Agrees.unlessSpent {stopped : α} {stopped' : β} {rest : Budgeted σ spent α}
    {rest' : Budgeted σ spent β} (agrees : Agrees relation rest rest') :
    Agrees relation (unlessSpent stopped rest) (unlessSpent stopped' rest') := by
  intro state state' unspent unspent'
  have left := unspent_of_run unspent
  have right := unspent_of_run unspent'
  simp only [Budgeted.unlessSpent, left, right, Bool.false_eq_true, if_false] at unspent unspent' ⊢
  exact agrees state state' unspent unspent'

theorem agrees_of_forall {value : α} {computation : Budgeted σ spent β}
    (related : ∀ value', relation value value') :
    Agrees relation (pure value) computation :=
  fun _ _ _ _ => related _

/-- Every run that leaves its state unspent has the given result. -/
def Determines (computation : Budgeted σ spent α) (value : α) : Prop :=
  ∀ state, spent (computation.run state).2 = false → (computation.run state).1 = value

theorem Agrees.exists_determines [Nonempty α] {computation : Budgeted σ spent α}
    (agrees : Agrees Eq computation computation) :
    ∃ value, Determines computation value := by
  by_cases lasts : ∃ state, spent (computation.run state).2 = false
  · obtain ⟨state, unspent⟩ := lasts
    exact ⟨_, fun other otherUnspent => agrees other state otherUnspent unspent⟩
  · push Not at lasts
    exact ⟨Classical.arbitrary α, fun state unspent => absurd unspent (lasts state)⟩

theorem determines_pure (value : α) :
    Determines (pure value : Budgeted σ spent α) value :=
  fun _ _ => rfl

theorem Determines.bind {second : α → Budgeted σ spent β} {value : α} {result : β}
    (determined : Determines first value) (continued : Determines (second value) result) :
    Determines (first >>= second) result := by
  intro state unspent
  have firstValue := determined state (unspent_of_run unspent)
  rw [run_bind, firstValue] at unspent ⊢
  exact continued _ unspent

theorem Determines.after {second : Budgeted σ spent β} {result : β}
    (determined : Determines second result) :
    Determines (first >>= fun _ => second) result :=
  fun state unspent => determined (first.run state).2 unspent

theorem Determines.unlessSpent {stopped : α} {rest : Budgeted σ spent α} {value : α}
    (determined : Determines rest value) :
    Determines (unlessSpent stopped rest) value := by
  intro state unspent
  have left := unspent_of_run unspent
  simp only [Budgeted.unlessSpent, left, Bool.false_eq_true, if_false] at unspent ⊢
  exact determined state unspent

end Budgeted
end Trstctl
