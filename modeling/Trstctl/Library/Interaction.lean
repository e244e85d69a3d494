import Mathlib.Logic.Function.Basic

/-!
# Programs that ask their environment

A program asks for operations one after another and goes on with the answers.
An environment has a state that the operations read and change, and an outcome
of each operation that the program does not control.  Programs run alone, or
several share one environment and are scheduled in any order.
-/

namespace Trstctl

/-- A program that returns a result, or asks for an operation and goes on with
its answer. -/
inductive Interaction (Op : Type) (Answer : Op → Type) (α : Type) where
  | done (result : α)
  | ask (op : Op) (next : Answer op → Interaction Op Answer α)

namespace Interaction

variable {Op : Type} {Answer : Op → Type} {α β σ ω γ ι : Type}

/-- Sequential composition. -/
protected def bind (program : Interaction Op Answer α) (rest : α → Interaction Op Answer β) :
    Interaction Op Answer β :=
  match program with
  | .done result => rest result
  | .ask op next => .ask op fun answer => (next answer).bind rest

instance : Monad (Interaction Op Answer) where
  pure := .done
  bind := Interaction.bind

/-- Ask for one operation. -/
def perform (op : Op) : Interaction Op Answer (Answer op) :=
  .ask op .done

@[simp]
theorem perform_bind (op : Op) (rest : Answer op → Interaction Op Answer β) :
    perform op >>= rest = .ask op rest :=
  rfl

@[simp]
theorem pure_eq_done (result : α) : (pure result : Interaction Op Answer α) = .done result :=
  rfl

/-- What the operations answer and do in a state, by their outcomes. -/
structure Environment (Op : Type) (Answer : Op → Type) (σ ω : Type) where
  answer : σ → (op : Op) → ω → Answer op
  after : σ → Op → ω → σ

/-- The state after a program has run with the given outcomes, which end where
it is cut short. -/
def alone (environment : Environment Op Answer σ ω) :
    σ → Interaction Op Answer α → List ω → σ
  | state, .ask op next, outcome :: rest =>
      alone environment (environment.after state op outcome)
        (next (environment.answer state op outcome)) rest
  | state, _, _ => state

/-- A program keeps an invariant at every point of its run from a state. -/
def Keeps (environment : Environment Op Answer σ ω) (invariant : σ → Prop) :
    Interaction Op Answer α → σ → Prop
  | .done _, state => invariant state
  | .ask op next, state =>
      invariant state ∧ ∀ outcome,
        Keeps environment invariant (next (environment.answer state op outcome))
          (environment.after state op outcome)

variable {environment : Environment Op Answer σ ω} {program : Interaction Op Answer α}

theorem Keeps.alone {invariant : σ → Prop} {state : σ}
    (keeps : Keeps environment invariant program state) (outcomes : List ω) :
    invariant (alone environment state program outcomes) := by
  induction outcomes generalizing program state with
  | nil =>
      cases program with
      | done result => exact keeps
      | ask op next => exact keeps.1
  | cons outcome rest ih =>
      cases program with
      | done result => exact keeps
      | ask op next => exact ih (keeps.2 outcome)

/-- What is remembered of the answers to a program, and the operations that it
may ask for then. -/
structure Discipline (Op : Type) (Answer : Op → Type) (γ : Type) where
  fresh : γ
  allows : γ → Op → Prop
  advance : γ → (op : Op) → Answer op → γ

/-- A program only asks for operations that the discipline allows. -/
def Obeys (environment : Environment Op Answer σ ω) (discipline : Discipline Op Answer γ) :
    γ → Interaction Op Answer α → Prop
  | _, .done _ => True
  | memory, .ask op next =>
      discipline.allows memory op ∧ ∀ state outcome,
        Obeys environment discipline
          (discipline.advance memory op (environment.answer state op outcome))
          (next (environment.answer state op outcome))

theorem Obeys.map {discipline : Discipline Op Answer γ} {memory : γ}
    (obeys : Obeys environment discipline memory program) (change : α → β) :
    Obeys environment discipline memory (program >>= fun result => pure (change result)) := by
  induction program generalizing memory with
  | done result => exact trivial
  | ask op next ih =>
      exact ⟨obeys.1, fun state outcome => ih _ (obeys.2 state outcome)⟩

/-- The state that callers share, what remains of their programs, and what is
remembered of the answers to them. -/
structure Pool (Op : Type) (Answer : Op → Type) (α σ γ ι : Type) where
  state : σ
  remaining : ι → Interaction Op Answer α
  memory : ι → γ

variable [DecidableEq ι]

/-- A caller takes its next step with the given outcome. -/
def Pool.step (environment : Environment Op Answer σ ω) (discipline : Discipline Op Answer γ)
    (pool : Pool Op Answer α σ γ ι) (turn : ι × ω) : Pool Op Answer α σ γ ι :=
  match pool.remaining turn.1 with
  | .done _ => pool
  | .ask op next =>
      let answer := environment.answer pool.state op turn.2
      { state := environment.after pool.state op turn.2
        remaining := Function.update pool.remaining turn.1 (next answer)
        memory := Function.update pool.memory turn.1
          (discipline.advance (pool.memory turn.1) op answer) }

/-- The pool after a schedule of turns. -/
def Pool.run (environment : Environment Op Answer σ ω) (discipline : Discipline Op Answer γ)
    (pool : Pool Op Answer α σ γ ι) (schedule : List (ι × ω)) : Pool Op Answer α σ γ ι :=
  schedule.foldl (Pool.step environment discipline) pool

/-- A condition holds of every turn of a schedule in the pool it meets. -/
def Pool.EachTurn (environment : Environment Op Answer σ ω) (discipline : Discipline Op Answer γ)
    (condition : Pool Op Answer α σ γ ι → ι × ω → Prop) :
    Pool Op Answer α σ γ ι → List (ι × ω) → Prop
  | _, [] => True
  | pool, turn :: rest =>
      condition pool turn ∧
        Pool.EachTurn environment discipline condition (pool.step environment discipline turn) rest

/-- Programs that nobody has answered yet. -/
def Pool.start (discipline : Discipline Op Answer γ) (state : σ)
    (programs : ι → Interaction Op Answer α) : Pool Op Answer α σ γ ι where
  state := state
  remaining := programs
  memory _ := discipline.fresh

section

variable {environment : Environment Op Answer σ ω} {discipline : Discipline Op Answer γ}
  {pool : Pool Op Answer α σ γ ι}

/-- Every caller obeys the discipline, and the invariant holds of the state and
the memories. -/
structure Pool.Sound (environment : Environment Op Answer σ ω)
    (discipline : Discipline Op Answer γ) (invariant : σ → (ι → γ) → Prop)
    (pool : Pool Op Answer α σ γ ι) : Prop where
  obeys : ∀ caller, Obeys environment discipline (pool.memory caller) (pool.remaining caller)
  holds : invariant pool.state pool.memory

theorem Pool.Sound.step {invariant : σ → (ι → γ) → Prop} {turn : ι × ω}
    (sound : pool.Sound environment discipline invariant)
    (keeps : ∀ op next, pool.remaining turn.1 = .ask op next →
      discipline.allows (pool.memory turn.1) op →
      invariant (environment.after pool.state op turn.2)
        (Function.update pool.memory turn.1 (discipline.advance (pool.memory turn.1) op
          (environment.answer pool.state op turn.2)))) :
    (pool.step environment discipline turn).Sound environment discipline invariant := by
  unfold Pool.step
  cases remaining : pool.remaining turn.1 with
  | done result => exact sound
  | ask op next =>
      have own := sound.obeys turn.1
      rw [remaining] at own
      refine ⟨?_, keeps op next remaining own.1⟩
      intro caller
      by_cases same : caller = turn.1
      · subst same
        simp only [Function.update_self]
        exact own.2 pool.state turn.2
      · simp only [Function.update_of_ne same]
        exact sound.obeys caller

theorem Pool.Sound.run
    {invariant : σ → (ι → γ) → Prop} {admitted : Pool Op Answer α σ γ ι → ι × ω → Prop}
    (keeps : ∀ (pool : Pool Op Answer α σ γ ι) turn op next,
      invariant pool.state pool.memory → admitted pool turn →
      pool.remaining turn.1 = .ask op next → discipline.allows (pool.memory turn.1) op →
      invariant (environment.after pool.state op turn.2)
        (Function.update pool.memory turn.1 (discipline.advance (pool.memory turn.1) op
          (environment.answer pool.state op turn.2))))
    (sound : pool.Sound environment discipline invariant)
    (schedule : List (ι × ω))
    (allAdmitted : pool.EachTurn environment discipline admitted schedule) :
    (pool.run environment discipline schedule).Sound environment discipline invariant := by
  induction schedule generalizing pool with
  | nil => exact sound
  | cons turn rest ih =>
      apply ih
      · exact sound.step fun op next remaining allowed =>
          keeps pool turn op next sound.holds allAdmitted.1 remaining allowed
      · exact allAdmitted.2

end

/-- Wherever a program returns, what is remembered of it is closed. -/
def EndsIn (environment : Environment Op Answer σ ω) (discipline : Discipline Op Answer γ)
    (closed : γ → Prop) : γ → Interaction Op Answer α → Prop
  | memory, .done _ => closed memory
  | memory, .ask op next => ∀ state outcome,
      EndsIn environment discipline closed
        (discipline.advance memory op (environment.answer state op outcome))
        (next (environment.answer state op outcome))

theorem Pool.endsIn_run {discipline : Discipline Op Answer γ} {closed : γ → Prop}
    {pool : Pool Op Answer α σ γ ι}
    (ends : ∀ caller,
      EndsIn environment discipline closed (pool.memory caller) (pool.remaining caller))
    (schedule : List (ι × ω))
    (caller : ι) :
    EndsIn environment discipline closed ((pool.run environment discipline schedule).memory caller)
      ((pool.run environment discipline schedule).remaining caller) := by
  induction schedule generalizing pool with
  | nil => exact ends caller
  | cons turn rest ih =>
      apply ih
      intro other
      unfold Pool.step
      cases remaining : pool.remaining turn.1 with
      | done result => exact ends other
      | ask op next =>
          have own := ends turn.1
          rw [remaining] at own
          by_cases same : other = turn.1
          · subst same
            simp only [Function.update_self]
            exact own pool.state turn.2
          · simp only [Function.update_of_ne same]
            exact ends other

end Interaction
end Trstctl
