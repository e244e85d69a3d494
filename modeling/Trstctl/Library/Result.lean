import Mathlib.Data.List.Basic

/-!
# Fallible computations

Inversion of computations in `Except` that succeed: a sequence succeeds when
its parts do, a guard when it does not fire, a loop when every iteration does.
-/

namespace Trstctl
namespace Result

variable {ε α β : Type}

theorem bind_eq_ok {first : Except ε α} {second : α → Except ε β} {result : β} :
    (first >>= second) = .ok result ↔
      ∃ value, first = .ok value ∧ second value = .ok result := by
  cases first with
  | error error => simp [bind, Except.bind]
  | ok value => simp [bind, Except.bind]

theorem isOk_iff {result : Except ε α} : result.isOk = true ↔ ∃ value, result = .ok value := by
  cases result with
  | error error => simp [Except.isOk, Except.toBool]
  | ok value => simp [Except.isOk, Except.toBool]

theorem toOption_eq_some {result : Except ε α} {value : α} :
    result.toOption = some value ↔ result = .ok value := by
  cases result with
  | error error => simp [Except.toOption]
  | ok value => simp [Except.toOption]

variable {condition : Prop}

theorem ite_bind [Decidable condition] {first second : Except ε α} {rest : α → Except ε β} :
    ((if condition then first else second) >>= rest) =
      if condition then first >>= rest else second >>= rest := by
  split
  · rfl
  · rfl

theorem throw_bind {error : ε} {rest : α → Except ε β} :
    ((throw error : Except ε α) >>= rest) = throw error :=
  rfl

theorem guard_eq_ok [Decidable condition]
    {error : ε} {skipped : α → Except ε β} {rest : Except ε β} {result : β} :
    (if condition then (throw error : Except ε α) >>= skipped else rest) = .ok result ↔
      ¬ condition ∧ rest = .ok result := by
  by_cases fires : condition
  · simp [fires, bind, Except.bind, throw, throwThe, MonadExceptOf.throw]
  · simp [fires]

theorem lastGuard_eq_ok [Decidable condition] {error : ε} {value result : α} :
    (if condition then (throw error : Except ε α) else pure value) = .ok result ↔
      ¬ condition ∧ value = result := by
  by_cases fires : condition
  · simp [fires, throw, throwThe, MonadExceptOf.throw]
  · simp [fires, pure, Except.pure]

theorem mapError_eq_ok {ε' : Type} {computation : Except ε α} {wrap : ε → ε'} {result : α} :
    computation.mapError wrap = .ok result ↔ computation = .ok result := by
  cases computation with
  | error error => simp [Except.mapError]
  | ok value => simp [Except.mapError]

theorem elim_throw_eq_ok {value : Option α} {error : ε} {result : α} :
    value.elim (throw error : Except ε α) pure = .ok result ↔ value = some result := by
  cases value with
  | none => simp [throw, throwThe, MonadExceptOf.throw]
  | some found => simp [pure, Except.pure]

variable {items : List α}

theorem forM_eq_ok {body : α → Except ε Unit} :
    items.forM body = .ok () ↔ ∀ item ∈ items, body item = .ok () := by
  induction items with
  | nil => simp [pure, Except.pure]
  | cons first rest ih =>
      rw [List.forM_eq_forM, List.forM_cons, bind_eq_ok]
      rw [List.forM_eq_forM] at ih
      simp only [ih, List.forall_mem_cons]
      exact ⟨fun ⟨_, head, tail⟩ => ⟨head, tail⟩, fun ⟨head, tail⟩ => ⟨(), head, tail⟩⟩

variable {body : α → Except ε β}

theorem exists_of_mapM_eq_ok {results : List β} (succeeds : items.mapM body = .ok results) :
    ∀ item ∈ items, ∃ result ∈ results, body item = .ok result := by
  induction items generalizing results with
  | nil => exact fun item member => absurd member List.not_mem_nil
  | cons first rest ih =>
      rw [List.mapM_cons, bind_eq_ok] at succeeds
      obtain ⟨head, head_eq, tail⟩ := succeeds
      obtain ⟨others, others_eq, results_eq⟩ := bind_eq_ok.mp tail
      rw [← Except.ok.inj results_eq]
      refine List.forall_mem_cons.mpr ⟨⟨head, List.mem_cons_self, head_eq⟩, ?_⟩
      intro item member
      obtain ⟨result, resultMember, result_eq⟩ := ih others_eq item member
      exact ⟨result, List.mem_cons_of_mem _ resultMember, result_eq⟩

theorem exists_mapM_eq_ok_iff :
    (∃ results, items.mapM body = .ok results) ↔
      ∀ item ∈ items, ∃ result, body item = .ok result := by
  constructor
  · rintro ⟨results, succeeds⟩ item member
    obtain ⟨result, -, result_eq⟩ := exists_of_mapM_eq_ok succeeds item member
    exact ⟨result, result_eq⟩
  · intro each
    induction items with
    | nil => exact ⟨[], rfl⟩
    | cons first rest ih =>
        obtain ⟨⟨head, head_eq⟩, tail⟩ := List.forall_mem_cons.mp each
        obtain ⟨others, others_eq⟩ := ih tail
        refine ⟨head :: others, ?_⟩
        rw [List.mapM_cons, head_eq, others_eq]
        rfl

theorem map_eq_of_mapM {γ : Type} {results : List β} {ofItem : α → γ} {ofResult : β → γ}
    (read : ∀ item result, body item = .ok result → ofItem item = ofResult result)
    (succeeds : items.mapM body = .ok results) :
    items.map ofItem = results.map ofResult := by
  induction items generalizing results with
  | nil =>
      rw [List.mapM_nil] at succeeds
      rw [← Except.ok.inj succeeds]
      rfl
  | cons first rest ih =>
      rw [List.mapM_cons, bind_eq_ok] at succeeds
      obtain ⟨head, head_eq, tail⟩ := succeeds
      obtain ⟨others, others_eq, results_eq⟩ := bind_eq_ok.mp tail
      rw [← Except.ok.inj results_eq, List.map_cons, List.map_cons, read first head head_eq,
        ih others_eq]

theorem exists_of_mem_mapM {results : List β} (succeeds : items.mapM body = .ok results) :
    ∀ result ∈ results, ∃ item ∈ items, body item = .ok result := by
  induction items generalizing results with
  | nil =>
      rw [List.mapM_nil] at succeeds
      rw [← Except.ok.inj succeeds]
      exact fun result member => absurd member List.not_mem_nil
  | cons first rest ih =>
      rw [List.mapM_cons, bind_eq_ok] at succeeds
      obtain ⟨head, head_eq, tail⟩ := succeeds
      obtain ⟨others, others_eq, results_eq⟩ := bind_eq_ok.mp tail
      rw [← Except.ok.inj results_eq]
      refine List.forall_mem_cons.mpr ⟨⟨first, List.mem_cons_self, head_eq⟩, ?_⟩
      intro result member
      obtain ⟨item, itemMember, item_eq⟩ := ih others_eq result member
      exact ⟨item, List.mem_cons_of_mem _ itemMember, item_eq⟩

theorem exists_foldlM_eq_ok_iff {σ : Type} {body : σ → α → Except ε σ} {good : α → Prop}
    (each : ∀ state item, (∃ next, body state item = .ok next) ↔ good item) (state : σ) :
    (∃ after, items.foldlM body state = .ok after) ↔ ∀ item ∈ items, good item := by
  induction items generalizing state with
  | nil => exact ⟨fun _ _ member => absurd member List.not_mem_nil, fun _ => ⟨state, rfl⟩⟩
  | cons first rest ih =>
      simp only [List.foldlM_cons, bind_eq_ok, List.forall_mem_cons]
      constructor
      · rintro ⟨after, next, head, tail⟩
        exact ⟨(each state first).mp ⟨next, head⟩, (ih next).mp ⟨after, tail⟩⟩
      · rintro ⟨head, tail⟩
        obtain ⟨next, step⟩ := (each state first).mpr head
        obtain ⟨after, further⟩ := (ih next).mpr tail
        exact ⟨after, next, step, further⟩

theorem foldlM_keeps {σ : Type} {body : σ → α → Except ε σ} {state after : σ} (property : σ → Prop)
    (keeps : ∀ item ∈ items, ∀ {before next}, body before item = .ok next →
      property before → property next)
    (succeeds : items.foldlM body state = .ok after)
    (holds : property state) :
    property after := by
  induction items generalizing state with
  | nil =>
      cases succeeds
      exact holds
  | cons first rest ih =>
      obtain ⟨head, tail⟩ := List.forall_mem_cons.mp keeps
      rw [List.foldlM_cons] at succeeds
      obtain ⟨between, headSucceeds, restSucceeds⟩ := bind_eq_ok.mp succeeds
      exact ih tail restSucceeds (head headSucceeds holds)

end Result

/-!
## Computations without a fault

One error of a fallible computation is singled out as a fault.  A sequence is
without the fault when its parts are, and a loop when its iterations are.
-/

variable {ε α β : Type}

/-- The computation does not end with the fault. -/
def Faultless (fault : ε) (computation : Except ε α) : Prop :=
  computation ≠ .error fault

namespace Faultless

variable {fault : ε}

theorem ok (value : α) : Faultless fault (Except.ok value) :=
  nofun

theorem error {failure : ε} (different : failure ≠ fault) :
    Faultless fault (Except.error failure : Except ε α) :=
  fun same => different (Except.error.inj same)

theorem bind_iff {first : Except ε α} {second : α → Except ε β} :
    Faultless fault (first >>= second) ↔
      Faultless fault first ∧ ∀ value, first = .ok value → Faultless fault (second value) := by
  cases first with
  | error failure => simp [Faultless, bind, Except.bind]
  | ok value => simp [Faultless, bind, Except.bind]

theorem bind {first : Except ε α} {second : α → Except ε β} (before : Faultless fault first)
    (after : ∀ value, first = .ok value → Faultless fault (second value)) :
    Faultless fault (first >>= second) :=
  bind_iff.mpr ⟨before, after⟩

theorem mapM {items : List α} {body : α → Except ε β}
    (each : ∀ item ∈ items, Faultless fault (body item)) :
    Faultless fault (items.mapM body) := by
  induction items with
  | nil => exact ok _
  | cons first rest ih =>
      obtain ⟨head, tail⟩ := List.forall_mem_cons.mp each
      rw [List.mapM_cons]
      refine head.bind fun value _ => ?_
      exact (ih tail).bind fun others _ => ok _

theorem filterMapM {items : List α} {body : α → Except ε (Option β)}
    (each : ∀ item ∈ items, Faultless fault (body item)) :
    Faultless fault (items.filterMapM body) := by
  induction items with
  | nil => exact ok _
  | cons first rest ih =>
      obtain ⟨head, tail⟩ := List.forall_mem_cons.mp each
      rw [List.filterMapM_cons]
      refine head.bind fun value _ => ?_
      cases value with
      | none => exact ih tail
      | some value => exact (ih tail).bind fun others _ => ok _

theorem foldlM {σ : Type} {items : List α} {body : σ → α → Except ε σ}
    (each : ∀ item ∈ items, ∀ state, Faultless fault (body state item)) (state : σ) :
    Faultless fault (items.foldlM body state) := by
  induction items generalizing state with
  | nil => exact ok _
  | cons first rest ih =>
      obtain ⟨head, tail⟩ := List.forall_mem_cons.mp each
      rw [List.foldlM_cons]
      exact (head state).bind fun next _ => ih tail next

end Faultless

/-!
## Unwinding

A run over the events of everyone, and the run over the events of one party
only.  Where a relation between the two states is kept by a step of both on an
event of the party and by a step of the first on any other event, the second
run succeeds when the first does and the states stay related.
-/

namespace Unwinding

variable {State Event ε : Type}

/-- A relation between the state of all events and that of a party's own. -/
structure Unwinds (step : State → Event → Except ε State) (own : Event → Bool)
    (Related : State → State → Prop) : Prop where
  own_step : ∀ {full part event next}, Related full part → own event = true →
    step full event = .ok next → ∃ partNext, step part event = .ok partNext ∧ Related next partNext
  other_step : ∀ {full part event next}, Related full part → own event = false →
    step full event = .ok next → Related next part

theorem Unwinds.exists_run {step : State → Event → Except ε State} {own : Event → Bool}
    {Related : State → State → Prop} (unwinds : Unwinds step own Related)
    {events : List Event} {full part final : State} (related : Related full part)
    (run : events.foldlM step full = .ok final) :
    ∃ partFinal, (events.filter own).foldlM step part = .ok partFinal ∧
      Related final partFinal := by
  induction events generalizing full part with
  | nil =>
      obtain rfl := Except.ok.inj run
      exact ⟨part, rfl, related⟩
  | cons event rest ih =>
      rw [List.foldlM_cons] at run
      obtain ⟨next, stepped, run⟩ := Result.bind_eq_ok.mp run
      cases isOwn : own event with
      | true =>
          obtain ⟨partNext, partStepped, nextRelated⟩ := unwinds.own_step related isOwn stepped
          obtain ⟨partFinal, partRun, finalRelated⟩ := ih nextRelated run
          refine ⟨partFinal, ?_, finalRelated⟩
          rw [List.filter_cons_of_pos isOwn, List.foldlM_cons]
          exact Result.bind_eq_ok.mpr ⟨partNext, partStepped, partRun⟩
      | false =>
          have nextRelated := unwinds.other_step related isOwn stepped
          obtain ⟨partFinal, partRun, finalRelated⟩ := ih nextRelated run
          refine ⟨partFinal, ?_, finalRelated⟩
          rw [List.filter_cons_of_neg (Bool.eq_false_iff.mp isOwn)]
          exact partRun

end Unwinding
end Trstctl
