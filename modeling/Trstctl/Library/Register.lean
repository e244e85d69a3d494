import Mathlib.Data.List.Infix
import Mathlib.Order.Basic

/-!
# Checked writes to a shared register

Callers that read a register, check what they read and then overwrite the
register with a value of their own, in any interleaving.  The check keeps a
caller from writing below what it read; it does not see what others write
between its read and its write.
-/

namespace Trstctl.Register

/-- Where a caller is. -/
inductive Phase (α : Type) where
  | idle
  | checking (last : Option α)
  | finished

/-- The register and its callers. -/
structure System (ι α : Type) where
  stored : Option α
  phase : ι → Phase α

/-- What a caller does when it is scheduled. -/
inductive Event (ι : Type) where
  | read (caller : ι)
  | accept (caller : ι)
  | reject (caller : ι)
  | rest (caller : ι)
deriving DecidableEq

def Event.accepted {ι : Type} : Event ι → Option ι
  | .accept caller => some caller
  | _ => none

/-- The values callers write, and their checks of what they read. -/
structure Protocol (ι α : Type) where
  value : ι → α
  check : ι → Option α → Bool

variable {ι α : Type}
variable [DecidableEq ι]

/-- The system in which a caller has gone on to another phase. -/
def System.enter (system : System ι α) (caller : ι) (phase : Phase α) : System ι α :=
  { system with phase := fun other => if other = caller then phase else system.phase other }

theorem System.enter_self {system : System ι α} {caller : ι} {phase : Phase α}
    (already : system.phase caller = phase) :
    system.enter caller phase = system := by
  have phases : (fun other => if other = caller then phase else system.phase other) =
      system.phase := by
    funext other
    split_ifs with same
    · rw [same, already]
    · rfl
  rw [System.enter, phases]

/-- The next step of a caller: it reads, or it checks what it read and writes. -/
def step (protocol : Protocol ι α) (system : System ι α) (caller : ι) : Event ι × System ι α :=
  match system.phase caller with
  | .idle => (.read caller, system.enter caller (.checking system.stored))
  | .checking last =>
      if protocol.check caller last then
        (.accept caller,
          { system.enter caller .finished with stored := some (protocol.value caller) })
      else (.reject caller, system.enter caller .finished)
  | .finished => (.rest caller, system)

/-- The events of a schedule and the system after it. -/
def run (protocol : Protocol ι α) (initial : Option α)
    (schedule : List ι) : List (Event ι) × System ι α :=
  schedule.foldl
    (fun (reached : List (Event ι) × System ι α) caller =>
      (reached.1 ++ [(step protocol reached.2 caller).1], (step protocol reached.2 caller).2))
    ([], { stored := initial, phase := fun _ => .idle })

variable (protocol : Protocol ι α)

theorem run_concat (initial : Option α) (schedule : List ι) (caller : ι) :
    run protocol initial (schedule ++ [caller]) =
      ((run protocol initial schedule).1 ++
          [(step protocol (run protocol initial schedule).2 caller).1],
        (step protocol (run protocol initial schedule).2 caller).2) := by
  rw [run, List.foldl_append]
  rfl

theorem run_events_front (initial : Option α) {earlier later : List ι}
    (shorter : earlier <+: later) :
    (run protocol initial earlier).1 <+: (run protocol initial later).1 := by
  obtain ⟨more, rfl⟩ := shorter
  induction more using List.reverseRecOn with
  | nil => rw [List.append_nil]
  | append_singleton more caller ih =>
      rw [← List.append_assoc, run_concat]
      exact ih.trans (List.prefix_append _ _)

theorem step_cases (system : System ι α) (caller : ι) :
    (system.phase caller = .idle ∧
        step protocol system caller =
          (.read caller, system.enter caller (.checking system.stored))) ∨
      (∃ last, system.phase caller = .checking last ∧ protocol.check caller last = true ∧
        step protocol system caller =
          (.accept caller,
            { system.enter caller .finished with stored := some (protocol.value caller) })) ∨
      (∃ last, system.phase caller = .checking last ∧
        step protocol system caller = (.reject caller, system.enter caller .finished)) ∨
      (system.phase caller = .finished ∧ step protocol system caller = (.rest caller, system)) := by
  unfold step
  cases phase : system.phase caller with
  | idle => exact Or.inl ⟨rfl, rfl⟩
  | checking last =>
      cases checked : protocol.check caller last with
      | true => exact Or.inr (Or.inl ⟨last, rfl, checked, by simp [checked]⟩)
      | false => exact Or.inr (Or.inr (Or.inl ⟨last, rfl, by simp [checked]⟩))
  | finished => exact Or.inr (Or.inr (Or.inr ⟨rfl, rfl⟩))

section Order

variable [Preorder α]

/-- One content of the register is not above another; an empty register is
below every value. -/
def AtMost (first second : Option α) : Prop :=
  ∀ value ∈ first, ∃ other ∈ second, value ≤ other

/-- The check of every caller keeps it from writing below what it read. -/
def Protocol.Checked (protocol : Protocol ι α) : Prop :=
  ∀ caller last, protocol.check caller last = true → AtMost last (some (protocol.value caller))

/-- The register never goes down along a schedule. -/
def NeverDecreases (protocol : Protocol ι α) (initial : Option α) (schedule : List ι) : Prop :=
  ∀ earlier later, earlier <+: later → later <+: schedule →
    AtMost (run protocol initial earlier).2.stored (run protocol initial later).2.stored

/-- No caller is accepted after one that was accepted with a higher value. -/
def AcceptsInOrder (protocol : Protocol ι α) (initial : Option α) (schedule : List ι) : Prop :=
  ((run protocol initial schedule).1.filterMap Event.accepted).Pairwise fun first second =>
    protocol.value first ≤ protocol.value second

/-- No caller is accepted after one with a higher value was accepted between its
own read and its own write. -/
def NoneOvertaken (protocol : Protocol ι α) (initial : Option α) (schedule : List ι) : Prop :=
  ∀ before caller between after other,
    (run protocol initial schedule).1 =
      before ++ .read caller :: (between ++ .accept caller :: after) →
    .accept other ∈ between →
    protocol.value other ≤ protocol.value caller

theorem AtMost.refl (content : Option α) : AtMost content content :=
  fun value member => ⟨value, member, le_refl value⟩

theorem AtMost.trans {first second third : Option α} (lower : AtMost first second)
    (upper : AtMost second third) :
    AtMost first third := by
  intro value member
  obtain ⟨middle, middleMember, below⟩ := lower value member
  obtain ⟨other, otherMember, above⟩ := upper middle middleMember
  exact ⟨other, otherMember, below.trans above⟩

theorem atMost_some {first second : α} :
    AtMost (some first) (some second) ↔ first ≤ second := by
  simp [AtMost]

variable {protocol : Protocol ι α} {initial : Option α}

theorem NoneOvertaken.front {earlier later : List ι} (free : NoneOvertaken protocol initial later)
    (shorter : earlier <+: later) :
    NoneOvertaken protocol initial earlier := by
  intro before caller between after other events member
  obtain ⟨more, later_eq⟩ := run_events_front protocol initial shorter
  rw [events] at later_eq
  exact free before caller between (after ++ more) other
    (by rw [← later_eq]; simp) member

/-- What holds after a schedule in which no caller is overtaken.  A caller that
has read finds in the register what it read, or what another caller wrote
since. -/
structure Ordered (protocol : Protocol ι α) (events : List (Event ι)) (system : System ι α) :
    Prop where
  accepted : ∀ caller, .accept caller ∈ events →
    AtMost (some (protocol.value caller)) system.stored
  windows : ∀ caller last, system.phase caller = .checking last →
    ∃ before between, events = before ++ .read caller :: between ∧
      (system.stored = last ∨
        ∃ other, .accept other ∈ between ∧ system.stored = some (protocol.value other))
  inOrder : (events.filterMap Event.accepted).Pairwise fun first second =>
    protocol.value first ≤ protocol.value second

namespace Ordered

variable {protocol : Protocol ι α}
variable {events : List (Event ι)}
variable {system : System ι α}
variable {caller : ι}

theorem quiet (ordered : Ordered protocol events system) {event : Event ι} {phase : Phase α}
    (noWrite : event.accepted = none)
    (window : ∀ last, phase = .checking last → event = .read caller ∧ last = system.stored) :
    Ordered protocol (events ++ [event]) (system.enter caller phase) where
  accepted other member := by
    rcases List.mem_append.mp member with earlier | now
    · exact ordered.accepted other earlier
    · rw [← List.mem_singleton.mp now] at noWrite
      cases noWrite
  windows other last checking := by
    simp only [System.enter] at checking ⊢
    split_ifs at checking with same
    · obtain ⟨event_eq, last_eq⟩ := window last checking
      exact ⟨events, [], by rw [event_eq, same], Or.inl last_eq.symm⟩
    · obtain ⟨before, between, events_eq, content⟩ := ordered.windows other last checking
      refine ⟨before, between ++ [event], by rw [events_eq]; simp, ?_⟩
      rcases content with unchanged | ⟨writer, member, written⟩
      · exact Or.inl unchanged
      · exact Or.inr ⟨writer, List.mem_append_left _ member, written⟩
  inOrder := by
    rw [List.filterMap_append, List.filterMap_cons_none noWrite, List.filterMap_nil,
      List.append_nil]
    exact ordered.inOrder

theorem write (ordered : Ordered protocol events system)
    (rises : AtMost system.stored (some (protocol.value caller))) :
    Ordered protocol (events ++ [.accept caller])
      { system.enter caller .finished with stored := some (protocol.value caller) } where
  accepted other member := by
    rcases List.mem_append.mp member with earlier | now
    · exact (ordered.accepted other earlier).trans rises
    · obtain rfl := Event.accept.inj (List.mem_singleton.mp now)
      exact AtMost.refl _
  windows other last checking := by
    simp only [System.enter] at checking
    split_ifs at checking
    obtain ⟨before, between, events_eq, -⟩ := ordered.windows other last checking
    exact ⟨before, between ++ [.accept caller], by rw [events_eq]; simp,
      Or.inr ⟨caller, List.mem_append_right _ (List.mem_singleton_self _), rfl⟩⟩
  inOrder := by
    rw [List.filterMap_append, List.pairwise_append]
    refine ⟨ordered.inOrder, List.pairwise_singleton _ _, ?_⟩
    intro first member second last
    obtain rfl : second = caller := List.mem_singleton.mp last
    obtain ⟨event, eventMember, event_eq⟩ := List.mem_filterMap.mp member
    obtain rfl : event = .accept first := by
      cases event with
      | accept other =>
          obtain rfl := Option.some.inj event_eq
          rfl
      | read other => cases event_eq
      | reject other => cases event_eq
      | rest other => cases event_eq
    exact atMost_some.mp ((ordered.accepted first eventMember).trans rises)

end Ordered

variable {schedule : List ι}

/-- A step of a caller that is not overtaken keeps the order, and the register
does not go down. -/
theorem Ordered.step {caller : ι} (checked : protocol.Checked)
    (free : NoneOvertaken protocol initial (schedule ++ [caller]))
    (ordered : Ordered protocol (run protocol initial schedule).1
      (run protocol initial schedule).2) :
    Ordered protocol (run protocol initial (schedule ++ [caller])).1
        (run protocol initial (schedule ++ [caller])).2 ∧
      AtMost (run protocol initial schedule).2.stored
        (run protocol initial (schedule ++ [caller])).2.stored := by
  have events_eq := congrArg Prod.fst (run_concat protocol initial schedule caller)
  rw [run_concat]
  rcases step_cases protocol (run protocol initial schedule).2 caller with
    ⟨idle, step_eq⟩ | ⟨last, reading, passes, step_eq⟩ | ⟨last, reading, step_eq⟩ |
      ⟨finished, step_eq⟩
  · rw [step_eq]
    refine ⟨ordered.quiet rfl ?_, AtMost.refl _⟩
    intro last phase_eq
    exact ⟨rfl, (Phase.checking.inj phase_eq).symm⟩
  · have rises : AtMost (run protocol initial schedule).2.stored
        (some (protocol.value caller)) := by
      obtain ⟨before, between, split, content⟩ := ordered.windows caller last reading
      rcases content with unchanged | ⟨other, member, written⟩
      · rw [unchanged]
        exact checked caller last passes
      · rw [written, atMost_some]
        refine free before caller between [] other ?_ member
        rw [events_eq, step_eq, split]
        simp
    rw [step_eq]
    exact ⟨ordered.write rises, rises⟩
  · rw [step_eq]
    refine ⟨ordered.quiet rfl ?_, AtMost.refl _⟩
    intro last phase_eq
    cases phase_eq
  · rw [step_eq]
    refine ⟨?_, AtMost.refl _⟩
    have same : Ordered protocol ((run protocol initial schedule).1 ++ [.rest caller])
        ((run protocol initial schedule).2.enter caller .finished) :=
      ordered.quiet rfl fun last phase_eq => by cases phase_eq
    rwa [System.enter_self finished] at same

theorem ordered_run (checked : protocol.Checked) (free : NoneOvertaken protocol initial schedule) :
    Ordered protocol (run protocol initial schedule).1 (run protocol initial schedule).2 := by
  induction schedule using List.reverseRecOn with
  | nil =>
      exact
        { accepted := fun caller member => absurd member List.not_mem_nil
          windows := fun caller last checking => by cases checking
          inOrder := List.Pairwise.nil }
  | append_singleton schedule caller ih =>
      exact (Ordered.step checked free
        (ih (free.front (List.prefix_append _ _)))).1

theorem neverDecreases_of_noneOvertaken (checked : protocol.Checked)
    (free : NoneOvertaken protocol initial schedule) :
    NeverDecreases protocol initial schedule := by
  rintro earlier later ⟨more, rfl⟩ shorter
  induction more using List.reverseRecOn with
  | nil =>
      rw [List.append_nil]
      exact AtMost.refl _
  | append_singleton more caller ih =>
      rw [← List.append_assoc] at shorter ⊢
      have before := (List.prefix_append (earlier ++ more) [caller]).trans shorter
      exact (ih before).trans
        (Ordered.step checked (free.front shorter)
          (ordered_run checked (free.front before))).2

/-- Checked callers keep the register from going down, and are accepted in the
order of their values, exactly when none of them is overtaken between its read
and its write. -/
theorem inOrder_iff_noneOvertaken (checked : protocol.Checked) :
    NeverDecreases protocol initial schedule ∧ AcceptsInOrder protocol initial schedule ↔
      NoneOvertaken protocol initial schedule := by
  constructor
  · rintro ⟨-, inOrder⟩ before caller between after other events member
    rw [AcceptsInOrder, events, List.filterMap_append, List.filterMap_cons_none rfl,
      List.filterMap_append, List.pairwise_append] at inOrder
    have pairs := (List.pairwise_append.mp inOrder.2.1).2.2
    exact pairs other (List.mem_filterMap.mpr ⟨_, member, rfl⟩) caller
      (List.mem_filterMap.mpr ⟨_, List.mem_cons_self, rfl⟩)
  · intro free
    exact ⟨neverDecreases_of_noneOvertaken checked free, (ordered_run checked free).inOrder⟩

end Order

end Trstctl.Register
