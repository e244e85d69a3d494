import Trstctl.Decommission.Depstate.OwnEvents

/-!
# Tenants do not interfere

The sets of a key are the result of the changes that the events make to it, in
their order.  CA events, ceremonies and revocations change the keys of the
tenant of their envelope only.  The payloads of the first version name a tenant
of their own, which is not compared with the envelope, so the sets of a key are
independent of other tenants exactly as far as what another tenant's payload
adds to them is what the own events add.  A set keeps the first dependent of
each comparison key.
-/

namespace Trstctl.Decommission.Depstate

open Go (Bytes bytes)
open Result (bind_eq_ok)

/-- The four sets of a key. -/
inductive DependentSet where
  | registered
  | accounted
  | released
  | erasureDesignated

/-- The dependents of a set. -/
def KeyState.sets (state : KeyState) : DependentSet → List Dependent
  | .registered => state.registered
  | .accounted => state.accounted
  | .released => state.released
  | .erasureDesignated => state.erasureDesignated

/-- The sets that a projection gives for a key; they are empty for a key that it
does not have. -/
def projectedSets (projection : Projection) (key : ProjectionKey) : DependentSet → List Dependent :=
  ((projection.lookup key).map KeyState.sets).getD fun _ => []

/-- Both have the same dependents in every set. -/
def SameSets (left right : DependentSet → List Dependent) : Prop :=
  ∀ set dependent, dependent ∈ left set ↔ dependent ∈ right set

/-- The sets to which an operation adds its dependent. -/
def Operation.adds : Operation → DependentSet → Bool
  | .register, .registered => true
  | .release, .accounted => true
  | .release, .released => true
  | .erase, .registered => true
  | .erase, .accounted => true
  | .erase, .erasureDesignated => true
  | .account, .accounted => true
  | _, _ => false

/-- A registration or the change of a payload. -/
abbrev Step := Dependent × Operation

/-- The state after a step. -/
def KeyState.take (state : KeyState) (step : Step) : KeyState :=
  state.apply step.1 step.2

/-- The dependent that the first of the steps to add one with the comparison key
puts into a set.  Later steps with that key add nothing. -/
def firstAdded (steps : List Step) (set : DependentSet) (key : Bytes) : Option Dependent :=
  (steps.find? fun step => step.2.adds set && step.1.key == key).map Prod.fst

/-- The changes that an event makes to a key. -/
def stepsOn (codec : Codec) (key : ProjectionKey) (event : Event) : List Step :=
  (match caRegistrations codec event with
    | .ok registrations =>
        (registrations.filter fun registered =>
            key = ⟨registered.tenantID, registered.keyID⟩).map fun registered =>
          (registered.dependent, .register)
    | .error _ => []) ++
  (match decode codec event with
    | .ok payload =>
        ((payloadChange payload).toList.filter fun change => key = change.key).map fun change =>
          (change.dependent, change.operation)
    | .error _ => [])

theorem sets_take {state other : KeyState} (same : state.sets = other.sets) (step : Step) :
    (state.take step).sets = (other.take step).sets := by
  obtain ⟨dependent, operation⟩ := step
  have registered : state.registered = other.registered := congrFun same .registered
  have accounted : state.accounted = other.accounted := congrFun same .accounted
  have released : state.released = other.released := congrFun same .released
  have erased : state.erasureDesignated = other.erasureDesignated :=
    congrFun same .erasureDesignated
  funext set
  cases operation with
  | register =>
      cases set <;>
        simp only [KeyState.take, KeyState.apply, KeyState.register, KeyState.sets, *]
  | release =>
      by_cases present : hasKey other.released dependent = true
      · simp [KeyState.take, KeyState.apply, KeyState.release, *]
      · cases set <;>
          simp [KeyState.take, KeyState.apply, KeyState.release, KeyState.account, KeyState.sets, *]
  | erase =>
      by_cases present : hasKey other.erasureDesignated dependent = true
      · cases set <;>
          simp [KeyState.take, KeyState.apply, KeyState.erase, KeyState.register, KeyState.sets, *]
      · cases set <;>
          simp [KeyState.take, KeyState.apply, KeyState.erase, KeyState.register, KeyState.account,
            KeyState.sets, *]
  | account =>
      cases set <;> simp only [KeyState.take, KeyState.apply, KeyState.account, KeyState.sets, *]

theorem sets_foldl_take (steps : List Step) :
    ∀ {state other : KeyState}, state.sets = other.sets →
      (steps.foldl KeyState.take state).sets = (steps.foldl KeyState.take other).sets := by
  induction steps with
  | nil =>
      intro state other same
      exact same
  | cons step rest ih =>
      intro state other same
      exact ih (sets_take same step)

variable {codec : Codec}

theorem sets_registerAll {event : Event} {position : Nat}
    (registrations : List DependencyRegisteredV1) (key : ProjectionKey) :
    ∀ {state result : FoldState},
      FoldState.registerAll codec event position registrations state = .ok result →
        (keyState result key).sets =
          (((registrations.filter fun registered =>
              key = ⟨registered.tenantID, registered.keyID⟩).map fun registered =>
            (registered.dependent, Operation.register)).foldl KeyState.take
              (keyState state key)).sets := by
  induction registrations with
  | nil =>
      intro state result success
      rw [← Except.ok.inj success]
      rfl
  | cons registered rest ih =>
      intro state result success
      simp only [FoldState.registerAll, bind_eq_ok] at success
      obtain ⟨builder, remembered, success⟩ := success
      have builderState := state_rememberManagedLeaf remembered
      rw [ih success, keyState_setBuilder]
      by_cases isKey : key = ⟨registered.tenantID, registered.keyID⟩
      · rw [if_pos isKey, List.filter_cons_of_pos (by simpa using isKey), List.map_cons,
          List.foldl_cons]
        apply sets_foldl_take
        rw [builderState, ← isKey]
        rfl
      · rw [if_neg isKey, List.filter_cons_of_neg (by simpa using isKey)]

theorem sets_foldEvent {index : Nat} {event : Event} {state result : FoldState}
    (success : foldEvent codec index event state = .ok result) (key : ProjectionKey) :
    (keyState result key).sets =
      ((stepsOn codec key event).foldl KeyState.take (keyState state key)).sets := by
  simp only [foldEvent, bind_eq_ok, atEvent_eq_ok] at success
  obtain ⟨started, ceremony, registrations, derived, registered, registers, remembered,
    revocations, payload, decoded, applies⟩ := success
  have afterRegistrations := sets_registerAll registrations key registers
  rw [keyState_applyReleaseCeremonyEvent ceremony] at afterRegistrations
  have afterPayload := keyState_applyPayload applies key
  rw [keyState_rememberRevocations revocations] at afterPayload
  unfold stepsOn
  rw [derived, decoded, List.foldl_append]
  dsimp only
  cases isChange : payloadChange payload with
  | none =>
      simp only [isChange] at afterPayload
      rw [afterPayload]
      exact afterRegistrations
  | some change =>
      simp only [isChange] at afterPayload
      by_cases isKey : key = change.key
      · rw [if_pos isKey] at afterPayload
        rw [afterPayload, Option.toList_some, List.filter_cons_of_pos (by simpa using isKey)]
        exact sets_take afterRegistrations (change.dependent, change.operation)
      · rw [if_neg isKey] at afterPayload
        rw [afterPayload, Option.toList_some, List.filter_cons_of_neg (by simpa using isKey)]
        exact afterRegistrations

theorem sets_foldEvents (key : ProjectionKey) (events : List Event) :
    ∀ {index : Nat} {state result : FoldState},
      foldEvents codec index events state = .ok result →
        (keyState result key).sets =
          ((events.flatMap (stepsOn codec key)).foldl KeyState.take (keyState state key)).sets := by
  induction events with
  | nil =>
      intro index state result success
      rw [← Except.ok.inj success]
      rfl
  | cons event rest ih =>
      intro index state result success
      obtain ⟨next, step, success⟩ := bind_eq_ok.mp success
      rw [ih success, List.flatMap_cons, List.foldl_append]
      exact sets_foldl_take _ (sets_foldEvent step key)

variable {events : List Event} {projection : Projection}

theorem projectedSets_fold (success : fold codec events = .ok projection) (key : ProjectionKey) :
    projectedSets projection key =
      ((events.flatMap (stepsOn codec key)).foldl KeyState.take
        (newKeyBuilder key).state).sets := by
  obtain ⟨state, folded, success⟩ := bind_eq_ok.mp success
  have sets := sets_foldEvents key events folded
  rw [← Except.ok.inj success, projectedSets, Go.MapOf.lookup_map]
  unfold keyState FoldState.builderFor at sets
  cases found : state.builders.lookup key with
  | some builder =>
      rw [found] at sets
      exact sets
  | none =>
      rw [found] at sets
      refine Eq.trans ?_ sets
      funext set
      cases set <;> rfl

variable {dependent : Dependent}

theorem appendUnique_of_hasKey {dependents : List Dependent}
    (present : hasKey dependents dependent = true) :
    appendUnique dependents dependent = dependents :=
  if_pos present

theorem appendUnique_of_not_hasKey {dependents : List Dependent}
    (absent : ¬ hasKey dependents dependent = true) :
    appendUnique dependents dependent = dependents ++ [dependent] :=
  if_neg absent

/-- A change adds its dependent to the sets of its operation. -/
theorem sets_apply {state : KeyState} (accounting : Accounting state) (dependent : Dependent)
    (operation : Operation) (set : DependentSet) :
    (state.apply dependent operation).sets set =
      if operation.adds set then appendUnique (state.sets set) dependent else state.sets set := by
  cases operation with
  | register => cases set <;> rfl
  | release =>
      rw [KeyState.apply, KeyState.release]
      by_cases present : hasKey state.released dependent = true
      · have known := accounting dependent (Or.inl present)
        rw [if_pos present]
        cases set with
        | released => exact (appendUnique_of_hasKey present).symm
        | accounted => exact (appendUnique_of_hasKey known).symm
        | registered => rfl
        | erasureDesignated => rfl
      · rw [if_neg present]
        cases set with
        | released => exact (appendUnique_of_not_hasKey present).symm
        | accounted => rfl
        | registered => rfl
        | erasureDesignated => rfl
  | erase =>
      rw [KeyState.apply, KeyState.erase]
      show KeyState.sets (if hasKey state.erasureDesignated dependent = true then _ else _) set = _
      by_cases present : hasKey state.erasureDesignated dependent = true
      · have known := accounting dependent (Or.inr present)
        rw [if_pos present]
        cases set with
        | erasureDesignated => exact (appendUnique_of_hasKey present).symm
        | accounted => exact (appendUnique_of_hasKey known).symm
        | registered => rfl
        | released => rfl
      · rw [if_neg present]
        cases set with
        | erasureDesignated => exact (appendUnique_of_not_hasKey present).symm
        | accounted => rfl
        | registered => rfl
        | released => rfl
  | account => cases set <;> rfl

theorem firstAdded_cons (step : Step) (rest : List Step) (set : DependentSet) (key : Bytes) :
    firstAdded (step :: rest) set key =
      if step.2.adds set = true ∧ step.1.key = key then some step.1
      else firstAdded rest set key := by
  unfold firstAdded
  by_cases first : step.2.adds set = true ∧ step.1.key = key
  · rw [List.find?_cons_of_pos (by simpa using first), if_pos first, Option.map_some]
  · rw [List.find?_cons_of_neg (by simpa using first), if_neg first]

/-- The dependents of a set after some steps: those it had, and the first added
of every comparison key that it did not have. -/
theorem mem_foldl_take (steps : List Step) (set : DependentSet) (dependent : Dependent) :
    ∀ {state : KeyState}, Accounting state →
      (dependent ∈ (steps.foldl KeyState.take state).sets set ↔
        dependent ∈ state.sets set ∨
          hasKey (state.sets set) dependent = false ∧
            firstAdded steps set dependent.key = some dependent) := by
  induction steps with
  | nil =>
      intro state _
      simp [firstAdded]
  | cons step rest ih =>
      intro state accounting
      have accountingNext : Accounting (state.take step) :=
        accounting_apply accounting step.1 step.2
      rw [List.foldl_cons, ih accountingNext, firstAdded_cons, KeyState.take, sets_apply accounting]
      by_cases adds : step.2.adds set = true
      · rw [if_pos adds]
        by_cases present : hasKey (state.sets set) step.1 = true
        · -- The set has the key of the step, and stays.
          rw [appendUnique_of_hasKey present]
          by_cases sameKey : step.1.key = dependent.key
          · simp [(hasKey_congr (state.sets set) sameKey).symm.trans present]
          · simp [sameKey]
        · rw [appendUnique_of_not_hasKey present]
          by_cases sameKey : step.1.key = dependent.key
          · have unknown : hasKey (state.sets set) dependent = false := by
              rw [← hasKey_congr _ sameKey]
              simpa using present
            have covered : hasKey (state.sets set ++ [step.1]) dependent = true :=
              (hasKey_append_singleton _ _ _).mpr (.inr sameKey)
            simp only [if_pos (And.intro adds sameKey), unknown, covered, List.mem_append,
              List.mem_singleton, Bool.true_eq_false, false_and, or_false, true_and,
              Option.some.injEq]
            exact or_congr Iff.rfl eq_comm
          · have other : dependent ≠ step.1 := fun same => sameKey (same ▸ rfl)
            have unchanged : hasKey (state.sets set ++ [step.1]) dependent =
                hasKey (state.sets set) dependent := by
              rw [Bool.eq_iff_iff, hasKey_append_singleton]
              simp [sameKey]
            simp [unchanged, sameKey, other]
      · simp [adds]

theorem accounting_new (key : ProjectionKey) : Accounting (newKeyBuilder key).state := by
  intro dependent present
  rcases present with present | present
  · cases present
  · cases present

theorem mem_projectedSets (success : fold codec events = .ok projection) (key : ProjectionKey)
    (set : DependentSet) (dependent : Dependent) :
    dependent ∈ projectedSets projection key set ↔
      firstAdded (events.flatMap (stepsOn codec key)) set dependent.key = some dependent := by
  have empty : (newKeyBuilder key).state.sets set = [] := by
    cases set <;> rfl
  rw [projectedSets_fold success, mem_foldl_take _ _ _ (accounting_new key), empty]
  simp [hasKey]

theorem key_of_firstAdded {steps : List Step} {set : DependentSet} {key : Bytes}
    (first : firstAdded steps set key = some dependent) :
    dependent.key = key := by
  obtain ⟨step, found, rfl⟩ := Option.map_eq_some_iff.mp first
  have adds := List.find?_some found
  simp only [Bool.and_eq_true, beq_iff_eq] at adds
  exact adds.2

theorem fold_ownEvents (success : fold codec events = .ok projection) (tenantID : Bytes) :
    ∃ own, fold codec (ownEvents tenantID events) = .ok own := by
  obtain ⟨state, folded, -⟩ := bind_eq_ok.mp success
  obtain ⟨result, ownFolded⟩ := @foldEvents_own codec tenantID events 0 0 _ _ _ folded
    indexed_start (agrees_start tenantID)
  exact ⟨_, bind_eq_ok.mpr ⟨result, ownFolded, rfl⟩⟩

/-- Wherever an event of another tenant adds to a set of the key, the own events
first add the same dependent under its comparison key as all events do. -/
def RepeatedByOwn (codec : Codec) (events : List Event) (key : ProjectionKey) : Prop :=
  ∀ event ∈ events, event.tenantID ≠ key.tenantID → ∀ step ∈ stepsOn codec key event,
    ∀ set, step.2.adds set = true →
      firstAdded ((ownEvents key.tenantID events).flatMap (stepsOn codec key)) set step.1.key =
        firstAdded (events.flatMap (stepsOn codec key)) set step.1.key

variable {key : ProjectionKey}

/-- Events of other tenants that add nothing under a comparison key to a set do
not change what is first added. -/
theorem firstAdded_own {set : DependentSet} {name : Bytes}
    (untouched : ∀ event ∈ events, event.tenantID ≠ key.tenantID → ∀ step ∈ stepsOn codec key event,
      ¬ (step.2.adds set = true ∧ step.1.key = name)) :
    firstAdded ((ownEvents key.tenantID events).flatMap (stepsOn codec key)) set name =
      firstAdded (events.flatMap (stepsOn codec key)) set name := by
  induction events with
  | nil => rfl
  | cons event rest ih =>
      obtain ⟨first, others⟩ := List.forall_mem_cons.mp untouched
      have later := ih others
      unfold firstAdded at later ⊢
      unfold ownEvents at later ⊢
      by_cases isOwn : event.tenantID = key.tenantID
      · rw [List.filter_cons_of_pos (by simpa using isOwn), List.flatMap_cons, List.flatMap_cons,
          List.find?_append, List.find?_append]
        cases found : (stepsOn codec key event).find?
            fun step => step.2.adds set && step.1.key == name with
        | some step => rfl
        | none => simpa using later
      · have skipped : ((stepsOn codec key event).find?
            fun step => step.2.adds set && step.1.key == name) = none := by
          rw [List.find?_eq_none]
          intro step isStep
          simpa using first isOwn step isStep
        rw [List.filter_cons_of_neg (by simpa using isOwn), List.flatMap_cons, List.find?_append,
          skipped]
        simpa using later

/-- The own events give the sets of a key what all events give it, when what the
others add is repeated. -/
theorem sameSets_iff {own : Projection} (success : fold codec events = .ok projection)
    (ownSuccess : fold codec (ownEvents key.tenantID events) = .ok own) :
    SameSets (projectedSets projection key) (projectedSets own key) ↔
      RepeatedByOwn codec events key := by
  constructor
  · intro same event isEvent _ step isStep set adds
    have added : (firstAdded (events.flatMap (stepsOn codec key)) set
        step.1.key).isSome = true := by
      rw [firstAdded, Option.isSome_map, List.find?_isSome]
      exact ⟨step, List.mem_flatMap.mpr ⟨event, isEvent, isStep⟩, by simp [adds]⟩
    obtain ⟨dependent, first⟩ := Option.isSome_iff_exists.mp added
    have sameKey := key_of_firstAdded first
    rw [← sameKey] at first ⊢
    have member := (mem_projectedSets success key set dependent).mpr first
    rw [first]
    exact (mem_projectedSets ownSuccess key set dependent).mp ((same set dependent).mp member)
  · intro repeated set dependent
    rw [mem_projectedSets success, mem_projectedSets ownSuccess]
    have sameFirst : firstAdded ((ownEvents key.tenantID events).flatMap (stepsOn codec key)) set
          dependent.key =
        firstAdded (events.flatMap (stepsOn codec key)) set dependent.key := by
      by_cases touched : ∃ event ∈ events, event.tenantID ≠ key.tenantID ∧
          ∃ step ∈ stepsOn codec key event, step.2.adds set = true ∧ step.1.key = dependent.key
      · obtain ⟨event, isEvent, isOther, step, isStep, adds, sameKey⟩ := touched
        rw [← sameKey]
        exact repeated event isEvent isOther step isStep set adds
      · refine firstAdded_own fun event isEvent isOther step isStep adds => ?_
        exact touched ⟨event, isEvent, isOther, step, isStep, adds⟩
    rw [sameFirst]

/-- Where no other tenant's payload names the key, its sets are those of the own
events, in the same order. -/
theorem projectedSets_own_eq {own : Projection} (success : fold codec events = .ok projection)
    (ownSuccess : fold codec (ownEvents key.tenantID events) = .ok own)
    (unnamed : ∀ event ∈ events, event.tenantID ≠ key.tenantID → stepsOn codec key event = []) :
    projectedSets projection key = projectedSets own key := by
  have sameSteps : ∀ all : List Event,
      (∀ event ∈ all, event.tenantID ≠ key.tenantID → stepsOn codec key event = []) →
        all.flatMap (stepsOn codec key) =
          (ownEvents key.tenantID all).flatMap (stepsOn codec key) := by
    intro all
    induction all with
    | nil =>
        intro _
        rfl
    | cons event rest ih =>
        intro unnamedAll
        obtain ⟨first, unnamedRest⟩ := List.forall_mem_cons.mp unnamedAll
        rw [List.flatMap_cons, ih unnamedRest]
        unfold ownEvents
        by_cases isOwn : event.tenantID = key.tenantID
        · rw [List.filter_cons_of_pos (by simpa using isOwn), List.flatMap_cons]
        · rw [List.filter_cons_of_neg (by simpa using isOwn), first isOwn, List.nil_append]
  rw [projectedSets_fold success, projectedSets_fold ownSuccess, sameSteps events unnamed]

/-- The own events of a tenant fold where all events do.  They give a key the
sets that all events give it exactly when, wherever the payload of another
tenant's event adds to a set of the key, the own events first add the same
dependent under its comparison key as all events do; and the lists are the same
where no such payload names the key. -/
theorem tenants_independent_iff_repeated
    {codec : Codec} {events : List Event} {projection : Projection}
    (success : fold codec events = .ok projection)
    (key : ProjectionKey) :
    ∃ own, fold codec (ownEvents key.tenantID events) = .ok own ∧
      (SameSets (projectedSets projection key) (projectedSets own key) ↔
        RepeatedByOwn codec events key) ∧
      ((∀ event ∈ events, event.tenantID ≠ key.tenantID → stepsOn codec key event = []) →
        projectedSets projection key = projectedSets own key) := by
  obtain ⟨own, ownSuccess⟩ := fold_ownEvents success key.tenantID
  exact ⟨own, ownSuccess, sameSets_iff success ownSuccess,
    projectedSets_own_eq success ownSuccess⟩

/-- The JSON text of a payload of the tenant `t` on the credential `c` of its
key `k`. -/
def namedData : Bytes :=
  Go.jsonObject [Go.jsonPair "tenant_id" (Go.jsonString (bytes "t")),
    Go.jsonPair "key_id" (Go.jsonString (bytes "k")),
    Go.jsonPair "dependent" (Dependent.json ⟨dependentCredential, bytes "c"⟩)]

/-- The readings of that text. -/
def namedCodec : Codec :=
  { Codec.unreadable with
    registered := readText namedData
      ⟨bytes "t", bytes "k", ⟨dependentCredential, bytes "c"⟩, []⟩ Codec.unreadable.registered
    revocationCompleted := readText namedData
      ⟨bytes "t", bytes "k", [], ⟨dependentCredential, bytes "c"⟩⟩
      Codec.unreadable.revocationCompleted }

/-- The tenant registers the credential. -/
def registration : Event :=
  ⟨[], bytes "dependency.registered", bytes "t", namedData, 1, none, 1⟩

/-- A tenant completes the revocation of the credential. -/
def completionBy (tenantID : Bytes) : Event :=
  ⟨[], bytes "revocation.completed", tenantID, namedData, 2, none, 1⟩

/-- The key with the credential registered. -/
def namedKey (accounted : List Dependent) (position : Nat) : Projection :=
  [(⟨bytes "t", bytes "k"⟩, ⟨bytes "k", bytes "t", [⟨dependentCredential, bytes "c"⟩], accounted,
    [], [], position⟩)]

/-- The theorem where the event of another tenant names no key of the tenant. -/
theorem tenants_independent_iff_repeated_unnamed :
    ∃ own, fold namedCodec (ownEvents (bytes "t") [registration, completionBy (bytes "t"),
        ⟨[], bytes "x", bytes "u", [], 3, none, 1⟩]) = .ok own ∧
      SameSets (projectedSets (namedKey [⟨dependentCredential, bytes "c"⟩] 2)
          ⟨bytes "t", bytes "k"⟩)
        (projectedSets own ⟨bytes "t", bytes "k"⟩) := by
  have folded : fold namedCodec [registration, completionBy (bytes "t"),
      ⟨[], bytes "x", bytes "u", [], 3, none, 1⟩] =
        .ok (namedKey [⟨dependentCredential, bytes "c"⟩] 2) := by decide +kernel
  obtain ⟨own, ownFolded, -, same⟩ :=
    tenants_independent_iff_repeated folded ⟨bytes "t", bytes "k"⟩
  refine ⟨own, ownFolded, ?_⟩
  rw [same (by decide +kernel)]
  exact fun _ _ => Iff.rfl

/-- A completion by another tenant accounts for the credential. -/
theorem accounted_by_other_tenant :
    ∃ projection own,
      fold namedCodec [registration, completionBy (bytes "u")] = .ok projection ∧
      fold namedCodec (ownEvents (bytes "t") [registration, completionBy (bytes "u")]) = .ok own ∧
      ¬ SameSets (projectedSets projection ⟨bytes "t", bytes "k"⟩)
        (projectedSets own ⟨bytes "t", bytes "k"⟩) := by
  refine ⟨namedKey [⟨dependentCredential, bytes "c"⟩] 2, namedKey [] 1, by decide +kernel,
    by decide +kernel, ?_⟩
  intro same
  have accounted := same .accounted ⟨dependentCredential, bytes "c"⟩
  revert accounted
  decide +kernel

end Trstctl.Decommission.Depstate
