import Mathlib.Data.List.Infix
import Trstctl.Reconcile.Quarantine.State

/-!
# Quarantines end with their own resolution

A witness that entered a quarantine and was not released since keeps the
authority contained, in every run in which no operation finds under its key an
open quarantine that belongs to something else.  The state has one record for
each key: an entry of a second witness takes the place of the first one's.
-/

namespace Trstctl.Reconcile.Quarantine

open Go (Bytes bytes trimSpace)

/-- An operation, or a record, is about a tenant and an authority. -/
def SamePair (tenantID authorityID otherTenantID otherAuthorityID : Bytes) : Prop :=
  trimSpace tenantID = trimSpace otherTenantID ∧
    trimSpace authorityID = trimSpace otherAuthorityID

/-- An operation is the entry of a witness for a tenant and an authority. -/
def Operation.Enters (operation : Operation) (tenantID authorityID witnessID : Bytes) : Prop :=
  match operation with
  | .enter tenant authority witness _ _ =>
      SamePair tenant authority tenantID authorityID ∧ witness = witnessID
  | .release _ _ _ => False

/-- An operation is the release of a witness for a tenant and an authority. -/
def Operation.Releases (operation : Operation) (tenantID authorityID witnessID : Bytes) : Prop :=
  match operation with
  | .enter _ _ _ _ _ => False
  | .release tenant authority witness =>
      SamePair tenant authority tenantID authorityID ∧ trimSpace witness = witnessID

/-- A witness has entered for a tenant and an authority and was not released
since. -/
def Outstanding (operations : List Operation) (tenantID authorityID witnessID : Bytes) : Prop :=
  ∃ before entry after, operations = before ++ entry :: after ∧
    entry.Enters tenantID authorityID witnessID ∧
    ∀ later ∈ after, ¬later.Releases tenantID authorityID witnessID

/-- What an operation finds open under its key is of its own tenant and
authority and, for an entry, of its own witness. -/
def Undisturbed (memory : MemoryState) (operation : Operation) : Prop :=
  ∀ record, memory.lookup operation.key = some record → record.quarantined = true →
    SamePair record.tenantID record.authorityID operation.tenantID operation.authorityID ∧
      match operation with
      | .enter _ _ witness _ _ => record.witnessID = witness
      | .release _ _ _ => True

/-- Every outstanding witness has the open record of its tenant and
authority. -/
def Contained (operations : List Operation) (memory : MemoryState) : Prop :=
  ∀ tenantID authorityID witnessID, Outstanding operations tenantID authorityID witnessID →
    ∃ record, memory.lookup (stateKey tenantID authorityID) = some record ∧
      record.quarantined = true ∧ record.witnessID = witnessID ∧
      SamePair record.tenantID record.authorityID tenantID authorityID

theorem stateKey_eq {tenantID authorityID otherTenantID otherAuthorityID : Bytes}
    (same : SamePair tenantID authorityID otherTenantID otherAuthorityID) :
    stateKey tenantID authorityID = stateKey otherTenantID otherAuthorityID := by
  unfold stateKey
  rw [same.1, same.2]

variable {operations : List Operation}

theorem outstanding_concat {operation : Operation} {tenantID authorityID witnessID : Bytes}
    (outstanding : Outstanding (operations ++ [operation]) tenantID authorityID witnessID) :
    (Outstanding operations tenantID authorityID witnessID ∧
        ¬operation.Releases tenantID authorityID witnessID) ∨
      operation.Enters tenantID authorityID witnessID := by
  obtain ⟨before, entry, after, split, enters, kept⟩ := outstanding
  rcases List.eq_nil_or_concat after with rfl | ⟨rest, last, rfl⟩
  · obtain ⟨-, last_eq⟩ := List.append_inj' split rfl
    rw [List.singleton_inj.mp last_eq]
    exact Or.inr enters
  · rw [List.concat_eq_append, ← List.cons_append, ← List.append_assoc] at split
    obtain ⟨operations_eq, last_eq⟩ := List.append_inj' split rfl
    rw [List.singleton_inj.mp last_eq]
    rw [List.concat_eq_append] at kept
    exact Or.inl ⟨⟨before, entry, rest, operations_eq, enters,
      fun later member => kept later (List.mem_append_left _ member)⟩,
      kept last (List.mem_append_right _ (List.mem_singleton_self _))⟩

section Step

variable {operations : List Operation}
variable {memory : MemoryState}

/-- An entry that disturbs nothing keeps every outstanding witness contained,
its own included. -/
theorem Contained.enter (contained : Contained operations memory)
    {tenant authority witness reason : Bytes} {enteredAt : Int}
    (undisturbed : Undisturbed memory (.enter tenant authority witness reason enteredAt)) :
    Contained (operations ++ [.enter tenant authority witness reason enteredAt])
      (memory.enter tenant authority witness reason enteredAt).2 := by
  intro tenantID authorityID witnessID outstanding
  rw [lookup_enter]
  rcases outstanding_concat outstanding with ⟨earlier, -⟩ | ⟨samePair, rfl⟩
  · obtain ⟨record, found, isOpen, witness_eq, pair⟩ := contained _ _ _ earlier
    refine ⟨record, ?_, isOpen, witness_eq, pair⟩
    by_cases sameKey : stateKey tenantID authorityID = stateKey tenant authority
    · have own := (undisturbed record (by rw [← found, sameKey]; rfl) isOpen).2
      rw [if_pos sameKey, found]
      simp only [if_pos (And.intro isOpen own)]
    · rw [if_neg sameKey, found]
  · rw [if_pos (stateKey_eq samePair).symm]
    cases found : memory.lookup (stateKey tenantID authorityID) with
    | none => exact ⟨_, rfl, rfl, rfl, samePair⟩
    | some record =>
        by_cases kept : record.quarantined ∧ record.witnessID = witness
        · have own := (undisturbed record
            (by rw [← found, ← stateKey_eq samePair]; rfl) kept.1).1
          simp only [if_pos kept]
          exact ⟨record, rfl, kept.1, kept.2, own.1.trans samePair.1, own.2.trans samePair.2⟩
        · simp only [if_neg kept]
          exact ⟨_, rfl, rfl, rfl, samePair⟩

theorem Contained.release (contained : Contained operations memory)
    {tenant authority witness : Bytes}
    (undisturbed : Undisturbed memory (.release tenant authority witness)) :
    Contained (operations ++ [.release tenant authority witness])
      (memory.release tenant authority witness).2 := by
  intro tenantID authorityID witnessID outstanding
  rw [lookup_release]
  rcases outstanding_concat outstanding with ⟨earlier, notReleased⟩ | enters
  · obtain ⟨record, found, isOpen, witness_eq, pair⟩ := contained _ _ _ earlier
    refine ⟨record, ?_, isOpen, witness_eq, pair⟩
    by_cases sameKey : stateKey tenantID authorityID = stateKey tenant authority
    · have own := (undisturbed record (by rw [← found, sameKey]; rfl) isOpen).1
      have others : record.witnessID ≠ trimSpace witness := by
        intro same
        exact notReleased ⟨⟨own.1.symm.trans pair.1, own.2.symm.trans pair.2⟩,
          same.symm.trans witness_eq⟩
      rw [if_pos sameKey, found, Option.map_some, if_neg fun both => others both.1]
    · rw [if_neg sameKey, found]
  · exact enters.elim

theorem Contained.apply (contained : Contained operations memory) {operation : Operation}
    (undisturbed : Undisturbed memory operation) :
    Contained (operations ++ [operation]) (operation.apply memory) := by
  cases operation with
  | enter tenant authority witness reason enteredAt => exact contained.enter undisturbed
  | release tenant authority witness => exact contained.release undisturbed

end Step

/-- Every operation of a run disturbs nothing. -/
def UndisturbedRun (operations : List Operation) : Prop :=
  ∀ before operation after, operations = before ++ operation :: after →
    Undisturbed (replay [] before) operation

theorem UndisturbedRun.front {reached : List Operation} (run : UndisturbedRun operations)
    (isReached : reached <+: operations) :
    UndisturbedRun reached := by
  obtain ⟨more, rfl⟩ := isReached
  intro before operation after split
  refine run before operation (after ++ more) ?_
  rw [split, List.append_assoc, List.cons_append]

theorem UndisturbedRun.concat (run : UndisturbedRun operations) {operation : Operation}
    (undisturbed : Undisturbed (replay [] operations) operation) :
    UndisturbedRun (operations ++ [operation]) := by
  intro before other after split
  rcases List.eq_nil_or_concat after with rfl | ⟨rest, last, rfl⟩
  · obtain ⟨operations_eq, last_eq⟩ := List.append_inj' split rfl
    rw [← operations_eq, ← List.singleton_inj.mp last_eq]
    exact undisturbed
  · rw [List.concat_eq_append, ← List.cons_append, ← List.append_assoc] at split
    exact run before other rest (List.append_inj' split rfl).1

theorem contained_replay (run : UndisturbedRun operations) :
    Contained operations (replay [] operations) := by
  induction operations using List.reverseRecOn with
  | nil =>
      rintro tenantID authorityID witnessID ⟨before, entry, after, split, -⟩
      cases before <;> cases split
  | append_singleton operations operation ih =>
      rw [replay_append]
      exact (ih (run.front (List.prefix_append _ _))).apply
        (run operations operation [] rfl)

/-- In every state of a run whose operations disturb nothing, a tenant and an
authority with an outstanding witness have an open quarantine. -/
theorem lookupOpenQuarantine_of_undisturbedRun
    (operations : List Operation)
    (run : UndisturbedRun operations)
    (reached : List Operation)
    (isReached : reached <+: operations)
    (tenantID authorityID witnessID : Bytes)
    (outstanding : Outstanding reached tenantID authorityID witnessID) :
    ((replay [] reached).lookupOpenQuarantine tenantID authorityID).isSome = true := by
  obtain ⟨record, found, isOpen, -, -⟩ :=
    contained_replay (run.front isReached) tenantID authorityID witnessID outstanding
  simp only [MemoryState.lookupOpenQuarantine, MemoryState.find, found, if_pos isOpen]
  rfl

/-- The entry of a witness for an authority of the tenant `t`. -/
def enterFor (authorityID witnessID : String) : Operation :=
  .enter (bytes "t") (bytes authorityID) (bytes witnessID) [] 0

/-- The release of a witness for an authority of the tenant `t`. -/
def releaseFor (authorityID witnessID : String) : Operation :=
  .release (bytes "t") (bytes authorityID) (bytes witnessID)

/-- Two authorities are contained, and the second one is released: the first
one stays contained. -/
theorem lookupOpenQuarantine_of_undisturbedRun_twoAuthorities :
    ((replay [] [enterFor "a" "w1", enterFor "b" "w2", releaseFor "b" "w2"]).lookupOpenQuarantine
      (bytes "t") (bytes "a")).isSome = true := by
  have empty : UndisturbedRun [] := by
    intro before operation after split
    cases before <;> cases split
  have first : UndisturbedRun [enterFor "a" "w1"] :=
    empty.concat fun record found => by cases found
  have second : UndisturbedRun [enterFor "a" "w1", enterFor "b" "w2"] := by
    refine first.concat fun record found => ?_
    have nothing : (replay [] [enterFor "a" "w1"]).lookup (enterFor "b" "w2").key = none := by
      decide +kernel
    rw [nothing] at found
    cases found
  have third : UndisturbedRun [enterFor "a" "w1", enterFor "b" "w2", releaseFor "b" "w2"] := by
    refine second.concat fun record found _ => ?_
    have own : (replay [] [enterFor "a" "w1", enterFor "b" "w2"]).lookup
        (releaseFor "b" "w2").key =
          some ⟨bytes "t", bytes "b", bytes "w2", [], .quarantined, true, 0⟩ := by
      decide +kernel
    rw [own] at found
    obtain rfl := Option.some.inj found
    exact ⟨⟨rfl, rfl⟩, trivial⟩
  refine lookupOpenQuarantine_of_undisturbedRun _ third _ (List.prefix_refl _) (bytes "t")
    (bytes "a") (bytes "w1")
    ⟨[], enterFor "a" "w1", [enterFor "b" "w2", releaseFor "b" "w2"], rfl, ⟨⟨rfl, rfl⟩, rfl⟩, ?_⟩
  intro later member
  rcases List.mem_pair.mp member with rfl | rfl
  · exact id
  · exact fun releases => absurd releases.2 (by decide +kernel)

/-- A second witness enters for the same authority and is released: nothing is
left open, although the first witness was never released. -/
theorem dropped_twoWitnesses :
    let operations := [enterFor "a" "w1", enterFor "a" "w2", releaseFor "a" "w2"]
    Outstanding operations (bytes "t") (bytes "a") (bytes "w1") ∧
      (replay [] operations).lookupOpenQuarantine (bytes "t") (bytes "a") = none := by
  refine ⟨⟨[], enterFor "a" "w1", [enterFor "a" "w2", releaseFor "a" "w2"], rfl,
    ⟨⟨rfl, rfl⟩, rfl⟩, ?_⟩, by decide +kernel⟩
  intro later member
  rcases List.mem_pair.mp member with rfl | rfl
  · exact id
  · exact fun releases => absurd releases.2 (by decide +kernel)

end Trstctl.Reconcile.Quarantine
