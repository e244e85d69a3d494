import Trstctl.Go.Encoding

/-!
# The containment state

`MemoryState` (`internal/reconcile/quarantine/types.go`): one record for each
tenant and authority, entered and released by divergence witnesses.  Its lock
makes every operation one step.
-/

namespace Trstctl.Reconcile.Quarantine

open Go (Bytes bytes Map MapOf trimSpace)

inductive State where
  | consistent
  | diverged
  | quarantined
deriving DecidableEq

/-- The quarantine of one authority. -/
structure Record where
  tenantID : Bytes
  authorityID : Bytes
  witnessID : Bytes
  reason : Bytes
  state : State
  isOpen : Bool
  enteredAt : Int
deriving DecidableEq

/-- The test of an open quarantine. -/
def Record.quarantined (record : Record) : Bool :=
  record.isOpen && record.state == .quarantined

/-- The key of the quarantine of an authority. -/
def stateKey (tenantID authorityID : Bytes) : Bytes :=
  trimSpace tenantID ++ 0x00 :: trimSpace authorityID

/-- `MemoryState`: the records by state key. -/
abbrev MemoryState := Map Record

namespace MemoryState

/-- `MemoryState.Lookup`. -/
def find (memory : MemoryState) (tenantID authorityID : Bytes) : Option Record :=
  memory.lookup (stateKey tenantID authorityID)

/-- The quarantine of an authority that is in force. -/
def lookupOpenQuarantine (memory : MemoryState) (tenantID authorityID : Bytes) : Option Record :=
  match memory.find tenantID authorityID with
  | none => none
  | some record => if record.quarantined then some record else none

/-- `MemoryState.enter`: the record, the state before it and whether it is new,
with the state after. -/
def enter (memory : MemoryState) (tenantID authorityID witnessID reason : Bytes)
    (enteredAt : Int) : (Record × State × Bool) × MemoryState :=
  let previous := memory.find tenantID authorityID
  let fromState := (previous.map Record.state).getD .consistent
  let entered : Record :=
    { tenantID := tenantID
      authorityID := authorityID
      witnessID := witnessID
      reason := reason
      state := .quarantined
      isOpen := true
      enteredAt := enteredAt }
  match previous with
  | some record =>
      if record.quarantined ∧ record.witnessID = witnessID then ((record, fromState, false), memory)
      else ((entered, fromState, true), memory.set (stateKey tenantID authorityID) entered)
  | none => ((entered, fromState, true), memory.set (stateKey tenantID authorityID) entered)

/-- `MemoryState.release`: the record it closes, with the state after. -/
def release (memory : MemoryState)
    (tenantID authorityID witnessID : Bytes) : Option Record × MemoryState :=
  match memory.find tenantID authorityID with
  | none => (none, memory)
  | some record =>
      if record.witnessID ≠ trimSpace witnessID ∨ !record.quarantined then (none, memory)
      else
        let closed := { record with state := .consistent, isOpen := false }
        (some closed, memory.set (stateKey tenantID authorityID) closed)

end MemoryState

/-- One call that changes the state. -/
inductive Operation where
  | enter (tenantID authorityID witnessID reason : Bytes) (enteredAt : Int)
  | release (tenantID authorityID witnessID : Bytes)
deriving DecidableEq

namespace Operation

def tenantID : Operation → Bytes
  | .enter tenantID _ _ _ _ => tenantID
  | .release tenantID _ _ => tenantID

def authorityID : Operation → Bytes
  | .enter _ authorityID _ _ _ => authorityID
  | .release _ authorityID _ => authorityID

/-- The key of the record an operation is about. -/
def key (operation : Operation) : Bytes :=
  stateKey operation.tenantID operation.authorityID

def apply (memory : MemoryState) : Operation → MemoryState
  | .enter tenantID authorityID witnessID reason enteredAt =>
      (memory.enter tenantID authorityID witnessID reason enteredAt).2
  | .release tenantID authorityID witnessID =>
      (memory.release tenantID authorityID witnessID).2

end Operation

/-- The state after operations, from a given state. -/
def replay (memory : MemoryState) (operations : List Operation) : MemoryState :=
  operations.foldl Operation.apply memory

theorem replay_append (memory : MemoryState) (first second : List Operation) :
    replay memory (first ++ second) = replay (replay memory first) second :=
  List.foldl_append

/-- An entry leaves an open quarantine of its witness under its key, and the
records under other keys as they were. -/
theorem lookup_enter (memory : MemoryState) (tenantID authorityID witnessID reason : Bytes)
    (enteredAt : Int) (key : Bytes) :
    (memory.enter tenantID authorityID witnessID reason enteredAt).2.lookup key =
      if key = stateKey tenantID authorityID then
        match memory.lookup key with
        | some record =>
            if record.quarantined ∧ record.witnessID = witnessID then some record
            else some ⟨tenantID, authorityID, witnessID, reason, .quarantined, true, enteredAt⟩
        | none => some ⟨tenantID, authorityID, witnessID, reason, .quarantined, true, enteredAt⟩
      else memory.lookup key := by
  unfold MemoryState.enter MemoryState.find
  by_cases same : key = stateKey tenantID authorityID
  · subst same
    rw [if_pos rfl]
    cases found : memory.lookup (stateKey tenantID authorityID) with
    | none => simp [MapOf.lookup_set]
    | some record =>
        by_cases kept : record.quarantined ∧ record.witnessID = witnessID
        · simp only [if_pos kept, found]
        · simp only [if_neg kept, MapOf.lookup_set, if_pos]
  · rw [if_neg same]
    cases memory.lookup (stateKey tenantID authorityID) with
    | none => simp [MapOf.lookup_set, same]
    | some record =>
        by_cases kept : record.quarantined ∧ record.witnessID = witnessID
        · simp only [if_pos kept]
        · simp only [if_neg kept, MapOf.lookup_set, if_neg same]

/-- A release closes an open quarantine of its witness under its key, and
changes nothing else. -/
theorem lookup_release (memory : MemoryState) (tenantID authorityID witnessID : Bytes)
    (key : Bytes) :
    (memory.release tenantID authorityID witnessID).2.lookup key =
      if key = stateKey tenantID authorityID then
        (memory.lookup key).map fun record =>
          if record.witnessID = trimSpace witnessID ∧ record.quarantined then
            { record with state := .consistent, isOpen := false }
          else record
      else memory.lookup key := by
  unfold MemoryState.release MemoryState.find
  by_cases same : key = stateKey tenantID authorityID
  · subst same
    rw [if_pos rfl]
    cases found : memory.lookup (stateKey tenantID authorityID) with
    | none => simp [found]
    | some record =>
        by_cases closes : record.witnessID = trimSpace witnessID ∧ record.quarantined
        · have goes : ¬(record.witnessID ≠ trimSpace witnessID ∨ !record.quarantined) := by
            simp [closes.1, closes.2]
          rw [Option.map_some, if_pos closes]
          simp only [if_neg goes, MapOf.lookup_set, if_pos]
        · have stays : record.witnessID ≠ trimSpace witnessID ∨ !record.quarantined := by
            by_cases witness : record.witnessID = trimSpace witnessID
            · exact Or.inr (by simpa using fun isOpen => closes ⟨witness, isOpen⟩)
            · exact Or.inl witness
          rw [Option.map_some, if_neg closes]
          simp only [if_pos stays, found]
  · rw [if_neg same]
    cases memory.lookup (stateKey tenantID authorityID) with
    | none => rfl
    | some record =>
        by_cases closes : record.witnessID ≠ trimSpace witnessID ∨ !record.quarantined
        · simp only [if_pos closes]
        · simp only [if_neg closes, MapOf.lookup_set, if_neg same]

end Trstctl.Reconcile.Quarantine
