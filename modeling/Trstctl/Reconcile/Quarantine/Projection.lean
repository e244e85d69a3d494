import Mathlib.Data.List.Infix
import Trstctl.Library.Result
import Trstctl.Reconcile.Quarantine.State

/-!
# The containment projection

`StateProjection` (`internal/reconcile/quarantine/projection.go`) folds the
entered and released events of the log into the containment state.  A second
pass over a front of the log, behind the writer that has applied all of it, ends
each quarantine as that front ends it.  `json.Unmarshal` of the two payloads is
a parameter.
-/

namespace Trstctl.Reconcile.Quarantine

open Go (Bytes bytes trimSpace)

/-- `eventspec.Event`, as far as it is folded. -/
structure Event where
  sequence : UInt64
  type : Bytes
  tenantID : Bytes
  data : Bytes

/-- `Entered`, as far as it is folded. -/
structure Entered where
  tenantID : Bytes
  authorityID : Bytes
  witnessID : Bytes
  reason : Bytes
  enteredAt : Int

/-- `Released`, as far as it is folded. -/
structure Released where
  tenantID : Bytes
  authorityID : Bytes
  witnessID : Bytes

/-- The decoders of the two payloads. -/
structure Decoders where
  entered : Bytes → Except Bytes Entered
  released : Bytes → Except Bytes Released

def eventTypeEntered : Bytes :=
  bytes "xrec.quarantine.entered"

def eventTypeReleased : Bytes :=
  bytes "xrec.quarantine.released"

/-- Why an event stops the fold. -/
inductive FoldError where
  | decodeEntered (text : Bytes)
  | decodeReleased (text : Bytes)
  | tenantMismatch (type envelope payload : Bytes)
deriving DecidableEq

def foldTenantID (event : Event) (payloadTenantID : Bytes) : Except FoldError Bytes :=
  let envelope := trimSpace event.tenantID
  let payload := trimSpace payloadTenantID
  if envelope = [] ∧ payload = [] then .ok []
  else if envelope = [] then .ok payload
  else if payload ≠ [] ∧ payload ≠ envelope then
    .error (.tenantMismatch event.type envelope payload)
  else .ok envelope

/-- The operation an event stands for; none for an event of another type and
for one without a tenant, an authority or a witness. -/
def operationOf (decoders : Decoders) (event : Event) :
    Except FoldError (Option Operation) :=
  if event.type = eventTypeEntered then do
    let payload ← (decoders.entered event.data).mapError .decodeEntered
    let tenantID ← foldTenantID event payload.tenantID
    let authorityID := trimSpace payload.authorityID
    let witnessID := trimSpace payload.witnessID
    if tenantID = [] ∨ authorityID = [] ∨ witnessID = [] then pure none
    else pure (some (.enter tenantID authorityID witnessID payload.reason payload.enteredAt))
  else if event.type = eventTypeReleased then do
    let payload ← (decoders.released event.data).mapError .decodeReleased
    let tenantID ← foldTenantID event payload.tenantID
    let authorityID := trimSpace payload.authorityID
    let witnessID := trimSpace payload.witnessID
    if tenantID = [] ∨ authorityID = [] ∨ witnessID = [] then pure none
    else pure (some (.release tenantID authorityID witnessID))
  else pure none

/-- The quarantines and the last event applied. -/
structure StateProjection where
  state : MemoryState
  watermark : UInt64
deriving DecidableEq

def StateProjection.apply (decoders : Decoders) (projection : StateProjection)
    (event : Event) : Except FoldError StateProjection := do
  let operation ← operationOf decoders event
  pure
    { state := replay projection.state operation.toList
      watermark :=
        if projection.watermark < event.sequence then event.sequence else projection.watermark }

/-- The events, applied in order. -/
def StateProjection.fold (decoders : Decoders) :
    StateProjection → List Event → Except FoldError StateProjection
  | projection, [] => pure projection
  | projection, event :: rest => do
      let next ← projection.apply decoders event
      fold decoders next rest

/-- The projection before the log is replayed. -/
def StateProjection.reset : StateProjection :=
  { state := [], watermark := 0 }

def operations (decoders : Decoders) (events : List Event) : List Operation :=
  events.flatMap fun event =>
    match operationOf decoders event with
    | .ok operation => operation.toList
    | .error _ => []

theorem state_of_fold
    {decoders : Decoders} {events : List Event} {projection folded : StateProjection}
    (fold : projection.fold decoders events = .ok folded) :
    folded.state = replay projection.state (operations decoders events) := by
  induction events generalizing projection with
  | nil =>
      rw [← Except.ok.inj fold]
      rfl
  | cons event rest ih =>
      obtain ⟨next, step, fold⟩ := Result.bind_eq_ok.mp fold
      obtain ⟨operation, read, next_eq⟩ := Result.bind_eq_ok.mp step
      obtain rfl := Except.ok.inj next_eq
      have split : operations decoders (event :: rest) =
          operation.toList ++ operations decoders rest := by
        rw [operations, List.flatMap_cons, read]
        rfl
      rw [ih fold, split, replay_append]

theorem exists_fold_front {decoders : Decoders} {front events : List Event}
    (isFront : front <+: events) {projection folded : StateProjection}
    (fold : projection.fold decoders events = .ok folded) (other : StateProjection) :
    ∃ again, other.fold decoders front = .ok again := by
  induction front generalizing events projection other with
  | nil => exact ⟨other, rfl⟩
  | cons event rest ih =>
      obtain ⟨more, rfl⟩ := isFront
      rw [List.cons_append] at fold
      obtain ⟨next, step, fold⟩ := Result.bind_eq_ok.mp fold
      obtain ⟨operation, read, -⟩ := Result.bind_eq_ok.mp step
      obtain ⟨again, rest_fold⟩ := ih (List.prefix_append rest more) fold
        { state := replay other.state operation.toList
          watermark :=
            if other.watermark < event.sequence then event.sequence else other.watermark }
      refine ⟨again, Result.bind_eq_ok.mpr ⟨_, ?_, rest_fold⟩⟩
      rw [StateProjection.apply, read]
      rfl

/-- The witness that holds the quarantine under a key open. -/
def heldBy (memory : MemoryState) (key : Bytes) : Option Bytes :=
  match memory.lookup key with
  | none => none
  | some record => if record.quarantined then some record.witnessID else none

/-- The holder under a key after an operation, from the holder before. -/
def Operation.holder (key : Bytes) (held : Option Bytes) : Operation → Option Bytes
  | .enter tenantID authorityID witnessID _ _ =>
      if key = stateKey tenantID authorityID then some witnessID else held
  | .release tenantID authorityID witnessID =>
      if key = stateKey tenantID authorityID ∧ held = some (trimSpace witnessID) then none
      else held

def holder (key : Bytes) (held : Option Bytes) (operations : List Operation) : Option Bytes :=
  operations.foldl (Operation.holder key) held

/-- An operation moves the holder. -/
theorem heldBy_apply (memory : MemoryState) (operation : Operation) (key : Bytes) :
    heldBy (operation.apply memory) key = operation.holder key (heldBy memory key) := by
  unfold heldBy
  cases operation with
  | enter tenantID authorityID witnessID reason enteredAt =>
      rw [Operation.apply, lookup_enter, Operation.holder]
      by_cases same : key = stateKey tenantID authorityID
      · rw [if_pos same, if_pos same]
        cases memory.lookup key with
        | none => rfl
        | some record =>
            by_cases kept : record.quarantined ∧ record.witnessID = witnessID
            · simp only [if_pos kept]
              rw [if_pos kept.1, kept.2]
            · simp only [if_neg kept]
              rfl
      · rw [if_neg same, if_neg same]
  | release tenantID authorityID witnessID =>
      rw [Operation.apply, lookup_release, Operation.holder]
      by_cases same : key = stateKey tenantID authorityID
      · rw [if_pos same]
        cases memory.lookup key with
        | none => simp
        | some record =>
            by_cases closes : record.witnessID = trimSpace witnessID ∧ record.quarantined
            · have named : some record.witnessID = some (trimSpace witnessID) :=
                congrArg some closes.1
              simp only [Option.map_some, if_pos closes]
              change none = _
              rw [if_pos closes.2, if_pos ⟨same, named⟩]
            · simp only [Option.map_some, if_neg closes]
              split
              · rename_i isOpen
                rw [if_neg fun both => closes ⟨Option.some.inj both.2, isOpen⟩]
              · rw [if_neg fun both => by cases both.2]
      · rw [if_neg same, if_neg fun both => same both.1]

theorem heldBy_replay (memory : MemoryState) (operations : List Operation) (key : Bytes) :
    heldBy (replay memory operations) key = holder key (heldBy memory key) operations := by
  induction operations generalizing memory with
  | nil => rfl
  | cons operation rest ih =>
      change heldBy (replay (operation.apply memory) rest) key = _
      rw [ih, heldBy_apply]
      rfl

theorem lookupOpenQuarantine_isSome (memory : MemoryState) (tenantID authorityID : Bytes) :
    (memory.lookupOpenQuarantine tenantID authorityID).isSome =
      (heldBy memory (stateKey tenantID authorityID)).isSome := by
  unfold MemoryState.lookupOpenQuarantine MemoryState.find heldBy
  cases memory.lookup (stateKey tenantID authorityID) with
  | none => rfl
  | some record =>
      simp only
      split
      · rfl
      · rfl

/-- The last entry under a key: its witness and the operations after it. -/
def lastEntry (key : Bytes) : List Operation → Option (Bytes × List Operation)
  | [] => none
  | operation :: rest =>
      match lastEntry key rest with
      | some found => some found
      | none =>
          match operation with
          | .enter tenantID authorityID witnessID _ _ =>
              if key = stateKey tenantID authorityID then some (witnessID, rest) else none
          | .release _ _ _ => none

def released (key witness : Bytes) (operations : List Operation) : Bool :=
  operations.any fun operation =>
    match operation with
    | .enter _ _ _ _ _ => false
    | .release tenantID authorityID witnessID =>
        key == stateKey tenantID authorityID && trimSpace witnessID == witness

/-- The holder after operations: the witness of the last entry, if it is not
released after it; without an entry, the holder before, if it is not
released. -/
theorem holder_eq (key : Bytes) (held : Option Bytes) (operations : List Operation) :
    holder key held operations =
      match lastEntry key operations with
      | some (witness, after) => if released key witness after then none else some witness
      | none =>
          match held with
          | some witness => if released key witness operations then none else some witness
          | none => none := by
  induction operations generalizing held with
  | nil => cases held <;> rfl
  | cons operation rest ih =>
      change holder key (operation.holder key held) rest = _
      rw [ih]
      simp only [lastEntry]
      cases later : lastEntry key rest with
      | some found => rfl
      | none =>
          cases operation with
          | enter tenantID authorityID witnessID reason enteredAt =>
              by_cases same : key = stateKey tenantID authorityID
              · simp [Operation.holder, same]
              · simp [Operation.holder, same, released]
          | release tenantID authorityID witnessID =>
              cases held with
              | none => simp [Operation.holder]
              | some witness =>
                  by_cases same : key = stateKey tenantID authorityID
                  · by_cases named : trimSpace witnessID = witness
                    · simp [Operation.holder, same, released, named]
                    · simp [Operation.holder, same, released, named, Ne.symm named]
                  · simp [Operation.holder, same, released]

/-- A quarantine that the log leaves open under a key is left open by a front of
the log that is applied after it: the last entry of the front is not released
in the front, or the front has no entry and does not release the holder. -/
def Kept (log front : List Operation) (key : Bytes) : Prop :=
  match lastEntry key log with
  | none => True
  | some (witness, after) =>
      released key witness after = true ∨
        match lastEntry key front with
        | some (earlier, rest) => released key earlier rest = false
        | none => released key witness front = false

theorem kept_iff (log front : List Operation) (key : Bytes) :
    ((holder key none log).isSome = true →
        (holder key (holder key none log) front).isSome = true) ↔
      Kept log front key := by
  rw [holder_eq key _ front, holder_eq key none log, Kept]
  cases lastEntry key log with
  | none => simp
  | some entry =>
      obtain ⟨witness, after⟩ := entry
      by_cases ended : released key witness after = true
      · simp [ended]
      · cases lastEntry key front with
        | none => simp [ended]
        | some earlier => simp [ended]

/-- A front of a log is applied again after the log.  Every quarantine that the
log leaves open stays open exactly when each key keeps its quarantine. -/
theorem openQuarantines_kept_iff
    (decoders : Decoders)
    (events front : List Event)
    (isFront : front <+: events)
    (folded : StateProjection)
    (fold : StateProjection.reset.fold decoders events = .ok folded) :
    ∃ again, folded.fold decoders front = .ok again ∧
      ((∀ tenantID authorityID,
          (folded.state.lookupOpenQuarantine tenantID authorityID).isSome = true →
            (again.state.lookupOpenQuarantine tenantID authorityID).isSome = true) ↔
        ∀ tenantID authorityID,
          Kept (operations decoders events) (operations decoders front)
            (stateKey tenantID authorityID)) := by
  obtain ⟨again, fold_again⟩ := exists_fold_front isFront fold folded
  refine ⟨again, fold_again, forall_congr' fun tenantID => forall_congr' fun authorityID => ?_⟩
  rw [lookupOpenQuarantine_isSome, lookupOpenQuarantine_isSome, state_of_fold fold_again,
    heldBy_replay, state_of_fold fold, heldBy_replay]
  exact kept_iff _ _ _

/-- The payload of an event of a witness for the authority `a` of the tenant
`t`. -/
def payloadText (witnessID : String) : Bytes :=
  bytes ("\x7b\"tenant_id\":\"t\",\"authority_id\":\"a\",\"witness_id\":\"" ++
    witnessID ++ "\"\x7d")

def payloadWitness (text : Bytes) : Except Bytes Bytes :=
  if text = payloadText "w1" then .ok (bytes "w1")
  else if text = payloadText "w2" then .ok (bytes "w2")
  else .error (bytes "invalid character")

def payloadDecoders : Decoders where
  entered text := do
    let witnessID ← payloadWitness text
    pure ⟨bytes "t", bytes "a", witnessID, [], 0⟩
  released text := do
    let witnessID ← payloadWitness text
    pure ⟨bytes "t", bytes "a", witnessID⟩

def entryEvent (sequence : UInt64) (witnessID : String) : Event :=
  ⟨sequence, eventTypeEntered, bytes "t", payloadText witnessID⟩

def releaseEvent (sequence : UInt64) (witnessID : String) : Event :=
  ⟨sequence, eventTypeReleased, bytes "t", payloadText witnessID⟩

def entryRecord (witnessID : String) : Record :=
  ⟨bytes "t", bytes "a", bytes witnessID, [], .quarantined, true, 0⟩

/-- Two witnesses enter.  The entry of the first one is applied again, and the
authority stays contained. -/
theorem openQuarantines_kept_iff_twoEntries :
    ∃ again,
      (StateProjection.mk [(stateKey (bytes "t") (bytes "a"), entryRecord "w2")] 2).fold
          payloadDecoders [entryEvent 1 "w1"] = .ok again ∧
        (again.state.lookupOpenQuarantine (bytes "t") (bytes "a")).isSome = true := by
  obtain ⟨again, fold, kept⟩ := openQuarantines_kept_iff payloadDecoders
    [entryEvent 1 "w1", entryEvent 2 "w2"] [entryEvent 1 "w1"] ⟨[entryEvent 2 "w2"], rfl⟩
    ⟨[(stateKey (bytes "t") (bytes "a"), entryRecord "w2")], 2⟩ (by decide +kernel)
  refine ⟨again, fold, kept.mpr ?_ _ _ (by decide +kernel)⟩
  intro tenantID authorityID
  have log : operations payloadDecoders [entryEvent 1 "w1", entryEvent 2 "w2"] =
      [.enter (bytes "t") (bytes "a") (bytes "w1") [] 0,
        .enter (bytes "t") (bytes "a") (bytes "w2") [] 0] := by
    decide +kernel
  have front : operations payloadDecoders [entryEvent 1 "w1"] =
      [.enter (bytes "t") (bytes "a") (bytes "w1") [] 0] := by
    decide +kernel
  rw [log, front]
  by_cases same : stateKey tenantID authorityID = stateKey (bytes "t") (bytes "a")
  · simp [Kept, lastEntry, released, same]
  · simp [Kept, lastEntry, same]

/-- A witness enters and is released, and a second one enters.  The first two
events are applied again: the authority, contained before, is not contained
any more. -/
theorem dropped_frontAgain :
    [entryEvent 1 "w1", releaseEvent 2 "w1"] <+:
        [entryEvent 1 "w1", releaseEvent 2 "w1", entryEvent 3 "w2"] ∧
      ∃ folded again,
        StateProjection.reset.fold payloadDecoders
            [entryEvent 1 "w1", releaseEvent 2 "w1", entryEvent 3 "w2"] = .ok folded ∧
          folded.fold payloadDecoders [entryEvent 1 "w1", releaseEvent 2 "w1"] = .ok again ∧
          (folded.state.lookupOpenQuarantine (bytes "t") (bytes "a")).isSome = true ∧
          again.state.lookupOpenQuarantine (bytes "t") (bytes "a") = none := by
  refine ⟨⟨[entryEvent 3 "w2"], rfl⟩,
    ⟨[(stateKey (bytes "t") (bytes "a"), entryRecord "w2")], 3⟩,
    ⟨[(stateKey (bytes "t") (bytes "a"),
      { entryRecord "w1" with state := .consistent, isOpen := false })], 3⟩, ?_⟩
  decide +kernel

end Trstctl.Reconcile.Quarantine
