import Trstctl.Go.Json
import Trstctl.Succession.Delegation.Tree

/-!
# The durable scopes of the signer

The store of `internal/succession/delegation/durable.go`: one file with the
scopes of all tenants and the receipts of the operations that set them.  A
command is checked against the tree of its tenant, its receipt is signed, and
both are written in one file that replaces the one before.  The file is modelled
by what is read back from it.
-/

namespace Trstctl.Succession.Delegation

open Go (Bytes bytes jsonObject jsonPair jsonString jsonOptional decimal)

/-- The hash and the signature check of package `crypto`.  `verifyMessage`
takes a public key, a message and a signature. -/
structure Crypto where
  sha256Sum : Bytes → Bytes
  verifyMessage : Bytes → Bytes → Bytes → Bool

structure Command where
  tenantID : Bytes
  operationID : Bytes
  kind : Bytes
  scopeID : Bytes
  parentScopeID : Bytes
  epochFloor : UInt64
deriving DecidableEq

def Command.members (command : Command) : List Bytes :=
  [jsonPair "tenant_id" (jsonString command.tenantID),
    jsonPair "operation_id" (jsonString command.operationID),
    jsonPair "kind" (jsonString command.kind),
    jsonPair "scope_id" (jsonString command.scopeID)] ++
    jsonOptional (!command.parentScopeID.isEmpty)
      (jsonPair "parent_scope_id" (jsonString command.parentScopeID)) ++
    [jsonPair "epoch_floor" (decimal command.epochFloor.toNat)]

def Command.digestHex (crypto : Crypto) (command : Command) : Bytes :=
  Go.hexEncode (crypto.sha256Sum (jsonObject command.members))

/-- The signed result of a command. -/
structure Receipt where
  command : Command
  appliedParentScopeID : Bytes
  appliedFloor : UInt64
  publicKeyDER : Bytes
  signature : Bytes

def Receipt.signedBody (receipt : Receipt) : Bytes :=
  jsonObject
    ([jsonPair "domain" (jsonString (bytes "trstctl/pcas/delegation/receipt/v1"))] ++
      receipt.command.members ++
      [jsonPair "applied_parent_scope_id" (jsonString receipt.appliedParentScopeID),
        jsonPair "applied_floor" (decimal receipt.appliedFloor.toNat)])

def Receipt.verify (crypto : Crypto) (receipt : Receipt) : Bool :=
  crypto.verifyMessage receipt.publicKeyDER receipt.signedBody receipt.signature

structure PersistedScope where
  tenantID : Bytes
  scope : Scope
deriving DecidableEq

structure PersistedOperation where
  digest : Bytes
  receipt : Receipt

/-- What the file holds. -/
structure DurableScopes where
  scopes : List PersistedScope
  operations : Go.Map PersistedOperation

/-- A store without a file. -/
def DurableScopes.empty : DurableScopes :=
  { scopes := [], operations := [] }

def scopeKey (tenantID id : Bytes) : Bytes :=
  tenantID ++ 0 :: id

def PersistedScope.key (persisted : PersistedScope) : Bytes :=
  scopeKey persisted.tenantID persisted.scope.id

/-- A command after `json.Marshal` and `json.Unmarshal`. -/
def Command.throughJson (command : Command) : Command where
  tenantID := Go.throughJson command.tenantID
  operationID := Go.throughJson command.operationID
  kind := Go.throughJson command.kind
  scopeID := Go.throughJson command.scopeID
  parentScopeID := Go.throughJson command.parentScopeID
  epochFloor := command.epochFloor

/-- An operation after `json.Marshal` and `json.Unmarshal`. -/
def PersistedOperation.throughJson (operation : PersistedOperation) : PersistedOperation where
  digest := Go.throughJson operation.digest
  receipt :=
    { operation.receipt with
      command := operation.receipt.command.throughJson
      appliedParentScopeID := Go.throughJson operation.receipt.appliedParentScopeID }

/-- A scope after `json.Marshal` and `json.Unmarshal`. -/
def PersistedScope.throughJson (persisted : PersistedScope) : PersistedScope where
  tenantID := Go.throughJson persisted.tenantID
  scope :=
    { persisted.scope with
      id := Go.throughJson persisted.scope.id
      parent := Go.throughJson persisted.scope.parent }

/-- The operations after `json.Marshal`, which writes them by key, and
`json.Unmarshal`, for which the last of equal keys counts. -/
def operationsThroughJson (operations : Go.Map PersistedOperation) : Go.Map PersistedOperation :=
  (operations.insertionSort fun first second => first.1 ≤ second.1).foldl
    (fun read binding => read.set (Go.throughJson binding.1) binding.2.throughJson) []

/-- What is read back of a state that `saveLocked` writes. -/
def DurableScopes.written (state : DurableScopes) : DurableScopes where
  scopes :=
    (state.scopes.insertionSort fun first second => first.key ≤ second.key).map
      PersistedScope.throughJson
  operations := operationsThroughJson state.operations

/-- Why a command fails. -/
inductive StoreError where
  | invalidCommand
  | floorChangesParent
  | read
  | invalidScope
  | invalidReceipt
  | operationReused
  | corruptReceipt
  | unknownScope (id : Bytes)
  | parentImmutable
  | floorDecreases
  | path (cause : ClimbError Bytes)
  | signerUnavailable
  | sign (cause : Bytes)
  | invalidSignerReceipt
  | save

/-- The check of the scopes in `loadLocked`, with the keys that were seen. -/
def scopesDistinct : List Bytes → List PersistedScope → Bool
  | _, [] => true
  | seen, persisted :: rest =>
      !(persisted.tenantID.isEmpty || persisted.scope.id.isEmpty || seen.contains persisted.key) &&
        scopesDistinct (persisted.key :: seen) rest

/-- `loadLocked`, of a file that is not there or has been written by the
store.  Reading the file may fail. -/
def loadLocked (crypto : Crypto) (file : Option DurableScopes) (readable : Bool) :
    Except StoreError DurableScopes :=
  if !readable then .error .read
  else
    match file with
    | none => .ok .empty
    | some state =>
        if !scopesDistinct [] state.scopes then .error .invalidScope
        else if state.operations.any fun binding => !binding.2.receipt.verify crypto then
          .error .invalidReceipt
        else .ok state

/-- How `saveLocked` ends: before the file is renamed, after it with an error,
or without one. -/
inductive SaveOutcome where
  | failed
  | renamed
  | saved

/-- `saveLocked`: the file afterwards, and whether it fails. -/
def saveLocked (file : Option DurableScopes) (state : DurableScopes) :
    SaveOutcome → Option DurableScopes × Except StoreError Unit
  | .failed => (file, .error .save)
  | .renamed => (some state.written, .error .save)
  | .saved => (some state.written, .ok ())

/-- The scopes of one tenant. -/
def treeForTenant (scopes : List PersistedScope) (tenantID : Bytes) : Tree :=
  (scopes.filter fun persisted => persisted.tenantID = tenantID).foldl
    (fun tree persisted => tree.addScope persisted.scope) []

/-- The checks of a command before the file is read. -/
def Command.check (command : Command) : Except StoreError Unit :=
  if command.tenantID = [] ∨ command.operationID = [] ∨ command.scopeID = [] ∨
      (command.kind ≠ bytes "scope" ∧ command.kind ≠ bytes "floor") ∨
      command.scopeID = command.parentScopeID then
    .error .invalidCommand
  else if command.kind = bytes "floor" ∧ command.parentScopeID ≠ [] then
    .error .floorChangesParent
  else .ok ()

/-- The scopes after a command, and the scope that it set: the first with its
key, with the new floor, or else a new one. -/
def setScope (command : Command) : List PersistedScope →
    Except StoreError (List PersistedScope × Scope)
  | [] =>
      if command.kind = bytes "floor" then .error (.unknownScope command.scopeID)
      else
        let scope := ⟨command.scopeID, command.parentScopeID, command.epochFloor⟩
        .ok ([⟨command.tenantID, scope⟩], scope)
  | current :: rest =>
      if current.key = scopeKey command.tenantID command.scopeID then
        if command.kind = bytes "scope" ∧ current.scope.parent ≠ command.parentScopeID then
          .error .parentImmutable
        else if command.epochFloor < current.scope.epochFloor then .error .floorDecreases
        else
          let scope := { current.scope with epochFloor := command.epochFloor }
          .ok ({ current with scope := scope } :: rest, scope)
      else
        match setScope command rest with
        | .error cause => .error cause
        | .ok (scopes, scope) => .ok (current :: scopes, scope)

/-- The callback that signs a body for an operation, where there is one. -/
abbrev Sign := Option (Bytes → Bytes → Except Bytes (Bytes × Bytes))

def signReceipt (crypto : Crypto) (command : Command) (scope : Scope) (sign : Sign) :
    Except StoreError Receipt :=
  let receipt : Receipt := ⟨command, scope.parent, scope.epochFloor, [], []⟩
  match sign with
  | none => .error .signerUnavailable
  | some callback =>
      match callback command.operationID receipt.signedBody with
      | .error cause => .error (.sign cause)
      | .ok (publicKeyDER, signature) =>
          let signed := { receipt with publicKeyDER := publicKeyDER, signature := signature }
          if signed.verify crypto then .ok signed else .error .invalidSignerReceipt

/-- What a new operation does to a state: the next state and the receipt. -/
def nextState (crypto : Crypto) (state : DurableScopes) (command : Command) (sign : Sign) :
    Except StoreError (DurableScopes × Receipt) := do
  let (scopes, scope) ← setScope command state.scopes
  match (treeForTenant scopes command.tenantID).path command.scopeID with
  | .error cause => throw (.path cause)
  | .ok _ =>
      let receipt ← signReceipt crypto command scope sign
      let operation := { digest := command.digestHex crypto, receipt := receipt }
      return ({ scopes := scopes
                operations := state.operations.set
                  (scopeKey command.tenantID command.operationID) operation }, receipt)

/-- One call of `Apply` with what its environment does. -/
structure Attempt where
  command : Command
  sign : Sign
  readable : Bool
  save : SaveOutcome

/-- `DurableScopeStore.Apply`: the file afterwards and the result. -/
def apply (crypto : Crypto) (file : Option DurableScopes) (attempt : Attempt) :
    Option DurableScopes × Except StoreError Receipt :=
  let command := attempt.command
  match command.check with
  | .error cause => (file, .error cause)
  | .ok () =>
      match loadLocked crypto file attempt.readable with
      | .error cause => (file, .error cause)
      | .ok state =>
          match state.operations.lookup (scopeKey command.tenantID command.operationID) with
          | some old =>
              if old.digest ≠ command.digestHex crypto then (file, .error .operationReused)
              else if !old.receipt.verify crypto then (file, .error .corruptReceipt)
              else (file, .ok old.receipt)
          | none =>
              match nextState crypto state command attempt.sign with
              | .error cause => (file, .error cause)
              | .ok (next, receipt) =>
                  match saveLocked file next attempt.save with
                  | (after, .error cause) => (after, .error cause)
                  | (after, .ok ()) => (after, .ok receipt)

/-- The file after a sequence of calls on a store without a file. -/
def run (crypto : Crypto) (attempts : List Attempt) : Option DurableScopes :=
  attempts.foldl (fun file attempt => (apply crypto file attempt).1) none

end Trstctl.Succession.Delegation
