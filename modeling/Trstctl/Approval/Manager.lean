import Trstctl.Go.Time
import Trstctl.Library.Interaction

/-!
# Issuance behind approvals

`Manager` of `internal/approval/approval.go`.  Its methods ask the store, the
issuer, the approver policy and the clock, one after another; between two
operations of a call others may run.  The audit trail, which nothing reads, is
left out.
-/

namespace Trstctl.Approval

open Go (Bytes Time bytes)
open Interaction (perform)

inductive State where
  | awaitingApproval
  | approved
  | issuing
  | denied
  | issued
  | expired
deriving DecidableEq, Repr

/-- The decision of an approver. -/
inductive Decision where
  | approve
  | deny
deriving DecidableEq

set_option linter.dupNamespace false in
structure Approval where
  approver : Bytes
  decision : Decision
  decidedAt : Time

/-- A request for a certificate. -/
structure Request where
  id : Bytes
  tenantID : Bytes
  kind : Bytes
  resource : Bytes
  requester : Bytes
  requiredApprovals : Int
  approvals : List Approval
  state : State
  credentialID : Bytes
  payload : Bytes
  createdAt : Time
  expiresAt : Time

/-- The tenant and the identifier under which a request is stored. -/
def Request.key (request : Request) : Bytes × Bytes :=
  (request.tenantID, request.id)

def approveCount (request : Request) : Nat :=
  (request.approvals.filter fun approval => approval.decision = .approve).length

structure RequestSpec where
  id : Bytes
  kind : Bytes
  resource : Bytes
  requester : Bytes
  payload : Bytes
  requiredApprovals : Int
  ttl : Int

/-- The errors of the manager. -/
inductive ApprovalError where
  | required
  | store (cause : Bytes)
  | unknown (id : Bytes)
  | expired (id : Bytes)
  | selfApproval
  | notPermitted (approver id reason : Bytes)
  | persistIssuing (cause : Bytes)
  | outcomePending (cause : Option Bytes)
  | persistState (state : State) (cause : Bytes)
  | alreadyIssued (id : Bytes)

/-- The operations that the methods ask for. -/
inductive Op where
  | get (tenantID id : Bytes)
  | save (request : Request)
  | issue (tenantID id resource : Bytes)
  | recoverIssuance (tenantID id resource : Bytes)
  | canApprove (tenantID id approver : Bytes)
  | clock

/-- What they answer. -/
@[reducible] def Answer : Op → Type
  | .get _ _ => Except Bytes (Option Request)
  | .save _ => Except Bytes Unit
  | .issue _ _ _ => Except Bytes Bytes
  | .recoverIssuance _ _ _ => Except Bytes (Bytes × Bool)
  | .canApprove _ _ _ => Bool × Bytes
  | .clock => Time

/-- What a method returns: a request, unless it is the zero `Request`, and an
error. -/
abbrev Outcome := Option Request × Option ApprovalError

/-- A method of the manager. -/
abbrev Method := Interaction Op Answer Outcome

/-- `Store.Get`. -/
abbrev getRequest (tenantID id : Bytes) : Interaction Op Answer (Except Bytes (Option Request)) :=
  perform (Op.get tenantID id)

/-- `Store.Save`. -/
abbrev saveRequest (request : Request) : Interaction Op Answer (Except Bytes Unit) :=
  perform (Op.save request)

abbrev issue (tenantID id resource : Bytes) : Interaction Op Answer (Except Bytes Bytes) :=
  perform (Op.issue tenantID id resource)

/-- `IssuanceRecovery.RecoverIssuance`. -/
abbrev lookUpIssuance (tenantID id resource : Bytes) :
    Interaction Op Answer (Except Bytes (Bytes × Bool)) :=
  perform (Op.recoverIssuance tenantID id resource)

abbrev canApprove (tenantID id approver : Bytes) : Interaction Op Answer (Bool × Bytes) :=
  perform (Op.canApprove tenantID id approver)

/-- `Clock`. -/
abbrev readClock : Interaction Op Answer Time :=
  perform Op.clock

/-- The configuration of a `Manager`, with the defaults of `New` filled in. -/
structure Manager where
  tenantID : Bytes
  defaultTTL : Int
  defaultRequiredApprovals : Int
  /-- Whether there is an `ApproverPolicy`. -/
  hasPolicy : Bool
  /-- Whether the issuer is an `IssuanceRecovery`. -/
  recovers : Bool

/-- The request that `RequestIssuance` saves. -/
def Manager.newRequest (manager : Manager) (spec : RequestSpec) (now : Time) : Request where
  id := spec.id
  tenantID := manager.tenantID
  kind := if spec.kind = [] then bytes "cert_issuance" else spec.kind
  resource := spec.resource
  requester := spec.requester
  requiredApprovals :=
    if spec.requiredApprovals ≤ 0 then manager.defaultRequiredApprovals else spec.requiredApprovals
  approvals := []
  state := .awaitingApproval
  credentialID := []
  payload := spec.payload
  createdAt := now
  expiresAt := now.add (if spec.ttl ≤ 0 then manager.defaultTTL else spec.ttl)

def Manager.requestIssuance (manager : Manager) (spec : RequestSpec) : Method := do
  if spec.id = [] ∨ spec.requester = [] ∨ spec.resource = [] then return (none, some .required)
  let now ← readClock
  let request := manager.newRequest spec now
  match ← saveRequest request with
  | .error error => return (none, some (.store error))
  | .ok () => return (some request, none)

def Manager.recoverIssuance (manager : Manager) (request : Request) : Method := do
  if manager.recovers = false then return (some request, some (.outcomePending none))
  match ← lookUpIssuance request.tenantID request.id request.resource with
  | .error error => return (some request, some (.outcomePending (some error)))
  | .ok (credentialID, complete) =>
      if complete = false ∨ credentialID = [] then
        return (some request, some (.outcomePending none))
      let issued := { request with state := .issued, credentialID := credentialID }
      match ← saveRequest issued with
      | .error error =>
          return (some { request with state := .issuing, credentialID := [] },
            some (.outcomePending (some error)))
      | .ok () => return (some issued, none)

/-- The last `Save` of `Approve`. -/
def persist (request : Request) : Method := do
  match ← saveRequest request with
  | .error error => return (some request, some (.persistState request.state error))
  | .ok () => return (some request, none)

/-- `Approve` once the required count is reached: the request is saved as
issuing before the key operation, and as issued after it. -/
def issueApproved (tenantID reqID : Bytes) (request : Request) : Method := do
  let issuing := { request with state := .issuing }
  match ← saveRequest issuing with
  | .error error => return (some issuing, some (.persistIssuing error))
  | .ok () =>
      match ← issue tenantID reqID issuing.resource with
      | .error error => return (some issuing, some (.outcomePending (some error)))
      | .ok credentialID =>
          persist { issuing with state := .issued, credentialID := credentialID }

/-- `Approve` after its checks: the approval is recorded. -/
def recordApproval (tenantID reqID approver : Bytes) (request : Request) (now : Time) : Method :=
  if request.approvals.any fun approval =>
      approval.approver == approver && approval.decision == .approve then
    return (some request, none)
  else
    let approved := { request with approvals := request.approvals ++ [⟨approver, .approve, now⟩] }
    if approved.requiredApprovals ≤ approveCount approved then
      issueApproved tenantID reqID approved
    else persist approved

/-- `Approve` for a request that has expired. -/
def expire (reqID : Bytes) (request : Request) : Method := do
  if request.state = .expired then return (some request, some (.expired reqID))
  let expired := { request with state := .expired }
  let _ ← saveRequest expired
  return (some expired, some (.expired reqID))

/-- `Approve` for a request that is neither terminal nor issuing. -/
def Manager.approveOpen (manager : Manager) (tenantID reqID approver : Bytes) (request : Request) :
    Method := do
  let now ← readClock
  if request.state = .expired ∨ now.after request.expiresAt = true then expire reqID request
  else if approver = request.requester then return (some request, some .selfApproval)
  else if manager.hasPolicy = false then recordApproval tenantID reqID approver request now
  else
    let (allowed, reason) ← canApprove tenantID reqID approver
    if allowed = false then return (some request, some (.notPermitted approver reqID reason))
    else recordApproval tenantID reqID approver request now

def Manager.approve (manager : Manager) (tenantID reqID approver : Bytes) : Method := do
  match ← getRequest tenantID reqID with
  | .error error => return (none, some (.store error))
  | .ok none => return (none, some (.unknown reqID))
  | .ok (some request) =>
      if request.state = .issued ∨ request.state = .denied then return (some request, none)
      else if request.state = .issuing then manager.recoverIssuance request
      else manager.approveOpen tenantID reqID approver request

def deny (tenantID reqID approver : Bytes) : Method := do
  match ← getRequest tenantID reqID with
  | .error error => return (none, some (.store error))
  | .ok none => return (none, some (.unknown reqID))
  | .ok (some request) =>
      if request.state = .issued then return (some request, some (.alreadyIssued reqID))
      if request.state = .denied then return (some request, none)
      let now ← readClock
      let denied :=
        { request with
          approvals := request.approvals ++ [⟨approver, .deny, now⟩]
          state := .denied }
      match ← saveRequest denied with
      | .error error => return (none, some (.store error))
      | .ok () => return (some denied, none)

/-- A `Store`: every request is kept under its own key. -/
structure RequestStore where
  requests : Go.MapOf (Bytes × Bytes) Request
  keyed : ∀ key request, requests.lookup key = some request → request.key = key

def RequestStore.find (store : RequestStore) (key : Bytes × Bytes) : Option Request :=
  store.requests.lookup key

def emptyStore : RequestStore where
  requests := []
  keyed key request bound := by cases bound

/-- The store after a request has been written. -/
def RequestStore.write (store : RequestStore) (request : Request) : RequestStore where
  requests := store.requests.set request.key request
  keyed key other bound := by
    rw [Go.MapOf.lookup_set] at bound
    split_ifs at bound with same
    · rw [← Option.some.inj bound, same]
    · exact store.keyed key other bound

theorem RequestStore.find_write (store : RequestStore) (request : Request) (key : Bytes × Bytes) :
    (store.write request).find key = if key = request.key then some request else store.find key :=
  Go.MapOf.lookup_set store.requests request.key request key

/-- The store, and the calls of `Issue` so far, by their key and success. -/
structure World where
  store : RequestStore
  issues : List ((Bytes × Bytes) × Bool)

/-- What the environment decides about an operation. -/
structure Fate where
  /-- The error of the operation. -/
  failure : Option Bytes := none
  /-- Whether a `Save` that fails has been stored all the same. -/
  stored : Bool := false
  credentialID : Bytes := []
  complete : Bool := true
  allowed : Bool := true
  reason : Bytes := []
  now : Time := Time.zero

/-- A `Save` with this fate changes the store. -/
def Fate.writes (fate : Fate) : Bool :=
  fate.failure.isNone || fate.stored

/-- The answer of an operation that may fail. -/
def Fate.unlessFailed {α : Type} (fate : Fate) (value : α) : Except Bytes α :=
  match fate.failure with
  | some error => .error error
  | none => .ok value

/-- The store, the issuer, the policy and the clock. -/
def environment : Interaction.Environment Op Answer World Fate where
  answer world op fate :=
    match op with
    | .get tenantID id => fate.unlessFailed (world.store.find (tenantID, id))
    | .save _ => fate.unlessFailed ()
    | .issue _ _ _ => fate.unlessFailed fate.credentialID
    | .recoverIssuance _ _ _ => fate.unlessFailed (fate.credentialID, fate.complete)
    | .canApprove _ _ _ => (fate.allowed, fate.reason)
    | .clock => fate.now
  after world op fate :=
    match op with
    | .save request =>
        if fate.writes then { world with store := world.store.write request } else world
    | .issue tenantID id _ =>
        { world with issues := world.issues ++ [((tenantID, id), fate.failure.isNone)] }
    | _ => world

theorem save_cases (world : World) (request : Request) (fate : Fate) :
    (environment.answer world (.save request) fate = .ok () ∧ fate.writes = true ∧
        environment.after world (.save request) fate =
          { world with store := world.store.write request }) ∨
      (∃ error, environment.answer world (.save request) fate = .error error ∧
        fate.writes = true ∧ environment.after world (.save request) fate =
          { world with store := world.store.write request }) ∨
      (∃ error, environment.answer world (.save request) fate = .error error ∧
        environment.after world (.save request) fate = world) := by
  obtain ⟨failure, stored, credentialID, complete, allowed, reason, now⟩ := fate
  cases failure with
  | none => exact Or.inl ⟨rfl, rfl, rfl⟩
  | some error =>
      cases stored with
      | true => exact Or.inr (Or.inl ⟨error, rfl, rfl, rfl⟩)
      | false => exact Or.inr (Or.inr ⟨error, rfl, rfl⟩)

/-- A manager of one tenant without a policy. -/
def plainManager : Manager where
  tenantID := [0x74]
  defaultTTL := 3600 * 10 ^ 9
  defaultRequiredApprovals := 2
  hasPolicy := false
  recovers := false

end Trstctl.Approval
