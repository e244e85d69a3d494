import Trstctl.Agentid.Revoke.Cascade
import Trstctl.Library.Interaction

/-!
# Completion evidence and the terminal state

The calls that execute the jobs of a directive, find jobs for late descendants
and make the directive terminal.  Each read, each transaction and each append is
one step, and the calls may be interleaved in any way.
-/

namespace Trstctl.Agentid.Revoke

open Go (Bytes bytes jsonPair jsonString)
open Interaction (perform)

structure CompletionEvidence where
  tenantID : Bytes
  directiveID : Bytes
  idempotencyKey : Bytes
  credentialID : Bytes
  effectClass : Bytes
  completedAt : Int
  executor : Bytes
  signature : Bytes
  publicKey : Bytes

/-- `evidenceDomain` and the colon after it. -/
def evidenceDomain : Bytes := bytes "agid/agentid/revocation-completion-evidence/v1:"

def CompletionEvidence.evidenceBodyBytes (evidence : CompletionEvidence) : Bytes :=
  evidenceDomain ++ Go.jsonObject
    [jsonPair "tenant_id" (jsonString evidence.tenantID),
      jsonPair "directive_id" (jsonString evidence.directiveID),
      jsonPair "idempotency_key" (jsonString evidence.idempotencyKey),
      jsonPair "credential_id" (jsonString evidence.credentialID),
      jsonPair "effect_class" (jsonString evidence.effectClass),
      jsonPair "completed_at" (Go.decimal evidence.completedAt),
      jsonPair "executor" (jsonString evidence.executor)]

/-- What evidence is read with: `json.Unmarshal` of its body, and the
verification of signatures. -/
structure Reader where
  unmarshal : Bytes → Option CompletionEvidence
  verify : (publicKey body signature : Bytes) → Bool

/-- A row of `agent_revocation_effects`. -/
structure EffectRow (Tenant : Type) where
  tenant : Tenant
  directiveID : Bytes
  idempotencyKey : Bytes
  credentialID : Bytes
  effectClass : Bytes
  executor : Bytes
  completedAt : Int
  evidenceBody : Bytes
  evidenceSig : Bytes
  evidencePub : Bytes

def decodeCompletionEvidence (reader : Reader) (body signature publicKey : Bytes) :
    Option CompletionEvidence :=
  if Go.hasPrefix body evidenceDomain then
    (reader.unmarshal (body.drop evidenceDomain.length)).map fun evidence =>
      { evidence with signature := signature, publicKey := publicKey }
  else none

def verifyCompletionEvidence (reader : Reader) (evidence : CompletionEvidence) : Bool :=
  !evidence.signature.isEmpty && !evidence.publicKey.isEmpty &&
    reader.verify evidence.publicKey evidence.evidenceBodyBytes evidence.signature

/-- The evidence of a recorded effect can be loaded and verifies. -/
def EffectRow.verifies {Tenant : Type} (reader : Reader) (effect : EffectRow Tenant) : Bool :=
  match decodeCompletionEvidence reader effect.evidenceBody effect.evidenceSig
      effect.evidencePub with
  | none => false
  | some evidence => verifyCompletionEvidence reader evidence

/-- The ledger, the tables of the cascade and the recorded effects. -/
structure Records (Tenant : Type) where
  ledger : Ledger
  database : Database Tenant
  effects : List (EffectRow Tenant)

/-- What the jobs of a directive are read for. -/
inductive Reading where
  | verdict
  | coverage

/-- The effect that a job records. -/
structure NewEffect where
  directiveID : Bytes
  idempotencyKey : Bytes
  credentialID : Bytes
  effectClass : Bytes
  executor : Bytes
  completedAt : Int
  evidenceBody : Bytes
  evidenceSig : Bytes
  evidencePub : Bytes
  reason : Bytes
  publishDownstream : Bool

/-- The steps of the calls. -/
inductive Op where
  | fetchDirective (tenantID directiveID : Bytes)
  | fetchJobs (reading : Reading) (tenantID directiveID : Bytes)
  | fetchEffect (tenantID directiveID idempotencyKey : Bytes)
  | checkedHead
  | replayEdges (tenantID subject : Bytes) (watermark : Nat)
  | replayTerminal (tenantID directiveID : Bytes) (head : Nat)
  | sign (body : Bytes)
  | markTerminal (tenantID directiveID : Bytes)
  | appendEvent (tenantID : Bytes) (content : Content)
  | fileFollowOn (tenantID directiveID reason : Bytes) (credentials : List Bytes)
  | recordEffect (tenantID : Bytes) (effect : NewEffect)

/-- What the steps return. -/
@[reducible] def Value (Tenant : Type) : Op → Type
  | .fetchDirective _ _ => Option (DirectiveRow Tenant)
  | .fetchJobs _ _ _ => List (JobRow Tenant)
  | .fetchEffect _ _ _ => Option (EffectRow Tenant)
  | .checkedHead => Nat
  | .replayEdges _ _ _ => Option (List Bytes)
  | .replayTerminal _ _ _ => Bool
  | .sign _ => Bytes × Bytes
  | .markTerminal _ _ => Bool
  | .appendEvent _ _ => Unit
  | .fileFollowOn _ _ _ _ => Unit
  | .recordEffect _ _ => Bool

/-- What the steps answer: what they return, or why they fail. -/
@[reducible] def Answer (Tenant : Type) (op : Op) : Type :=
  Except StoreError (Value Tenant op)

/-- What a step meets: a failure of a read or of the signer, the outcome of a
write, the signature and key that the signer returns, and the id of an event. -/
structure Circumstance where
  failure : Option String := none
  write : WriteOutcome := .done
  signed : Bytes × Bytes := ([], [])
  eventID : Bytes := []

section Environment

variable {Tenant : Type} [DecidableEq Tenant] (uuid : Bytes → Option Tenant)

/-- A read in a transaction of a tenant. -/
def readTenant {α : Type} (circumstance : Circumstance) (tenantID : Bytes) (read : Tenant → α) :
    Except StoreError α :=
  match circumstance.failure, uuid tenantID with
  | some cause, _ => .error (.failed cause)
  | none, none => .error .tenant
  | none, some tenant => .ok (read tenant)

/-- A read of the ledger or an answer of the signer. -/
def readLog {α : Type} (circumstance : Circumstance) (value : α) : Except StoreError α :=
  match circumstance.failure with
  | some cause => .error (.failed cause)
  | none => .ok value

/-- `FetchRevocationDirective`. -/
def Records.directive (records : Records Tenant) (tenant : Tenant) (directiveID : Bytes) :
    Option (DirectiveRow Tenant) :=
  records.database.directives.find? fun row =>
    row.tenant == tenant && row.directiveID == directiveID

/-- `FetchRevocationJobs`: the rows in the order of their keys. -/
def Records.jobs (records : Records Tenant) (tenant : Tenant) (directiveID : Bytes) :
    List (JobRow Tenant) :=
  (records.database.jobs.filter fun row =>
    row.tenant == tenant && row.directiveID == directiveID).insertionSort
      fun first second => first.idempotencyKey ≤ second.idempotencyKey

/-- `FetchEffect`. -/
def Records.effect (records : Records Tenant) (tenant : Tenant)
    (directiveID idempotencyKey : Bytes) : Option (EffectRow Tenant) :=
  records.effects.find? fun row =>
    row.tenant == tenant && row.directiveID == directiveID &&
      row.idempotencyKey == idempotencyKey

def Records.hasTerminalEvent (records : Records Tenant) (tenantID directiveID : Bytes)
    (head : Nat) : Bool :=
  records.ledger.events.any fun event =>
    event.tenantID == tenantID && (event.sequence ≤ head : Bool) &&
      event.content == .revocationTerminal (some directiveID)

/-- `MarkDirectiveTerminalTx`: the rows afterwards. -/
def Records.markTerminal (records : Records Tenant) (tenant : Tenant) (directiveID : Bytes) :
    Records Tenant :=
  { records with
    database := { records.database with
      directives := records.database.directives.map fun row =>
        if row.tenant = tenant ∧ row.directiveID = directiveID ∧ row.terminal = false then
          { row with terminal := true }
        else row } }

/-- The directive is there and not terminal. -/
def Records.isOpen (records : Records Tenant) (tenant : Tenant) (directiveID : Bytes) : Bool :=
  records.database.directives.any fun row =>
    row.tenant == tenant && row.directiveID == directiveID && !row.terminal

def destinationDownstreamPlane : Bytes := bytes "agent.revocation.downstream-plane"

/-- The outbox entry of the publication that a job makes. -/
def downstreamEntry (tenant : Tenant) (tenantID : Bytes) (effect : NewEffect) :
    OutboxRow Tenant where
  tenant := tenant
  idempotencyKey := bytes "agid-revoke-downstream:" ++ effect.directiveID ++ bytes ":" ++
    effect.credentialID
  command :=
    { destination := destinationDownstreamPlane
      payload := Go.jsonObject
        [jsonPair "tenant_id" (jsonString tenantID),
          jsonPair "credential_id" (jsonString effect.credentialID),
          jsonPair "reason" (jsonString effect.reason)]
      lane := destinationDownstreamPlane
      requiredAgentRole := []
      requiredAgentID := [] }

/-- The publication of an effect, where the job asks for one. -/
def publishEffect (database : Database Tenant) (tenant : Tenant) (tenantID : Bytes)
    (effect : NewEffect) : Except StoreError (Database Tenant) :=
  if effect.publishDownstream then
    database.enqueueIfAbsent (downstreamEntry tenant tenantID effect)
  else .ok database

def NewEffect.row (effect : NewEffect) (tenant : Tenant) : EffectRow Tenant where
  tenant := tenant
  directiveID := effect.directiveID
  idempotencyKey := effect.idempotencyKey
  credentialID := effect.credentialID
  effectClass := effect.effectClass
  executor := effect.executor
  completedAt := effect.completedAt
  evidenceBody := effect.evidenceBody
  evidenceSig := effect.evidenceSig
  evidencePub := effect.evidencePub

/-- The transaction of `Execute`: `RecordEffectIfAbsentTx`, and the publication of
an effect that is new. -/
def Records.recordEffect (records : Records Tenant) (tenant : Tenant) (tenantID : Bytes)
    (effect : NewEffect) : Except StoreError (Records Tenant × Bool) :=
  if (storable effect.directiveID && storable effect.idempotencyKey &&
      storable effect.credentialID && storable effect.effectClass && storable effect.executor) =
        false then .error .text
  else if (records.effect tenant effect.directiveID effect.idempotencyKey).isSome then
    .ok (records, false)
  else
    let stamped : Database Tenant :=
      { records.database with
        jobs := records.database.jobs.map fun row =>
          if row.tenant = tenant ∧ row.directiveID = effect.directiveID ∧
              row.idempotencyKey = effect.idempotencyKey then
            { row with
              completionRef :=
                if effect.evidenceBody.isEmpty then none else some effect.evidenceBody }
          else row }
    match publishEffect stamped tenant tenantID effect with
    | .error error => .error error
    | .ok database =>
        .ok ({ records with
          database := database, effects := records.effects ++ [effect.row tenant] }, true)

/-- A transaction, with what it leaves and what it answers. -/
def transact {α : Type} (circumstance : Circumstance) (records : Records Tenant)
    (tenantID : Bytes) (body : Tenant → Except StoreError (Records Tenant × α)) :
    Records Tenant × Except StoreError α :=
  match uuid tenantID with
  | none => (records, .error .tenant)
  | some tenant =>
      match circumstance.write with
      | .lost cause => (records, .error (.failed cause))
      | .done =>
          match body tenant with
          | .error error => (records, .error error)
          | .ok outcome => (outcome.1, .ok outcome.2)
      | .unacknowledged cause =>
          match body tenant with
          | .error error => (records, .error error)
          | .ok outcome => (outcome.1, .error (.failed cause))

/-- The transaction of `Transition`. -/
def flip (circumstance : Circumstance) (records : Records Tenant) (tenantID directiveID : Bytes) :
    Records Tenant × Except StoreError Bool :=
  transact uuid circumstance records tenantID fun tenant =>
    if storable directiveID then
      .ok (records.markTerminal tenant directiveID, records.isOpen tenant directiveID)
    else .error .text

/-- The transaction of `GenerateFollowOn`. -/
def fileFollowOn (circumstance : Circumstance) (records : Records Tenant)
    (tenantID directiveID reason : Bytes) (credentials : List Bytes) :
    Records Tenant × Except StoreError Unit :=
  transact uuid circumstance records tenantID fun tenant =>
    (fileJobs records.database tenant tenantID directiveID reason true credentials).map
      fun database => ({ records with database := database }, ())

/-- `Log.Append`. -/
def appendEvent (circumstance : Circumstance) (records : Records Tenant) (tenantID : Bytes)
    (content : Content) : Records Tenant × Except StoreError Unit :=
  let appended : Records Tenant :=
    { records with ledger := records.ledger.append circumstance.eventID tenantID content }
  match circumstance.write with
  | .lost cause => (records, .error (.failed cause))
  | .done => (appended, .ok ())
  | .unacknowledged cause => (appended, .error (.failed cause))

/-- The steps in the records that the calls share. -/
def environment : Interaction.Environment Op (Answer Tenant) (Records Tenant) Circumstance where
  answer records op circumstance :=
    match op with
    | .fetchDirective tenantID directiveID =>
        readTenant uuid circumstance tenantID fun tenant => records.directive tenant directiveID
    | .fetchJobs _ tenantID directiveID =>
        readTenant uuid circumstance tenantID fun tenant => records.jobs tenant directiveID
    | .fetchEffect tenantID directiveID idempotencyKey =>
        readTenant uuid circumstance tenantID fun tenant =>
          records.effect tenant directiveID idempotencyKey
    | .checkedHead => readLog circumstance records.ledger.head
    | .replayEdges tenantID subject watermark =>
        readLog circumstance (records.ledger.descendantsAsOf tenantID subject watermark)
    | .replayTerminal tenantID directiveID head =>
        readLog circumstance (records.hasTerminalEvent tenantID directiveID head)
    | .sign _ => readLog circumstance circumstance.signed
    | .markTerminal tenantID directiveID =>
        (flip uuid circumstance records tenantID directiveID).2
    | .appendEvent tenantID content => (appendEvent circumstance records tenantID content).2
    | .fileFollowOn tenantID directiveID reason credentials =>
        (fileFollowOn uuid circumstance records tenantID directiveID reason credentials).2
    | .recordEffect tenantID effect =>
        (transact uuid circumstance records tenantID fun tenant =>
          records.recordEffect tenant tenantID effect).2
  after records op circumstance :=
    match op with
    | .markTerminal tenantID directiveID =>
        (flip uuid circumstance records tenantID directiveID).1
    | .appendEvent tenantID content => (appendEvent circumstance records tenantID content).1
    | .fileFollowOn tenantID directiveID reason credentials =>
        (fileFollowOn uuid circumstance records tenantID directiveID reason credentials).1
    | .recordEffect tenantID effect =>
        (transact uuid circumstance records tenantID fun tenant =>
          records.recordEffect tenant tenantID effect).1
    | _ => records

end Environment

end Trstctl.Agentid.Revoke
