import Trstctl.Succession.Record

/-!
# Recovery records

The record that replaces a lost key (`internal/succession/recovery`): the
successor proves possession, and a quorum of approvers rooted in the tenant's
trust root authorizes the succession in the place of the lost key.
-/

namespace Trstctl.Succession.Recovery

open Go (Bytes bytes bigEndian64 MapOf)

structure Approver where
  id : Bytes
  pubDER : Bytes

structure RecoveryStatement where
  deploymentScope : Bytes
  identityID : Bytes
  tenantID : Bytes
  epoch : UInt64
  successorAlg : Bytes
  successorPub : Bytes
  nonce : Bytes

structure Approval where
  approverID : Bytes
  signature : Bytes

structure RecoveryAuthorization where
  statement : RecoveryStatement
  threshold : Int
  roster : List Approver
  rosterSig : Bytes
  approvals : List Approval

structure RecoveryRecord where
  fields : CommitmentFields
  possession : PossessionProof
  authorization : RecoveryAuthorization
  inclusionProof : Bytes

/-- Why a recovery record is not accepted. -/
inductive RecoveryError where
  | commitment (error : CommitError)
  | possession
  | threshold
  | rosterUnrooted
  | statementMismatch
  | quorumNotMet (count : Nat) (threshold : Int)

def encodeStatement (statement : RecoveryStatement) : Bytes :=
  writeField (bytes "trstctl/pcas/recovery/statement/v1") ++
    writeField statement.deploymentScope ++
    writeField statement.identityID ++
    writeField statement.tenantID ++
    writeUint statement.epoch ++
    writeField statement.successorAlg ++
    writeField statement.successorPub ++
    writeField statement.nonce

def encodeRoster (threshold : Int) (roster : List Approver) : Bytes :=
  writeField (bytes "trstctl/pcas/recovery/roster/v1") ++
    writeInt threshold ++
    bigEndian64 roster.length ++
    roster.flatMap fun approver => writeField approver.id ++ writeField approver.pubDER

/-- The keys of a roster by name, the last one where a name is repeated. -/
def rosterByID (roster : List Approver) : MapOf Bytes Bytes :=
  roster.foldl (fun map approver => map.set approver.id approver.pubDER) []

/-- The approvers with a valid signature over the statement, each once. -/
def seenApprovers (verifyMessage : Bytes → Bytes → Bytes → Bool)
    (authorization : RecoveryAuthorization) : List Bytes :=
  authorization.approvals.foldl
    (fun seen approval =>
      match (rosterByID authorization.roster).lookup approval.approverID with
      | none => seen
      | some pub =>
          if approval.approverID ∈ seen then seen
          else if verifyMessage pub (encodeStatement authorization.statement)
              approval.signature then
            approval.approverID :: seen
          else seen)
    []

/-- `VerifyAuthorization`, for the succession of committed fields. -/
def verifyAuthorization (verifyMessage : Bytes → Bytes → Bytes → Bool)
    (authorization : RecoveryAuthorization) (trustRootPubDER : Bytes)
    (fields : CommitmentFields) : Except RecoveryError Unit := do
  if authorization.threshold < 1 then throw .threshold
  if trustRootPubDER = [] then throw .rosterUnrooted
  if !verifyMessage trustRootPubDER (encodeRoster authorization.threshold authorization.roster)
      authorization.rosterSig then
    throw .rosterUnrooted
  let statement := authorization.statement
  if statement.identityID ≠ fields.identityID ∨ statement.tenantID ≠ fields.tenantID ∨
      statement.epoch ≠ fields.epoch ∨ statement.successorAlg ≠ fields.successorAlg ∨
      statement.successorPub ≠ fields.successorPub then
    throw .statementMismatch
  let count := (seenApprovers verifyMessage authorization).length
  if count < authorization.threshold then
    throw (.quorumNotMet count authorization.threshold)

def verifyRecord (crypto : Crypto) (verifyMessage : Bytes → Bytes → Bytes → Bool)
    (record : RecoveryRecord)
    (trustRootPubDER : Bytes) : Except RecoveryError Unit := do
  let commitment ← (commit crypto record.fields).mapError .commitment
  if record.possession.kind ≠ .successorSignature ∨ record.possession.signature = [] then
    throw .possession
  if !crypto.verifyAlgorithmMessage record.fields.successorAlg record.fields.successorPub
      commitment record.possession.signature then
    throw .possession
  verifyAuthorization verifyMessage record.authorization trustRootPubDER record.fields

end Trstctl.Succession.Recovery
