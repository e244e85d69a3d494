import Trstctl.Auditanchor.Series
import Trstctl.Translog.Membership

/-!
# The anchor log

`VerifyAnchorLog` (`internal/auditanchor/anchorlog.go`): an export proves its
anchor records against the signed head of the tenant's Merkle tree of anchors.
The audit keys, and the JSON decoder that refuses unknown and repeated fields,
are parameters.  Where the source returns an error beside a result, its callers
drop the result.
-/

namespace Trstctl.Auditanchor

open Go (Bytes Time bytes decimal hexEncode hexDecode trimSpace MapOf)
open Auditchain (Record)
open Translog (newTree)

/-- `AnchorLogEntry`.  The store takes an anchor only with a hexadecimal token
digest, which holds no NUL byte. -/
structure AnchorLogEntry where
  eventID : Bytes
  throughSequence : UInt64
  chainHead : Bytes
  tokenSHA256 : Bytes
  digestText : (0 : UInt8) ∉ tokenSHA256

namespace AnchorLogEntry

/-- `AnchorLogEntry.leaf`: the fields joined by NUL bytes. -/
def leaf (tenantID : Bytes) (entry : AnchorLogEntry) : Bytes :=
  bytes "trstctl/audit/anchor-log/leaf/v1" ++ 0x00 :: (tenantID ++ 0x00 ::
    (decimal entry.throughSequence.toNat ++ 0x00 ::
      (entry.chainHead ++ 0x00 :: entry.tokenSHA256)))

/-- What the log records of an anchor: all but the identifier of its event. -/
def logged (entry : AnchorLogEntry) : UInt64 × Bytes × Bytes :=
  (entry.throughSequence, entry.chainHead, entry.tokenSHA256)

theorem logged_eq_of_leaf_eq {tenantID : Bytes} {first second : AnchorLogEntry}
    (equal : first.leaf tenantID = second.leaf tenantID) :
    first.logged = second.logged := by
  have afterDomain := (List.cons.inj (List.append_cancel_left equal)).2
  have afterTenant := (List.cons.inj (List.append_cancel_left afterDomain)).2
  obtain ⟨numbers, rest⟩ := Separator.eq_of_append_cons_eq (Go.zero_notMem_decimal _)
    (Go.zero_notMem_decimal _) afterTenant
  obtain ⟨heads, digests⟩ :=
    Separator.eq_of_append_cons_eq_last first.digestText second.digestText rest
  have sequences := UInt64.toNat_inj.mp (Go.decimal_injective numbers)
  unfold logged
  rw [sequences, heads, digests]

end AnchorLogEntry

structure AnchorLogHead where
  tenantID : Bytes
  treeSize : Int
  rootHash : Bytes
  issuedAt : Time
deriving DecidableEq

structure AnchorInclusion where
  recordSequence : UInt64
  leafIndex : Int
  path : List Bytes

structure AnchorConsistency where
  fromSize : Int
  path : List Bytes

structure AnchorLogProof where
  signedHead : Bytes
  inclusions : List AnchorInclusion
  consistency : Option AnchorConsistency

structure AnchorLogResult where
  checked : Bool
  reason : Bytes
  treeSize : Int
  rootHash : Bytes
  proven : Nat
  unloggedTail : Nat
  consistentWithPrevious : Bool
  signedHead : Bytes
deriving DecidableEq

def artifactAuditAnchorLog : Bytes :=
  bytes "trstctl.audit-evidence/audit-anchor-log/v1"

/-- What the check calls: the hash, `JWKSet.VerifyArtifact`, which takes a
compact signature and the artifact it must be for and returns the payload, and
`decodeExactJSON` for a head and for the event of an anchor. -/
structure LogPrimitives (Keys : Type) where
  sha256Sum : Bytes → Bytes
  verifyArtifact : Keys → Bytes → Bytes → Except Bytes Bytes
  decodeHead : Bytes → Except Bytes AnchorLogHead
  decodeAnchored : Bytes → Except Bytes AnchoredEvent

variable {Keys : Type}

def verifyAnchorLogHead (primitives : LogPrimitives Keys) (signed : Bytes)
    (keys : Keys) : Except Bytes (AnchorLogHead × Bytes) := do
  let payload ← (primitives.verifyArtifact keys (trimSpace signed)
    artifactAuditAnchorLog).mapError (bytes "auditanchor: verify the anchor log head: " ++ ·)
  let head ← (primitives.decodeHead payload).mapError
    (bytes "auditanchor: decode the anchor log head: " ++ ·)
  match hexDecode head.rootHash with
  | none => throw (bytes "auditanchor: the anchor log head is malformed")
  | some root =>
      if root.length ≠ 32 ∨ head.treeSize < 1 ∨ head.tenantID = [] then
        throw (bytes "auditanchor: the anchor log head is malformed")
      else pure (head, root)

/-- The entry that `anchorLeafFromRecord` makes of an anchor record. -/
def anchorEntryFromRecord (primitives : LogPrimitives Keys)
    (record : Record) : Except Bytes AnchorLogEntry := do
  let payload ← (primitives.decodeAnchored record.data).mapError
    (bytes "auditanchor: anchor record " ++ decimal record.sequence.toNat ++
      bytes " is malformed: " ++ ·)
  match payload.anchor.token with
  | none =>
      throw (bytes "auditanchor: anchor record " ++ decimal record.sequence.toNat ++
        bytes " carries no RFC 3161 token")
  | some token =>
      if token.der = [] then
        throw (bytes "auditanchor: anchor record " ++ decimal record.sequence.toNat ++
          bytes " carries no RFC 3161 token")
      else
        pure
          { eventID := []
            throughSequence := payload.throughSequence
            chainHead := payload.anchor.chainHead
            tokenSHA256 := hexEncode (primitives.sha256Sum token.der)
            digestText := Go.zero_notMem_hexEncode _ }

def anchorLeafFromRecord (primitives : LogPrimitives Keys) (tenantID : Bytes)
    (record : Record) : Except Bytes Bytes := do
  let entry ← anchorEntryFromRecord primitives record
  pure (entry.leaf tenantID)

def decodePath : List Bytes → Except Bytes (List Bytes)
  | [] => pure []
  | node :: rest =>
      match hexDecode node with
      | none => throw (bytes "auditanchor: an anchor log proof path holds a malformed hash")
      | some raw =>
          if raw.length ≠ 32 then
            throw (bytes "auditanchor: an anchor log proof path holds a malformed hash")
          else do
            let path ← decodePath rest
            pure (raw :: path)

/-- The loop that indexes the inclusions by record. -/
def indexInclusions :
    List AnchorInclusion → MapOf UInt64 AnchorInclusion →
      Except Bytes (MapOf UInt64 AnchorInclusion)
  | [], bySequence => pure bySequence
  | inclusion :: rest, bySequence =>
      if (bySequence.lookup inclusion.recordSequence).isSome then
        throw (bytes "auditanchor: the anchor log proves record " ++
          decimal inclusion.recordSequence.toNat ++ bytes " twice")
      else indexInclusions rest (bySequence.set inclusion.recordSequence inclusion)

/-- The variables of the loop over the records. -/
structure LogScan where
  bySequence : MapOf UInt64 AnchorInclusion
  previousIndex : Int
  unproven : Bool
  proven : Nat
  unloggedTail : Nat

/-- One iteration of the loop over the records. -/
def scanRecord (primitives : LogPrimitives Keys) (head : AnchorLogHead) (root : Bytes)
    (scan : LogScan) (record : Record) : Except Bytes LogScan :=
  if record.type ≠ eventTypeAnchored then pure scan
  else
    match scan.bySequence.lookup record.sequence with
    | none => pure { scan with unproven := true, unloggedTail := scan.unloggedTail + 1 }
    | some inclusion => do
        if scan.unproven then
          throw (bytes "auditanchor: anchor record " ++ decimal record.sequence.toNat ++
            bytes (" is in the anchor log, but an earlier anchor record in this export is not"))
        let leaf ← anchorLeafFromRecord primitives head.tenantID record
        let path ← decodePath inclusion.path
        if Translog.verifyInclusion primitives.sha256Sum leaf inclusion.leafIndex head.treeSize
            path root = false then
          throw (bytes "auditanchor: anchor record " ++ decimal record.sequence.toNat ++
            bytes " is not the anchor log entry the export claims")
        if 0 ≤ scan.previousIndex ∧ inclusion.leafIndex ≠ scan.previousIndex + 1 then
          throw (bytes "auditanchor: the anchor log holds " ++
            decimal (inclusion.leafIndex - scan.previousIndex - 1) ++
            bytes " anchor(s) between this export's anchor records before " ++
            decimal record.sequence.toNat ++ bytes " that the export does not")
        pure
          { scan with
            bySequence := scan.bySequence.delete record.sequence
            previousIndex := inclusion.leafIndex
            proven := scan.proven + 1 }

/-- The loop over the records. -/
def scanRecords (primitives : LogPrimitives Keys) (head : AnchorLogHead)
    (root : Bytes) : List Record → LogScan → Except Bytes LogScan
  | [], scan => pure scan
  | record :: rest, scan => do
      let next ← scanRecord primitives head root scan record
      scanRecords primitives head root rest next

/-- The check against the head of an earlier export. -/
def checkPrevious (primitives : LogPrimitives Keys) (proof : AnchorLogProof) (keys : Keys)
    (head : AnchorLogHead) (root : Bytes)
    (previousSignedHead : Bytes) : Except Bytes Unit := do
  let (previous, previousRoot) ← (verifyAnchorLogHead primitives previousSignedHead keys).mapError
    (bytes "auditanchor: earlier anchor log head: " ++ ·)
  if previous.tenantID ≠ head.tenantID then
    throw (bytes "auditanchor: the earlier anchor log head names a different tenant")
  if previous.treeSize > head.treeSize then
    throw (bytes "auditanchor: the anchor log shrank from " ++ decimal previous.treeSize ++
      bytes " to " ++ decimal head.treeSize ++ bytes " entries since the earlier head")
  else if previous.treeSize = head.treeSize then
    if previous.rootHash ≠ head.rootHash then
      throw (bytes ("auditanchor: the anchor log was rewritten: same size as the earlier head, " ++
        "different root"))
    else pure ()
  else
    match proof.consistency with
    | none => throw (noConsistency previous.treeSize)
    | some consistency =>
        if consistency.fromSize ≠ previous.treeSize then
          throw (noConsistency previous.treeSize)
        else do
          let path ← decodePath consistency.path
          if Translog.verifyConsistency primitives.sha256Sum previous.treeSize head.treeSize path
              previousRoot root = false then
            throw (bytes ("auditanchor: the anchor log does not extend the earlier head: " ++
              "anchors the auditor saw were rewritten"))
          else pure ()
where
  noConsistency (size : Int) : Bytes :=
    bytes "auditanchor: the export carries no consistency proof from the earlier head's " ++
      decimal size ++ bytes " entries; export it with anchor_log_from=" ++ decimal size

/-- The part of `VerifyAnchorLog` behind its first `switch`. -/
def checkAnchorLog (primitives : LogPrimitives Keys) (records : List Record)
    (proof : AnchorLogProof) (keys : Keys)
    (previousSignedHead : Bytes) : Except Bytes AnchorLogResult := do
  let (head, root) ← verifyAnchorLogHead primitives proof.signedHead keys
  let tenantID := (records.head?.map Record.tenantID).getD []
  if tenantID ≠ [] ∧ head.tenantID ≠ tenantID then
    throw (bytes "auditanchor: the anchor log head names a different tenant than the export")
  let bySequence ← indexInclusions proof.inclusions []
  let scan ← scanRecords primitives head root records
    { bySequence := bySequence
      previousIndex := -1
      unproven := false
      proven := 0
      unloggedTail := 0 }
  if scan.bySequence ≠ [] then
    throw (bytes ("auditanchor: the anchor log proves records that are not anchor records in " ++
      "this export"))
  let result : AnchorLogResult :=
    { checked := true
      reason := []
      treeSize := head.treeSize
      rootHash := head.rootHash
      proven := scan.proven
      unloggedTail := scan.unloggedTail
      consistentWithPrevious := false
      signedHead := proof.signedHead }
  if previousSignedHead = [] then return result
  checkPrevious primitives proof keys head root previousSignedHead
  return { result with consistentWithPrevious := true }

def verifyAnchorLog (primitives : LogPrimitives Keys) (records : List Record)
    (proof : Option AnchorLogProof) (keys : Option Keys)
    (previousSignedHead : Bytes) : Except Bytes AnchorLogResult :=
  match proof, keys with
  | none, _ =>
      if previousSignedHead ≠ [] then
        throw (bytes ("auditanchor: an earlier anchor log head was supplied, but this export " ++
          "carries no anchor log"))
      else if anchorRecords records ≠ [] then
        pure (unchecked (bytes "the export carries no anchor log"))
      else pure (unchecked [])
  | some _, none =>
      if previousSignedHead ≠ [] then
        throw (bytes ("auditanchor: checking the anchor log against an earlier head needs the " ++
          "pinned audit JWK set"))
      else pure (unchecked (bytes "the anchor log's signed head is verified with --audit-jwks"))
  | some proof, some keys => checkAnchorLog primitives records proof keys previousSignedHead
where
  unchecked (reason : Bytes) : AnchorLogResult :=
    { checked := false
      reason := reason
      treeSize := 0
      rootHash := []
      proven := 0
      unloggedTail := 0
      consistentWithPrevious := false
      signedHead := [] }

end Trstctl.Auditanchor
