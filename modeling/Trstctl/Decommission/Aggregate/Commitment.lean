import Mathlib.Data.List.Dedup
import Trstctl.Decommission.Record.Encoding
import Trstctl.Go.Time

/-!
# Commitments of aggregate records

`commitmentFromRequest` of `internal/decommission/aggregate`: the leaves of an
aggregate record, their root, and the claim that they exhaust the inventory of
the tenant.  `normalizeCommitment` only normalizes once more what is built
here.
-/

namespace Trstctl.Decommission.Aggregate

open Go (Bytes Time bytes trimSpace decimal jsonPair jsonObject jsonArray jsonString
  jsonByteSlice)

structure LeafInput where
  keyClass : Bytes
  record : Record.SignedRecord

structure Leaf where
  tenantID : Bytes
  stableKeyID : Bytes
  finalEpoch : UInt64
  keyClass : Bytes
  recordDigest : Bytes
  commitmentDigest : Bytes

structure CampaignBinding where
  campaignID : Bytes
  successionEpochID : Bytes
  supersedingSuccessionRecordDigest : Bytes
  successionJobDigests : List Bytes

structure SanitizationClaim where
  tenantID : Bytes
  keyID : Bytes
  dataSetID : Bytes
  scope : Bytes
  storageRefs : List Bytes
  storageDigest : Bytes
  designationRef : Bytes
  claimDigest : Bytes

structure MintRequest where
  tenantID : Bytes
  records : List LeafInput
  auditChainHead : Bytes
  inventoryLedgerPosition : UInt64
  inventoryKeyIDs : List Bytes
  inventoryDigest : Bytes
  campaign : Option CampaignBinding
  sanitizationClaims : List SanitizationClaim
  governanceEvidenceRefs : List Bytes

structure KeyClassCount where
  keyClass : Bytes
  count : Nat

structure InventoryCompleteness where
  ledgerPosition : UInt64
  keyCount : Nat
  digest : Bytes
  exhausted : Bool

/-- `Commitment`, without the version and the domain, which are fixed. -/
structure Commitment where
  tenantID : Bytes
  leaves : List Leaf
  leafRoot : Bytes
  keyClassCounts : List KeyClassCount
  auditChainHead : Bytes
  inventory : InventoryCompleteness
  campaign : Option CampaignBinding
  sanitizationClaims : List SanitizationClaim
  governanceEvidenceRefs : List Bytes
  mintedAtUnix : Int

/-- An error that wraps `ErrInvalidRecord`. -/
def invalidRecord (detail : Bytes) : Bytes :=
  bytes "aggregate decommissioning record: invalid: " ++ detail

def sortedStrings (texts : List Bytes) : List Bytes :=
  ((texts.map trimSpace).filter (· != [])).dedup.insertionSort (· ≤ ·)

def sameStringSet (left right : List Bytes) : Bool :=
  sortedStrings left == sortedStrings right

/-- The trimmed texts of a leaf. -/
def Leaf.normalize (leaf : Leaf) : Leaf :=
  { leaf with
    tenantID := trimSpace leaf.tenantID
    stableKeyID := trimSpace leaf.stableKeyID
    keyClass := trimSpace leaf.keyClass }

/-- The order of `normalizeLeaves`. -/
def leafLess (left right : Leaf) : Bool :=
  if left.tenantID ≠ right.tenantID then left.tenantID < right.tenantID
  else if left.stableKeyID ≠ right.stableKeyID then left.stableKeyID < right.stableKeyID
  else if left.finalEpoch ≠ right.finalEpoch then left.finalEpoch < right.finalEpoch
  else if left.keyClass ≠ right.keyClass then left.keyClass < right.keyClass
  else left.recordDigest < right.recordDigest

def normalizeLeaves (leaves : List Leaf) : List Leaf :=
  (leaves.map Leaf.normalize).insertionSort fun left right => leafLess right left = false

def leafFromInput (codec : Gate.Codec) (tenantID : Bytes) (input : LeafInput) :
    Except Bytes Leaf := do
  let record := input.record
  if record.commitment.tenantID ≠ tenantID then
    throw (invalidRecord (bytes "per-key record tenant " ++
      codec.quote record.commitment.tenantID ++
      bytes " outside aggregate tenant " ++ codec.quote tenantID))
  if record.commitment.stableKeyID = [] ∨ record.commitment.finalEpoch = 0 ∨
      record.commitmentDigest = [] then
    throw (invalidRecord (bytes "incomplete per-key destruction record"))
  let keyClass := trimSpace input.keyClass
  return {
    tenantID := tenantID
    stableKeyID := record.commitment.stableKeyID
    finalEpoch := record.commitment.finalEpoch
    keyClass := if keyClass = [] then bytes "unspecified" else keyClass
    recordDigest := Record.encodedRecordDigest codec record
    commitmentDigest := record.commitmentDigest }

/-- The name under which `leavesFromInputs` remembers a leaf. -/
def Leaf.seenKey (leaf : Leaf) : Bytes :=
  leaf.tenantID ++ [0] ++ leaf.stableKeyID ++ [0] ++ decimal leaf.finalEpoch.toNat

/-- The loop of `leavesFromInputs`. -/
def collectLeaves (codec : Gate.Codec) (tenantID : Bytes) :
    List Bytes → List LeafInput → Except Bytes (List Leaf)
  | _, [] => pure []
  | seen, input :: rest => do
      let leaf ← leafFromInput codec tenantID input
      if leaf.seenKey ∈ seen then
        throw (invalidRecord (bytes "duplicate per-key destruction record " ++ leaf.stableKeyID))
      let leaves ← collectLeaves codec tenantID (leaf.seenKey :: seen) rest
      return leaf :: leaves

def leavesFromInputs (codec : Gate.Codec) (tenantID : Bytes) (inputs : List LeafInput) :
    Except Bytes (List Leaf) := do
  if inputs = [] then
    throw (invalidRecord (bytes "at least one per-key destruction record is required"))
  let leaves ← collectLeaves codec tenantID [] inputs
  return normalizeLeaves leaves

/-- `json.Marshal` of a leaf. -/
def Leaf.json (leaf : Leaf) : Bytes :=
  jsonObject [jsonPair "tenant_id" (jsonString leaf.tenantID),
    jsonPair "stable_key_id" (jsonString leaf.stableKeyID),
    jsonPair "final_epoch" (decimal leaf.finalEpoch.toNat),
    jsonPair "key_class" (jsonString leaf.keyClass),
    jsonPair "record_digest" (jsonByteSlice leaf.recordDigest),
    jsonPair "commitment_digest" (jsonByteSlice leaf.commitmentDigest)]

def leafDigest (codec : Gate.Codec) (leaf : Leaf) : Except Bytes Bytes :=
  let leaf := leaf.normalize
  if leaf.tenantID = [] ∨ leaf.stableKeyID = [] ∨ leaf.finalEpoch = 0 ∨ leaf.recordDigest = [] ∨
      leaf.commitmentDigest = [] then
    .error (invalidRecord (bytes "incomplete leaf"))
  else
    .ok (codec.sha256Sum (0 :: jsonObject [
      jsonPair "domain" (jsonString (bytes "trstctl/vdec/aggregate/leaf/v1")),
      jsonPair "leaf" leaf.json]))

def nodeDigest (codec : Gate.Codec) (left right : Bytes) : Bytes :=
  codec.sha256Sum (1 :: (left ++ right))

/-- One round of the loop of `leafRootAndProofs`: neighbours are hashed, an odd
last node is kept. -/
def nextNodes (codec : Gate.Codec) : List Bytes → List Bytes
  | left :: right :: rest => nodeDigest codec left right :: nextNodes codec rest
  | nodes => nodes

/-- The rounds of the loop.  Every round with two nodes or more leaves fewer, so
as many rounds as there are nodes are enough. -/
def rootOfNodes (codec : Gate.Codec) : Nat → List Bytes → Bytes
  | rounds + 1, left :: right :: rest =>
      rootOfNodes codec rounds (nextNodes codec (left :: right :: rest))
  | _, nodes => nodes.headD []

def leafRoot (codec : Gate.Codec) (leaves : List Leaf) : Except Bytes Bytes := do
  let leaves := normalizeLeaves leaves
  if leaves.isEmpty then throw (invalidRecord (bytes "at least one leaf is required"))
  let nodes ← leaves.mapM (leafDigest codec)
  return rootOfNodes codec nodes.length nodes

def inventoryDigest (codec : Gate.Codec) (tenantID : Bytes) (ledgerPosition : UInt64)
    (keyIDs : List Bytes) : Bytes :=
  codec.sha256Sum (jsonObject [
    jsonPair "domain" (jsonString (bytes "trstctl/vdec/aggregate/inventory-completeness/v1")),
    jsonPair "tenant_id" (jsonString (trimSpace tenantID)),
    jsonPair "ledger_position" (decimal ledgerPosition.toNat),
    jsonPair "key_ids" (jsonArray ((sortedStrings keyIDs).map jsonString))])

/-- The digest that an inventory is committed with. -/
def exhaustedDigest (codec : Gate.Codec) (tenantID : Bytes) (position : UInt64)
    (keyIDs : List Bytes) (supplied : Bytes) (leafKeys : List Bytes) : Except Bytes Bytes := do
  if keyIDs = [] then return supplied
  if sameStringSet keyIDs leafKeys = false then
    throw (invalidRecord (bytes "inventory key set is not exhausted by aggregate leaves"))
  let digest := inventoryDigest codec tenantID position keyIDs
  if supplied ≠ [] ∧ supplied ≠ digest then
    throw (invalidRecord (bytes "inventory digest mismatch"))
  return digest

def inventoryFromRequest (codec : Gate.Codec) (tenantID : Bytes) (position : UInt64)
    (keyIDs : List Bytes) (supplied : Bytes) (leaves : List Leaf) :
    Except Bytes InventoryCompleteness := do
  if position = 0 then
    throw (invalidRecord (bytes "inventory ledger position is required"))
  if keyIDs = [] ∧ supplied = [] then
    throw (invalidRecord (bytes "inventory completeness digest or key set is required"))
  let digest ← exhaustedDigest codec tenantID position keyIDs supplied
    (leaves.map Leaf.stableKeyID)
  return {
    ledgerPosition := position
    keyCount := leaves.length
    digest := digest
    exhausted := true }

def normalizeCounts (counts : List KeyClassCount) : List KeyClassCount :=
  (counts.map fun count => { count with keyClass := trimSpace count.keyClass }).insertionSort
    fun left right => left.keyClass ≤ right.keyClass

def keyClassCounts (leaves : List Leaf) : List KeyClassCount :=
  normalizeCounts ((leaves.map Leaf.keyClass).dedup.map fun keyClass =>
    ⟨keyClass, (leaves.filter fun leaf => leaf.keyClass == keyClass).length⟩)

/-- `cloneCampaign`. -/
def CampaignBinding.normalize (campaign : CampaignBinding) : CampaignBinding :=
  { campaign with
    campaignID := trimSpace campaign.campaignID
    successionEpochID := trimSpace campaign.successionEpochID
    successionJobDigests := campaign.successionJobDigests.insertionSort (· ≤ ·) }

def normalizeClaimNoDigest (claim : SanitizationClaim) : SanitizationClaim where
  tenantID := trimSpace claim.tenantID
  keyID := trimSpace claim.keyID
  dataSetID := trimSpace claim.dataSetID
  scope := trimSpace claim.scope
  storageRefs := sortedStrings claim.storageRefs
  storageDigest := claim.storageDigest
  designationRef := trimSpace claim.designationRef
  claimDigest := []

/-- `SanitizationClaimDigest`, empty where it fails. -/
def sanitizationClaimDigest (codec : Gate.Codec) (claim : SanitizationClaim) : Bytes :=
  let claim := normalizeClaimNoDigest claim
  if claim.tenantID = [] ∨ claim.keyID = [] ∨ claim.dataSetID = [] ∨ claim.designationRef = [] then
    []
  else
    codec.sha256Sum (jsonObject [
      jsonPair "domain" (jsonString (bytes "trstctl/vdec/aggregate/sanitization-claim/v1")),
      jsonPair "claim" (jsonObject ([jsonPair "tenant_id" (jsonString claim.tenantID),
          jsonPair "key_id" (jsonString claim.keyID),
          jsonPair "data_set_id" (jsonString claim.dataSetID)] ++
        Record.optionalString "scope" claim.scope ++
        Record.optionalArray "storage_refs" (claim.storageRefs.map jsonString) ++
        Record.optionalBytes "storage_digest" claim.storageDigest ++
        [jsonPair "designation_ref" (jsonString claim.designationRef)]))])

/-- The order of `normalizeClaims`. -/
def claimLess (left right : SanitizationClaim) : Bool :=
  if left.tenantID ≠ right.tenantID then left.tenantID < right.tenantID
  else if left.keyID ≠ right.keyID then left.keyID < right.keyID
  else if left.dataSetID ≠ right.dataSetID then left.dataSetID < right.dataSetID
  else left.claimDigest < right.claimDigest

def normalizeClaims (codec : Gate.Codec) (claims : List SanitizationClaim) :
    List SanitizationClaim :=
  (claims.map fun claim =>
    { normalizeClaimNoDigest claim with
      claimDigest := sanitizationClaimDigest codec (normalizeClaimNoDigest claim) }).insertionSort
    fun left right => claimLess right left = false

/-- `normalizeCommitment`. -/
def Commitment.normalize (codec : Gate.Codec) (commitment : Commitment) : Commitment :=
  { commitment with
    tenantID := trimSpace commitment.tenantID
    leaves := normalizeLeaves commitment.leaves
    keyClassCounts := normalizeCounts commitment.keyClassCounts
    auditChainHead := trimSpace commitment.auditChainHead
    campaign := commitment.campaign.map CampaignBinding.normalize
    sanitizationClaims := normalizeClaims codec commitment.sanitizationClaims
    governanceEvidenceRefs := sortedStrings commitment.governanceEvidenceRefs }

/-- `Time.Unix`. -/
def unixSeconds (time : Time) : Int :=
  time.nanoseconds / 10 ^ 9 - 62135596800

def commitmentFromRequest (codec : Gate.Codec) (request : MintRequest) (now : Time) :
    Except Bytes Commitment := do
  let tenantID := trimSpace request.tenantID
  if tenantID = [] then throw (invalidRecord (bytes "tenant id is required"))
  let leaves ← leavesFromInputs codec tenantID request.records
  let root ← leafRoot codec leaves
  let auditHead := trimSpace request.auditChainHead
  if auditHead = [] then
    throw (invalidRecord (bytes "audit chain head after last destruction is required"))
  let inventory ← inventoryFromRequest codec tenantID request.inventoryLedgerPosition
    request.inventoryKeyIDs request.inventoryDigest leaves
  let commitment : Commitment := {
    tenantID := tenantID
    leaves := leaves
    leafRoot := root
    keyClassCounts := keyClassCounts leaves
    auditChainHead := auditHead
    inventory := inventory
    campaign := request.campaign.map CampaignBinding.normalize
    sanitizationClaims := normalizeClaims codec request.sanitizationClaims
    governanceEvidenceRefs := sortedStrings request.governanceEvidenceRefs
    mintedAtUnix := unixSeconds now }
  return commitment.normalize codec

end Trstctl.Decommission.Aggregate
