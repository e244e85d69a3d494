import Trstctl.Decommission.Aggregate.Commitment
import Trstctl.Decommission.Gate.Accounting
import Trstctl.Go.Trim
import Trstctl.Library.Sorting

/-!
# Exhausted inventories

The digest of an inventory depends on the set of its keys.  A request that lists
the keys is held against the leaves; a request that only brings a digest is not,
so its inventory is exhausted exactly when the digest is that of its records.
-/

namespace Trstctl.Decommission.Aggregate

open Go (Bytes Time bytes trimSpace)
open Result (guard_eq_ok bind_eq_ok isOk_iff)

variable {codec : Gate.Codec}

theorem sortedStrings_congr {left right : List Bytes}
    (same : ∀ text, text ∈ left.map trimSpace ↔ text ∈ right.map trimSpace) :
    sortedStrings left = sortedStrings right := by
  have members : ((left.map trimSpace).filter (· != [])).dedup.Perm
      ((right.map trimSpace).filter (· != [])).dedup := by
    apply (List.perm_ext_iff_of_nodup (List.nodup_dedup _) (List.nodup_dedup _)).mpr
    intro text
    rw [List.mem_dedup, List.mem_dedup, List.mem_filter, List.mem_filter, same]
  exact Sorting.insertionSort_eq_of_perm members fun _ _ _ _ => List.le_antisymm

variable {tenantID : Bytes}

theorem inventoryDigest_congr
    {otherTenantID : Bytes} {position : UInt64} {keyIDs otherKeyIDs : List Bytes}
    (tenants : trimSpace tenantID = trimSpace otherTenantID)
    (keys : sortedStrings keyIDs = sortedStrings otherKeyIDs) :
    inventoryDigest codec tenantID position keyIDs =
      inventoryDigest codec otherTenantID position otherKeyIDs := by
  rw [inventoryDigest, inventoryDigest, tenants, keys]

theorem leafFromInput_eq_ok {input : LeafInput} {leaf : Leaf}
    (made : leafFromInput codec tenantID input = .ok leaf) :
    leaf.stableKeyID = input.record.commitment.stableKeyID := by
  unfold leafFromInput at made
  simp only [guard_eq_ok] at made
  rw [← Except.ok.inj made.2.2]

variable {leaves : List Leaf}

theorem collectLeaves_eq_ok {seen : List Bytes} {inputs : List LeafInput}
    (made : collectLeaves codec tenantID seen inputs = .ok leaves) :
    leaves.map Leaf.stableKeyID = inputs.map fun input => input.record.commitment.stableKeyID := by
  induction inputs generalizing seen leaves with
  | nil =>
      rw [collectLeaves] at made
      rw [← Except.ok.inj made]
      rfl
  | cons input rest ih =>
      rw [collectLeaves] at made
      simp only [guard_eq_ok, bind_eq_ok] at made
      obtain ⟨leaf, leaf_eq, -, others, others_eq, made⟩ := made
      rw [← Except.ok.inj made, List.map_cons, List.map_cons, leafFromInput_eq_ok leaf_eq,
        ih others_eq]

theorem mem_normalizeLeaves_keys {keyID : Bytes} :
    keyID ∈ (normalizeLeaves leaves).map Leaf.stableKeyID ↔
      keyID ∈ (leaves.map Leaf.stableKeyID).map trimSpace := by
  simp only [normalizeLeaves, List.mem_map, List.mem_insertionSort]
  constructor
  · rintro ⟨leaf, ⟨original, member, rfl⟩, rfl⟩
    exact ⟨original.stableKeyID, ⟨original, member, rfl⟩, rfl⟩
  · rintro ⟨key, ⟨original, member, rfl⟩, rfl⟩
    exact ⟨original.normalize, ⟨original, member, rfl⟩, rfl⟩

def MintRequest.recordKeyIDs (request : MintRequest) : List Bytes :=
  request.records.map fun input => input.record.commitment.stableKeyID

theorem sortedStrings_of_normalizeLeaves {keyIDs : List Bytes}
    (listing : ∀ keyID, keyID ∈ keyIDs ↔ keyID ∈ (normalizeLeaves leaves).map Leaf.stableKeyID) :
    sortedStrings keyIDs = sortedStrings (leaves.map Leaf.stableKeyID) := by
  apply sortedStrings_congr
  intro text
  constructor
  · intro member
    obtain ⟨keyID, listed, rfl⟩ := List.mem_map.mp member
    obtain ⟨original, originalMember, rfl⟩ :=
      List.mem_map.mp (mem_normalizeLeaves_keys.mp ((listing keyID).mp listed))
    rw [Go.trimSpace_trimSpace]
    exact List.mem_map_of_mem originalMember
  · intro member
    obtain ⟨original, originalMember, rfl⟩ := List.mem_map.mp member
    rw [← Go.trimSpace_trimSpace]
    exact List.mem_map_of_mem ((listing _).mpr
      (mem_normalizeLeaves_keys.mpr (List.mem_map_of_mem originalMember)))

theorem commitmentFromRequest_eq_ok {request : MintRequest} {now : Time} {commitment : Commitment}
    (made : commitmentFromRequest codec request now = .ok commitment) :
    ∃ leaves, leavesFromInputs codec (trimSpace request.tenantID) request.records = .ok leaves ∧
      commitment.tenantID = trimSpace (trimSpace request.tenantID) ∧
      commitment.leaves = normalizeLeaves leaves ∧
      exhaustedDigest codec (trimSpace request.tenantID) request.inventoryLedgerPosition
        request.inventoryKeyIDs request.inventoryDigest (leaves.map Leaf.stableKeyID) =
          .ok commitment.inventory.digest := by
  unfold commitmentFromRequest at made
  simp only [guard_eq_ok, bind_eq_ok] at made
  obtain ⟨-, leaves, leaves_eq, root, -, -, inventory, inventory_eq, made⟩ := made
  unfold inventoryFromRequest at inventory_eq
  simp only [guard_eq_ok, bind_eq_ok] at inventory_eq
  obtain ⟨-, -, digest, digest_eq, inventory_eq⟩ := inventory_eq
  rw [← Except.ok.inj made]
  refine ⟨leaves, leaves_eq, rfl, rfl, ?_⟩
  rw [digest_eq, ← Except.ok.inj inventory_eq]
  rfl

theorem sortedStrings_leavesFromInputs {request : MintRequest}
    (made : leavesFromInputs codec tenantID request.records = .ok leaves) :
    sortedStrings (leaves.map Leaf.stableKeyID) = sortedStrings request.recordKeyIDs := by
  unfold leavesFromInputs at made
  simp only [guard_eq_ok, bind_eq_ok] at made
  obtain ⟨-, collected, collected_eq, made⟩ := made
  have keys := @sortedStrings_of_normalizeLeaves collected _ fun keyID => Iff.rfl
  rw [collectLeaves_eq_ok collected_eq] at keys
  rw [← Except.ok.inj made]
  exact keys

theorem exhaustedDigest_eq_ok
    {position : UInt64} {keyIDs leafKeys : List Bytes} {supplied digest : Bytes}
    (made : exhaustedDigest codec tenantID position keyIDs supplied leafKeys = .ok digest) :
    (keyIDs = [] ∧ digest = supplied) ∨
      (keyIDs ≠ [] ∧ digest = inventoryDigest codec tenantID position leafKeys) := by
  unfold exhaustedDigest at made
  split at made
  · rename_i unlisted
    exact Or.inl ⟨unlisted, (Except.ok.inj made).symm⟩
  · rename_i listed
    simp only [guard_eq_ok] at made
    obtain ⟨same, -, made⟩ := made
    have keys : sortedStrings keyIDs = sortedStrings leafKeys := by
      simpa [sameStringSet] using same
    refine Or.inr ⟨listed, ?_⟩
    rw [← Except.ok.inj made]
    exact inventoryDigest_congr rfl keys

/-- The committed digest is the digest of an inventory with exactly the keys of
the committed leaves. -/
def ProvesExhausted (codec : Gate.Codec) (request : MintRequest) (commitment : Commitment) : Prop :=
  ∃ keyIDs, (∀ keyID, keyID ∈ keyIDs ↔ keyID ∈ commitment.leaves.map Leaf.stableKeyID) ∧
    commitment.inventory.digest =
      inventoryDigest codec commitment.tenantID request.inventoryLedgerPosition keyIDs

/-- A commitment proves that its inventory is exhausted exactly when the request
lists the keys of the inventory, or brings the digest of the keys of its
records. -/
theorem provesExhausted_iff
    (codec : Gate.Codec)
    (request : MintRequest)
    (now : Time)
    (commitment : Commitment)
    (made : commitmentFromRequest codec request now = .ok commitment) :
    ProvesExhausted codec request commitment ↔
      request.inventoryKeyIDs ≠ [] ∨
        request.inventoryDigest = inventoryDigest codec request.tenantID
          request.inventoryLedgerPosition request.recordKeyIDs := by
  obtain ⟨leaves, leaves_eq, tenant_eq, committed_eq, digest_eq⟩ := commitmentFromRequest_eq_ok made
  have tenants : trimSpace commitment.tenantID = trimSpace request.tenantID := by
    rw [tenant_eq, Go.trimSpace_trimSpace, Go.trimSpace_trimSpace]
  have records := sortedStrings_leavesFromInputs leaves_eq
  -- every listing of the committed keys has the digest of the records
  have listings : ∀ keyIDs,
      (∀ keyID, keyID ∈ keyIDs ↔ keyID ∈ commitment.leaves.map Leaf.stableKeyID) →
      inventoryDigest codec commitment.tenantID request.inventoryLedgerPosition keyIDs =
        inventoryDigest codec request.tenantID request.inventoryLedgerPosition
          request.recordKeyIDs := by
    intro keyIDs listing
    rw [committed_eq] at listing
    exact inventoryDigest_congr tenants ((sortedStrings_of_normalizeLeaves listing).trans records)
  have proves : ProvesExhausted codec request commitment ↔
      commitment.inventory.digest = inventoryDigest codec request.tenantID
        request.inventoryLedgerPosition request.recordKeyIDs := by
    constructor
    · rintro ⟨keyIDs, listing, digest⟩
      rw [digest, listings keyIDs listing]
    · intro digest
      refine ⟨commitment.leaves.map Leaf.stableKeyID, fun keyID => Iff.rfl, ?_⟩
      rw [digest, listings _ fun keyID => Iff.rfl]
  rw [proves]
  rcases exhaustedDigest_eq_ok digest_eq with ⟨unlisted, digest⟩ | ⟨listed, digest⟩
  · rw [digest]
    exact ⟨Or.inr, fun either => either.resolve_left fun listed => listed unlisted⟩
  · have same : inventoryDigest codec (trimSpace request.tenantID) request.inventoryLedgerPosition
        (leaves.map Leaf.stableKeyID) = inventoryDigest codec request.tenantID
          request.inventoryLedgerPosition request.recordKeyIDs :=
      inventoryDigest_congr (Go.trimSpace_trimSpace _) records
    exact ⟨fun _ => Or.inl listed, fun _ => digest.trans same⟩

def destroyedKeyRecord : Record.SignedRecord where
  type := []
  commitment :=
    { tenantID := bytes "t1"
      stableKeyID := bytes "ca-key"
      finalEpoch := 3
      completionEventsDigest := List.replicate 32 1
      requiredSetDigest := []
      quorumEvidence := none
      revocationCompletionDigest := []
      destructionEvidence := ⟨bytes "custody_destroy.hsm_destroyed", List.replicate 32 2, [],
        bytes "certified-hardware"⟩
      auditChainHead := bytes "head"
      successors := []
      policyRef := []
      policyDecisionDigest := []
      mintedAtUnix := 1700000000
      transparency := ⟨[], 0, 0, [], [], []⟩ }
  commitmentDigest := List.replicate 32 3
  signerID := bytes "trstctl-signer"
  attestationAlgorithm := bytes "ECDSA-P256"
  attestationPublicKeyDER := [0x30]
  signature := [0x30]
  countersignatures := []

/-- A request for the record with the given keys and digest of the inventory. -/
def inventoryRequest (keyIDs : List Bytes) (digest : Bytes) : MintRequest where
  tenantID := bytes "t1"
  records := [⟨bytes "ca", destroyedKeyRecord⟩]
  auditChainHead := bytes "head"
  inventoryLedgerPosition := 9
  inventoryKeyIDs := keyIDs
  inventoryDigest := digest
  campaign := none
  sanitizationClaims := []
  governanceEvidenceRefs := []

/-- A request that lists its key, with white space around it. -/
theorem provesExhausted_iff_listed :
    ∃ commitment,
      commitmentFromRequest Gate.sampleCodec (inventoryRequest [bytes " ca-key"] []) ⟨0⟩ =
          .ok commitment ∧
        (ProvesExhausted Gate.sampleCodec (inventoryRequest [bytes " ca-key"] []) commitment ↔
          (inventoryRequest [bytes " ca-key"] []).inventoryKeyIDs ≠ [] ∨
            (inventoryRequest [bytes " ca-key"] []).inventoryDigest =
              inventoryDigest Gate.sampleCodec (inventoryRequest [bytes " ca-key"] []).tenantID
                (inventoryRequest [bytes " ca-key"] []).inventoryLedgerPosition
                (inventoryRequest [bytes " ca-key"] []).recordKeyIDs) := by
  obtain ⟨commitment, made⟩ : ∃ commitment, commitmentFromRequest Gate.sampleCodec
      (inventoryRequest [bytes " ca-key"] []) ⟨0⟩ = .ok commitment :=
    isOk_iff.mp (by decide +kernel)
  exact ⟨commitment, made, provesExhausted_iff _ _ _ _ made⟩

/-- Any digest without a list of keys is committed as that of an exhausted
inventory. -/
theorem not_provesExhausted_suppliedDigest :
    ¬ ∀ (codec : Gate.Codec) (request : MintRequest) (now : Time) (commitment : Commitment),
      commitmentFromRequest codec request now = .ok commitment →
        ProvesExhausted codec request commitment := by
  intro proves
  obtain ⟨commitment, made⟩ : ∃ commitment, commitmentFromRequest Gate.sampleCodec
      (inventoryRequest [] (List.replicate 32 7)) ⟨0⟩ = .ok commitment :=
    isOk_iff.mp (by decide +kernel)
  obtain ⟨keyIDs, -, digest⟩ := proves _ _ _ _ made
  obtain ⟨leaves, -, -, -, committed⟩ := commitmentFromRequest_eq_ok made
  rcases exhaustedDigest_eq_ok committed with ⟨-, supplied⟩ | ⟨listed, -⟩
  · have digests : List.replicate 32 (7 : UInt8) = List.replicate 32 0 :=
      supplied.symm.trans digest
    revert digests
    decide
  · exact listed rfl

end Trstctl.Decommission.Aggregate
