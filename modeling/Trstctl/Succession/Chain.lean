import Trstctl.Crypto.VerifyAlgorithm
import Trstctl.Succession.Record

/-!
# Succession chains

`VerifyGenesis` and `VerifyChain` (`internal/succession/verify.go`): a chain is
anchored at a genesis record that a trust root signs, and each of its records
continues the epoch and the key of the one before it.  The scope of a record is
signed with it, but no record is compared with another in it.
-/

namespace Trstctl.Succession

open Go (Bytes bytes bigEndian64)

/-- `GenesisRecord`, as far as verification reads it. -/
structure GenesisRecord where
  deploymentScope : Bytes
  identityID : Bytes
  tenantID : Bytes
  algorithm : Bytes
  publicKey : Bytes
  epoch : UInt64
  trustRootAtt : Bytes

/-- An algorithm epoch: the running state of the verification and, at the head of
the chain, the result of a relying party. -/
structure Posture where
  algorithm : Bytes
  publicDER : Bytes
  epoch : UInt64
deriving DecidableEq

/-- Where a chain starts. -/
def GenesisRecord.posture (genesis : GenesisRecord) : Posture :=
  ⟨genesis.algorithm, genesis.publicKey, genesis.epoch⟩

/-- Where a record leads. -/
def SuccessionRecord.posture (record : SuccessionRecord) : Posture :=
  ⟨record.fields.successorAlg, record.fields.successorPub, record.fields.epoch⟩

/-- `encodeGenesis`. -/
def GenesisRecord.encode (genesis : GenesisRecord) : Option Bytes :=
  (registryID genesis.algorithm).map fun algorithmID =>
    writeField (bytes "trstctl/pcas/succession/genesis/v1") ++
      writeField genesis.deploymentScope ++
      writeField genesis.identityID ++
      writeField genesis.tenantID ++
      bigEndian64 algorithmID ++
      writeField genesis.publicKey ++
      writeUint genesis.epoch

/-- Why a chain is not accepted; records are named by their position. -/
inductive ChainError where
  | genesisAlgorithm (name : Bytes)
  | genesisAttestation
  | chainAnchor (index : Nat)
  | epochNotIncrement (index : Nat)
  | epochNotMonotonic (index : Nat)
  | record (index : Nat) (error : VerifyError)
  | downgrade
deriving DecidableEq

/-- `VerifyGenesis`.  `verifyMessage` takes a public key, a message and a
signature. -/
def verifyGenesis (crypto : Crypto) (verifyMessage : Bytes → Bytes → Bytes → Bool)
    (trustRootPubDER : Bytes) (genesis : GenesisRecord) : Except ChainError Unit :=
  match genesis.encode with
  | none => .error (.genesisAlgorithm genesis.algorithm)
  | some encoding =>
      if genesis.trustRootAtt.isEmpty then .error .genesisAttestation
      else if verifyMessage trustRootPubDER (crypto.sha256Sum encoding) genesis.trustRootAtt then
        .ok ()
      else .error .genesisAttestation

/-- The checks of a record against the posture before it. -/
def checkLink (crypto : Crypto) (index : Nat) (previous : Posture) (record : SuccessionRecord) :
    Except ChainError Unit := do
  if record.fields.predecessorEpoch ≠ previous.epoch then throw (.chainAnchor index)
  if record.fields.epoch ≠ record.fields.predecessorEpoch + 1 then
    throw (.epochNotIncrement index)
  if record.fields.epoch ≤ previous.epoch then throw (.epochNotMonotonic index)
  if record.fields.predecessorPub ≠ previous.publicDER ∨
      record.fields.predecessorAlg ≠ previous.algorithm then
    throw (.chainAnchor index)
  (verifyRecord crypto record).mapError (.record index)

/-- The loop of `VerifyChain`, which ends with the posture at the head. -/
def verifyLinks (crypto : Crypto) : Nat → Posture →
    List SuccessionRecord → Except ChainError Posture
  | _, previous, [] => .ok previous
  | index, previous, record :: rest => do
      checkLink crypto index previous record
      verifyLinks crypto (index + 1) record.posture rest

/-- The chain leads from the genesis to a newer head. -/
def verifyChain (crypto : Crypto) (genesis : GenesisRecord) (chain : List SuccessionRecord)
    (lastAccepted : UInt64) : Except ChainError Unit := do
  if (registryID genesis.algorithm).isNone then throw (.genesisAlgorithm genesis.algorithm)
  let head ← verifyLinks crypto 0 genesis.posture chain
  if lastAccepted > 0 ∧ head.epoch ≤ lastAccepted then throw .downgrade

/-- A record continues a posture: its epoch is the next one, its predecessor is
the key of the posture, and it verifies. -/
structure Continues (crypto : Crypto) (previous : Posture) (record : SuccessionRecord) : Prop where
  predecessorEpoch : record.fields.predecessorEpoch = previous.epoch
  increment : record.fields.epoch = record.fields.predecessorEpoch + 1
  monotonic : previous.epoch < record.fields.epoch
  predecessorPub : record.fields.predecessorPub = previous.publicDER
  predecessorAlg : record.fields.predecessorAlg = previous.algorithm
  verifies : verifyRecord crypto record = .ok ()

/-- Every record of a chain continues the one before it. -/
def Linked (crypto : Crypto) : Posture → List SuccessionRecord → Prop
  | _, [] => True
  | previous, record :: rest => Continues crypto previous record ∧ Linked crypto record.posture rest

def headPosture (start : Posture) (chain : List SuccessionRecord) : Posture :=
  (chain.getLast?.map SuccessionRecord.posture).getD start

variable {crypto : Crypto} {previous : Posture} {record : SuccessionRecord}

theorem checkLink_eq_ok {index : Nat} :
    checkLink crypto index previous record = .ok () ↔ Continues crypto previous record := by
  simp only [checkLink, Result.guard_eq_ok, Result.mapError_eq_ok, not_not, not_or,
    UInt64.not_le]
  constructor
  · rintro ⟨predecessorEpoch, increment, monotonic, ⟨predecessorPub, predecessorAlg⟩, verifies⟩
    exact ⟨predecessorEpoch, increment, monotonic, predecessorPub, predecessorAlg, verifies⟩
  · rintro ⟨predecessorEpoch, increment, monotonic, predecessorPub, predecessorAlg, verifies⟩
    exact ⟨predecessorEpoch, increment, monotonic, ⟨predecessorPub, predecessorAlg⟩, verifies⟩

theorem headPosture_cons (start : Posture) (record : SuccessionRecord)
    (rest : List SuccessionRecord) :
    headPosture start (record :: rest) = headPosture record.posture rest := by
  cases rest with
  | nil => rfl
  | cons next more =>
      rw [headPosture, headPosture, List.getLast?_cons_cons]
      cases last : (next :: more).getLast? with
      | none => simp at last
      | some head => rfl

variable {chain : List SuccessionRecord}

theorem verifyLinks_eq_ok {index : Nat} {head : Posture} :
    verifyLinks crypto index previous chain = .ok head ↔
      Linked crypto previous chain ∧ head = headPosture previous chain := by
  induction chain generalizing index previous with
  | nil => simp [verifyLinks, Linked, headPosture, eq_comm]
  | cons record rest ih =>
      rw [verifyLinks, Result.bind_eq_ok, Linked, headPosture_cons, and_assoc,
        ← ih]
      constructor
      · rintro ⟨⟨⟩, checked, links⟩
        exact ⟨checkLink_eq_ok.mp checked, links⟩
      · rintro ⟨continued, links⟩
        exact ⟨(), checkLink_eq_ok.mpr continued, links⟩

theorem headPosture_concat (start : Posture) (chain : List SuccessionRecord)
    (record : SuccessionRecord) :
    headPosture start (chain ++ [record]) = record.posture := by
  rw [headPosture, List.getLast?_concat]
  rfl

theorem linked_concat :
    Linked crypto previous (chain ++ [record]) ↔
      Linked crypto previous chain ∧ Continues crypto (headPosture previous chain) record := by
  induction chain generalizing previous with
  | nil => simp [Linked, headPosture]
  | cons first rest ih =>
      rw [List.cons_append, Linked, Linked, ih, headPosture_cons, and_assoc]

theorem Linked.verifies (linked : Linked crypto previous chain) :
    ∀ record ∈ chain, verifyRecord crypto record = .ok () := by
  induction chain generalizing previous with
  | nil =>
      intro record member
      cases member
  | cons first rest ih =>
      exact List.forall_mem_cons.mpr ⟨linked.1.verifies, ih linked.2⟩

/-- A chain is authentic: its genesis algorithm is registered, it is linked, and
its head is newer than what was accepted before. -/
structure Authentic (crypto : Crypto) (genesis : GenesisRecord) (chain : List SuccessionRecord)
    (lastAccepted : UInt64) : Prop where
  registered : (registryID genesis.algorithm).isSome = true
  linked : Linked crypto genesis.posture chain
  newer : 0 < lastAccepted → lastAccepted < (headPosture genesis.posture chain).epoch

theorem verifyChain_eq_ok {genesis : GenesisRecord} {lastAccepted : UInt64} :
    verifyChain crypto genesis chain lastAccepted = .ok () ↔
      Authentic crypto genesis chain lastAccepted := by
  simp only [verifyChain, Result.guard_eq_ok, Result.bind_eq_ok, verifyLinks_eq_ok]
  constructor
  · rintro ⟨registered, head, ⟨linked, rfl⟩, newer⟩
    refine ⟨by simpa [Option.isSome_iff_ne_none] using registered, linked, fun positive => ?_⟩
    split at newer
    · cases newer
    · rename_i fresh
      exact UInt64.not_le.mp fun stale => fresh ⟨positive, stale⟩
  · rintro ⟨registered, linked, newer⟩
    refine ⟨by simpa [Option.isSome_iff_ne_none] using registered, _, ⟨linked, rfl⟩, if_neg ?_⟩
    rintro ⟨positive, stale⟩
    exact absurd (newer positive) (UInt64.not_lt.mpr stale)

/-- Whom a record is for: the deployment, the tenant and the identity. -/
structure Scope where
  deploymentScope : Bytes
  tenantID : Bytes
  identityID : Bytes
deriving DecidableEq

/-- The scope the trust root attests. -/
def GenesisRecord.scope (genesis : GenesisRecord) : Scope :=
  ⟨genesis.deploymentScope, genesis.tenantID, genesis.identityID⟩

/-- The scope both signatures of a record cover. -/
def SuccessionRecord.scope (record : SuccessionRecord) : Scope :=
  ⟨record.fields.deploymentScope, record.fields.tenantID, record.fields.identityID⟩

/-- The record starts from a posture. -/
def StartsFrom (record : SuccessionRecord) (previous : Posture) : Prop :=
  record.fields.predecessorPub = previous.publicDER ∧
    record.fields.predecessorAlg = previous.algorithm

/-- No key is shared between scopes: a record that starts from the key of the
genesis record, or from the key another record leads to, has the scope of that
record. -/
structure KeysStayInScope (genesis : GenesisRecord) (chain : List SuccessionRecord) : Prop where
  fromGenesis : ∀ record ∈ chain, StartsFrom record genesis.posture → record.scope = genesis.scope
  fromRecord : ∀ earlier ∈ chain, ∀ record ∈ chain,
    StartsFrom record earlier.posture → record.scope = earlier.scope

theorem Continues.startsFrom (continued : Continues crypto previous record) :
    StartsFrom record previous :=
  ⟨continued.predecessorPub, continued.predecessorAlg⟩

/-- A linked chain whose keys stay in their scope keeps the scope it starts
with. -/
theorem Linked.scope_eq {scope : Scope} (linked : Linked crypto previous chain)
    (fromStart : ∀ record ∈ chain, StartsFrom record previous → record.scope = scope)
    (fromRecord : ∀ earlier ∈ chain, ∀ record ∈ chain,
      StartsFrom record earlier.posture → record.scope = earlier.scope) :
    ∀ record ∈ chain, record.scope = scope := by
  induction chain generalizing previous with
  | nil =>
      intro record member
      cases member
  | cons first rest ih =>
      obtain ⟨continued, links⟩ := linked
      have first_scope : first.scope = scope :=
        fromStart first List.mem_cons_self continued.startsFrom
      have rest_scope : ∀ record ∈ rest, record.scope = scope := by
        refine ih links ?_ ?_
        · intro record member starts
          rw [← first_scope]
          exact fromRecord first List.mem_cons_self record (List.mem_cons_of_mem _ member) starts
        · intro earlier earlier_member record member
          exact fromRecord earlier (List.mem_cons_of_mem _ earlier_member) record
            (List.mem_cons_of_mem _ member)
      exact List.forall_mem_cons.mpr ⟨first_scope, rest_scope⟩

/-- An accepted chain stays in the scope of its genesis record exactly when no
key is shared between scopes: the chain is linked by its keys alone. -/
theorem inScope_iff_keysStayInScope
    {crypto : Crypto} {genesis : GenesisRecord} {chain : List SuccessionRecord}
    {lastAccepted : UInt64}
    (accepted : verifyChain crypto genesis chain lastAccepted = .ok ()) :
    (∀ record ∈ chain, record.scope = genesis.scope) ↔ KeysStayInScope genesis chain := by
  constructor
  · intro inScope
    refine ⟨fun record member _ => inScope record member, ?_⟩
    intro earlier earlier_member record member _
    rw [inScope record member, inScope earlier earlier_member]
  · intro keys
    have authentic := verifyChain_eq_ok.mp accepted
    exact authentic.linked.scope_eq keys.fromGenesis keys.fromRecord

/-- Schemes in which a key signs a message by standing before it. -/
def plainSchemes : Trstctl.Crypto.Schemes where
  sha256Sum text := text
  publicAlgorithm _ := some (bytes "Ed25519")
  verifyEd25519 key message signature := signature == key ++ message
  verifyMessage key message signature := signature == key ++ message
  verifyPostQuantum _ key message signature := signature == key ++ message

/-- The signature check over those schemes. -/
def plainCrypto : Crypto where
  sha256Sum := plainSchemes.sha256Sum
  verifyAlgorithmMessage := Trstctl.Crypto.verifyAlgorithmMessage plainSchemes

/-- An identity of the tenant `a`. -/
def tenantGenesis : GenesisRecord where
  deploymentScope := bytes "spiffe://one"
  identityID := bytes "spiffe://one/db"
  tenantID := bytes "a"
  algorithm := bytes "Ed25519"
  publicKey := bytes "K0"
  epoch := 0
  trustRootAtt := []

/-- A succession from the first to the second key for a deployment and a
tenant. -/
def successionFields (deploymentScope tenantID : Bytes) : CommitmentFields where
  deploymentScope := deploymentScope
  identityID := bytes "spiffe://one/db"
  tenantID := tenantID
  predecessorEpoch := 0
  epoch := 1
  predecessorAlg := bytes "Ed25519"
  predecessorPub := bytes "K0"
  successorAlg := bytes "ML-DSA-65"
  successorPub := bytes "K1"
  policyRef := []
  hashAlg := hashAlgSHA256
  notBefore := 0
  notAfter := 100
  commitmentVersion := 0
  recordType := recOrdinary
  authzDigest := []
  attestationEvidenceDigest := []
  attestationType := []
  delegationPath := []

/-- The record of committed fields that both keys sign. -/
def signedRecord (fields : CommitmentFields) : SuccessionRecord where
  fields := fields
  predecessorAtt := fields.predecessorPub ++ ((commit plainCrypto fields).toOption.getD [])
  possession :=
    { kind := .successorSignature
      signature := fields.successorPub ++ ((commit plainCrypto fields).toOption.getD [])
      transcript := [] }
  signerAttestation := []
  inclusionProof := []
  authzDigest := []
  breakGlassAuth := []
  recordType := fields.recordType
  attestationEvidenceDigest := []
  attestationType := []

/-- The record of the genesis identity in its own scope. -/
def ownRecord : SuccessionRecord :=
  signedRecord (successionFields (bytes "spiffe://one") (bytes "a"))

/-- The same succession, minted for another tenant of another deployment. -/
def foreignRecord : SuccessionRecord :=
  signedRecord (successionFields (bytes "spiffe://two") (bytes "b"))

/-- The own record is of the scope of the genesis. -/
theorem inScope_iff_keysStayInScope_ownRecord :
    verifyChain plainCrypto tenantGenesis [ownRecord] 0 = .ok () ∧
      ((∀ record ∈ [ownRecord], record.scope = tenantGenesis.scope) ↔
        KeysStayInScope tenantGenesis [ownRecord]) := by
  have accepted : verifyChain plainCrypto tenantGenesis [ownRecord] 0 = .ok () := by
    decide +kernel
  exact ⟨accepted, inScope_iff_keysStayInScope accepted⟩

/-- A record of another tenant and another deployment is accepted after a
genesis record with the key it starts from. -/
theorem not_inScope_foreignRecord :
    verifyChain plainCrypto tenantGenesis [foreignRecord] 0 = .ok () ∧
      ¬ ∀ record ∈ [foreignRecord], record.scope = tenantGenesis.scope := by
  decide +kernel

end Trstctl.Succession
