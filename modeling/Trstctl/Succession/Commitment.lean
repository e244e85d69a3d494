import Mathlib.Data.List.Nodup
import Trstctl.Succession.Chain

/-!
# Commitments are injective

The fields of a commitment are written one after another, texts behind their
lengths and numbers in eight bytes, behind the text that names the version of
the encoding.  An encoding is therefore read back in one way only: it tells the
version, in the second version every field, and it is never one of a genesis
record.
-/

namespace Trstctl.Succession

open Go (Bytes bytes bigEndian64)

/-! ## Codes of the fields

Lengths are written as unsigned 64-bit numbers; every Go slice is shorter than
`2 ^ 63`. -/

variable {otherRest : Bytes}

variable {rest : Bytes}

theorem writeField_inj {value other : Bytes} (addressable : value.length < 2 ^ 63)
    (otherAddressable : other.length < 2 ^ 63)
    (equal : writeField value ++ rest = writeField other ++ otherRest) :
    value = other ∧ rest = otherRest := by
  rw [writeField, writeField, List.append_assoc, List.append_assoc] at equal
  obtain ⟨lengths, after⟩ := List.append_inj equal rfl
  exact List.append_inj after (Go.bigEndian64_injective (by omega) (by omega) lengths)

theorem bigEndian64_append_inj {value other : Nat} (small : value < 2 ^ 64)
    (otherSmall : other < 2 ^ 64)
    (equal : bigEndian64 value ++ rest = bigEndian64 other ++ otherRest) :
    value = other ∧ rest = otherRest := by
  obtain ⟨values, after⟩ := List.append_inj equal rfl
  exact ⟨Go.bigEndian64_injective small otherSmall values, after⟩

theorem writeUint_inj {value other : UInt64}
    (equal : writeUint value ++ rest = writeUint other ++ otherRest) :
    value = other ∧ rest = otherRest := by
  obtain ⟨values, after⟩ := bigEndian64_append_inj value.toNat_lt other.toNat_lt equal
  exact ⟨UInt64.toNat_inj.mp values, after⟩

/-- A 64-bit time. -/
def IsInt64 (value : Int) : Prop :=
  -2 ^ 63 ≤ value ∧ value < 2 ^ 63

instance (value : Int) : Decidable (IsInt64 value) :=
  inferInstanceAs (Decidable (_ ∧ _))

theorem writeInt_inj {value other : Int} (signed : IsInt64 value)
    (otherSigned : IsInt64 other) (equal : writeInt value ++ rest = writeInt other ++ otherRest) :
    value = other ∧ rest = otherRest := by
  obtain ⟨values, after⟩ := bigEndian64_append_inj (by omega) (by omega) equal
  refine ⟨?_, after⟩
  unfold IsInt64 at signed otherSigned
  omega

variable {algorithm : Bytes} {id : Nat}

theorem mem_algRegistry (registered : registryID algorithm = some id) :
    (algorithm, id) ∈ algRegistry := by
  obtain ⟨before, after, split, -⟩ := List.lookup_eq_some_iff.mp registered
  rw [split]
  exact List.mem_append_right before List.mem_cons_self

theorem registryID_inj {other : Bytes}
    (registered : registryID algorithm = some id) (otherRegistered : registryID other = some id) :
    algorithm = other := by
  have distinct : (algRegistry.map Prod.snd).Nodup := by decide
  have same := List.inj_on_of_nodup_map distinct (mem_algRegistry registered)
    (mem_algRegistry otherRegistered) rfl
  exact congrArg Prod.fst same

theorem registryID_lt (registered : registryID algorithm = some id) :
    id < 2 ^ 64 := by
  have small : ∀ entry ∈ algRegistry, entry.2 < 2 ^ 64 := by decide
  exact small _ (mem_algRegistry registered)

namespace CommitmentFields

variable {fields other : CommitmentFields}

/-- The byte slices and strings of the fields. -/
def texts (fields : CommitmentFields) : List Bytes :=
  [fields.deploymentScope, fields.identityID, fields.tenantID, fields.predecessorPub,
    fields.successorPub, fields.policyRef, fields.hashAlg, fields.recordType, fields.authzDigest,
    fields.attestationEvidenceDigest, fields.attestationType, fields.delegationPath]

/-- What the types of the source promise: slices are addressable and times have
64 bits. -/
structure Representable (fields : CommitmentFields) : Prop where
  addressable : ∀ text ∈ fields.texts, text.length < 2 ^ 63
  notBefore : IsInt64 fields.notBefore
  notAfter : IsInt64 fields.notAfter

/-- The fields of the first version agree. -/
structure AgreeV1 (fields other : CommitmentFields) : Prop where
  deploymentScope : fields.deploymentScope = other.deploymentScope
  identityID : fields.identityID = other.identityID
  tenantID : fields.tenantID = other.tenantID
  predecessorEpoch : fields.predecessorEpoch = other.predecessorEpoch
  epoch : fields.epoch = other.epoch
  predecessorAlg : fields.predecessorAlg = other.predecessorAlg
  predecessorPub : fields.predecessorPub = other.predecessorPub
  successorAlg : fields.successorAlg = other.successorAlg
  successorPub : fields.successorPub = other.successorPub
  policyRef : fields.policyRef = other.policyRef
  hashAlg : fields.hashAlg = other.hashAlg
  notBefore : fields.notBefore = other.notBefore
  notAfter : fields.notAfter = other.notAfter

/-- The common part of the encodings is read back in front of what follows it. -/
theorem encodeCore_inj {predecessorID otherPredecessorID successorID otherSuccessorID : Nat}
    {rest otherRest : Bytes} (representable : fields.Representable)
    (otherRepresentable : other.Representable)
    (predecessor : registryID fields.predecessorAlg = some predecessorID)
    (successor : registryID fields.successorAlg = some successorID)
    (otherPredecessor : registryID other.predecessorAlg = some otherPredecessorID)
    (otherSuccessor : registryID other.successorAlg = some otherSuccessorID)
    (equal : fields.encodeCore predecessorID successorID ++ rest =
      other.encodeCore otherPredecessorID otherSuccessorID ++ otherRest) :
    fields.AgreeV1 other ∧ rest = otherRest := by
  have addressable := representable.addressable
  have otherAddressable := otherRepresentable.addressable
  simp only [texts, List.forall_mem_cons] at addressable otherAddressable
  obtain ⟨scope, identity, tenant, predecessorPub, successorPub, policy, hash, -⟩ := addressable
  obtain ⟨otherScope, otherIdentity, otherTenant, otherPredecessorPub, otherSuccessorPub,
    otherPolicy, otherHash, -⟩ := otherAddressable
  simp only [encodeCore, List.append_assoc] at equal
  -- The fields are read off in the order in which they are written.
  obtain ⟨deploymentScope, equal⟩ := writeField_inj scope otherScope equal
  obtain ⟨identityID, equal⟩ := writeField_inj identity otherIdentity equal
  obtain ⟨tenantID, equal⟩ := writeField_inj tenant otherTenant equal
  obtain ⟨predecessorEpoch, equal⟩ := writeUint_inj equal
  obtain ⟨epoch, equal⟩ := writeUint_inj equal
  obtain ⟨predecessorIDs, equal⟩ :=
    bigEndian64_append_inj (registryID_lt predecessor) (registryID_lt otherPredecessor) equal
  obtain ⟨predecessorPubs, equal⟩ := writeField_inj predecessorPub otherPredecessorPub equal
  obtain ⟨successorIDs, equal⟩ :=
    bigEndian64_append_inj (registryID_lt successor) (registryID_lt otherSuccessor) equal
  obtain ⟨successorPubs, equal⟩ := writeField_inj successorPub otherSuccessorPub equal
  obtain ⟨policyRef, equal⟩ := writeField_inj policy otherPolicy equal
  obtain ⟨hashAlg, equal⟩ := writeField_inj hash otherHash equal
  obtain ⟨notBefore, equal⟩ :=
    writeInt_inj representable.notBefore otherRepresentable.notBefore equal
  obtain ⟨notAfter, equal⟩ :=
    writeInt_inj representable.notAfter otherRepresentable.notAfter equal
  exact
    ⟨{ deploymentScope := deploymentScope
       identityID := identityID
       tenantID := tenantID
       predecessorEpoch := predecessorEpoch
       epoch := epoch
       predecessorAlg := registryID_inj predecessor (predecessorIDs ▸ otherPredecessor)
       predecessorPub := predecessorPubs
       successorAlg := registryID_inj successor (successorIDs ▸ otherSuccessor)
       successorPub := successorPubs
       policyRef := policyRef
       hashAlg := hashAlg
       notBefore := notBefore
       notAfter := notAfter }, equal⟩

theorem encode_eq_ok {encoding : Bytes} (encoded : fields.encode = .ok encoding) :
    ∃ predecessorID successorID, registryID fields.predecessorAlg = some predecessorID ∧
      registryID fields.successorAlg = some successorID ∧
      (2 ≤ fields.commitmentVersion ∧ encoding = fields.encodeV2 predecessorID successorID ∨
        fields.commitmentVersion < 2 ∧
          encoding = writeField (bytes "trstctl/pcas/succession/commitment/v1") ++
            fields.encodeCore predecessorID successorID) := by
  unfold encode at encoded
  split at encoded
  · cases encoded
  · rename_i predecessorID predecessor
    split at encoded
    · cases encoded
    · rename_i successorID successor
      refine ⟨predecessorID, successorID, predecessor, successor, ?_⟩
      split at encoded
      · cases encoded
      · split at encoded
        · rename_i second
          exact .inl ⟨second, (Except.ok.inj encoded).symm⟩
        · rename_i first
          exact .inr ⟨UInt32.not_le.mp first, (Except.ok.inj encoded).symm⟩

/-- Encodings of the second version tell every field. -/
theorem encodeV2_inj {predecessorID otherPredecessorID successorID otherSuccessorID : Nat}
    (representable : fields.Representable) (otherRepresentable : other.Representable)
    (predecessor : registryID fields.predecessorAlg = some predecessorID)
    (successor : registryID fields.successorAlg = some successorID)
    (otherPredecessor : registryID other.predecessorAlg = some otherPredecessorID)
    (otherSuccessor : registryID other.successorAlg = some otherSuccessorID)
    (equal : fields.encodeV2 predecessorID successorID =
      other.encodeV2 otherPredecessorID otherSuccessorID) :
    fields = other := by
  have addressable := representable.addressable
  have otherAddressable := otherRepresentable.addressable
  simp only [texts, List.forall_mem_cons] at addressable otherAddressable
  obtain ⟨-, -, -, -, -, -, -, type, authz, evidence, attestation, delegation, -⟩ := addressable
  obtain ⟨-, -, -, -, -, -, -, otherType, otherAuthz, otherEvidence, otherAttestation,
    otherDelegation, -⟩ := otherAddressable
  simp only [encodeV2, List.append_assoc] at equal
  obtain ⟨-, equal⟩ := writeField_inj (by decide) (by decide) equal
  obtain ⟨versions, equal⟩ := bigEndian64_append_inj
    (Nat.lt_trans fields.commitmentVersion.toNat_lt (by decide))
    (Nat.lt_trans other.commitmentVersion.toNat_lt (by decide)) equal
  obtain ⟨agree, equal⟩ := encodeCore_inj representable otherRepresentable predecessor successor
    otherPredecessor otherSuccessor equal
  obtain ⟨recordType, equal⟩ := writeField_inj type otherType equal
  obtain ⟨authzDigest, equal⟩ := writeField_inj authz otherAuthz equal
  obtain ⟨evidenceDigest, equal⟩ := writeField_inj evidence otherEvidence equal
  obtain ⟨attestationType, equal⟩ := writeField_inj attestation otherAttestation equal
  rw [← List.append_nil (writeField fields.delegationPath),
    ← List.append_nil (writeField other.delegationPath)] at equal
  obtain ⟨delegationPath, -⟩ := writeField_inj delegation otherDelegation equal
  cases fields
  cases other
  rw [CommitmentFields.mk.injEq]
  exact ⟨agree.deploymentScope, agree.identityID, agree.tenantID, agree.predecessorEpoch,
    agree.epoch, agree.predecessorAlg, agree.predecessorPub, agree.successorAlg,
    agree.successorPub, agree.policyRef, agree.hashAlg, agree.notBefore, agree.notAfter,
    UInt32.toNat_inj.mp versions, recordType, authzDigest, evidenceDigest, attestationType,
    delegationPath⟩

theorem exists_domain_of_encode {encoding : Bytes} (encoded : fields.encode = .ok encoding) :
    ∃ domain rest, encoding = writeField domain ++ rest ∧
      (domain = bytes "trstctl/pcas/succession/commitment/v1" ∨
        domain = bytes "trstctl/pcas/succession/commitment/v2") := by
  obtain ⟨predecessorID, successorID, -, -, ⟨-, second⟩ | ⟨-, first⟩⟩ := encode_eq_ok encoded
  · simp only [encodeV2, List.append_assoc] at second
    exact ⟨_, _, second, .inr rfl⟩
  · exact ⟨_, _, first, .inl rfl⟩

end CommitmentFields

open CommitmentFields in
/-- Fields with one encoding are both of the first version and agree on its
fields, or both of one later version and agree on all; and no encoding of fields
is one of a genesis record. -/
theorem encode_injective_and_separated :
    (∀ (fields other : CommitmentFields) (encoding : Bytes),
      fields.Representable → other.Representable →
        fields.encode = .ok encoding → other.encode = .ok encoding →
          (fields.commitmentVersion < 2 ∧ other.commitmentVersion < 2 ∧ fields.AgreeV1 other) ∨
            (2 ≤ fields.commitmentVersion ∧ fields = other)) ∧
      ∀ (fields : CommitmentFields) (genesis : GenesisRecord) (encoding : Bytes),
        fields.encode = .ok encoding → genesis.encode ≠ some encoding := by
  constructor
  · intro fields other encoding representable otherRepresentable encoded otherEncoded
    obtain ⟨predecessorID, successorID, predecessor, successor, version⟩ := encode_eq_ok encoded
    obtain ⟨otherPredecessorID, otherSuccessorID, otherPredecessor, otherSuccessor,
      otherVersion⟩ := encode_eq_ok otherEncoded
    rcases version with ⟨second, encoding_eq⟩ | ⟨first, encoding_eq⟩
    · rcases otherVersion with ⟨otherSecond, other_eq⟩ | ⟨otherFirst, other_eq⟩
      · exact .inr ⟨second, encodeV2_inj representable otherRepresentable predecessor successor
          otherPredecessor otherSuccessor (encoding_eq.symm.trans other_eq)⟩
      · have texts := encoding_eq.symm.trans other_eq
        simp only [encodeV2, List.append_assoc] at texts
        exact absurd (writeField_inj (by decide) (by decide) texts).1 (by decide)
    · rcases otherVersion with ⟨otherSecond, other_eq⟩ | ⟨otherFirst, other_eq⟩
      · have texts := encoding_eq.symm.trans other_eq
        simp only [encodeV2, List.append_assoc] at texts
        exact absurd (writeField_inj (by decide) (by decide) texts).1 (by decide)
      · have texts := List.append_cancel_left (encoding_eq.symm.trans other_eq)
        rw [← List.append_nil (encodeCore _ _ _),
          ← List.append_nil (encodeCore other _ _)] at texts
        exact .inl ⟨first, otherFirst, (encodeCore_inj representable otherRepresentable predecessor
          successor otherPredecessor otherSuccessor texts).1⟩
  · intro fields genesis encoding encoded genesisEncoded
    obtain ⟨domain, rest, encoding_eq, domain_eq⟩ := exists_domain_of_encode encoded
    obtain ⟨algorithmID, -, genesis_eq⟩ := Option.map_eq_some_iff.mp genesisEncoded
    have texts := genesis_eq.trans encoding_eq
    simp only [List.append_assoc] at texts
    rcases domain_eq with rfl | rfl
    · exact absurd (writeField_inj (by decide) (by decide) texts).1 (by decide)
    · exact absurd (writeField_inj (by decide) (by decide) texts).1 (by decide)

/-- The first version says nothing of the record type: two types have one
encoding, which is none of a genesis record. -/
theorem encode_of_two_record_types :
    ∃ encoding,
      (successionFields (bytes "one") (bytes "a")).encode = .ok encoding ∧
      { successionFields (bytes "one") (bytes "a") with recordType := bytes "emergency" }.encode =
        .ok encoding ∧
      (successionFields (bytes "one") (bytes "a")).AgreeV1
        { successionFields (bytes "one") (bytes "a") with recordType := bytes "emergency" } ∧
      tenantGenesis.encode ≠ some encoding := by
  obtain ⟨injective, separated⟩ := encode_injective_and_separated
  have representable : (successionFields (bytes "one") (bytes "a")).Representable :=
    ⟨by decide, by decide, by decide⟩
  have otherRepresentable : CommitmentFields.Representable
      { successionFields (bytes "one") (bytes "a") with recordType := bytes "emergency" } :=
    ⟨by decide, by decide, by decide⟩
  refine ⟨_, rfl, rfl, ?_, separated (successionFields (bytes "one") (bytes "a")) _ _ rfl⟩
  rcases injective _ _ _ representable otherRepresentable rfl rfl with
    ⟨-, -, agree⟩ | ⟨later, -⟩
  · exact agree
  · exact absurd later (by decide)

end Trstctl.Succession
