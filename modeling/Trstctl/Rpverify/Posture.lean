import Mathlib.Data.List.Chain
import Trstctl.Rpverify.Verifier

/-!
# What an accepted posture says

Without a break-glass authority the strength of the keys of an accepted chain
never falls: the refusal compares neighbours and passes over algorithms without
a class, but a signature under such an algorithm does not verify.  Revocations
are not refused: a chain with a revocation is accepted like every other one.
-/

namespace Trstctl.Rpverify

open Go (Bytes bytes)
open Succession

/-- The signature check accepts only the algorithms it switches on. -/
def AcceptsOnlySwitched (crypto : Succession.Crypto) : Prop :=
  ∀ algorithm key message signature,
    crypto.verifyAlgorithmMessage algorithm key message signature = true →
      algorithm ∈ Trstctl.Crypto.signatureAlgorithms

/-- The position of the class of an algorithm. -/
def strengthOf (algorithm : Bytes) : Nat :=
  (classOf algorithm).rank

/-- The strengths along a presentation: of the genesis key and of each
successor. -/
def strengths (input : Input) : List Nat :=
  strengthOf input.genesis.algorithm ::
    input.chain.map fun record => strengthOf record.fields.successorAlg

theorem classOf_ne_unknownStrength :
    ∀ algorithm ∈ Trstctl.Crypto.signatureAlgorithms, classOf algorithm ≠ .unknownStrength := by
  decide +kernel

theorem strength_le_of_not_downgrade {predecessor successor : Bytes}
    (predecessorClass : classOf predecessor ≠ .unknownStrength)
    (successorClass : classOf successor ≠ .unknownStrength)
    (noDowngrade : isStrengthDowngrade predecessor successor = false) :
    strengthOf predecessor ≤ strengthOf successor := by
  have known : ¬ (classOf predecessor = .unknownStrength ∨
      classOf successor = .unknownStrength) := by
    rintro (unknown | unknown)
    · exact predecessorClass unknown
    · exact successorClass unknown
  rw [isStrengthDowngrade, if_neg known, decide_eq_false_iff_not] at noDowngrade
  exact Nat.le_of_not_lt noDowngrade

theorem verifyBreakGlass_nil (primitives : Primitives) (record : SuccessionRecord) :
    verifyBreakGlass primitives record [] = false := by
  simp [verifyBreakGlass]

theorem Passes.strength_le {primitives : Primitives} {options : Options} {record : SuccessionRecord}
    (passes : Passes primitives options record) (switched : AcceptsOnlySwitched primitives.crypto)
    (noAuthority : options.breakGlassAuthorityDER = [])
    (verifies : verifyRecord primitives.crypto record = .ok ()) :
    strengthOf record.fields.predecessorAlg ≤ strengthOf record.fields.successorAlg := by
  obtain ⟨commitment, signed⟩ := verifyRecord_eq_ok.mp verifies
  have predecessorClass := classOf_ne_unknownStrength _ (switched _ _ _ _ signed.predecessor)
  have successorClass := classOf_ne_unknownStrength _ (switched _ _ _ _ signed.successor)
  refine strength_le_of_not_downgrade predecessorClass successorClass ?_
  rw [Bool.eq_false_iff]
  intro downgrade
  have authorized := passes.strength downgrade
  rw [noAuthority, verifyBreakGlass_nil] at authorized
  cases authorized

section

variable {crypto : Succession.Crypto} {previous : Posture} {chain : List SuccessionRecord}

theorem isChain_strength (linked : Linked crypto previous chain)
    (noWeaker : ∀ record ∈ chain,
      strengthOf record.fields.predecessorAlg ≤ strengthOf record.fields.successorAlg) :
    List.IsChain (· ≤ ·) (strengthOf previous.algorithm ::
      chain.map fun record => strengthOf record.fields.successorAlg) := by
  induction chain generalizing previous with
  | nil => exact List.isChain_singleton _
  | cons first rest ih =>
      obtain ⟨continued, links⟩ := linked
      obtain ⟨first_noWeaker, rest_noWeaker⟩ := List.forall_mem_cons.mp noWeaker
      rw [continued.predecessorAlg] at first_noWeaker
      rw [List.map_cons]
      exact List.IsChain.cons_cons first_noWeaker (ih links rest_noWeaker)

theorem getLast_strength (previous : Posture) (chain : List SuccessionRecord) :
    (strengthOf previous.algorithm ::
        chain.map fun record => strengthOf record.fields.successorAlg).getLast? =
      some (strengthOf (headPosture previous chain).algorithm) := by
  induction chain generalizing previous with
  | nil => rfl
  | cons first rest ih =>
      rw [List.map_cons, List.getLast?_cons_cons, headPosture_cons]
      exact ih first.posture

end

/-- Without a break-glass authority the strength of an accepted chain never
falls, and the posture is at least as strong as every key before it. -/
theorem strengths_pairwise_of_verify
    {σ : Type} {primitives : Primitives} {input : Input} {store : Option (EpochStore σ)}
    {options : Options} {state state' : σ} {posture : Posture}
    (switched : AcceptsOnlySwitched primitives.crypto)
    (noAuthority : options.breakGlassAuthorityDER = [])
    (verified : verify primitives input store options state = .ok (posture, state')) :
    (strengths input).Pairwise (· ≤ ·) ∧
      ∀ earlier ∈ strengths input, earlier ≤ strengthOf posture.algorithm := by
  obtain ⟨⟨last, authentic⟩, passes, head⟩ := accepted_of_verify verified
  have noWeaker : ∀ record ∈ input.chain,
      strengthOf record.fields.predecessorAlg ≤ strengthOf record.fields.successorAlg := by
    intro record member
    exact (passes record member).strength_le switched noAuthority
      (authentic.linked.verifies record member)
  have pairwise : (strengths input).Pairwise (· ≤ ·) :=
    (isChain_strength authentic.linked noWeaker).pairwise
  refine ⟨pairwise, fun earlier member => ?_⟩
  have last_eq : (strengths input).getLast (List.ne_nil_of_mem member) =
      strengthOf posture.algorithm := by
    rw [head]
    exact Option.some.inj ((List.getLast?_eq_some_getLast _).symm.trans
      (getLast_strength input.genesis.posture input.chain))
  rw [← last_eq]
  exact pairwise.rel_getLast member

/-- The trust root signs the genesis record of the tenant. -/
def attestedGenesis : GenesisRecord :=
  { tenantGenesis with
    trustRootAtt := bytes "root" ++ (tenantGenesis.encode.getD []) }

/-- Keys that sign by standing before the message, and no break-glass
authorization. -/
def plainPrimitives : Primitives where
  crypto := plainCrypto
  verifyMessage := plainSchemes.verifyMessage
  unmarshalEnvelope _ := none
  unmarshalToken _ := none

/-- The policy of a relying party of the tenant. -/
def tenantOptions : Options where
  expectedTenant := bytes "a"
  requireInclusion := false
  sthVerifyKeyDER := []
  preCRQCBefore := 0
  breakGlassAuthorityDER := []

/-- A chain after the attested genesis record. -/
def presentation (chain : List SuccessionRecord) : Input where
  trustRootPubDER := bytes "root"
  genesis := attestedGenesis
  chain := chain
  inclusion := []

/-- Verification without a store. -/
def present (chain : List SuccessionRecord) : Except Rejection (Posture × Unit) :=
  verify plainPrimitives (presentation chain) none tenantOptions ()

/-- The chain of one own record is accepted. -/
theorem strengths_pairwise_of_verify_ownRecord :
    present [ownRecord] = .ok (ownRecord.posture, ()) ∧
      (strengths (presentation [ownRecord])).Pairwise (· ≤ ·) ∧
        ∀ earlier ∈ strengths (presentation [ownRecord]),
          earlier ≤ strengthOf ownRecord.posture.algorithm := by
  have verified : present [ownRecord] = .ok (ownRecord.posture, ()) := by
    decide +kernel
  have switched : AcceptsOnlySwitched plainPrimitives.crypto := fun _ _ _ _ =>
    Trstctl.Crypto.mem_signatureAlgorithms_of_verifyAlgorithmMessage plainSchemes
  exact ⟨verified, strengths_pairwise_of_verify switched rfl verified⟩

/-- No reader of a part of the chain is told that it is revoked, and no record
of the first commitment version, whose type is not compared with the committed
one, is committed as a revocation. -/
structure RevocationFree (chain : List SuccessionRecord) : Prop where
  fronts : ∀ front, front <+: chain → revoked front = false
  unbound : ∀ record ∈ chain, record.fields.commitmentVersion < 2 →
    record.fields.recordType ≠ recRevocation

/-- A presentation that is accepted has no revocation exactly when none was
presented: verification compares the type of a record with the committed one,
and with nothing else. -/
theorem noTombstone_iff_revocationFree
    {σ : Type} {primitives : Primitives} {input : Input} {store : Option (EpochStore σ)}
    {options : Options} {state state' : σ} {posture : Posture}
    (verified : verify primitives input store options state = .ok (posture, state')) :
    (∀ record ∈ input.chain, ¬ Tombstone record) ↔ RevocationFree input.chain := by
  obtain ⟨⟨last, authentic⟩, -, -⟩ := accepted_of_verify verified
  constructor
  · intro noTombstone
    refine ⟨revoked_prefix_iff.mpr ?_, ?_⟩
    · intro record member revocation
      exact noTombstone record member (.inl revocation)
    · intro record member _ revocation
      exact noTombstone record member (.inr revocation)
  · rintro ⟨fronts, unbound⟩ record member tombstone
    have readable := revoked_prefix_iff.mp fronts record member
    have verifies := authentic.linked.verifies record member
    obtain ⟨commitment, signed⟩ := verifyRecord_eq_ok.mp verifies
    rcases tombstone with revocation | revocation
    · exact readable revocation
    · by_cases bound : record.fields.commitmentVersion ≥ 2
      · rw [← (signed.repeats bound).recordType] at revocation
        exact readable revocation
      · exact unbound record member (UInt32.not_le.mp bound) revocation

/-- The own record is no tombstone. -/
theorem noTombstone_iff_revocationFree_ownRecord :
    present [ownRecord] = .ok (ownRecord.posture, ()) ∧
      ((∀ record ∈ [ownRecord], ¬ Tombstone record) ↔ RevocationFree [ownRecord]) := by
  have verified : present [ownRecord] = .ok (ownRecord.posture, ()) := by
    decide +kernel
  exact ⟨verified, noTombstone_iff_revocationFree verified⟩

/-- The holder of a key under `plainCrypto`: it signs with the key before the message. -/
def keyHolder (algorithm key : Bytes) : Minter.Signer where
  algorithm := algorithm
  publicDER := key
  sign message := .ok (key ++ message)

/-- The holder of the genesis key. -/
def firstKey : Minter.Signer :=
  keyHolder (bytes "Ed25519") (bytes "K0")

/-- The revocation of the first key, as it is built. -/
def builtRevocation : Except BuildError SuccessionRecord :=
  buildRevocation plainCrypto firstKey (bytes "spiffe://one") (bytes "spiffe://one/db") (bytes "a")
    0 0 100 .ok (bytes "signer-1")

/-- The record that is built. -/
def revocationRecord : SuccessionRecord :=
  builtRevocation.toOption.getD ownRecord

/-- The succession to the second key after the revocation of the first. -/
def recordAfterRevocation : SuccessionRecord :=
  signedRecord
    { successionFields (bytes "spiffe://one") (bytes "a") with
      predecessorEpoch := 1
      epoch := 2 }

/-- The revocation of a key is accepted with the posture of that key, and so is
a succession that its holder signs after it. -/
theorem tombstone_revocationRecord :
    builtRevocation = .ok revocationRecord ∧
      Tombstone revocationRecord ∧
      present [revocationRecord] = .ok (⟨bytes "Ed25519", bytes "K0", 1⟩, ()) ∧
      present [revocationRecord, recordAfterRevocation] =
        .ok (⟨bytes "ML-DSA-65", bytes "K1", 2⟩, ()) := by
  decide +kernel

/-- The holder of the key that `ownRecord` hands the identity to. -/
def secondKey : Minter.Signer :=
  keyHolder (bytes "ML-DSA-65") (bytes "K1")

/-- The revocation of the second key, as it is built at the epoch of `ownRecord`. -/
def builtSecondRevocation : Except BuildError SuccessionRecord :=
  buildRevocation plainCrypto secondKey (bytes "spiffe://one") (bytes "spiffe://one/db")
    (bytes "a") 1 0 100 .ok (bytes "signer-1")

/-- The record that is built. -/
def secondRevocationRecord : SuccessionRecord :=
  builtSecondRevocation.toOption.getD ownRecord

theorem secondKey_honest : secondKey.Honest plainCrypto := by
  intro message signature signed
  obtain rfl := Except.ok.inj signed
  refine ⟨rfl, ?_⟩
  exact beq_self_eq_true (bytes "K1" ++ message)

/-- The chain of `ownRecord`, extended by the revocation of the key it ends with:
the revocation is linked to the succession before it. -/
theorem verifyChain_append_revocation_secondKey :
    verifyChain plainCrypto tenantGenesis [ownRecord] 0 = .ok () ∧
      secondRevocationRecord.fields.predecessorEpoch = ownRecord.fields.epoch ∧
      verifyChain plainCrypto tenantGenesis ([ownRecord] ++ [secondRevocationRecord]) 0 =
        .ok () := by
  have accepted : verifyChain plainCrypto tenantGenesis [ownRecord] 0 = .ok () := by
    decide +kernel
  have built : builtSecondRevocation = .ok secondRevocationRecord := by
    decide +kernel
  exact ⟨accepted, by decide +kernel,
    verifyChain_append_revocation accepted rfl secondKey_honest (by decide) built⟩

end Trstctl.Rpverify
