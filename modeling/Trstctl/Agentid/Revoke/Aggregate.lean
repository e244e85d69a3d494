import Trstctl.Agentid.Delegation.Record
import Trstctl.Library.Codes
import Trstctl.Library.Result
import Trstctl.Library.Sorting

/-!
# The aggregate evidence of a revocation

`internal/agentid/revoke/aggregate.go`: the terminal transition signs one artifact
over a digest of the completion evidence of all jobs, and an auditor recomputes
that digest from the published digests of the jobs.  The digest is taken over the
sorted digests, each behind its length, so it tells the digests and how often each
occurs, and nothing about their order.
-/

namespace Trstctl.Agentid.Revoke

open Go (Bytes bytes bigEndian64 jsonPair)

/-- A value of the type `[][]byte`: lengths are of the type `int`. -/
structure ByteStrings where
  items : List Bytes
  counted : items.length < 2 ^ 63
  addressable : ∀ item ∈ items, item.length < 2 ^ 63

/-- `AggregateEvidence`.  The digest is none when the slice is nil. -/
structure AggregateEvidence where
  tenantID : Bytes
  directiveID : Bytes
  subjectID : Bytes
  reasonClass : Bytes
  watermark : UInt64
  ledgerHead : UInt64
  jobCount : Int
  completionEvidenceDigest : Option Bytes
  signature : Bytes
  publicKey : Bytes

/-- The errors of minting and verifying an artifact. -/
inductive AggregateError where
  | requiresSigner
  | sign
  | noSignature
  | noPublicKey
  | signatureInvalid
  | publishedCount (published : Nat) (jobs : Int)
  | digestMismatch
deriving DecidableEq

def completionDigestDomain : Bytes :=
  bytes "agid/agentid/revocation-aggregate/completion-set/v1"

def aggregateDomain : Bytes :=
  bytes "agid/agentid/revocation-aggregate-evidence/v1"

/-- The bytes `CompletionEvidenceDigestOf` hashes. -/
def completionSetBytes (perJobEvidenceDigests : ByteStrings) : Bytes :=
  let sorted := perJobEvidenceDigests.items.insertionSort (· ≤ ·)
  completionDigestDomain ++ bytes ":" ++ bigEndian64 sorted.length ++
    sorted.flatMap fun digest => bigEndian64 digest.length ++ digest

def completionEvidenceDigestOf (crypto : Crypto) (perJobEvidenceDigests : ByteStrings) : Bytes :=
  crypto.sha256Sum (completionSetBytes perJobEvidenceDigests)

/-- `AggregateEvidence.aggregateBodyBytes`: the signature and the public key are
cleared and then left out. -/
def AggregateEvidence.aggregateBodyBytes (artifact : AggregateEvidence) : Bytes :=
  aggregateDomain ++ bytes ":" ++ Go.jsonObject
    [jsonPair "tenant_id" (Go.jsonString artifact.tenantID),
      jsonPair "directive_id" (Go.jsonString artifact.directiveID),
      jsonPair "subject_id" (Go.jsonString artifact.subjectID),
      jsonPair "reason_class" (Go.jsonString artifact.reasonClass),
      jsonPair "watermark" (Go.decimal artifact.watermark.toNat),
      jsonPair "ledger_head" (Go.decimal artifact.ledgerHead.toNat),
      jsonPair "job_count" (Go.decimal artifact.jobCount),
      jsonPair "completion_evidence_digest"
        (match artifact.completionEvidenceDigest with
        | none => bytes "null"
        | some digest => Go.jsonBytes digest)]

/-- `crypto.Signer`: the signature of a message, unless signing fails, and the
encoding of the public key. -/
structure Signer where
  sign : Bytes → Option Bytes
  publicDER : Bytes

def signAggregate (signer : Option Signer) (artifact : AggregateEvidence) :
    Except AggregateError AggregateEvidence :=
  match signer with
  | none => .error .requiresSigner
  | some signer =>
      match signer.sign artifact.aggregateBodyBytes with
      | none => .error .sign
      | some signature =>
          .ok { artifact with signature := signature, publicKey := signer.publicDER }

def verifyAggregateSignature (crypto : Crypto) (artifact : AggregateEvidence) :
    Except AggregateError Unit :=
  if artifact.signature.isEmpty then .error .noSignature
  else if artifact.publicKey.isEmpty then .error .noPublicKey
  else if crypto.verifyMessage artifact.publicKey artifact.aggregateBodyBytes
      artifact.signature then .ok ()
  else .error .signatureInvalid

/-- `VerifyAggregateOffline`.  The recomputed digest is compared with the bytes of
the slice, whether nil or not. -/
def verifyAggregateOffline (crypto : Crypto) (artifact : AggregateEvidence)
    (publishedEvidenceDigests : ByteStrings) : Except AggregateError Unit := do
  verifyAggregateSignature crypto artifact
  if (publishedEvidenceDigests.items.length : Int) ≠ artifact.jobCount then
    throw (.publishedCount publishedEvidenceDigests.items.length artifact.jobCount)
  if completionEvidenceDigestOf crypto publishedEvidenceDigests ≠
      artifact.completionEvidenceDigest.getD [] then
    throw .digestMismatch

/-- What the terminal transition binds beside the digest. -/
structure TerminalFacts where
  tenantID : Bytes
  directiveID : Bytes
  subjectID : Bytes
  reasonClass : Bytes
  watermark : UInt64
  ledgerHead : UInt64
  jobCount : Int

/-- The artifact of `Transition`, over the digests of the evidence of the jobs. -/
def mintAggregate (crypto : Crypto) (signer : Option Signer) (facts : TerminalFacts)
    (evidenceDigests : ByteStrings) : Except AggregateError AggregateEvidence :=
  signAggregate signer
    { tenantID := facts.tenantID
      directiveID := facts.directiveID
      subjectID := facts.subjectID
      reasonClass := facts.reasonClass
      watermark := facts.watermark
      ledgerHead := facts.ledgerHead
      jobCount := facts.jobCount
      completionEvidenceDigest := some (completionEvidenceDigestOf crypto evidenceDigests)
      signature := []
      publicKey := [] }

theorem completionSetBytes_of_perm {first second : ByteStrings}
    (permutation : first.items.Perm second.items) :
    completionSetBytes first = completionSetBytes second := by
  have sorted : first.items.insertionSort (· ≤ ·) = second.items.insertionSort (· ≤ ·) :=
    Sorting.insertionSort_eq_of_perm permutation fun _ _ _ _ => List.le_antisymm
  simp only [completionSetBytes, sorted]

theorem perm_of_completionSetBytes_eq {first second : ByteStrings}
    (equal : completionSetBytes first = completionSetBytes second) :
    first.items.Perm second.items := by
  simp only [completionSetBytes, List.append_assoc, List.append_cancel_left_eq] at equal
  have firstSorts := List.perm_insertionSort (· ≤ ·) first.items
  have secondSorts := List.perm_insertionSort (· ≤ ·) second.items
  obtain ⟨counts, entries⟩ := List.append_inj equal rfl
  have sameCount := Go.bigEndian64_injective
    (by rw [firstSorts.length_eq]; have := first.counted; omega)
    (by rw [secondSorts.length_eq]; have := second.counted; omega) counts
  have sorted : first.items.insertionSort (· ≤ ·) = second.items.insertionSort (· ≤ ·) := by
    refine eq_of_flatMap_lengthPrefixed (2 ^ 63) Go.length_bigEndian64 ?_ sameCount
      (fun digest member => first.addressable digest (firstSorts.mem_iff.mp member))
      (fun digest member => second.addressable digest (secondSorts.mem_iff.mp member)) entries
    intro count other bounded otherBounded written
    exact Go.bigEndian64_injective (by omega) (by omega) written
  exact (firstSorts.symm.trans (sorted ▸ List.Perm.refl _)).trans secondSorts

theorem digest_of_verifyAggregateOffline
    {crypto : Crypto} {artifact : AggregateEvidence} {published : ByteStrings}
    (accepted : verifyAggregateOffline crypto artifact published = .ok ()) :
    completionEvidenceDigestOf crypto published = artifact.completionEvidenceDigest.getD [] := by
  simp only [verifyAggregateOffline, Result.bind_eq_ok, Result.guard_eq_ok] at accepted
  obtain ⟨-, -, -, checked⟩ := accepted
  by_contra different
  rw [if_pos different] at checked
  cases checked

theorem digest_of_mintAggregate {crypto : Crypto} {signer : Option Signer} {facts : TerminalFacts}
    {evidenceDigests : ByteStrings} {artifact : AggregateEvidence}
    (minted : mintAggregate crypto signer facts evidenceDigests = .ok artifact) :
    artifact.completionEvidenceDigest =
      some (completionEvidenceDigestOf crypto evidenceDigests) := by
  cases signer with
  | none => cases minted
  | some signer =>
      simp only [mintAggregate, signAggregate] at minted
      split at minted
      · cases minted
      · cases minted
        rfl

/-- The digest tells the digests of the jobs up to their order, and the published
digests an artifact is accepted with are those it was minted over. -/
theorem completionEvidenceDigest_binds_multiset
    (crypto : Crypto)
    (injective : Function.Injective crypto.sha256Sum) :
    (∀ first second : ByteStrings,
      completionEvidenceDigestOf crypto first = completionEvidenceDigestOf crypto second ↔
        second.items.Perm first.items) ∧
    ∀ (signer : Option Signer) (facts : TerminalFacts) (evidenceDigests published : ByteStrings)
      (artifact : AggregateEvidence),
      mintAggregate crypto signer facts evidenceDigests = .ok artifact →
      verifyAggregateOffline crypto artifact published = .ok () →
        published.items.Perm evidenceDigests.items := by
  have told : ∀ first second : ByteStrings,
      completionEvidenceDigestOf crypto first = completionEvidenceDigestOf crypto second ↔
        second.items.Perm first.items := by
    intro first second
    constructor
    · intro equal
      exact (perm_of_completionSetBytes_eq (injective equal)).symm
    · intro permutation
      rw [completionEvidenceDigestOf, completionSetBytes_of_perm permutation.symm,
        completionEvidenceDigestOf]
  refine ⟨told, ?_⟩
  intro signer facts evidenceDigests published artifact minted accepted
  apply (told evidenceDigests published).mp
  rw [digest_of_verifyAggregateOffline accepted, digest_of_mintAggregate minted, Option.getD_some]

/-- A hash that is its input, and a check that accepts the key of `plainSigner`. -/
def plainCrypto : Crypto where
  sha256Sum text := text
  verifyMessage publicKey _ signature := publicKey == [1] && signature == [2]

/-- A signer whose signatures are all alike. -/
def plainSigner : Signer where
  sign _ := some [2]
  publicDER := [1]

/-- Two digests, the second of which is empty. -/
def twoDigests : ByteStrings :=
  ⟨[[7], []], by decide, by decide⟩

/-- The same digests the other way round. -/
def turnedDigests : ByteStrings :=
  ⟨[[], [7]], by decide, by decide⟩

def twoJobs : TerminalFacts :=
  ⟨bytes "tenant", bytes "directive", bytes "agent", bytes "compromise", 3, 9, 2⟩

/-- An artifact over two digests is accepted with these in another order. -/
theorem completionEvidenceDigest_binds_turned :
    (∃ artifact, mintAggregate plainCrypto (some plainSigner) twoJobs twoDigests = .ok artifact ∧
      verifyAggregateOffline plainCrypto artifact turnedDigests = .ok ()) ∧
      completionEvidenceDigestOf plainCrypto twoDigests =
        completionEvidenceDigestOf plainCrypto turnedDigests ∧
      turnedDigests.items.Perm twoDigests.items := by
  have binds := completionEvidenceDigest_binds_multiset plainCrypto fun _ _ equal => equal
  have swapped : turnedDigests.items.Perm twoDigests.items := List.Perm.swap _ _ _
  have digests := (binds.1 twoDigests turnedDigests).mpr swapped
  have accepted : ∃ artifact,
      mintAggregate plainCrypto (some plainSigner) twoJobs twoDigests = .ok artifact ∧
        verifyAggregateOffline plainCrypto artifact turnedDigests = .ok () := by
    refine ⟨_, rfl, ?_⟩
    decide +kernel
  obtain ⟨artifact, minted, verified⟩ := accepted
  exact ⟨⟨artifact, minted, verified⟩, digests,
    binds.2 _ _ _ _ artifact minted verified⟩

end Trstctl.Agentid.Revoke
