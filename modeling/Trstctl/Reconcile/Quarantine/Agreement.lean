import Mathlib.Data.List.Perm.Subperm
import Trstctl.Reconcile.Quarantine.Completion
import Trstctl.Reconcile.Witness.Soundness

/-!
# What a completion proves

`buildCompletion` counts the proofs of each record against the completing
digests, so every completing authority proves every record, with the same
material bytes.  Nothing links the completing digests to the digest references
of the witness: the authorities in dispute agree exactly when they are among the
completing ones.
-/

namespace Trstctl.Reconcile.Quarantine

open Go (Bytes bytes trimSpace)
open Digest (SignedDigest)
open Witness (Evidence Entry DigestRef)

/-- The material of a record is never the empty text. -/
def CompletionJson.WritesText (json : CompletionJson) : Prop :=
  ∀ members, json.marshalMembers members ≠ some []

section Proofs

variable {crypto : Crypto}
variable {json : CompletionJson}

theorem materialRecordBytes_ne_nil (writesText : json.WritesText) {raw material : Bytes}
    (read : materialRecordBytes json raw = some material) :
    material ≠ [] := by
  rintro rfl
  unfold materialRecordBytes at read
  split at read
  · cases read
  · split at read
    · cases read
    · exact writesText _ read

/-- What the loop accepts of a proof, with a root of its authority and the
material of its record. -/
structure Proved (crypto : Crypto) (json : CompletionJson) (rootOf : Bytes → Option Bytes)
    (keyBytes material : Bytes) (proof : CompletedProof) : Prop where
  key : proof.proof.recordKeyBytes = keyBytes
  verified : ∃ root, rootOf (trimSpace proof.authorityID) = some root ∧
    proof.proof.verifyInclusion crypto.sha256Sum root = true
  read : materialRecordBytes json proof.proof.canonicalRecordBytes = some material

/-- The loop accepts proofs of different authorities, new to it, and of one
material. -/
theorem agreedMaterial_spec (writesText : json.WritesText)
    {rootOf : Bytes → Option Bytes} {keyBytes start material : Bytes}
    {seen : List Bytes} {proofs : List CompletedProof}
    (accepted : agreedMaterial crypto json rootOf keyBytes start seen proofs = .ok material) :
    (start = [] ∨ start = material) ∧
      (proofs.map fun proof => trimSpace proof.authorityID).Nodup ∧
      ∀ proof ∈ proofs, trimSpace proof.authorityID ∉ seen ∧
        Proved crypto json rootOf keyBytes material proof := by
  induction proofs generalizing start seen with
  | nil =>
      rw [agreedMaterial] at accepted
      exact ⟨Or.inr (Except.ok.inj accepted), List.nodup_nil,
        fun proof member => absurd member List.not_mem_nil⟩
  | cons proof rest ih =>
      simp only [agreedMaterial] at accepted
      split at accepted
      · cases accepted
      · rename_i root root_eq
        split at accepted
        · cases accepted
        · rename_i passes
          simp only [not_or, not_not, Bool.not_eq_false] at passes
          obtain ⟨fresh, key, verified⟩ := passes
          split at accepted
          · cases accepted
          · rename_i current read
            have rest_accepted : (start = [] ∨ start = current) ∧
                agreedMaterial crypto json rootOf keyBytes current
                  (trimSpace proof.authorityID :: seen) rest = .ok material := by
              split at accepted
              · rename_i empty
                exact ⟨Or.inl empty, accepted⟩
              · split at accepted
                · rename_i same
                  exact ⟨Or.inr same, same ▸ accepted⟩
                · cases accepted
            obtain ⟨start_eq, accepted⟩ := rest_accepted
            obtain ⟨current_eq, distinct, others⟩ := ih accepted
            have current_eq : current = material :=
              current_eq.resolve_left (materialRecordBytes_ne_nil writesText read)
            subst current_eq
            refine ⟨start_eq, ?_, ?_⟩
            · refine List.nodup_cons.mpr ⟨?_, distinct⟩
              intro repeated
              obtain ⟨other, member, same⟩ := List.mem_map.mp repeated
              exact (others other member).1 (same ▸ List.mem_cons_self)
            · intro other member
              rcases List.mem_cons.mp member with rfl | member
              · exact ⟨fresh, key, ⟨root, root_eq, verified⟩, read⟩
              · exact ⟨fun old => (others other member).1 (List.mem_cons_of_mem _ old),
                  (others other member).2⟩

end Proofs

/-- The loop over the completing digests keeps them all, under their trimmed
authorities, and those it had. -/
theorem collectDigests_spec
    {crypto : Crypto} {tenantID : Bytes} {start digests : Go.Map SignedDigest}
    {startRefs refs : List CompletionDigestRef} {completing : List SignedDigest}
    (collected : collectDigests crypto tenantID start startRefs completing = .ok (digests, refs)) :
    (∀ authorityID signed, start.lookup authorityID = some signed →
        digests.lookup authorityID = some signed) ∧
      ∀ signed ∈ completing,
        digests.lookup (trimSpace signed.body.authorityID) = some signed := by
  induction completing generalizing start startRefs with
  | nil =>
      obtain ⟨rfl, -⟩ := Prod.mk.inj (Except.ok.inj collected)
      exact ⟨fun authorityID signed found => found,
        fun signed member => absurd member List.not_mem_nil⟩
  | cons signed rest ih =>
      change (if _ then _ else _) = _ at collected
      split at collected
      · cases collected
      · split at collected
        · cases collected
        · rename_i fresh
          split at collected
          · cases collected
          · split at collected
            · cases collected
            · obtain ⟨kept, others⟩ := ih collected
              have stored : (start.set (trimSpace signed.body.authorityID) signed).lookup
                  (trimSpace signed.body.authorityID) = some signed := by
                rw [Go.MapOf.lookup_set, if_pos rfl]
              refine ⟨?_, List.forall_mem_cons.mpr ⟨kept _ _ stored, others⟩⟩
              intro authorityID other found
              have isOther : ¬ authorityID = trimSpace signed.body.authorityID := by
                rintro rfl
                exact fresh (Option.isSome_iff_exists.mpr ⟨other, found⟩)
              apply kept authorityID other
              rw [Go.MapOf.lookup_set, if_neg isOther]
              exact found

section Agreement

variable {crypto : Crypto}
variable {json : CompletionJson}
variable {request : CompletionRequest}

/-- Every completing digest proves a completed record, with one material. -/
theorem exists_proof_of_completeRecord (writesText : json.WritesText)
    {digests : Go.Map SignedDigest} {requiredKeys : List Bytes}
    {record : CompletedRecordProof} {evidence : CompletedRecordEvidence}
    (completed : completeRecord crypto json digests requiredKeys record = .ok evidence) :
    ∃ material, ∀ authorityID signed, digests.lookup authorityID = some signed →
      ∃ proof ∈ record.proofs, trimSpace proof.authorityID = authorityID ∧
        Digest.recordKeyBytes record.recordKey = .ok proof.proof.recordKeyBytes ∧
        proof.proof.verifyInclusion crypto.sha256Sum signed.body.merkleRoot = true ∧
        materialRecordBytes json proof.proof.canonicalRecordBytes = some material := by
  simp only [completeRecord, Result.guard_eq_ok, Result.bind_eq_ok, Result.mapError_eq_ok,
    not_not] at completed
  obtain ⟨-, keyBytes, key_eq, count, material, accepted, -⟩ := completed
  obtain ⟨-, distinct, proved⟩ := agreedMaterial_spec writesText accepted
  have within : ∀ proof ∈ record.proofs, ∃ signed,
      digests.lookup (trimSpace proof.authorityID) = some signed ∧
        proof.proof.verifyInclusion crypto.sha256Sum signed.body.merkleRoot = true := by
    intro proof member
    obtain ⟨root, root_eq, verified⟩ := (proved proof member).2.verified
    obtain ⟨signed, found, rfl⟩ := Option.map_eq_some_iff.mp root_eq
    exact ⟨signed, found, verified⟩
  -- As many different authorities as there are digests, each with a digest: all of them.
  have everyone : (record.proofs.map fun proof => trimSpace proof.authorityID).Perm
      digests.keys := by
    refine (distinct.subperm ?_).perm_of_length_le ?_
    · intro authorityID member
      obtain ⟨proof, proofMember, rfl⟩ := List.mem_map.mp member
      obtain ⟨signed, found, -⟩ := within proof proofMember
      exact Go.Map.mem_keys.mpr ⟨_, found⟩
    · rw [Go.Map.keys, List.length_map, List.length_map, count]
  refine ⟨material, fun authorityID signed found => ?_⟩
  obtain ⟨proof, member, rfl⟩ :=
    List.mem_map.mp (everyone.mem_iff.mpr (Go.Map.mem_keys.mpr ⟨_, found⟩))
  obtain ⟨other, other_found, verified⟩ := within proof member
  obtain rfl := Option.some.inj (other_found.symm.trans found)
  have accepted := (proved proof member).2
  refine ⟨proof, member, rfl, ?_, verified, accepted.read⟩
  rw [key_eq, accepted.key]

theorem of_buildCompletion {completedAt : Int} {completed : Completed}
    (accepted : buildCompletion crypto json request completedAt = .ok completed) :
    request.witness.body.entries ≠ [] ∧
      ∃ digests requiredKeys,
        (∀ signed ∈ request.completingDigests,
          digests.lookup (trimSpace signed.body.authorityID) = some signed) ∧
        ∀ record ∈ request.records,
          ∃ evidence, completeRecord crypto json digests requiredKeys record = .ok evidence := by
  simp only [buildCompletion, Result.guard_eq_ok, Result.bind_eq_ok] at accepted
  obtain ⟨-, -, -, -, -, -, ⟨digests, refs⟩, collected, requiredKeys, required, records, completes,
    -⟩ := accepted
  refine ⟨?_, digests, requiredKeys, (collectDigests_spec collected).2, ?_⟩
  · intro empty
    rw [witnessRecordKeys, if_pos (Or.inl empty)] at required
    cases required
  · intro record member
    obtain ⟨evidence, -, complete⟩ := Result.exists_of_mapM_eq_ok completes record member
    exact ⟨evidence, complete⟩

variable (crypto json request)

/-- The request proves that the authorities in dispute agree: for every record
key that an entry of the witness names it has a record with that key, for which
every authority of the witness's digest references has a completing digest whose
root includes a record under that key, and all these have the same material
bytes. -/
def ProvesAgreement : Prop :=
  ∀ entry ∈ request.witness.body.entries, ∃ record ∈ request.records,
    record.recordKey = namedKey entry ∧
      ∃ material, ∀ ref ∈ request.witness.body.digestRefs, ∃ signed ∈ request.completingDigests,
        trimSpace signed.body.authorityID = trimSpace ref.authorityID ∧
          ∃ proof ∈ record.proofs,
            Digest.recordKeyBytes (namedKey entry) = .ok proof.proof.recordKeyBytes ∧
            proof.proof.verifyInclusion crypto.sha256Sum signed.body.merkleRoot = true ∧
            materialRecordBytes json proof.proof.canonicalRecordBytes = some material

/-- The authorities in dispute are among the completing ones. -/
def DisputantsComplete : Prop :=
  ∀ ref ∈ request.witness.body.digestRefs, ∃ signed ∈ request.completingDigests,
    trimSpace signed.body.authorityID = trimSpace ref.authorityID

/-- The record keys the entries name are keys of the request's records. -/
def KeysComplete : Prop :=
  ∀ entry ∈ request.witness.body.entries, ∃ record ∈ request.records,
    record.recordKey = namedKey entry

/-- An accepted request proves that the authorities in dispute agree exactly
when they are among the completing ones and the records have the keys the
entries name, which the code compares up to surrounding space. -/
theorem provesAgreement_iff
    (writesText : json.WritesText)
    (completedAt : Int)
    (completed : Completed)
    (accepted : buildCompletion crypto json request completedAt = .ok completed) :
    ProvesAgreement crypto json request ↔ DisputantsComplete request ∧ KeysComplete request := by
  obtain ⟨nonempty, digests, requiredKeys, collected, completes⟩ := of_buildCompletion accepted
  constructor
  · intro proves
    refine ⟨?_, ?_⟩
    · intro ref member
      obtain ⟨entry, entryMember⟩ := List.exists_mem_of_ne_nil _ nonempty
      obtain ⟨record, -, -, material, agree⟩ := proves entry entryMember
      obtain ⟨signed, signedMember, same, -⟩ := agree ref member
      exact ⟨signed, signedMember, same⟩
    · intro entry member
      obtain ⟨record, recordMember, key_eq, -⟩ := proves entry member
      exact ⟨record, recordMember, key_eq⟩
  · rintro ⟨disputants, keys⟩ entry member
    obtain ⟨record, recordMember, key_eq⟩ := keys entry member
    obtain ⟨evidence, complete⟩ := completes record recordMember
    obtain ⟨material, everyone⟩ := exists_proof_of_completeRecord writesText complete
    refine ⟨record, recordMember, key_eq, material, fun ref refMember => ?_⟩
    obtain ⟨signed, signedMember, same⟩ := disputants ref refMember
    obtain ⟨proof, proofMember, -, proof_key, verified, read⟩ :=
      everyone _ signed (collected signed signedMember)
    exact ⟨signed, signedMember, same, proof, proofMember, key_eq ▸ proof_key, verified, read⟩

end Agreement

/-- The canonical text of the record in dispute, as an authority has it. -/
def recordText (authorityID : String) : Bytes :=
  bytes ("\x7b\"provenance\":\"" ++ authorityID ++ "\",\"value\":1\x7d")

def disputedKey : RecordKey :=
  ⟨bytes "t", bytes "key", bytes "a"⟩

def recordInput (authorityID : String) : Bytes :=
  Digest.leafInput (bytes "t\x00key\x00a") (recordText authorityID)

/-- The digest of an authority that has only the record, with the numbers of
its root and of its own hash. -/
def completingDigest (authorityID : String) (root own : Nat) : SignedDigest :=
  { Witness.digestOver (bytes authorityID) (Hash.digestOf root) with
    digestHash := Hash.digestOf own }

/-- The strings hashed for four authorities. -/
def completionInputs : List Bytes :=
  [recordInput "p", recordInput "q", bytes "content", bytes "body", bytes "plan",
    recordInput "r", recordInput "s",
    (completingDigest "p" 0 7).body.json, (completingDigest "q" 1 8).body.json,
    (completingDigest "r" 5 9).body.json, (completingDigest "s" 6 10).body.json]

/-- The hash that numbers these strings. -/
def completionCrypto : Crypto where
  sha256Sum := Hash.numbering completionInputs
  verifyDigest _ _ _ := true

def recordMembers (authorityID : String) : Go.Map Bytes :=
  [(bytes "provenance", bytes ("\"" ++ authorityID ++ "\"")), (bytes "value", bytes "1")]

/-- JSON of the record's texts, and fixed texts of the witness and the plan. -/
def completionTexts : CompletionJson where
  witness := Witness.oneRecordJson
  evidence _ := some (bytes "evidence")
  plan _ := some (bytes "plan")
  unmarshalMembers text :=
    (["p", "q", "r", "s"].find? fun authorityID => text == recordText authorityID).map
      fun authorityID => some (recordMembers authorityID)
  marshalMembers members :=
    if members = some [(bytes "value", bytes "1")] then some (bytes "\x7b\"value\":1\x7d")
    else none

/-- The witness of authorities `p` and `q`, to be completed by two
authorities. -/
def completionOf (first second : String)
    (firstDigest secondDigest : SignedDigest) : CompletionRequest where
  witness := (Witness.presenceRequest disputedKey).evidence
  plan :=
    { plan :=
        { planID := bytes "plan-1"
          tenantID := bytes "t"
          witnessID := Go.hexEncode (Hash.digestOf 2)
          witnessHash := Hash.digestOf 3
          actions := [⟨bytes first, disputedKey, bytes "update", []⟩]
          approvals := []
          generatedAt := 1 }
      planHash := Hash.digestOf 4 }
  completingRoundID := bytes "round-2"
  completingDigests := [firstDigest, secondDigest]
  records := [⟨disputedKey,
    [⟨bytes first, ⟨bytes "t\x00key\x00a", recordText first, []⟩⟩,
      ⟨bytes second, ⟨bytes "t\x00key\x00a", recordText second, []⟩⟩]⟩]

/-- The completion of the authorities in dispute themselves. -/
def ownCompletion : CompletionRequest :=
  completionOf "p" "q" (completingDigest "p" 0 7) (completingDigest "q" 1 8)

/-- The completion of two other authorities. -/
def unrelatedCompletion : CompletionRequest :=
  completionOf "r" "s" (completingDigest "r" 5 9) (completingDigest "s" 6 10)

theorem exists_completed {request : CompletionRequest}
    (accepted :
      (buildCompletion completionCrypto completionTexts request 1).toOption.isSome = true) :
    ∃ completed, buildCompletion completionCrypto completionTexts request 1 = .ok completed := by
  cases built : buildCompletion completionCrypto completionTexts request 1 with
  | error error => simp [built, Except.toOption] at accepted
  | ok completed => exact ⟨completed, rfl⟩

/-- The authorities in dispute complete their own witness. -/
theorem provesAgreement_iff_ownCompletion :
    ProvesAgreement completionCrypto completionTexts ownCompletion := by
  have writesText : completionTexts.WritesText := by
    intro members
    unfold completionTexts
    simp only
    split
    · decide +kernel
    · exact Option.some_ne_none _ |>.symm
  obtain ⟨completed, accepted⟩ := @exists_completed ownCompletion (by decide +kernel)
  refine (provesAgreement_iff _ _ _ writesText 1 completed accepted).mpr ⟨?_, ?_⟩
  · unfold DisputantsComplete
    decide +kernel
  · unfold KeysComplete
    decide +kernel

/-- Two authorities that are not in dispute complete the witness. -/
theorem not_provesAgreement_unrelatedCompletion :
    (∃ completed,
        buildCompletion completionCrypto completionTexts unrelatedCompletion 1 = .ok completed) ∧
      ¬ProvesAgreement completionCrypto completionTexts unrelatedCompletion := by
  refine ⟨exists_completed (by decide +kernel), fun proves => ?_⟩
  obtain ⟨record, -, -, material, agree⟩ := proves (Witness.presenceEntry disputedKey)
    (by decide +kernel)
  obtain ⟨signed, member, same, -⟩ := agree
    (Witness.refTo (Witness.digestOver (bytes "p") (Hash.digestOf 0))) (by decide +kernel)
  have others : ∀ signed ∈ unrelatedCompletion.completingDigests,
      trimSpace signed.body.authorityID ≠ trimSpace (bytes "p") := by
    decide +kernel
  exact others signed member same

end Trstctl.Reconcile.Quarantine
