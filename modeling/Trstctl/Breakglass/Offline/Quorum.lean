import Mathlib.Data.List.Dedup
import Trstctl.Breakglass.Offline.Model
import Trstctl.Go.Hash

/-!
# The keys behind an offline quorum

A policy names each custodian once, but two custodians may hold one key.  An
accepted list of approvals therefore stands for a threshold of names, and for a
threshold of keys exactly when the names of the list hold that many.
-/

namespace Trstctl.Breakglass.Offline

open Go (Bytes Time bytes)
open Hash (digestOf)

variable {crypto : OfflineCrypto} {policy : OfflinePolicy} {request : OfflineRequest}
  {approvals : List OfflineApproval}

theorem validateCustodians_eq_ok {roster : Go.Map Bytes} {custodians : List OfflineCustodian}
    (valid : validateCustodians crypto roster custodians = .ok ()) :
    (custodians.map OfflineCustodian.id).Nodup ∧
      ∀ custodian ∈ custodians, roster.lookup custodian.id = none := by
  induction custodians generalizing roster with
  | nil => simp
  | cons custodian rest ih =>
      rw [validateCustodians] at valid
      simp only [Result.guard_eq_ok, Result.bind_eq_ok] at valid
      obtain ⟨proper, -, -, valid⟩ := valid
      obtain ⟨distinct, unbound⟩ := ih valid
      have others : ∀ other ∈ rest, other.id ≠ custodian.id ∧ roster.lookup other.id = none := by
        intro other member
        have free := unbound other member
        rw [Go.MapOf.lookup_set] at free
        split_ifs at free with same
        exact ⟨same, free⟩
      constructor
      · rw [List.map_cons, List.nodup_cons]
        refine ⟨?_, distinct⟩
        rw [List.mem_map]
        rintro ⟨other, member, same⟩
        exact (others other member).1 same
      · refine List.forall_mem_cons.mpr ⟨?_, fun other member => (others other member).2⟩
        exact Option.not_isSome_iff_eq_none.mp fun bound => proper (Or.inr (Or.inr bound))

theorem lookup_foldl_set {custodians : List OfflineCustodian}
    (distinct : (custodians.map OfflineCustodian.id).Nodup) (roster : Go.Map Bytes)
    {name key : Bytes} :
    (custodians.foldl (fun roster custodian => roster.set custodian.id custodian.publicKeyDER)
        roster).lookup name = some key ↔
      (∃ custodian ∈ custodians, custodian.id = name ∧ custodian.publicKeyDER = key) ∨
        (∀ custodian ∈ custodians, custodian.id ≠ name) ∧ roster.lookup name = some key := by
  induction custodians generalizing roster with
  | nil => simp
  | cons custodian rest ih =>
      rw [List.map_cons, List.nodup_cons] at distinct
      rw [List.foldl_cons, ih distinct.2, Go.MapOf.lookup_set,
        List.exists_mem_cons_iff, List.forall_mem_cons]
      by_cases same : name = custodian.id
      · -- the name of the first custodian is no other's
        have others : ∀ other ∈ rest, other.id ≠ name := by
          intro other member isName
          exact distinct.1 (List.mem_map.mpr ⟨other, member, isName.trans same⟩)
        have none : ¬ ∃ other ∈ rest, other.id = name ∧ other.publicKeyDER = key := by
          rintro ⟨other, member, isName, -⟩
          exact others other member isName
        rw [if_pos same, Option.some_inj]
        constructor
        · rintro (found | ⟨-, isKey⟩)
          · exact absurd found none
          · exact Or.inl (Or.inl ⟨same.symm, isKey⟩)
        · rintro ((⟨-, isKey⟩ | found) | ⟨⟨different, -⟩, -⟩)
          · exact Or.inr ⟨others, isKey⟩
          · exact absurd found none
          · exact absurd same.symm different
      · rw [if_neg same]
        simp only [Ne.symm same, false_and, false_or, not_false_eq_true, true_and, ne_eq]

theorem OfflinePolicy.lookup_roster (distinct : (policy.custodians.map OfflineCustodian.id).Nodup)
    {name key : Bytes} :
    policy.roster.lookup name = some key ↔
      ∃ custodian ∈ policy.custodians, custodian.id = name ∧ custodian.publicKeyDER = key := by
  rw [OfflinePolicy.roster, lookup_foldl_set distinct]
  simp

theorem checkApprovals_eq_ok {roster : Go.Map Bytes} {requester message : Bytes} {seen : List Bytes}
    (accepted : checkApprovals crypto roster requester message seen approvals = .ok ()) :
    ∀ approval ∈ approvals, ∃ key, roster.lookup approval.custodianID = some key ∧
      crypto.verifyEd25519 key message approval.signature = .ok () := by
  induction approvals generalizing seen with
  | nil => simp
  | cons approval rest ih =>
      rw [checkApprovals] at accepted
      split at accepted
      · cases accepted
      · rename_i key bound
        simp only [Result.guard_eq_ok, Result.bind_eq_ok] at accepted
        obtain ⟨-, ⟨⟩, verified, accepted⟩ := accepted
        rw [Result.mapError_eq_ok] at verified
        exact List.forall_mem_cons.mpr ⟨⟨key, bound, verified⟩, ih accepted⟩

theorem verifyOfflineApprovals_eq_ok {now : Time}
    (accepted : verifyOfflineApprovals crypto policy request approvals now = .ok ()) :
    2 ≤ policy.threshold ∧ (policy.custodians.map OfflineCustodian.id).Nodup ∧
      ∃ message, request.canonicalBytes crypto = .ok message ∧
        checkApprovals crypto policy.roster request.requester message [] approvals = .ok () := by
  unfold verifyOfflineApprovals at accepted
  simp only [Result.guard_eq_ok, Result.bind_eq_ok] at accepted
  obtain ⟨⟨⟩, policyValid, -, -, -, message, message_eq, accepted⟩ := accepted
  unfold validateOfflinePolicy at policyValid
  simp only [Result.guard_eq_ok] at policyValid
  obtain ⟨bounds, -, custodians⟩ := policyValid
  have threshold : ¬ policy.threshold < 2 := fun below =>
    bounds (Or.inr (Or.inr (Or.inr (Or.inl below))))
  exact ⟨by omega, (validateCustodians_eq_ok custodians).1, message, message_eq, accepted⟩

/-- A key belongs to the custodian named as requester. -/
def RequesterKey (crypto : OfflineCrypto) (policy : OfflinePolicy) (request : OfflineRequest)
    (key : Bytes) : Prop :=
  ∃ custodian ∈ policy.custodians, custodian.id = request.requester ∧
    crypto.ed25519Key custodian.publicKeyDER = .ok key

instance (crypto : OfflineCrypto) (policy : OfflinePolicy) (request : OfflineRequest)
    (key : Bytes) : Decidable (RequesterKey crypto policy request key) :=
  inferInstanceAs (Decidable (∃ custodian ∈ policy.custodians, _ ∧ _))

/-- A list of approvals carries a valid signature under the key of a custodian
that it names. -/
def SignedBy (crypto : OfflineCrypto) (policy : OfflinePolicy) (approvals : List OfflineApproval)
    (message key : Bytes) : Prop :=
  ∃ approval ∈ approvals, ∃ custodian ∈ policy.custodians,
    custodian.id = approval.custodianID ∧ crypto.ed25519Key custodian.publicKeyDER = .ok key ∧
      crypto.verifyEd25519 custodian.publicKeyDER message approval.signature = .ok ()

/-- At least two and a threshold of distinct custodian keys, none of them the
requester's, have signed a request. -/
def KeyQuorum (crypto : OfflineCrypto) (policy : OfflinePolicy) (request : OfflineRequest)
    (approvals : List OfflineApproval) : Prop :=
  2 ≤ policy.threshold ∧ ∃ message, request.canonicalBytes crypto = .ok message ∧
    ∃ keys : List Bytes, keys.Nodup ∧ policy.threshold ≤ keys.length ∧
      ∀ key ∈ keys, ¬ RequesterKey crypto policy request key ∧
        SignedBy crypto policy approvals message key

/-- The keys of the custodians that the approvals name, those of the requester
left out. -/
def approvingKeys (crypto : OfflineCrypto) (policy : OfflinePolicy) (request : OfflineRequest)
    (approvals : List OfflineApproval) : List Bytes :=
  ((policy.custodians.filter fun custodian =>
      approvals.any fun approval => approval.custodianID == custodian.id).filterMap
    fun custodian => (crypto.ed25519Key custodian.publicKeyDER).toOption).filter
      fun key => ¬ RequesterKey crypto policy request key

theorem mem_approvingKeys {key : Bytes} :
    key ∈ approvingKeys crypto policy request approvals ↔
      ¬ RequesterKey crypto policy request key ∧
        ∃ approval ∈ approvals, ∃ custodian ∈ policy.custodians,
          custodian.id = approval.custodianID ∧
            crypto.ed25519Key custodian.publicKeyDER = .ok key := by
  simp only [approvingKeys, List.mem_filter, List.mem_filterMap, decide_eq_true_eq,
    List.any_eq_true, beq_iff_eq, Result.toOption_eq_some]
  constructor
  · rintro ⟨⟨custodian, ⟨member, approval, approvalMember, named⟩, isKey⟩, free⟩
    exact ⟨free, approval, approvalMember, custodian, member, named.symm, isKey⟩
  · rintro ⟨free, approval, approvalMember, custodian, member, named, isKey⟩
    exact ⟨⟨custodian, ⟨member, approval, approvalMember, named.symm⟩, isKey⟩, free⟩

theorem signedBy_of_named
    {message key : Bytes} {approval : OfflineApproval} {custodian : OfflineCustodian}
    (distinct : (policy.custodians.map OfflineCustodian.id).Nodup)
    (accepted : checkApprovals crypto policy.roster request.requester message [] approvals = .ok ())
    (approvalMember : approval ∈ approvals) (member : custodian ∈ policy.custodians)
    (named : custodian.id = approval.custodianID)
    (isKey : crypto.ed25519Key custodian.publicKeyDER = .ok key) :
    SignedBy crypto policy approvals message key := by
  obtain ⟨der, bound, verified⟩ := checkApprovals_eq_ok accepted approval approvalMember
  have own := (OfflinePolicy.lookup_roster distinct).mpr ⟨custodian, member, named, rfl⟩
  rw [own] at bound
  rw [← Option.some.inj bound] at verified
  exact ⟨approval, approvalMember, custodian, member, named, isKey, verified⟩

/-- An accepted list of approvals stands for a threshold of distinct keys exactly
when the custodians that it names hold that many besides the requester's. -/
theorem keyQuorum_iff_approvingKeys
    (crypto : OfflineCrypto)
    (policy : OfflinePolicy)
    (request : OfflineRequest)
    (approvals : List OfflineApproval)
    (now : Time)
    (accepted : verifyOfflineApprovals crypto policy request approvals now = .ok ()) :
    KeyQuorum crypto policy request approvals ↔
      policy.threshold ≤ (approvingKeys crypto policy request approvals).dedup.length := by
  obtain ⟨threshold, distinct, message, message_eq, approved⟩ :=
    verifyOfflineApprovals_eq_ok accepted
  constructor
  · rintro ⟨-, signed, signed_eq, keys, keysDistinct, enough, each⟩
    have contained : keys ⊆ (approvingKeys crypto policy request approvals).dedup := by
      intro key member
      obtain ⟨free, approval, approvalMember, custodian, custodianMember, named, isKey, -⟩ :=
        each key member
      exact List.mem_dedup.mpr (mem_approvingKeys.mpr
        ⟨free, approval, approvalMember, custodian, custodianMember, named, isKey⟩)
    have atMost := (List.subperm_of_subset keysDistinct contained).length_le
    omega
  · intro enough
    refine ⟨threshold, message, message_eq, _, List.nodup_dedup _, enough, ?_⟩
    intro key member
    obtain ⟨free, approval, approvalMember, custodian, custodianMember, named, isKey⟩ :=
      mem_approvingKeys.mp (List.mem_dedup.mp member)
    exact ⟨free, signedBy_of_named distinct approved approvalMember custodianMember named isKey⟩

/-- The PKIX encoding of an Ed25519 key. -/
def ed25519DER (key : Bytes) : Bytes :=
  [0x30, 0x2A, 0x30, 0x05, 0x06, 0x03, 0x2B, 0x65, 0x70, 0x03, 0x21, 0x00] ++ key

/-- Cryptography in which a signature names its key and the length of what it
signs, and every request is for one service. -/
def namedCrypto : OfflineCrypto where
  parsePKIXPublicKey der :=
    if der.length = 44 ∧ ed25519DER (der.drop 12) = der then .ok (some (der.drop 12))
    else .error (bytes "asn1: structure error")
  ed25519Verify key message signature := signature == key ++ digestOf message.length
  inspectCSR _ := .ok ⟨⟨[bytes "svc.corp.example"], [], [], []⟩, bytes "svc"⟩
  sha256Sum _ := digestOf 1
  parsers := ⟨fun _ => none, fun _ => none, fun _ => none⟩

/-- A policy of two custodians with the given keys. -/
def twoCustodians (first second : Nat) : OfflinePolicy where
  tenantID := bytes "t1"
  deploymentID := bytes "d1"
  epoch := 1
  threshold := 2
  maxTTLSeconds := 3600
  permittedDNSSuffixes := [bytes "corp.example"]
  permittedIPCIDRs := []
  permittedEmailDomains := []
  permittedURIPrefixes := []
  custodians := [⟨bytes "alice", ed25519DER (digestOf first)⟩,
    ⟨bytes "bob", ed25519DER (digestOf second)⟩]

def serviceRequest : OfflineRequest where
  id := bytes "r1"
  tenantID := bytes "t1"
  deploymentID := bytes "d1"
  epoch := 1
  caKeySHA256 := List.replicate 64 0x61
  requester := bytes "carol"
  subject := bytes "svc"
  csrDER := [0x30, 0x00]
  reason := bytes "outage"
  ttlSeconds := 600
  expiresAt := ⟨63800000000000000000⟩

def serviceTime : Time :=
  ⟨63799999999000000000⟩

/-- Approvals of the request by the two custodians. -/
def twoApprovals (first second : Nat) : List OfflineApproval :=
  [⟨bytes "alice", digestOf first ++ digestOf 393⟩,
    ⟨bytes "bob", digestOf second ++ digestOf 393⟩]

/-- Two custodians with keys of their own. -/
theorem keyQuorum_iff_approvingKeys_twoKeys :
    verifyOfflineApprovals namedCrypto (twoCustodians 1 2) serviceRequest (twoApprovals 1 2)
        serviceTime = .ok () ∧
      (KeyQuorum namedCrypto (twoCustodians 1 2) serviceRequest (twoApprovals 1 2) ↔
        (twoCustodians 1 2).threshold ≤
          (approvingKeys namedCrypto (twoCustodians 1 2) serviceRequest
            (twoApprovals 1 2)).dedup.length) := by
  have accepted : verifyOfflineApprovals namedCrypto (twoCustodians 1 2) serviceRequest
      (twoApprovals 1 2) serviceTime = .ok () := by
    decide +kernel
  exact ⟨accepted, keyQuorum_iff_approvingKeys _ _ _ _ _ accepted⟩

/-- One key signs for two custodians. -/
theorem not_keyQuorum_sharedKey :
    ¬ ∀ (crypto : OfflineCrypto) (policy : OfflinePolicy) (request : OfflineRequest)
        (approvals : List OfflineApproval) (now : Time),
      verifyOfflineApprovals crypto policy request approvals now = .ok () →
        KeyQuorum crypto policy request approvals := by
  intro holds
  have accepted : verifyOfflineApprovals namedCrypto (twoCustodians 1 1) serviceRequest
      (twoApprovals 1 1) serviceTime = .ok () := by
    decide +kernel
  obtain ⟨-, message, -, keys, distinct, enough, each⟩ := holds _ _ _ _ _ accepted
  have only : namedCrypto.ed25519Key (ed25519DER (digestOf 1)) = .ok (digestOf 1) := by
    decide +kernel
  have contained : keys ⊆ [digestOf 1] := by
    intro key member
    obtain ⟨-, approval, -, custodian, custodianMember, -, isKey, -⟩ := each key member
    have der : custodian.publicKeyDER = ed25519DER (digestOf 1) := by
      simp only [twoCustodians, List.mem_cons, List.not_mem_nil, or_false] at custodianMember
      rcases custodianMember with rfl | rfl
      · rfl
      · rfl
    rw [der, only] at isKey
    exact List.mem_singleton.mpr (Except.ok.inj isKey).symm
  have atMost := (List.subperm_of_subset distinct contained).length_le
  have two : (twoCustodians 1 1).threshold = 2 := rfl
  rw [two] at enough
  simp only [List.length_cons, List.length_nil] at atMost
  omega

end Trstctl.Breakglass.Offline
