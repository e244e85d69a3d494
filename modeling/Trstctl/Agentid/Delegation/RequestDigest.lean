import Trstctl.Agentid.Delegation.Verifier

/-!
# The request a refusal refers to

A signed refusal carries the digest of the request it refuses.  The fields of
the request are joined without their lengths before they are hashed, so bytes
can move from one field to its neighbour: only the request without any bytes
has a digest of its own.
-/

namespace Trstctl.Agentid.Delegation

open Go (Bytes bytes)

/-- The bytes that `requestDigest` hashes. -/
def requestBytes (request : IssuancePreconditions) : Bytes :=
  bytes "agid/agentid/request/v1" ++ request.tenantID ++ request.trustAnchorRef ++
    request.attestationMethod ++ request.preconditions ++ request.subjectRepr ++
    request.attestation

def requestDigest (crypto : Crypto) (request : IssuancePreconditions) : Bytes :=
  crypto.sha256Sum (requestBytes request)

/-- Requests that agree on the fields that the digest is over. -/
structure IssuancePreconditions.SameFields (request other : IssuancePreconditions) : Prop where
  tenantID : request.tenantID = other.tenantID
  trustAnchorRef : request.trustAnchorRef = other.trustAnchorRef
  attestationMethod : request.attestationMethod = other.attestationMethod
  preconditions : request.preconditions = other.preconditions
  subjectRepr : request.subjectRepr = other.subjectRepr
  attestation : request.attestation = other.attestation

/-- A request without a byte in the fields that the digest is over. -/
structure IssuancePreconditions.Blank (request : IssuancePreconditions) : Prop where
  tenantID : request.tenantID = []
  trustAnchorRef : request.trustAnchorRef = []
  attestationMethod : request.attestationMethod = []
  preconditions : request.preconditions = []
  subjectRepr : request.subjectRepr = []
  attestation : request.attestation = []

def IssuancePreconditions.joined (request : IssuancePreconditions) : Bytes :=
  request.tenantID ++ request.trustAnchorRef ++ request.attestationMethod ++
    request.preconditions ++ request.subjectRepr ++ request.attestation

variable (request : IssuancePreconditions)

theorem requestBytes_eq :
    requestBytes request = bytes "agid/agentid/request/v1" ++ request.joined := by
  simp only [requestBytes, IssuancePreconditions.joined, List.append_assoc]

theorem joined_eq_nil_iff {request : IssuancePreconditions} :
    request.joined = [] ↔ request.Blank := by
  simp only [IssuancePreconditions.joined, List.append_eq_nil_iff]
  constructor
  · rintro ⟨⟨⟨⟨⟨tenantID, trustAnchorRef⟩, method⟩, preconditions⟩, subjectRepr⟩, attestation⟩
    exact ⟨tenantID, trustAnchorRef, method, preconditions, subjectRepr, attestation⟩
  · rintro ⟨tenantID, trustAnchorRef, method, preconditions, subjectRepr, attestation⟩
    exact ⟨⟨⟨⟨⟨tenantID, trustAnchorRef⟩, method⟩, preconditions⟩, subjectRepr⟩, attestation⟩

def IssuancePreconditions.inTenant (request : IssuancePreconditions) : IssuancePreconditions :=
  { request with
    tenantID := request.joined
    trustAnchorRef := []
    attestationMethod := []
    preconditions := []
    subjectRepr := []
    attestation := [] }

def IssuancePreconditions.inAttestation (request : IssuancePreconditions) :
    IssuancePreconditions :=
  { request with
    tenantID := []
    trustAnchorRef := []
    attestationMethod := []
    preconditions := []
    subjectRepr := []
    attestation := request.joined }

theorem joined_inTenant :
    request.inTenant.joined = request.joined := by
  simp [IssuancePreconditions.joined, IssuancePreconditions.inTenant]

theorem joined_inAttestation :
    request.inAttestation.joined = request.joined := by
  simp [IssuancePreconditions.joined, IssuancePreconditions.inAttestation]

/-- No other request has the digest of a request exactly when the request is
blank. -/
theorem requestDigest_names_one_iff
    (crypto : Crypto)
    (injective : Function.Injective crypto.sha256Sum)
    (request : IssuancePreconditions) :
    (∀ other, requestDigest crypto request = requestDigest crypto other →
      request.SameFields other) ↔ request.Blank := by
  constructor
  · intro named
    have moved : ∀ other : IssuancePreconditions, other.joined = request.joined →
        request.SameFields other := by
      intro other same
      apply named
      rw [requestDigest, requestDigest, requestBytes_eq, requestBytes_eq, same]
    have inTenant := moved request.inTenant (joined_inTenant request)
    have inAttestation := moved request.inAttestation (joined_inAttestation request)
    exact ⟨inAttestation.tenantID, inTenant.trustAnchorRef, inTenant.attestationMethod,
      inTenant.preconditions, inTenant.subjectRepr, inTenant.attestation⟩
  · intro blank other equal
    have texts := injective equal
    rw [requestBytes_eq, requestBytes_eq, joined_eq_nil_iff.mpr blank] at texts
    have otherBlank := joined_eq_nil_iff.mp (List.append_cancel_left texts).symm
    exact ⟨blank.tenantID.trans otherBlank.tenantID.symm,
      blank.trustAnchorRef.trans otherBlank.trustAnchorRef.symm,
      blank.attestationMethod.trans otherBlank.attestationMethod.symm,
      blank.preconditions.trans otherBlank.preconditions.symm,
      blank.subjectRepr.trans otherBlank.subjectRepr.symm,
      blank.attestation.trans otherBlank.attestation.symm⟩

/-- A hash that is its input. -/
def transparentCrypto : Crypto where
  sha256Sum text := text
  verifyMessage _ _ _ := true

def tenantRequest (tenantID trustAnchorRef : String) : IssuancePreconditions where
  tenantID := bytes tenantID
  trustAnchorRef := bytes trustAnchorRef
  notBefore := 0
  notAfter := 0
  preconditions := []
  subjectRepr := [1]
  attestation := []
  attestationMethod := []

/-- The theorem at the blank request. -/
theorem requestDigest_names_one_iff_blank :
    Function.Injective transparentCrypto.sha256Sum ∧
    ∀ other, requestDigest transparentCrypto ⟨[], [], 0, 0, [], [], [], []⟩ =
      requestDigest transparentCrypto other →
      IssuancePreconditions.SameFields ⟨[], [], 0, 0, [], [], [], []⟩ other :=
  ⟨fun _ _ equal => equal, (requestDigest_names_one_iff transparentCrypto (fun _ _ equal => equal)
    ⟨[], [], 0, 0, [], [], [], []⟩).mpr ⟨rfl, rfl, rfl, rfl, rfl, rfl⟩⟩

/-- Requests of two tenants have one digest, whatever the hash. -/
theorem requestDigest_of_two_tenants :
    ¬∀ (crypto : Crypto) (request other : IssuancePreconditions),
      Function.Injective crypto.sha256Sum →
      requestDigest crypto request = requestDigest crypto other → request.SameFields other := by
  intro names
  have same := names transparentCrypto (tenantRequest "acme" "-prod-root")
    (tenantRequest "acme-prod" "-root") (fun _ _ equal => equal) (by decide +kernel)
  exact absurd same.tenantID (by decide +kernel)

end Trstctl.Agentid.Delegation
