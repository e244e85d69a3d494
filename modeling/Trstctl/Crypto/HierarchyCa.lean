import Trstctl.Crypto.NameConstraints
import Trstctl.Crypto.Usages
import Trstctl.Library.Ascent

/-!
# What a CA may vouch for

The authority of a CA: the zones of the DNS names it permits, its extended key
usages and the remaining depth of CAs below it.  A CA narrows another that many
levels above it when it permits no further name and no further usage and its
depth is smaller by the number of levels.
-/

namespace Trstctl.Crypto

open Go (Bytes bytes)

/-- The authority of a CA. -/
structure Authority where
  /-- The permitted zones; empty when names are unrestricted. -/
  zones : List Bytes
  /-- The usages; empty when usages are unrestricted. -/
  usages : List OID
  /-- The remaining depth of CAs below, when it is limited. -/
  pathLen : Option Nat

namespace Authority

/-- The zones of an authority hold a name. -/
def PermitsDNS (authority : Authority) (name : Bytes) : Prop :=
  Allowlist.Permits (Zones.Under dot) authority.zones (absolute name)

/-- The usages of one authority are within those of another. -/
def UsagesWithin (lower upper : Authority) : Prop :=
  Allowlist.Within Eq (restriction lower.usages) (restriction upper.usages)

/-- A depth is limited below a limited one, by at least the levels between them. -/
def DepthWithin (levels : Nat) (lower upper : Authority) : Prop :=
  ∀ depth, upper.pathLen = some depth →
    ∃ remaining, lower.pathLen = some remaining ∧ remaining + levels ≤ depth

/-- The lower authority, that many levels below, only narrows the upper one. -/
structure Narrows (levels : Nat) (lower upper : Authority) : Prop where
  names : ∀ name, lower.PermitsDNS name → upper.PermitsDNS name
  usages : UsagesWithin lower upper
  depth : DepthWithin levels lower upper

theorem DepthWithin.compose {levels : Nat} {lower middle upper : Authority}
    (first : DepthWithin 1 lower middle) (rest : DepthWithin levels middle upper) :
    DepthWithin (levels + 1) lower upper := by
  intro depth limited
  obtain ⟨between, betweenLimited, betweenBound⟩ := rest depth limited
  obtain ⟨remaining, remainingLimited, bound⟩ := first between betweenLimited
  exact ⟨remaining, remainingLimited, by omega⟩

theorem Narrows.compose {levels : Nat} {lower middle upper : Authority}
    (first : Narrows 1 lower middle) (rest : Narrows levels middle upper) :
    Narrows (levels + 1) lower upper where
  names := fun name permitted => rest.names name (first.names name permitted)
  usages := Allowlist.Within.trans (fun equal => equal.trans) first.usages rest.usages
  depth := first.depth.compose rest.depth

theorem permitsDNS_of_within {lower upper : Authority}
    (within : Allowlist.Within (Zones.Under dot) lower.zones upper.zones) (name : Bytes)
    (permitted : lower.PermitsDNS name) :
    upper.PermitsDNS name :=
  Allowlist.Permits.of_within Zones.Under.trans permitted within

theorem usagesWithin_of_mem_iff {lower upper : Authority}
    (same : ∀ oid, oid ∈ lower.usages ↔ oid ∈ upper.usages) :
    UsagesWithin lower upper := by
  by_cases unrestricted : ExtKeyUsage.any.oid ∈ upper.usages
  · exact .inl (if_pos unrestricted)
  · by_cases empty : upper.usages = []
    · refine .inl ?_
      rw [restriction, if_neg unrestricted, empty]
    · obtain ⟨oid, member⟩ := List.exists_mem_of_ne_nil _ empty
      rw [UsagesWithin, restriction, restriction, if_neg unrestricted,
        if_neg fun anyLower => unrestricted ((same _).mp anyLower)]
      refine .inr ⟨List.ne_nil_of_mem ((same oid).mpr member), fun other otherMember => ?_⟩
      exact ⟨other, (same other).mp otherMember, rfl⟩

end Authority

/-!
## Signing hierarchy CAs

`internal/crypto/hierarchy_ca.go`: CA certificates that an isolated signer signs
under a parent.  A certificate is modelled by the fields of its parsed form that
the hierarchy reads.
-/

def keyUsageCertSign : Nat := 32

def keyUsageCRLSign : Nat := 64

/-- The fields of a parsed `x509.Certificate`. -/
structure Certificate extends NameConstraints where
  rawSubject : Bytes
  rawSubjectPublicKeyInfo : Bytes
  /-- The signed bytes and the signature. -/
  raw : Bytes
  isCA : Bool
  basicConstraintsValid : Bool
  notBefore : Int
  notAfter : Int
  keyUsage : Nat
  maxPathLen : Int
  /-- The path length is present and zero. -/
  maxPathLenZero : Bool
  zero_of_maxPathLenZero : maxPathLenZero = true → maxPathLen = 0
  /-- The identifiers of the extended key usage extension. -/
  usages : List OID
  subjectKeyId : Bytes
  authorityKeyId : Bytes

/-- The field `ExtKeyUsage`. -/
def Certificate.extKeyUsage (certificate : Certificate) : List ExtKeyUsage :=
  certificate.usages.filterMap ExtKeyUsage.ofOID

/-- The path length of a certificate, when it has one. -/
def Certificate.pathLen (certificate : Certificate) : Option Int :=
  if certificate.maxPathLen > 0 ∨ certificate.maxPathLenZero = true then
    some certificate.maxPathLen
  else none

/-- `HierarchyCAProfile`, as far as it is signed. -/
structure HierarchyCAProfile where
  commonName : Bytes
  permittedDNSDomains : List Bytes
  excludedDNSDomains : List Bytes
  /-- Negative when unset. -/
  maxPathLen : Int
  ekus : List Bytes
  ttl : Int

/-- Why a CA certificate is not signed. -/
inductive HierarchyError where
  | pathLengthExhausted
  | commonNameRequired
  | ttlNotPositive
  | unsupportedUsage (name : Bytes)
  | parseCertificate
  | weakKey (cause : Bytes)
  /-- A failing signer or a signature that does not verify. -/
  | issuance (cause : Bytes)

/-- What a signing takes from its environment: the clock, the subject key and its
encodings, and whether the key is refused or the signer fails. -/
structure Issuance where
  now : Int
  skew : Int
  weakKey : Option Bytes
  failure : Option Bytes
  rawSubject : Bytes
  rawSubjectPublicKeyInfo : Bytes
  raw : Bytes
  subjectKeyId : Bytes

/-- `defaultHierarchyCATTL`, in nanoseconds. -/
def defaultHierarchyCATTL : Int := 5 * 365 * 24 * 3600 * 1000000000

/-- `signHierarchyCA` and the parsed form of the certificate it signs. -/
def signHierarchyCA (issuance : Issuance) (issuer : Option Certificate)
    (profile : HierarchyCAProfile) : Except HierarchyError Certificate := do
  if let some cause := issuance.weakKey then throw (.weakKey cause)
  if profile.commonName.isEmpty then throw .commonNameRequired
  if profile.ttl ≤ 0 then throw .ttlNotPositive
  let usages ← (caExtKeyUsage profile.ekus).mapError .unsupportedUsage
  if valid : ∀ entry ∈ profile.permittedDNSDomains ++ profile.excludedDNSDomains,
      domainNameValid entry = true then
    if let some cause := issuance.failure then throw (.issuance cause)
    return {
      rawSubject := issuance.rawSubject
      rawSubjectPublicKeyInfo := issuance.rawSubjectPublicKeyInfo
      raw := issuance.raw
      isCA := true
      basicConstraintsValid := true
      notBefore := issuance.now - issuance.skew
      notAfter := issuance.now + profile.ttl
      keyUsage := keyUsageCertSign + keyUsageCRLSign
      maxPathLen := if profile.maxPathLen ≥ 0 then profile.maxPathLen else -1
      maxPathLenZero := profile.maxPathLen = 0
      zero_of_maxPathLenZero := by
        intro zero
        rw [of_decide_eq_true zero]
        rfl
      permittedDNSDomains := profile.permittedDNSDomains
      excludedDNSDomains := profile.excludedDNSDomains
      permittedIPRanges := []
      excludedIPRanges := []
      permittedEmailAddresses := []
      excludedEmailAddresses := []
      permittedURIDomains := []
      excludedURIDomains := []
      validDNS := valid
      validEmail := validMailboxes_nil
      validURI := validDomains_nil
      usages := extensionOIDs usages
      subjectKeyId := issuance.subjectKeyId
      authorityKeyId :=
        match issuer with
        | none => issuance.subjectKeyId
        | some issuer => issuer.subjectKeyId }
  else throw .parseCertificate

/-- The profile `SignIntermediateHierarchyCA` signs below a parent. -/
def HierarchyCAProfile.below (profile : HierarchyCAProfile) (parent : Certificate) (now : Int) :
    HierarchyCAProfile :=
  let ttl := if profile.ttl ≤ 0 then defaultHierarchyCATTL else profile.ttl
  { profile with
    permittedDNSDomains :=
      if profile.permittedDNSDomains.isEmpty then parent.permittedDNSDomains
      else profile.permittedDNSDomains
    ekus := if profile.ekus.isEmpty then extKeyUsageStrings parent.usages else profile.ekus
    maxPathLen :=
      match parent.pathLen with
      | none => profile.maxPathLen
      | some pathLen =>
          if profile.maxPathLen ≥ 0 ∧ profile.maxPathLen < pathLen - 1 then profile.maxPathLen
          else pathLen - 1
    ttl := if now + ttl > parent.notAfter then parent.notAfter - now else ttl }

def Certificate.signIntermediateHierarchyCA (parent : Certificate) (issuance : Issuance)
    (profile : HierarchyCAProfile) : Except HierarchyError Certificate := do
  if parent.pathLen = some 0 then throw .pathLengthExhausted
  signHierarchyCA issuance (some parent) (profile.below parent issuance.now)

/-- A CA for `corp.example` without `secret.corp.example`. -/
def corpTarget : Certificate where
  rawSubject := bytes "CN=target"
  rawSubjectPublicKeyInfo := bytes "target key"
  raw := bytes "target"
  isCA := true
  basicConstraintsValid := true
  notBefore := 0
  notAfter := 100
  keyUsage := keyUsageCertSign + keyUsageCRLSign
  maxPathLen := -1
  maxPathLenZero := false
  zero_of_maxPathLenZero := nofun
  permittedDNSDomains := [bytes "corp.example"]
  excludedDNSDomains := [bytes "secret.corp.example"]
  permittedIPRanges := []
  excludedIPRanges := []
  permittedEmailAddresses := []
  excludedEmailAddresses := []
  permittedURIDomains := []
  excludedURIDomains := []
  validDNS := by decide +kernel
  validEmail := validMailboxes_nil
  validURI := validDomains_nil
  usages := []
  subjectKeyId := [1]
  authorityKeyId := [1]

end Trstctl.Crypto
