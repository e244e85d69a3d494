import Mathlib.Data.List.Sort
import Trstctl.Crypto.HierarchyCa

/-!
# Cross-certificates

`VerifyCrossSignedCA` (`internal/crypto/hierarchy_ca.go`) accepts an imported
cross-certificate: it is signed by the issuer, retains the subject and key of the
target and widens neither its validity, its path length, its permitted DNS
domains nor its extended key usages.  The other name constraints of the target
are not compared, so they have to be carried by the cross-certificate itself.
-/

namespace Trstctl.Crypto

open Go (Bytes bytes trimPrefix hasSuffix)

/-- What the verification takes from its environment: the clock, the distrust list
and weak-key checks, and the verification of signatures. -/
structure Verification where
  now : Int
  refused : Certificate → Bool
  issuedBy : Certificate → Certificate → Bool

/-- Why a cross-certificate is not accepted; `label` names the certificate. -/
inductive CrossSignError where
  | notCA (label : String)
  | notCurrentlyValid (label : String)
  | missingCertSign (label : String)
  | refusedTarget
  | notSignedByIssuer
  | subjectOrKeyChanged
  | widensValidity
  | altersKeyUsages
  | issuerPathExhausted
  | widensIssuerPath
  | widensTargetPath
  | widensDNS
  | altersUsages
  | wrongSubjectKeyId
  | wrongAuthorityKeyId
deriving DecidableEq

/-- A domain is at or below another. -/
def dnsConstraintWithin (value parent : Bytes) : Bool :=
  let value := trimPrefix (Go.toLower (Go.trimSpace value)) [dot]
  let parent := trimPrefix (Go.toLower (Go.trimSpace parent)) [dot]
  value == parent || hasSuffix value (dot :: parent)

def hierarchyDNSWithin (values allowed : List Bytes) : Bool :=
  if allowed.isEmpty then true
  else if values.isEmpty then false
  else values.all fun value => allowed.any (dnsConstraintWithin value)

/-- The loop over the issuer's domains for a domain of the target: the narrower
domain of the first pair that is nested. -/
def narrowerDomain (candidate : Bytes) : List Bytes → Option Bytes
  | [] => none
  | allowed :: rest =>
      if dnsConstraintWithin candidate allowed then some candidate
      else if dnsConstraintWithin allowed candidate then some allowed
      else narrowerDomain candidate rest

/-- The narrower domains where the two lists nest. -/
def hierarchyIntersectDNS (target issuer : List Bytes) : List Bytes :=
  if issuer.isEmpty then target
  else if target.isEmpty then issuer
  else
    Go.compact ((target.filterMap fun candidate => narrowerDomain candidate issuer).insertionSort
      (· ≤ ·))

def sameStringSet (first second : List Bytes) : Bool :=
  first.length == second.length && first.insertionSort (· ≤ ·) == second.insertionSort (· ≤ ·)

/-- Usages that restrict nothing. -/
def usagesUnrestricted (usages : List ExtKeyUsage) : Bool :=
  usages.isEmpty || usages.contains .any

/-- `hierarchyIntersectEKUs`; none when the usages do not overlap. -/
def hierarchyIntersectEKUs (target issuer : List ExtKeyUsage) : Option (List ExtKeyUsage) :=
  if usagesUnrestricted target && usagesUnrestricted issuer then some []
  else if usagesUnrestricted target then some issuer
  else if usagesUnrestricted issuer then some target
  else
    let intersection := target.filter issuer.contains
    if intersection.isEmpty then none else some intersection

/-- `sameExtKeyUsageSet`, which counts the usages. -/
def sameExtKeyUsageSet (first second : List ExtKeyUsage) : Bool :=
  first.length == second.length && second.isPerm first

def verifyCAUsable (now : Int) (certificate : Certificate) (label : String) :
    Except CrossSignError Unit := do
  if !certificate.isCA || !certificate.basicConstraintsValid then throw (.notCA label)
  if now < certificate.notBefore ∨ now > certificate.notAfter then
    throw (.notCurrentlyValid label)
  if certificate.keyUsage &&& keyUsageCertSign = 0 then throw (.missingCertSign label)

/-- A path length that is limited is not limited below it. -/
def widensPath (limit cross : Option Int) : Bool :=
  match limit, cross with
  | none, _ => false
  | some _, none => true
  | some limit, some cross => cross > limit

def verifyCrossSignedCA (verification : Verification) (issuer target cross : Certificate) :
    Except CrossSignError Unit := do
  verifyCAUsable verification.now issuer "cross-sign issuer"
  if verification.refused target then throw .refusedTarget
  verifyCAUsable verification.now target "cross-sign target"
  verifyCAUsable verification.now cross "imported cross-certificate"
  if !verification.issuedBy cross issuer then throw .notSignedByIssuer
  if cross.rawSubject ≠ target.rawSubject ∨
      cross.rawSubjectPublicKeyInfo ≠ target.rawSubjectPublicKeyInfo then
    throw .subjectOrKeyChanged
  if cross.notAfter > issuer.notAfter ∨ cross.notAfter > target.notAfter ∨
      cross.notBefore < issuer.notBefore ∨ cross.notBefore < target.notBefore then
    throw .widensValidity
  if cross.keyUsage ≠ target.keyUsage ∨ cross.keyUsage &&& keyUsageCertSign = 0 then
    throw .altersKeyUsages
  if issuer.pathLen = some 0 then throw .issuerPathExhausted
  if widensPath issuer.pathLen cross.pathLen then throw .widensIssuerPath
  if widensPath target.pathLen cross.pathLen then throw .widensTargetPath
  if !sameStringSet cross.permittedDNSDomains
        (hierarchyIntersectDNS target.permittedDNSDomains issuer.permittedDNSDomains) ||
      !hierarchyDNSWithin cross.permittedDNSDomains issuer.permittedDNSDomains ||
      !hierarchyDNSWithin cross.permittedDNSDomains target.permittedDNSDomains then
    throw .widensDNS
  if ((hierarchyIntersectEKUs target.extKeyUsage issuer.extKeyUsage).any
      (sameExtKeyUsageSet cross.extKeyUsage)) = false then
    throw .altersUsages
  if target.subjectKeyId.isEmpty || cross.subjectKeyId != target.subjectKeyId then
    throw .wrongSubjectKeyId
  if issuer.subjectKeyId.isEmpty || cross.authorityKeyId != issuer.subjectKeyId then
    throw .wrongAuthorityKeyId

theorem trimPrefix_toLower_of_valid {entry : Bytes} (valid : domainNameValid entry = true) :
    trimPrefix (Go.toLower (Go.trimSpace entry)) [dot] = zone entry := by
  have graphic := domainNameValid.graphic_entry valid
  rw [Go.trimSpace_of_graphic _ graphic, Go.toLower_of_ascii _ graphic.ascii, trimPrefix_foldCase,
    zone]

theorem dnsConstraintWithin.under {value parent : Bytes} (valid : domainNameValid value = true)
    (parentValid : domainNameValid parent = true)
    (within : dnsConstraintWithin value parent = true) :
    Zones.Under dot (zone value) (zone parent) := by
  simp only [dnsConstraintWithin, trimPrefix_toLower_of_valid valid,
    trimPrefix_toLower_of_valid parentValid, Bool.or_eq_true, beq_iff_eq, Go.hasSuffix_iff]
    at within
  exact .inr within

theorem carriesPermittedDNS_of_accepted
    {verification : Verification} {issuer target cross : Certificate}
    (accepted : verifyCrossSignedCA verification issuer target cross = .ok ()) :
    Subtrees.CarriesPermitted withinDNS cross.dns target.dns := by
  simp only [verifyCrossSignedCA, Result.bind_eq_ok, Result.guard_eq_ok] at accepted
  obtain ⟨_, -, -, _, -, _, -, -, -, -, -, -, -, -, checked, -⟩ := accepted
  have within : hierarchyDNSWithin cross.permittedDNSDomains target.permittedDNSDomains = true := by
    simp only [Bool.or_eq_true, Bool.not_eq_true', not_or, Bool.not_eq_false] at checked
    exact checked.2
  rw [hierarchyDNSWithin] at within
  split at within
  · rename_i unrestricted
    exact .inl (List.isEmpty_iff.mp unrestricted)
  · split at within
    · cases within
    · rename_i _ restricted
      obtain ⟨first, rest, domains⟩ :=
        List.exists_cons_of_ne_nil fun empty => restricted (List.isEmpty_iff.mpr empty)
      refine .inr fun region member => ?_
      simp only [NameConstraints.dns, Subtrees.Lists.regions, domains] at member
      obtain ⟨value, listed, rfl⟩ := List.mem_map.mp member
      rw [← domains] at listed
      obtain ⟨parent, parentListed, lies⟩ :=
        List.any_eq_true.mp (List.all_eq_true.mp within value listed)
      refine ⟨parent, List.mem_append_left _ parentListed, ?_⟩
      exact dnsConstraintWithin.under
        (cross.validDNS value (List.mem_append_left _ listed))
        (target.validDNS parent (List.mem_append_left _ parentListed)) lies

/-- An accepted cross-certificate permits no further name than its target exactly
when it carries the name constraints that are not compared. -/
theorem noWider_iff_carries_of_accepted
    (verification : Verification)
    (issuer target cross : Certificate)
    (accepted : verifyCrossSignedCA verification issuer target cross = .ok ()) :
    NameConstraints.NoWider cross.toNameConstraints target.toNameConstraints ↔
      NameConstraints.Carries cross.toNameConstraints target.toNameConstraints :=
  NameConstraints.noWider_iff_carries (carriesPermittedDNS_of_accepted accepted)

/-- An issuer without constraints. -/
def plainIssuer : Certificate :=
  { corpTarget with
    rawSubject := bytes "CN=issuer"
    rawSubjectPublicKeyInfo := bytes "issuer key"
    raw := bytes "issuer"
    permittedDNSDomains := []
    excludedDNSDomains := []
    validDNS := validDomains_nil
    subjectKeyId := [2]
    authorityKeyId := [2] }

/-- A cross-certificate that carries the constraints of the target. -/
def carryingCross : Certificate :=
  { corpTarget with
    raw := bytes "cross"
    authorityKeyId := [2] }

/-- A cross-certificate that drops the excluded domain of the target. -/
def droppingCross : Certificate :=
  { carryingCross with
    excludedDNSDomains := []
    validDNS := by decide +kernel }

/-- A verification at a time all certificates are valid, where the certificates of
the issuer are those that name its key. -/
def presentVerification : Verification where
  now := 50
  refused := fun _ => false
  issuedBy := fun certificate issuer => certificate.authorityKeyId == issuer.subjectKeyId

/-- The cross-certificate that carries the target's constraints is no wider. -/
theorem noWider_iff_carries_of_accepted_carryingCross :
    verifyCrossSignedCA presentVerification plainIssuer corpTarget carryingCross = .ok () ∧
      NameConstraints.NoWider carryingCross.toNameConstraints corpTarget.toNameConstraints := by
  have accepted :
      verifyCrossSignedCA presentVerification plainIssuer corpTarget carryingCross = .ok () := by
    decide +kernel
  refine ⟨accepted, (noWider_iff_carries_of_accepted presentVerification plainIssuer corpTarget
    carryingCross accepted).mpr ?_⟩
  refine ⟨?_, .inl rfl, nofun, .inl rfl, nofun, .inl rfl, nofun⟩
  intro region member other listed
  exact ⟨fun lies => ⟨other, listed, lies⟩, fun _ => ⟨other, listed, Zones.Under.refl dot _⟩⟩

/-- The name the target excludes is permitted by the accepted cross-certificate. -/
theorem not_noWider_droppingCross :
    ¬ ∀ (verification : Verification) (issuer target cross : Certificate),
      verifyCrossSignedCA verification issuer target cross = .ok () →
        NameConstraints.NoWider cross.toNameConstraints target.toNameConstraints := by
  intro noWider
  have accepted :
      verifyCrossSignedCA presentVerification plainIssuer corpTarget droppingCross = .ok () := by
    decide +kernel
  have permitted : Subtrees.Permits InZone droppingCross.dns (bytes "secret.corp.example") :=
    ⟨.inr ⟨bytes "corp.example", List.mem_cons_self, by decide +kernel⟩, nofun⟩
  have kept := (noWider _ _ _ _ accepted).dns (bytes "secret.corp.example") permitted
  exact kept.2 (bytes "secret.corp.example") List.mem_cons_self (Zones.Under.refl dot _)

end Trstctl.Crypto
