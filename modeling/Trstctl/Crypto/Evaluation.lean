import Mathlib.Algebra.Order.Group.Unbundled.Int
import Trstctl.Crypto.Signing

/-!
# What an approver sees

Evaluation makes the checks that signing makes before it builds a template.
Three things come after them: the names of usages and policies that no check
has read, the maximum validity, which includes the backdating, and the issuance
itself.  Evaluation and signing agree exactly on the requests that none of the
three refuses and whose lifetime the second leaves alone.
-/

namespace Trstctl.Crypto.Leaf

open Go (Bytes bytes Time)
open Result (bind_eq_ok guard_eq_ok elim_throw_eq_ok)

/-- The template has an encoding, which the issuer has signed for some key. -/
def X509.Encodes (x509 : X509) (issuer : Certificate) (template : Template) : Prop :=
  ∃ key der leaf, x509.createCertificate template issuer key = some der ∧
    x509.parseCertificate der = some leaf

/-- The library and the signer of an issuer work. -/
structure X509.Works (x509 : X509) (issuer : Certificate) : Prop where
  /-- The key of a request with a valid signature has an identifier. -/
  identifies : ∀ csr, x509.checkRequest csr = true →
    ∃ ski, x509.subjectKeyID csr.rawSubjectPublicKeyInfo = some ski
  /-- What can be encoded is signed, for every key with an identifier. -/
  signs : ∀ template key ski, x509.Encodes issuer template →
    x509.subjectKeyID key = some ski →
    ∃ der leaf, x509.createCertificate template issuer key = some der ∧
      x509.parseCertificate der = some leaf
  /-- Its signatures verify. -/
  verifies : ∀ template key der leaf,
    x509.createCertificate template issuer key = some der →
    x509.parseCertificate der = some leaf → x509.checkSignature leaf issuer = true
  /-- A certificate has whole seconds. -/
  readsBack : ∀ template key der leaf,
    x509.createCertificate template issuer key = some der →
    x509.parseCertificate der = some leaf →
    leaf.notAfter = template.notAfter.truncate Time.second

section Agreement

variable (x509 : X509) (parsers : Parsers) (configured : Int) (now : Time) (serial : Nat)
variable (caCertDER csrDER : Bytes) (ttl : Int) (profile : SigningProfile)

/-- Evaluation and signing succeed together, and the lifetime evaluation returns
is the one of the leaf after its anchor, up to a second. -/
def Agrees : Prop :=
  ((∃ effective,
      evaluateLeafRequest x509 parsers now caCertDER csrDER ttl profile = .ok effective) ↔
    ∃ issued, signLeafFromCSR x509 parsers configured now serial caCertDER csrDER ttl profile =
      .ok issued) ∧
  ∀ effective issued leaf,
    evaluateLeafRequest x509 parsers now caCertDER csrDER ttl profile = .ok effective →
    signLeafFromCSR x509 parsers configured now serial caCertDER csrDER ttl profile = .ok issued →
    x509.parseCertificate issued.der = some leaf →
    |effective - (leaf.notAfter.nanoseconds - issued.validityAnchor.nanoseconds)| ≤ Time.second

end Agreement

/-- The maximum validity leaves a lifetime alone: the leaf is still valid after
the anchor, and the ceiling is less than a second before the requested end. -/
def FitsMaximum (configured : Int) (anchor : Time) (ttl maximum : Int) : Prop :=
  0 < maximum →
    ((anchor.add ttl).truncate Time.second).after anchor = true ∧
    (validityCeiling configured anchor maximum).after anchor = true ∧
    (anchor.add ttl).nanoseconds ≤
      (validityCeiling configured anchor maximum).nanoseconds + Time.second

/-- What signing needs of a request that passes the checks with a lifetime. -/
structure Signable (x509 : X509) (configured : Int) (now : Time) (serial : Nat)
    (issuer : Certificate) (csr : CertificateRequest) (ttl : Int) (profile : SigningProfile) :
    Prop where
  usages : ∀ name ∈ profile.allowedExtKeyUsage, ∃ oid, usageOID name = some oid
  policies : ∀ text ∈ profile.certificatePolicyOIDs,
    (∃ oid, parseOID text = some oid) ∧ ∃ oid, parseX509OID text = some oid
  lifetime : FitsMaximum configured (validityAnchor now) ttl profile.maxValidity
  authority : issuer.mayIssue = true
  encodes : ∀ template,
    leafTemplate x509 configured (validityAnchor now) serial issuer csr ttl profile =
      .ok template → x509.Encodes issuer template

theorem exists_caExtKeyUsage {names : List Bytes}
    (stand : ∀ name ∈ names, ∃ oid, usageOID name = some oid) :
    ∃ usages, caExtKeyUsage names = .ok usages ∧
      usages.1.length + usages.2.length = names.length := by
  induction names with
  | nil => exact ⟨([], []), rfl, rfl⟩
  | cons name rest ih =>
      obtain ⟨⟨oid, stands⟩, later⟩ := List.forall_mem_cons.mp stand
      obtain ⟨others, resolved, count⟩ := ih later
      rw [usageOID] at stands
      cases known : knownExtKeyUsage name with
      | some usage =>
          refine ⟨(usage :: others.1, others.2), ?_, ?_⟩
          · simp only [caExtKeyUsage, known, resolved, Except.map]
          · simp only [List.length_cons]
            omega
      | none =>
          simp only [known] at stands
          refine ⟨(others.1, oid :: others.2), ?_, ?_⟩
          · simp only [caExtKeyUsage, known, stands, resolved, Except.map]
          · simp only [List.length_cons]
            omega

theorem exists_leafExtKeyUsage_iff {names : List Bytes} :
    (∃ usages, leafExtKeyUsage names = .ok usages) ↔
      ∀ name ∈ names, ∃ oid, usageOID name = some oid := by
  cases names with
  | nil => simp [leafExtKeyUsage]
  | cons first rest =>
      constructor
      · rintro ⟨usages, resolved⟩ name member
        simp only [leafExtKeyUsage, List.isEmpty_cons, Bool.false_eq_true, if_false] at resolved
        split at resolved
        · cases resolved
        · cases resolved
        · rename_i found equal
          exact exists_usageOID equal member
      · intro stand
        obtain ⟨usages, resolved, count⟩ := exists_caExtKeyUsage stand
        refine ⟨usages, ?_⟩
        simp only [leafExtKeyUsage, List.isEmpty_cons, Bool.false_eq_true, if_false, resolved]
        obtain ⟨known, custom⟩ := usages
        cases known with
        | cons usage known => rfl
        | nil =>
            cases custom with
            | cons oid custom => rfl
            | nil => simp at count

theorem exists_policiesWith_iff {parse : Bytes → Option OID} {dotted : List Bytes} :
    (∃ policies, policiesWith parse dotted = .ok policies) ↔
      ∀ text ∈ dotted, ∃ oid, parse text = some oid := by
  rw [policiesWith, Result.exists_mapM_eq_ok_iff]
  refine forall₂_congr fun text _ => ?_
  cases parse text with
  | none => simp
  | some oid => simp

theorem exists_x509Extensions
    {parsers : Parsers} {info : CSRInfo} {ttl : Int} {profile : SigningProfile}
    (enforced : enforceLeafProfileInfo parsers info ttl profile.constraints = .ok ()) :
    ∃ extensions, x509Extensions profile.extraExtensions = .ok extensions := by
  refine Result.exists_mapM_eq_ok_iff.mpr fun extension member => ?_
  have checked := (enforceLeafProfileInfo_eq_ok.mp enforced).2.1 _
    (List.mem_map_of_mem member)
  cases parsed : parseOID extension.oid with
  | none => simp [checkExtension, parsed] at checked
  | some oid => exact ⟨_, rfl⟩

/-- The `NotAfter` of a leaf. -/
def signedNotAfter (configured : Int) (anchor : Time) (ttl maximum : Int) : Time :=
  let notAfter := (anchor.add ttl).truncate Time.second
  if 0 < maximum ∧ notAfter.after (validityCeiling configured anchor maximum) = true then
    validityCeiling configured anchor maximum
  else notAfter

theorem leafValidityBounds_eq_ok {configured : Int} {anchor : Time} {ttl maximum : Int}
    {bounds : Time × Time} :
    leafValidityBounds configured anchor ttl maximum = .ok bounds ↔
      (0 < maximum →
        (signedNotAfter configured anchor ttl maximum).after anchor = true) ∧
      ((issuanceNotBefore configured anchor).truncate Time.second,
        signedNotAfter configured anchor ttl maximum) = bounds := by
  by_cases limited : 0 < maximum
  · have shape : leafValidityBounds configured anchor ttl maximum =
        if (signedNotAfter configured anchor ttl maximum).after anchor = false then
          .error (.validity maximum (issuanceBackdateSkew configured))
        else .ok ((issuanceNotBefore configured anchor).truncate Time.second,
          signedNotAfter configured anchor ttl maximum) := by
      simp only [leafValidityBounds, signedNotAfter, gt_iff_lt, limited, if_true, true_and]
    rw [shape]
    cases (signedNotAfter configured anchor ttl maximum).after anchor with
    | false => simp [limited]
    | true => simp
  · simp only [leafValidityBounds, signedNotAfter, gt_iff_lt, limited, if_false, false_and,
      false_implies, true_and, Except.ok.injEq]

theorem signedNotAfter_of_limited {configured : Int} {anchor : Time} {ttl maximum : Int}
    (limited : 0 < maximum) :
    (signedNotAfter configured anchor ttl maximum).nanoseconds =
      min ((anchor.add ttl).truncate Time.second).nanoseconds
        (validityCeiling configured anchor maximum).nanoseconds := by
  simp only [signedNotAfter, Time.after, limited, true_and, decide_eq_true_eq]
  split
  · rename_i cut
    exact (min_eq_right cut.le).symm
  · rename_i kept
    exact (min_eq_left (not_lt.mp kept)).symm

theorem signedNotAfter_truncate (configured : Int) (anchor : Time) (ttl maximum : Int) :
    (signedNotAfter configured anchor ttl maximum).truncate Time.second =
      signedNotAfter configured anchor ttl maximum := by
  rw [signedNotAfter]
  split
  · exact Time.truncate_truncate _
  · exact Time.truncate_truncate _

theorem fitsMaximum_iff {configured : Int} {anchor : Time} {ttl maximum : Int} :
    FitsMaximum configured anchor ttl maximum ↔
      (0 < maximum →
        (signedNotAfter configured anchor ttl maximum).after anchor = true) ∧
      |ttl - ((signedNotAfter configured anchor ttl maximum).nanoseconds - anchor.nanoseconds)| ≤
        Time.second := by
  by_cases limited : 0 < maximum
  · simp only [FitsMaximum, limited, true_implies, Time.after, decide_eq_true_eq,
      signedNotAfter_of_limited limited, lt_min_iff, abs_le]
    rw [Time.truncate_second]
    simp only [Time.add, Time.second]
    constructor
    · rintro ⟨reaches, remains, loss⟩
      exact ⟨⟨reaches, remains⟩, by omega, by omega⟩
    · rintro ⟨⟨reaches, remains⟩, -, loss⟩
      exact ⟨reaches, remains, by omega⟩
  · simp only [FitsMaximum, limited, signedNotAfter, false_and, if_false, false_implies, true_and,
      true_iff, Time.truncate_second, abs_le]
    simp only [Time.add, Time.second]
    omega

section Signing

variable {x509 : X509} {parsers : Parsers} {configured : Int} {now anchor : Time} {serial : Nat}
variable {issuer : Certificate} {csrDER : Bytes} {csr : CertificateRequest} {ttl effective : Int}
variable {profile : SigningProfile}

theorem checkLeafRequest_ok
    (passes : checkLeafRequest x509 parsers now issuer csrDER ttl profile = .ok (csr, effective)) :
    x509.checkRequest csr = true ∧
      enforceLeafProfileInfo parsers csr.names effective profile.constraints = .ok () := by
  simp only [checkLeafRequest, bind_eq_ok, guard_eq_ok, elim_throw_eq_ok,
    Result.mapError_eq_ok] at passes
  obtain ⟨clamped, -, request, -, signed, ⟨⟩, -, ⟨⟩, enforced, equal⟩ := passes
  obtain ⟨rfl, rfl⟩ := Prod.mk.inj (Except.ok.inj equal)
  exact ⟨Bool.not_eq_false _ ▸ signed, enforced⟩

variable {template : Template}

theorem leafTemplate_ok
    (built : leafTemplate x509 configured anchor serial issuer csr ttl profile = .ok template) :
    (∀ name ∈ profile.allowedExtKeyUsage, ∃ oid, usageOID name = some oid) ∧
      (∀ text ∈ profile.certificatePolicyOIDs,
        (∃ oid, parseOID text = some oid) ∧ ∃ oid, parseX509OID text = some oid) ∧
      (0 < profile.maxValidity →
        (signedNotAfter configured anchor ttl profile.maxValidity).after anchor = true) ∧
      template.notAfter = signedNotAfter configured anchor ttl profile.maxValidity := by
  simp only [leafTemplate, bind_eq_ok, elim_throw_eq_ok] at built
  obtain ⟨usages, resolved, ski, -, bounds, bounded, extra, -, policies, read, modern, readModern,
    equal⟩ := built
  obtain ⟨usable, rfl⟩ := leafValidityBounds_eq_ok.mp bounded
  obtain rfl := Except.ok.inj equal
  refine ⟨exists_leafExtKeyUsage_iff.mp ⟨usages, resolved⟩,
    fun text member => ⟨?_, ?_⟩, usable, rfl⟩
  · exact exists_policiesWith_iff.mp ⟨policies, read⟩ text member
  · exact exists_policiesWith_iff.mp ⟨modern, readModern⟩ text member

theorem exists_leafTemplate (works : x509.Works issuer)
    (passes : checkLeafRequest x509 parsers now issuer csrDER ttl profile = .ok (csr, effective))
    (usages : ∀ name ∈ profile.allowedExtKeyUsage, ∃ oid, usageOID name = some oid)
    (policies : ∀ text ∈ profile.certificatePolicyOIDs,
      (∃ oid, parseOID text = some oid) ∧ ∃ oid, parseX509OID text = some oid)
    (usable : 0 < profile.maxValidity →
      (signedNotAfter configured anchor effective profile.maxValidity).after anchor = true) :
    ∃ template, leafTemplate x509 configured anchor serial issuer csr effective profile =
      .ok template := by
  obtain ⟨signed, enforced⟩ := checkLeafRequest_ok passes
  obtain ⟨resolved, resolved_eq⟩ := exists_leafExtKeyUsage_iff.mpr usages
  obtain ⟨ski, ski_eq⟩ := works.identifies csr signed
  have bounded := leafValidityBounds_eq_ok.mpr ⟨usable, rfl⟩
  obtain ⟨extra, extra_eq⟩ := exists_x509Extensions enforced
  obtain ⟨read, read_eq⟩ := exists_policiesWith_iff.mpr fun text member =>
    (policies text member).1
  obtain ⟨modern, modern_eq⟩ := exists_policiesWith_iff.mpr fun text member =>
    (policies text member).2
  rw [leafTemplate, resolved_eq, ski_eq, bounded, extra_eq, policyOIDs, read_eq, modernPolicyOIDs,
    modern_eq]
  exact ⟨_, rfl⟩

theorem exists_issueLeaf_iff (works : x509.Works issuer) (checked : x509.checkRequest csr = true) :
    (∃ issued, issueLeaf x509 issuer csr anchor template = .ok issued) ↔
      issuer.mayIssue = true ∧ x509.Encodes issuer template := by
  constructor
  · rintro ⟨issued, signs⟩
    simp only [issueLeaf, bind_eq_ok, guard_eq_ok, elim_throw_eq_ok] at signs
    obtain ⟨der, created, leaf, parsed, verified, -⟩ := signs
    rw [X509.checkSignatureFrom, Bool.not_eq_false, Bool.and_eq_true] at verified
    exact ⟨verified.1, _, der, leaf, created, parsed⟩
  · rintro ⟨authority, encodes⟩
    obtain ⟨ski, identified⟩ := works.identifies csr checked
    obtain ⟨der, leaf, created, parsed⟩ := works.signs template _ ski encodes identified
    refine ⟨⟨der, anchor⟩, ?_⟩
    simp only [issueLeaf, bind_eq_ok, guard_eq_ok, elim_throw_eq_ok]
    refine ⟨der, created, leaf, parsed, ?_, rfl⟩
    rw [X509.checkSignatureFrom, authority, works.verifies template _ der leaf created parsed]
    decide

theorem issueLeaf_ok (works : x509.Works issuer) {issued : IssuedLeaf}
    (signs : issueLeaf x509 issuer csr anchor template = .ok issued) :
    issued.validityAnchor = anchor ∧
      ∃ leaf, x509.parseCertificate issued.der = some leaf ∧
        leaf.notAfter = template.notAfter.truncate Time.second := by
  simp only [issueLeaf, bind_eq_ok, guard_eq_ok, elim_throw_eq_ok] at signs
  obtain ⟨der, created, leaf, parsed, -, equal⟩ := signs
  obtain rfl := Except.ok.inj equal
  exact ⟨rfl, leaf, parsed, works.readsBack template _ der leaf created parsed⟩

end Signing

section Comparison

variable {x509 : X509} {parsers : Parsers} {configured : Int} {now : Time} {serial : Nat}
variable {caCertDER csrDER : Bytes} {issuer : Certificate} {csr : CertificateRequest}
variable {ttl effective : Int} {profile : SigningProfile}

theorem Agrees.of_parse_none (unparsed : x509.parseCertificate caCertDER = none) :
    Agrees x509 parsers configured now serial caCertDER csrDER ttl profile := by
  have evaluation : evaluateLeafRequest x509 parsers now caCertDER csrDER ttl profile =
      .error .parseIssuer := by
    rw [evaluateLeafRequest, unparsed]
    rfl
  have signing : signLeafFromCSR x509 parsers configured now serial caCertDER csrDER ttl profile =
      .error .parseIssuer := by
    rw [signLeafFromCSR, unparsed]
    rfl
  rw [Agrees, evaluation, signing]
  simp

theorem Agrees.of_refused {error : LeafError}
    (parsed : x509.parseCertificate caCertDER = some issuer)
    (refused : checkLeafRequest x509 parsers now issuer csrDER ttl profile = .error error) :
    Agrees x509 parsers configured now serial caCertDER csrDER ttl profile := by
  have evaluation : evaluateLeafRequest x509 parsers now caCertDER csrDER ttl profile =
      .error error := by
    rw [evaluateLeafRequest, parsed]
    simp only [Option.elim_some, pure_bind, refused]
    rfl
  have signing : signLeafFromCSR x509 parsers configured now serial caCertDER csrDER ttl profile =
      .error error := by
    rw [signLeafFromCSR, parsed]
    simp only [Option.elim_some, pure_bind, refused]
    rfl
  rw [Agrees, evaluation, signing]
  simp

/-- What follows the checks decides whether a request that passes them is one on
which evaluation and signing agree. -/
theorem agrees_iff_of_checked (works : x509.Works issuer)
    (parsed : x509.parseCertificate caCertDER = some issuer)
    (passes : checkLeafRequest x509 parsers now issuer csrDER ttl profile = .ok (csr, effective)) :
    Agrees x509 parsers configured now serial caCertDER csrDER ttl profile ↔
      Signable x509 configured now serial issuer csr effective profile := by
  have evaluation : evaluateLeafRequest x509 parsers now caCertDER csrDER ttl profile =
      .ok effective := by
    rw [evaluateLeafRequest, parsed]
    simp only [Option.elim_some, pure_bind, passes]
    rfl
  have signing : signLeafFromCSR x509 parsers configured now serial caCertDER csrDER ttl profile =
      leafTemplate x509 configured (validityAnchor now) serial issuer csr effective profile >>=
        issueLeaf x509 issuer csr (validityAnchor now) := by
    rw [signLeafFromCSR, parsed]
    simp only [Option.elim_some, pure_bind, passes]
    rfl
  have checked := (checkLeafRequest_ok passes).1
  constructor
  · rintro ⟨together, close⟩
    obtain ⟨issued, signed⟩ := together.mp ⟨effective, evaluation⟩
    obtain ⟨template, built, issues⟩ := bind_eq_ok.mp (signing ▸ signed)
    obtain ⟨usages, policies, usable, ends⟩ := leafTemplate_ok built
    obtain ⟨authority, encodes⟩ := (exists_issueLeaf_iff works checked).mp ⟨issued, issues⟩
    obtain ⟨anchored, leaf, read, notAfter_eq⟩ := issueLeaf_ok works issues
    have loss := close effective issued leaf evaluation signed read
    rw [anchored, notAfter_eq, ends, signedNotAfter_truncate] at loss
    refine ⟨usages, policies, fitsMaximum_iff.mpr ⟨usable, loss⟩, authority, ?_⟩
    intro other otherBuilt
    obtain rfl := Except.ok.inj (built.symm.trans otherBuilt)
    exact encodes
  · intro signable
    obtain ⟨usable, loss⟩ := fitsMaximum_iff.mp signable.lifetime
    obtain ⟨template, built⟩ :=
      exists_leafTemplate works passes signable.usages signable.policies usable
    obtain ⟨issued, issues⟩ := (exists_issueLeaf_iff works checked).mpr
      ⟨signable.authority, signable.encodes template built⟩
    have signed := signing.trans (bind_eq_ok.mpr ⟨template, built, issues⟩)
    refine ⟨⟨fun _ => ⟨issued, signed⟩, fun _ => ⟨effective, evaluation⟩⟩, ?_⟩
    intro returned other leaf returned_eq other_eq read
    obtain rfl := Except.ok.inj (evaluation.symm.trans returned_eq)
    obtain rfl := Except.ok.inj (signed.symm.trans other_eq)
    obtain ⟨anchored, found, read', notAfter_eq⟩ := issueLeaf_ok works issues
    obtain rfl := Option.some.inj (read.symm.trans read')
    rw [anchored, notAfter_eq, (leafTemplate_ok built).2.2.2, signedNotAfter_truncate]
    exact loss

/-- Where the library and the signer of the CA certificate work, evaluation and
signing agree exactly on the requests that fail the shared checks and on those that
pass them and can be signed with their lifetime. -/
theorem evaluation_agrees_iff
    (works : ∀ issuer, x509.parseCertificate caCertDER = some issuer → x509.Works issuer) :
    Agrees x509 parsers configured now serial caCertDER csrDER ttl profile ↔
      ∀ issuer csr effective, x509.parseCertificate caCertDER = some issuer →
        checkLeafRequest x509 parsers now issuer csrDER ttl profile = .ok (csr, effective) →
        Signable x509 configured now serial issuer csr effective profile := by
  constructor
  · intro agrees issuer csr effective parsed passes
    exact (agrees_iff_of_checked (works issuer parsed) parsed passes).mp agrees
  · intro signable
    cases parsed : x509.parseCertificate caCertDER with
    | none => exact .of_parse_none parsed
    | some issuer =>
        cases passes : checkLeafRequest x509 parsers now issuer csrDER ttl profile with
        | error error => exact .of_refused parsed passes
        | ok accepted =>
            exact (agrees_iff_of_checked (works issuer parsed) parsed passes).mpr
              (signable issuer accepted.1 accepted.2 parsed passes)

end Comparison

/-- The certificate of an issuer that may sign. -/
def sampleIssuer : Certificate where
  raw := bytes "CA"
  version := 3
  basicConstraintsValid := true
  isCA := true
  keyUsage := 32
  notAfter := ⟨64000000000 * Time.second⟩
  subjectKeyId := bytes "ca"

/-- A request without names. -/
def sampleRequest : CertificateRequest where
  subject := bytes "CN=leaf"
  names := {}
  rawSubjectPublicKeyInfo := bytes "key"

/-- A leaf that ends at a second. -/
def leafUntil (der : Bytes) (seconds : Nat) : Certificate where
  raw := der
  version := 3
  basicConstraintsValid := true
  isCA := false
  keyUsage := 5
  notAfter := ⟨seconds * Time.second⟩
  subjectKeyId := bytes "key"

/-- A library with the key of the issuer `CA`, that writes a certificate as the
second of its end. -/
def decimalX509 : X509 where
  parseCertificate der :=
    if der = bytes "CA" then some sampleIssuer else (Go.parseDigits der).map (leafUntil der)
  parseCertificateRequest der := if der = bytes "CSR" then some sampleRequest else none
  checkRequest _ := true
  refuseWeakSubjectKey _ := none
  subjectKeyID key := some key
  createCertificate template issuer _ :=
    if issuer ≠ sampleIssuer ∨ template.notAfter.nanoseconds < 0 then none
    else some (Go.decimal (template.notAfter.nanoseconds / Time.second).toNat)
  checkSignature _ issuer := decide (issuer = sampleIssuer)

theorem decimalX509_parses {template : Template} {issuer : Certificate} {key der : Bytes}
    (created : decimalX509.createCertificate template issuer key = some der) :
    ∃ leaf, decimalX509.parseCertificate der = some leaf ∧
      leaf.notAfter = template.notAfter.truncate Time.second := by
  simp only [decimalX509] at created
  split at created
  · cases created
  · rename_i representable
    generalize seconds_eq : (template.notAfter.nanoseconds / Time.second).toNat = seconds at created
    obtain rfl := Option.some.inj created
    have isLeaf : Go.decimal seconds ≠ bytes "CA" := by
      intro equal
      have read := Go.parseDigits_decimal seconds
      rw [equal] at read
      cases read
    refine ⟨leafUntil (Go.decimal seconds) seconds, ?_, ?_⟩
    · simp only [decimalX509, if_neg isLeaf, Go.parseDigits_decimal, Option.map_some]
    · rw [Time.truncate_second, leafUntil, Time.mk.injEq]
      rw [Time.second] at seconds_eq ⊢
      omega

theorem decimalX509_works : decimalX509.Works sampleIssuer where
  identifies csr _ := ⟨csr.rawSubjectPublicKeyInfo, rfl⟩
  signs template key ski encodes _ := by
    obtain ⟨otherKey, der, leaf, created, parsed⟩ := encodes
    exact ⟨der, leaf, created, parsed⟩
  verifies _ _ _ _ _ _ := rfl
  readsBack template key der leaf created parsed := by
    obtain ⟨found, read, notAfter_eq⟩ := decimalX509_parses created
    obtain rfl := Option.some.inj (parsed.symm.trans read)
    exact notAfter_eq

/-- An hour from an instant of the year 2026 is evaluated as it is signed without
a maximum. -/
theorem evaluation_agrees_without_maximum :
    decimalX509.Works sampleIssuer ∧
      Agrees decimalX509 noParsers 0 ⟨63900000000 * Time.second⟩ 1 (bytes "CA") (bytes "CSR")
        (3600 * Time.second) {} := by
  refine ⟨decimalX509_works, (evaluation_agrees_iff ?_).mpr ?_⟩
  · rintro issuer ⟨⟩
    exact decimalX509_works
  intro issuer csr effective parsed passes
  obtain rfl := Option.some.inj parsed
  obtain ⟨rfl, rfl⟩ := Prod.mk.inj (Except.ok.inj passes)
  refine ⟨?_, ?_, ?_, by decide, ?_⟩
  · exact fun name member => absurd member List.not_mem_nil
  · exact fun text member => absurd member List.not_mem_nil
  · exact fun limited => absurd limited (by decide)
  · intro template built
    have representable : ¬ template.notAfter.nanoseconds < 0 := by
      rw [(leafTemplate_ok built).2.2.2]
      decide
    have created : decimalX509.createCertificate template sampleIssuer (bytes "key") = some _ :=
      if_neg (not_or.mpr ⟨by simp, representable⟩)
    obtain ⟨leaf, parsed, -⟩ := decimalX509_parses created
    exact ⟨bytes "key", _, leaf, created, parsed⟩

/-- Under a maximum of an hour the leaf for an hour ends after 55 minutes, and
evaluation still returns the hour. -/
theorem evaluation_disagrees_under_maximum :
    ¬ ∀ x509 parsers configured now serial caCertDER csrDER ttl profile,
      (∀ issuer, x509.parseCertificate caCertDER = some issuer → X509.Works x509 issuer) →
        Agrees x509 parsers configured now serial caCertDER csrDER ttl profile := by
  intro agrees
  have passes : checkLeafRequest decimalX509 noParsers ⟨63900000000 * Time.second⟩ sampleIssuer
      (bytes "CSR") (3600 * Time.second) { maxValidity := 3600 * Time.second } =
        .ok (sampleRequest, 3600 * Time.second) := by
    rfl
  have signable := (agrees_iff_of_checked decimalX509_works rfl passes).mp
    (agrees decimalX509 noParsers 0 _ 1 (bytes "CA") (bytes "CSR") _ _ (by
      rintro issuer ⟨⟩
      exact decimalX509_works))
  exact absurd (signable.lifetime (by decide)).2.2 (by decide)

end Trstctl.Crypto.Leaf
