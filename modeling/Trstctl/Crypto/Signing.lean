import Trstctl.Crypto.Usages
import Trstctl.Go.Time

/-!
# Signing leaves

`EvaluateLeafRequest` and `signLeafFromCSRWithPreparation` without a preparation
(`internal/crypto/leafca.go`), for an issuer whose key signs through package
`x509`.  Both run `checkLeafRequest`; signing goes on to build a template, whose
validity `leafValidityBounds` (`internal/crypto/backdate.go`) computes.
-/

namespace Trstctl.Crypto.Leaf

open Go (Bytes bytes Time)

structure KeyUsages where
  digitalSignature : Bool
  keyEncipherment : Bool
  keyAgreement : Bool
  dataEncipherment : Bool

/-- A `CertificateExtension` with what is signed of it. -/
structure Extension extends CertificateExtension where
  critical : Bool
  value : Bytes

/-- `LeafProfile`, with the fields that are signed. -/
structure SigningProfile where
  crlDistributionPoints : List Bytes := []
  ocspServers : List Bytes := []
  issuingCertificateURL : List Bytes := []
  certificatePolicyOIDs : List Bytes := []
  extraExtensions : List Extension := []
  /-- Nanoseconds; zero is no ceiling. -/
  maxValidity : Int := 0
  allowedKeyUsages : Option KeyUsages := none
  allowedExtKeyUsage : List Bytes := []
  permittedDNSSuffixes : List Bytes := []
  permittedIPCIDRs : List Bytes := []
  permittedEmailDomains : List Bytes := []
  permittedURIPrefixes : List Bytes := []
  clampTTLToIssuer : Bool := false

/-- The fields of a profile that constrain a request. -/
def SigningProfile.constraints (profile : SigningProfile) : LeafProfile where
  extraExtensions := profile.extraExtensions.map Extension.toCertificateExtension
  maxValidity := profile.maxValidity
  allowedExtKeyUsage := profile.allowedExtKeyUsage
  permittedDNSSuffixes := profile.permittedDNSSuffixes
  permittedIPCIDRs := profile.permittedIPCIDRs
  permittedEmailDomains := profile.permittedEmailDomains
  permittedURIPrefixes := profile.permittedURIPrefixes

/-- The fields of a parsed `x509.Certificate` that signing reads. -/
structure Certificate where
  raw : Bytes
  version : Nat
  basicConstraintsValid : Bool
  isCA : Bool
  keyUsage : Nat
  notAfter : Time
  subjectKeyId : Bytes
deriving DecidableEq

/-- A parsed `x509.CertificateRequest`, with its names as text. -/
structure CertificateRequest where
  subject : Bytes
  names : CSRInfo
  rawSubjectPublicKeyInfo : Bytes

/-- A `pkix.Extension`. -/
structure PkixExtension where
  id : OID
  critical : Bool
  value : Bytes

/-- The `x509.Certificate` that is signed. -/
structure Template where
  serialNumber : Nat
  subject : Bytes
  names : CSRInfo
  notBefore : Time
  notAfter : Time
  keyUsage : Nat
  extKeyUsage : List ExtKeyUsage
  unknownExtKeyUsage : List OID
  subjectKeyId : Bytes
  authorityKeyId : Bytes
  crlDistributionPoints : List Bytes
  ocspServer : List Bytes
  issuingCertificateURL : List Bytes
  extraExtensions : List PkixExtension
  policyIdentifiers : List OID
  policies : List OID

structure IssuedLeaf where
  der : Bytes
  validityAnchor : Time

/-- Why a leaf is not signed. -/
inductive LeafError where
  | parseIssuer
  | issuerExpired (notAfter : Time)
  | parseRequest
  | requestSignature
  | subjectKeyRefusal (cause : Bytes)
  | profile (error : LeafProfileError)
  | unsupportedUsage (name : Bytes)
  | emptyUsages
  | subjectKeyID
  | validity (maximum backdate : Int)
  | extensionOID (oid : Bytes)
  | policyOID (oid : Bytes)
  | sign
  | parseIssued
  | verification

/-- What signing takes from package `x509`, with the key of the issuer, and from
the check of weak keys. -/
structure X509 where
  parseCertificate : Bytes → Option Certificate
  parseCertificateRequest : Bytes → Option CertificateRequest
  /-- `CertificateRequest.CheckSignature`. -/
  checkRequest : CertificateRequest → Bool
  /-- `RefuseWeakSubjectKey`: why a subject key is refused. -/
  refuseWeakSubjectKey : Bytes → Option Bytes
  /-- `subjectKeyID` of a subject key. -/
  subjectKeyID : Bytes → Option Bytes
  /-- `CreateCertificate` under an issuer for a subject key. -/
  createCertificate : Template → Certificate → Bytes → Option Bytes
  /-- The check of the signature of a certificate with the key of another. -/
  checkSignature : Certificate → Certificate → Bool

/-- The issuer may sign certificates, as `Certificate.CheckSignatureFrom`
demands. -/
def Certificate.mayIssue (issuer : Certificate) : Bool :=
  !((issuer.version == 3 && !issuer.basicConstraintsValid) ||
      (issuer.basicConstraintsValid && !issuer.isCA)) &&
    !(issuer.keyUsage != 0 && issuer.keyUsage &&& 32 == 0)

def X509.checkSignatureFrom (x509 : X509) (issued issuer : Certificate) : Bool :=
  issuer.mayIssue && x509.checkSignature issued issuer

/-- `x509.ParseOID`: digits and dots only, with arcs of any size. -/
def parseX509OID (text : Bytes) : Option OID :=
  match (Go.split dot text).mapM Go.parseDigits with
  | some (first :: second :: rest) =>
      if first > 2 ∨ (first < 2 ∧ second ≥ 40) then none else some (first :: second :: rest)
  | _ => none

/-- `clampLeafTTL` without a preparation. -/
def clampLeafTTL (now : Time) (issuer : Certificate) (ttl : Int) : Except LeafError Int :=
  let remaining := issuer.notAfter.sub now
  if remaining ≤ 0 then .error (.issuerExpired issuer.notAfter)
  else if ttl ≤ 0 ∨ ttl > remaining then .ok remaining
  else .ok ttl

/-- `checkLeafRequest` without a preparation. -/
def checkLeafRequest (x509 : X509) (parsers : Parsers) (now : Time) (issuer : Certificate)
    (csrDER : Bytes) (ttl : Int) (profile : SigningProfile) :
    Except LeafError (CertificateRequest × Int) := do
  let ttl ← (if profile.clampTTLToIssuer then clampLeafTTL now issuer ttl else .ok ttl)
  let csr ← (x509.parseCertificateRequest csrDER).elim (throw .parseRequest) pure
  if x509.checkRequest csr = false then throw .requestSignature
  (x509.refuseWeakSubjectKey csr.rawSubjectPublicKeyInfo).elim (pure ())
    fun cause => throw (.subjectKeyRefusal cause)
  (enforceLeafProfileInfo parsers csr.names ttl profile.constraints).mapError .profile
  return (csr, ttl)

/-- `EvaluateLeafRequest`: the lifetime a signing would use. -/
def evaluateLeafRequest (x509 : X509) (parsers : Parsers) (now : Time) (caCertDER csrDER : Bytes)
    (ttl : Int) (profile : SigningProfile) : Except LeafError Int := do
  let issuer ← (x509.parseCertificate caCertDER).elim (throw .parseIssuer) pure
  let (_, effective) ← checkLeafRequest x509 parsers now issuer csrDER ttl profile
  return effective

/-- `IssuanceBackdateSkew`, by the configured value. -/
def issuanceBackdateSkew (configured : Int) : Int :=
  if configured ≠ 0 then configured else 300 * Time.second

def issuanceNotBefore (configured : Int) (now : Time) : Time :=
  now.add (-issuanceBackdateSkew configured)

/-- The validity anchor of a leaf that is signed now. -/
def validityAnchor (now : Time) : Time :=
  now.truncate Time.microsecond

/-- The last `NotAfter` under a maximum validity, which includes the backdating. -/
def validityCeiling (configured : Int) (anchor : Time) (maximum : Int) : Time :=
  (((issuanceNotBefore configured anchor).truncate Time.second).add maximum).truncate Time.second

def leafValidityBounds (configured : Int) (anchor : Time) (ttl maximum : Int) :
    Except LeafError (Time × Time) :=
  let notBefore := (issuanceNotBefore configured anchor).truncate Time.second
  let notAfter := (anchor.add ttl).truncate Time.second
  if maximum > 0 then
    let ceiling := validityCeiling configured anchor maximum
    let notAfter := if notAfter.after ceiling then ceiling else notAfter
    if notAfter.after anchor = false then
      .error (.validity maximum (issuanceBackdateSkew configured))
    else .ok (notBefore, notAfter)
  else .ok (notBefore, notAfter)

/-- `leafKeyUsage`, as the bits of `x509.KeyUsage`. -/
def leafKeyUsage : Option KeyUsages → Nat
  | none => 1 ||| 4
  | some usages =>
      let bits := (if usages.digitalSignature then 1 else 0) |||
        (if usages.keyEncipherment then 4 else 0) ||| (if usages.keyAgreement then 16 else 0) |||
        if usages.dataEncipherment then 8 else 0
      if bits = 0 then 1 else bits

def leafKeyUsageForProfile (profile : SigningProfile) : Nat :=
  match profile.allowedKeyUsages with
  | some usages => leafKeyUsage (some usages)
  | none =>
      if ¬ profile.allowedExtKeyUsage.isEmpty ∧ bytes "serverAuth" ∉ profile.allowedExtKeyUsage then
        1
      else leafKeyUsage none

/-- `leafExtKeyUsage`: the loop over the names is the one for CA certificates. -/
def leafExtKeyUsage (names : List Bytes) : Except LeafError (List ExtKeyUsage × List OID) :=
  if names.isEmpty then .ok ([.serverAuth, .clientAuth], [])
  else
    match caExtKeyUsage names with
    | .error name => .error (.unsupportedUsage name)
    | .ok ([], []) => .error .emptyUsages
    | .ok usages => .ok usages

def x509Extensions (extensions : List Extension) : Except LeafError (List PkixExtension) :=
  extensions.mapM fun extension =>
    match parseOID extension.oid with
    | none => .error (.extensionOID extension.oid)
    | some oid => .ok ⟨oid, extension.critical, extension.value⟩

/-- A list of policies with the parser of one of the two fields. -/
def policiesWith (parse : Bytes → Option OID) (dotted : List Bytes) : Except LeafError (List OID) :=
  dotted.mapM fun text =>
    match parse text with
    | none => .error (.policyOID text)
    | some oid => .ok oid

def policyOIDs : List Bytes → Except LeafError (List OID) :=
  policiesWith parseOID

def modernPolicyOIDs : List Bytes → Except LeafError (List OID) :=
  policiesWith parseX509OID

/-- The part of `signLeafFromCSRWithPreparation` that builds the certificate to
be signed. -/
def leafTemplate (x509 : X509) (configured : Int) (anchor : Time) (serial : Nat)
    (issuer : Certificate) (csr : CertificateRequest) (ttl : Int) (profile : SigningProfile) :
    Except LeafError Template := do
  let (knownEKUs, customEKUs) ← leafExtKeyUsage profile.allowedExtKeyUsage
  let ski ← (x509.subjectKeyID csr.rawSubjectPublicKeyInfo).elim (throw .subjectKeyID) pure
  let (notBefore, notAfter) ← leafValidityBounds configured anchor ttl profile.maxValidity
  let extra ← x509Extensions profile.extraExtensions
  let policies ← policyOIDs profile.certificatePolicyOIDs
  let modern ← modernPolicyOIDs profile.certificatePolicyOIDs
  return {
    serialNumber := serial
    subject := csr.subject
    names := csr.names
    notBefore := notBefore
    notAfter := notAfter
    keyUsage := leafKeyUsageForProfile profile
    extKeyUsage := knownEKUs
    unknownExtKeyUsage := customEKUs
    subjectKeyId := ski
    authorityKeyId := issuer.subjectKeyId
    crlDistributionPoints := profile.crlDistributionPoints
    ocspServer := profile.ocspServers
    issuingCertificateURL := profile.issuingCertificateURL
    extraExtensions := extra
    policyIdentifiers := policies
    policies := modern }

/-- The part of `signLeafFromCSRWithPreparation` that signs a template and checks
the signature. -/
def issueLeaf (x509 : X509) (issuer : Certificate) (csr : CertificateRequest) (anchor : Time)
    (template : Template) : Except LeafError IssuedLeaf := do
  let der ← (x509.createCertificate template issuer csr.rawSubjectPublicKeyInfo).elim
    (throw .sign) pure
  let issued ← (x509.parseCertificate der).elim (throw .parseIssued) pure
  if x509.checkSignatureFrom issued issuer = false then throw .verification
  return ⟨der, anchor⟩

/-- `signLeafFromCSRWithPreparation` without a preparation. -/
def signLeafFromCSR (x509 : X509) (parsers : Parsers) (configured : Int) (now : Time)
    (serial : Nat) (caCertDER csrDER : Bytes) (ttl : Int) (profile : SigningProfile) :
    Except LeafError IssuedLeaf := do
  let issuer ← (x509.parseCertificate caCertDER).elim (throw .parseIssuer) pure
  let (csr, ttl) ← checkLeafRequest x509 parsers now issuer csrDER ttl profile
  let anchor := validityAnchor now
  let template ← leafTemplate x509 configured anchor serial issuer csr ttl profile
  issueLeaf x509 issuer csr anchor template

end Trstctl.Crypto.Leaf
