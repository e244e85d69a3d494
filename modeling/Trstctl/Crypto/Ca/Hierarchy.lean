import Trstctl.Crypto.Usages

/-!
# The in-process CA hierarchy

`internal/crypto/ca/hierarchy.go`: a CA carries the DNS domains it permits, the
remaining depth of subordinate CAs and its extended key usages.  It signs
intermediates and checks leaf requests in its own lane.
-/

namespace Trstctl.Crypto

open Go (Bytes bytes)

namespace Ca

open Go (trimPrefix hasSuffix)

/-- `CASpec`, without the validity. -/
structure CASpec where
  commonName : Bytes
  permittedDNSDomains : List Bytes
  /-- Negative when unset. -/
  maxPathLen : Int
  ekus : List Bytes

/-- Why no CA is created. -/
inductive CAError where
  | pathLengthExhausted (commonName : Bytes)
  /-- Key generation, the serial number or the signature failed. -/
  | issuance (cause : Bytes)
  | parseCertificate
deriving DecidableEq

/-- The usages the names of package `ca` stand for. -/
def usageNames : List (Bytes × ExtKeyUsage) :=
  [(bytes "serverAuth", .serverAuth), (bytes "clientAuth", .clientAuth),
    (bytes "codeSigning", .codeSigning), (bytes "emailProtection", .emailProtection),
    (bytes "any", .any)]

/-- `ekusFromStrings`: other names are passed by. -/
def ekusFromStrings (names : List Bytes) : List ExtKeyUsage :=
  names.filterMap fun name => usageNames.lookup name

/-- The name of a usage. -/
def ekuString : ExtKeyUsage → Option Bytes
  | .serverAuth => some (bytes "serverAuth")
  | .clientAuth => some (bytes "clientAuth")
  | .codeSigning => some (bytes "codeSigning")
  | .emailProtection => some (bytes "emailProtection")
  | .any => some (bytes "any")
  | _ => none

def ekuStrings (ekus : List ExtKeyUsage) : List Bytes :=
  ekus.filterMap ekuString

theorem ekusFromStrings_named (names : List Bytes) (usage : ExtKeyUsage)
    (member : usage ∈ ekusFromStrings names) :
    (ekuString usage).isSome = true := by
  obtain ⟨name, -, found⟩ := List.mem_filterMap.mp member
  obtain ⟨before, after, equal, -⟩ := List.lookup_eq_some_iff.mp found
  have listed : (name, usage) ∈ usageNames := by
    rw [equal]
    exact List.mem_append_right before List.mem_cons_self
  have named : ∀ definition ∈ usageNames, (ekuString definition.2).isSome = true := by decide
  exact named _ listed

/-- `CA`, without its key and certificates.  Its certificate has been parsed, so
the permitted domains are valid name constraints, and its usages come from
names. -/
structure CA where
  commonName : Bytes
  permittedDNS : List Bytes
  /-- Remaining depth of subordinate CAs, negative when unset. -/
  maxPathLen : Int
  ekus : List ExtKeyUsage
  valid : ∀ entry ∈ permittedDNS, domainNameValid entry = true
  named : ∀ usage ∈ ekus, (ekuString usage).isSome = true
deriving DecidableEq

theorem corpDomain_valid : ∀ entry ∈ [bytes "corp.example"], domainNameValid entry = true := by
  decide +kernel

/-- What `signCACert` needs of the environment, and the constraints the parser of
the certificate accepts. -/
def signCACert (failure : Option Bytes) (permitted : List Bytes) :
    Except CAError (PLift (∀ entry ∈ permitted, domainNameValid entry = true)) :=
  match failure with
  | some cause => .error (.issuance cause)
  | none =>
      if valid : ∀ entry ∈ permitted, domainNameValid entry = true then .ok ⟨valid⟩
      else .error .parseCertificate

/-- The permitted domains of an intermediate: those of its spec, or else those
of its parent. -/
def childPermitted (parent : CA) (spec : CASpec) : List Bytes :=
  if spec.permittedDNSDomains.isEmpty then parent.permittedDNS else spec.permittedDNSDomains

/-- The names of the usages of an intermediate. -/
def childEkus (parent : CA) (spec : CASpec) : List Bytes :=
  if spec.ekus.isEmpty then ekuStrings parent.ekus else spec.ekus

def CA.createIntermediate (parent : CA) (failure : Option Bytes) (spec : CASpec) :
    Except CAError CA := do
  if parent.maxPathLen = 0 then throw (.pathLengthExhausted parent.commonName)
  let childPathLen := if parent.maxPathLen > 0 then parent.maxPathLen - 1 else -1
  let ⟨valid⟩ ← signCACert failure (childPermitted parent spec)
  return {
    commonName := spec.commonName
    permittedDNS := childPermitted parent spec
    maxPathLen := childPathLen
    ekus := ekusFromStrings (childEkus parent spec)
    valid := valid
    named := ekusFromStrings_named (childEkus parent spec) }

def dnsPermitted (name : Bytes) (permitted : List Bytes) : Bool :=
  permitted.any fun entry =>
    name == trimPrefix entry [dot] || hasSuffix name (dot :: trimPrefix entry [dot])

def containsFold (set : List Bytes) (value : Bytes) : Bool :=
  set.any fun entry => trimPrefix entry [dot] == trimPrefix value [dot]

/-- An entry of the target is kept by `intersectDNS`. -/
def permittedBy (signer : List Bytes) (entry : Bytes) : Bool :=
  dnsPermitted (trimPrefix entry [dot]) signer || containsFold signer entry

def intersectDNS (target signer : List Bytes) : List Bytes :=
  if signer.isEmpty then target
  else if target.isEmpty then signer
  else target.filter (permittedBy signer)

def CA.applyCALane (ca : CA) (profile : LeafProfile) : LeafProfile :=
  let profile :=
    if ca.permittedDNS.isEmpty then profile
    else if profile.permittedDNSSuffixes.isEmpty then
      { profile with permittedDNSSuffixes := ca.permittedDNS }
    else
      { profile with
        permittedDNSSuffixes := intersectDNS profile.permittedDNSSuffixes ca.permittedDNS }
  if profile.allowedExtKeyUsage.isEmpty then
    { profile with allowedExtKeyUsage := ekuStrings ca.ekus }
  else profile

/-- The names of a parsed certificate request.  A DNS name of it is an IA5
string. -/
structure CertificateRequest where
  names : CSRInfo
  ia5 : ∀ name ∈ names.dnsNames, Go.IsAscii name

/-- The checks of `IssueLeafWithProfile` on the names of a request. -/
def CA.checkLeaf (parsers : Parsers) (ca : CA) (request : CertificateRequest) (ttl : Int)
    (profile : LeafProfile) : Except LeafProfileError Unit :=
  enforceLeafProfileInfo parsers request.names ttl (ca.applyCALane profile)

end Ca
end Trstctl.Crypto
