import Trstctl.Crypto.Names
import Trstctl.Library.Result

/-!
# The constraints of a leaf profile

`EnforceLeafProfileInfo` (`internal/crypto/leafca.go`) checks the names of a
certificate request against a profile before anything is signed.  An empty SAN
policy leaves the names unconstrained; once one list of it is set, every kind of
name needs its own list.
-/

namespace Trstctl.Crypto

open Go (Bytes bytes trimPrefix trimSuffix hasPrefix hasSuffix)
open Result (forM_eq_ok)

/-- A `net.IPNet`. -/
structure IPNet where
  ip : Bytes
  mask : Bytes

/-- `IP.To4`: an address of four bytes, or one mapped into sixteen. -/
def to4 (ip : Bytes) : Option Bytes :=
  if ip.length = 4 then some ip
  else if ip.length = 16 ∧ ip.take 12 = List.replicate 10 0 ++ [0xFF, 0xFF] then some (ip.drop 12)
  else none

def networkNumberAndMask (network : IPNet) : Option (Bytes × Bytes) :=
  match to4 network.ip with
  | some ip =>
      if network.mask.length = 4 then some (ip, network.mask)
      else if network.mask.length = 16 then some (ip, network.mask.drop 12)
      else none
  | none =>
      if network.ip.length = 16 ∧ network.mask.length = 16 then some (network.ip, network.mask)
      else none

def IPNet.contains (network : IPNet) (ip : Bytes) : Bool :=
  match networkNumberAndMask network with
  | none => ip.isEmpty
  | some (number, mask) =>
      let ip := (to4 ip).getD ip
      ip.length == number.length &&
        ((number.zip mask).map fun (byte, mask) => byte &&& mask) ==
          ((ip.zip mask).map fun (byte, mask) => byte &&& mask)

/-- The parsers of packages `net` and `net/url` for the texts of a request. -/
structure Parsers where
  parseIP : Bytes → Option Bytes
  parseCIDR : Bytes → Option IPNet
  /-- The scheme and the decoded path. -/
  parseURL : Bytes → Option (Bytes × Bytes)

/-- Parsers that know no text. -/
def noParsers : Parsers where
  parseIP _ := none
  parseCIDR _ := none
  parseURL _ := none

def reservedWorkloadSPIFFEPath : Bytes := bytes "/_trstctl"

def isReservedWorkloadSPIFFEID (parsers : Parsers) (raw : Bytes) : Bool :=
  match parsers.parseURL raw with
  | none => false
  | some (scheme, path) =>
      Go.foldCase scheme == bytes "spiffe" &&
        (Go.Path.clean path == reservedWorkloadSPIFFEPath ||
          hasPrefix (Go.Path.clean path) (reservedWorkloadSPIFFEPath ++ bytes "/"))

/-- `CertificateExtension`, of which the checks read the identifier. -/
structure CertificateExtension where
  oid : Bytes

/-- The fields of a `LeafProfile` that constrain a request. -/
structure LeafProfile where
  extraExtensions : List CertificateExtension := []
  /-- Nanoseconds; zero is no ceiling. -/
  maxValidity : Int := 0
  allowedExtKeyUsage : List Bytes := []
  permittedDNSSuffixes : List Bytes := []
  permittedIPCIDRs : List Bytes := []
  permittedEmailDomains : List Bytes := []
  permittedURIPrefixes : List Bytes := []

/-- The names of a `CSRInfo`. -/
structure CSRInfo where
  dnsNames : List Bytes := []
  ipAddresses : List Bytes := []
  emailAddresses : List Bytes := []
  uris : List Bytes := []

/-- Why a request violates a profile. -/
inductive LeafProfileError where
  | reservedWorkloadNamespace
  | invalidExtensionOID
  | coreExtension
  | validity (ttl ceiling : Int)
  | invalidCIDR (raw : Bytes)
  | notPermitted (kind : String) (name : Bytes)
  | malformedIP (raw : Bytes)
  | outside (kind : String) (name : Bytes) (permitted : List Bytes)
deriving DecidableEq

/-- An arc of a dotted identifier. -/
def parseArc (part : Bytes) : Option Nat :=
  (Go.atoi part).bind fun arc => if arc < 0 then none else some arc.toNat

/-- `parseOID`: the arcs of a dotted identifier. -/
def parseOID (text : Bytes) : Option (List Nat) :=
  let parts := Go.split dot (Go.trimSpace text)
  if parts.length < 2 then none
  else parts.mapM parseArc

/-- The identifiers of the core certificate fields.  Identifiers are compared by
their arcs, which their canonical text determines. -/
def coreOIDs : List (List Nat) :=
  [[2, 5, 29, 14], [2, 5, 29, 15], [2, 5, 29, 17], [2, 5, 29, 19], [2, 5, 29, 30],
    [2, 5, 29, 31], [2, 5, 29, 32], [2, 5, 29, 35], [2, 5, 29, 37], [1, 3, 6, 1, 5, 5, 7, 1, 1]]

/-- The comparison form of a DNS name in `dnsSuffixPermitted`. -/
def normalized (name : Bytes) : Bytes :=
  trimSuffix (Go.toLower (Go.trimSpace name)) [dot]

def hasDotSuffix (name ending : Bytes) : Bool :=
  hasSuffix name (dot :: ending)

def dnsSuffixPermitted (name : Bytes) (suffixes : List Bytes) : Bool :=
  suffixes.any fun ending =>
    let ending := normalized (trimPrefix ending [dot])
    !ending.isEmpty && (normalized name == ending || hasDotSuffix (normalized name) ending)

def leafSANPolicyConfigured (profile : LeafProfile) : Bool :=
  profile.permittedDNSSuffixes.length + profile.permittedIPCIDRs.length +
    profile.permittedEmailDomains.length + profile.permittedURIPrefixes.length > 0

def parseLeafCIDRs (parsers : Parsers) (cidrs : List Bytes) :
    Except LeafProfileError (List IPNet) :=
  cidrs.mapM fun raw =>
    match parsers.parseCIDR (Go.trimSpace raw) with
    | none => .error (.invalidCIDR raw)
    | some network => .ok network

def ipInCIDRs (ip : Bytes) (cidrs : List IPNet) : Bool :=
  cidrs.any fun network => network.contains ip

/-- The part after the last `@`. -/
def mailDomain (address : Bytes) : Bytes :=
  (address.reverse.takeWhile (· != 0x40)).reverse

def emailDomainPermitted (email : Bytes) (domains : List Bytes) : Bool :=
  let domain := mailDomain email
  1 < email.length - domain.length && !domain.isEmpty && dnsSuffixPermitted domain domains

def uriPrefixPermitted (uri : Bytes) (prefixes : List Bytes) : Bool :=
  prefixes.any fun start =>
    !(Go.trimSpace start).isEmpty && hasPrefix uri (Go.trimSpace start)

def checkExtension (extension : CertificateExtension) : Except LeafProfileError Unit :=
  match parseOID extension.oid with
  | none => .error .invalidExtensionOID
  | some oid => if oid ∈ coreOIDs then .error .coreExtension else .ok ()

/-- The check of a name against the list for its kind: without the list it is
refused exactly when a SAN policy is set. -/
def checkName (sanPolicy : Bool) (kind : String) (listed : List Bytes)
    (permitted : Bool) (name : Bytes) : Except LeafProfileError Unit :=
  if listed.isEmpty then
    if sanPolicy then .error (.notPermitted kind name) else .ok ()
  else if permitted then .ok ()
  else .error (.outside kind name listed)

/-- The check of an IP address, which has to parse as well. -/
def checkIP (parsers : Parsers) (sanPolicy : Bool) (listed : List Bytes) (cidrs : List IPNet)
    (raw : Bytes) : Except LeafProfileError Unit :=
  match parsers.parseIP raw with
  | none => .error (.malformedIP raw)
  | some ip => checkName sanPolicy "IP" listed (ipInCIDRs ip cidrs) ip

def enforceLeafProfileInfo (parsers : Parsers) (info : CSRInfo) (ttl : Int)
    (profile : LeafProfile) : Except LeafProfileError Unit := do
  if info.uris.any (isReservedWorkloadSPIFFEID parsers) then throw .reservedWorkloadNamespace
  profile.extraExtensions.forM checkExtension
  if profile.maxValidity > 0 ∧ ttl > profile.maxValidity then
    throw (.validity ttl profile.maxValidity)
  let sanPolicy := leafSANPolicyConfigured profile
  let cidrs ← parseLeafCIDRs parsers profile.permittedIPCIDRs
  info.dnsNames.forM fun name =>
    checkName sanPolicy "DNS" profile.permittedDNSSuffixes
      (dnsSuffixPermitted name profile.permittedDNSSuffixes) name
  info.ipAddresses.forM (checkIP parsers sanPolicy profile.permittedIPCIDRs cidrs)
  info.emailAddresses.forM fun email =>
    checkName sanPolicy "email" profile.permittedEmailDomains
      (emailDomainPermitted email profile.permittedEmailDomains) email
  info.uris.forM fun uri =>
    checkName sanPolicy "URI" profile.permittedURIPrefixes
      (uriPrefixPermitted uri profile.permittedURIPrefixes) uri

theorem checkName_eq_ok {sanPolicy permitted : Bool} {kind : String} {listed : List Bytes}
    {name : Bytes} :
    checkName sanPolicy kind listed permitted name = .ok () ↔
      (listed = [] ∧ sanPolicy = false) ∨ (listed ≠ [] ∧ permitted = true) := by
  cases listed with
  | nil => cases sanPolicy <;> simp [checkName]
  | cons first rest => cases permitted <;> simp [checkName]

theorem enforceLeafProfileInfo_eq_ok {parsers : Parsers} {info : CSRInfo} {ttl : Int}
    {profile : LeafProfile} :
    enforceLeafProfileInfo parsers info ttl profile = .ok () ↔
      ¬ info.uris.any (isReservedWorkloadSPIFFEID parsers) = true ∧
      (∀ extension ∈ profile.extraExtensions, checkExtension extension = .ok ()) ∧
      ¬ (profile.maxValidity > 0 ∧ ttl > profile.maxValidity) ∧
      ∃ cidrs, parseLeafCIDRs parsers profile.permittedIPCIDRs = .ok cidrs ∧
        (∀ name ∈ info.dnsNames,
          checkName (leafSANPolicyConfigured profile) "DNS" profile.permittedDNSSuffixes
            (dnsSuffixPermitted name profile.permittedDNSSuffixes) name = .ok ()) ∧
        (∀ raw ∈ info.ipAddresses,
          checkIP parsers (leafSANPolicyConfigured profile) profile.permittedIPCIDRs cidrs raw =
            .ok ()) ∧
        (∀ email ∈ info.emailAddresses,
          checkName (leafSANPolicyConfigured profile) "email" profile.permittedEmailDomains
            (emailDomainPermitted email profile.permittedEmailDomains) email = .ok ()) ∧
        ∀ uri ∈ info.uris,
          checkName (leafSANPolicyConfigured profile) "URI" profile.permittedURIPrefixes
            (uriPrefixPermitted uri profile.permittedURIPrefixes) uri = .ok () := by
  simp only [enforceLeafProfileInfo, Result.bind_eq_ok, Result.guard_eq_ok]
  constructor
  · rintro ⟨unreserved, ⟨⟩, extensions, valid, cidrs, parsed, ⟨⟩, names, ⟨⟩, addresses, ⟨⟩,
      emails, uris⟩
    exact ⟨unreserved, forM_eq_ok.mp extensions, valid, cidrs, parsed,
      forM_eq_ok.mp names, forM_eq_ok.mp addresses, forM_eq_ok.mp emails,
      forM_eq_ok.mp uris⟩
  · rintro ⟨unreserved, extensions, valid, cidrs, parsed, names, addresses, emails, uris⟩
    exact ⟨unreserved, (), forM_eq_ok.mpr extensions, valid, cidrs, parsed, (),
      forM_eq_ok.mpr names, (), forM_eq_ok.mpr addresses, (),
      forM_eq_ok.mpr emails, forM_eq_ok.mpr uris⟩

theorem dnsSuffixPermitted.under {name : Bytes} {suffixes : List Bytes}
    (permitted : dnsSuffixPermitted name suffixes = true) :
    ∃ ending ∈ suffixes,
      Zones.Under dot (normalized name) (normalized (trimPrefix ending [dot])) := by
  obtain ⟨ending, member, matched⟩ := List.any_eq_true.mp permitted
  simp only [Bool.and_eq_true, Bool.or_eq_true, beq_iff_eq, hasDotSuffix, Go.hasSuffix_iff]
    at matched
  exact ⟨ending, member, .inr matched.2⟩

theorem normalized_of_plain {name : Bytes} (ascii : Go.IsAscii name)
    (plain : Go.trimSpace name = name) :
    normalized name = absolute name := by
  rw [normalized, plain, Go.toLower_of_ascii name ascii, trimSuffix_foldCase, absolute]

theorem normalized_append (front : Bytes) {entry : Bytes} (valid : domainNameValid entry = true)
    (proper : zone entry ≠ []) :
    normalized (front ++ dot :: trimPrefix entry [dot]) =
      Go.toLower (Go.trimLeftSpace front) ++ dot :: zone entry := by
  have graphic : Go.IsGraphic (dot :: trimPrefix entry [dot]) := by
    intro byte member
    rcases List.mem_cons.mp member with rfl | member
    · decide
    · exact domainNameValid.graphic valid byte member
  have lowered : Go.toLower (dot :: trimPrefix entry [dot]) = dot :: zone entry := by
    rw [Go.toLower_of_ascii _ graphic.ascii]
    simp [Go.foldCase, zone, lowerByte_eq_dot.mpr]
  have ends : (Go.toLower (Go.trimLeftSpace front) ++ dot :: zone entry).getLast? ≠ some dot := by
    rw [List.append_cons, List.getLast?_append_of_ne_nil _ proper]
    exact domainNameValid.zone_getLast valid
  rw [normalized, Go.trimSpace_append front graphic (List.cons_ne_nil _ _),
    Go.toLower_append _ (by decide), lowered, trimSuffix_of_ne ends]

theorem normalized_of_valid {entry : Bytes} (valid : domainNameValid entry = true) :
    normalized (trimPrefix entry [dot]) = zone entry := by
  rw [normalized, Go.trimSpace_of_graphic _ (domainNameValid.graphic valid),
    Go.toLower_of_ascii _ (domainNameValid.graphic valid).ascii]
  exact trimSuffix_of_ne (domainNameValid.zone_getLast valid)

end Trstctl.Crypto
