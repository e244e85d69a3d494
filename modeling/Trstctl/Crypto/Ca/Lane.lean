import Trstctl.Crypto.Ca.Hierarchy
import Trstctl.Go.Trim

/-!
# Leaf requests in the lane of a CA

When the lane of a CA and a profile are folded into one list of suffixes, the
list is empty for every profile whose suffixes all lie outside the lane.  The
enforcement reads an empty list as no policy, so such a profile lets every DNS
name pass unless it lists names of another kind.  Under every other profile a
name leaves the lane only by the white space around it, which the comparison
does not see.
-/

namespace Trstctl.Crypto.Ca

open Go (Bytes bytes trimPrefix)

variable {parsers : Parsers} {ca : CA} {profile : LeafProfile}

/-- A name equals or is a subdomain of an entry of the CA's permitted names. -/
def InLane (ca : CA) (name : Bytes) : Prop :=
  ∃ entry ∈ ca.permittedDNS, InZone name entry

/-- A request whose names are accepted has its DNS names in the lane of the CA. -/
def KeepsLane (parsers : Parsers) (ca : CA) (profile : LeafProfile)
    (request : CertificateRequest) (ttl : Int) : Prop :=
  ca.checkLeaf parsers request ttl profile = .ok () →
    ∀ name ∈ request.names.dnsNames, InLane ca name

/-- The profile has no DNS suffixes or one in the lane, or it lists names of
another kind. -/
def Clamped (ca : CA) (profile : LeafProfile) : Prop :=
  profile.permittedDNSSuffixes = [] ∨
    (∃ entry ∈ profile.permittedDNSSuffixes, permittedBy ca.permittedDNS entry = true) ∨
    profile.permittedIPCIDRs ≠ [] ∨
    profile.permittedEmailDomains ≠ [] ∨
    profile.permittedURIPrefixes ≠ []

/-- The checks of a request other than that of its DNS names. -/
structure OthersPass (parsers : Parsers) (profile : LeafProfile) (info : CSRInfo) (ttl : Int) :
    Prop where
  unreserved : ¬ info.uris.any (isReservedWorkloadSPIFFEID parsers) = true
  extensions : ∀ extension ∈ profile.extraExtensions, checkExtension extension = .ok ()
  validity : ¬ (profile.maxValidity > 0 ∧ ttl > profile.maxValidity)
  addresses : ∃ cidrs, parseLeafCIDRs parsers profile.permittedIPCIDRs = .ok cidrs ∧
    ∀ raw ∈ info.ipAddresses,
      checkIP parsers (leafSANPolicyConfigured profile) profile.permittedIPCIDRs cidrs raw = .ok ()
  emails : ∀ email ∈ info.emailAddresses,
    checkName (leafSANPolicyConfigured profile) "email" profile.permittedEmailDomains
      (emailDomainPermitted email profile.permittedEmailDomains) email = .ok ()
  uris : ∀ uri ∈ info.uris,
    checkName (leafSANPolicyConfigured profile) "URI" profile.permittedURIPrefixes
      (uriPrefixPermitted uri profile.permittedURIPrefixes) uri = .ok ()

/-- The DNS names that leave the lane: one outside it under a profile that is not
clamped, or one that is inside only without the white space around it, when the
folded suffixes permit all. -/
def NamesEscape (ca : CA) (profile : LeafProfile) (names : List Bytes) : Prop :=
  (¬ Clamped ca profile ∧ ∃ name ∈ names, ¬ InLane ca name) ∨
    (∀ name ∈ names,
      dnsSuffixPermitted name (ca.applyCALane profile).permittedDNSSuffixes = true) ∧
    ∃ name ∈ names, InLane ca (Go.trimSpace name) ∧ ¬ InLane ca name

theorem applyCALane_suffixes (lane : ca.permittedDNS ≠ []) :
    (ca.applyCALane profile).permittedDNSSuffixes =
      if profile.permittedDNSSuffixes = [] then ca.permittedDNS
      else profile.permittedDNSSuffixes.filter (permittedBy ca.permittedDNS) := by
  by_cases none : profile.permittedDNSSuffixes = []
  · simp only [CA.applyCALane, List.isEmpty_iff, lane, none, if_true, if_false]
    split <;> rfl
  · simp only [CA.applyCALane, intersectDNS, List.isEmpty_iff, lane, none, if_false]
    split <;> rfl

theorem applyCALane_rest (ca : CA) (profile : LeafProfile) :
    (ca.applyCALane profile).extraExtensions = profile.extraExtensions ∧
      (ca.applyCALane profile).maxValidity = profile.maxValidity ∧
      (ca.applyCALane profile).permittedIPCIDRs = profile.permittedIPCIDRs ∧
      (ca.applyCALane profile).permittedEmailDomains = profile.permittedEmailDomains ∧
      (ca.applyCALane profile).permittedURIPrefixes = profile.permittedURIPrefixes := by
  simp only [CA.applyCALane]
  (repeat' split) <;> exact ⟨rfl, rfl, rfl, rfl, rfl⟩

theorem permittedBy.under (ca : CA) {ending : Bytes}
    (kept : permittedBy ca.permittedDNS ending = true) :
    ∃ entry ∈ ca.permittedDNS,
      Zones.Under dot (normalized (trimPrefix ending [dot])) (zone entry) := by
  simp only [permittedBy, Bool.or_eq_true, dnsPermitted, containsFold, List.any_eq_true,
    beq_iff_eq, Go.hasSuffix_iff] at kept
  rcases kept with ⟨entry, member, equal | ⟨front, equal⟩⟩ | ⟨entry, member, equal⟩
  · refine ⟨entry, member, ?_⟩
    rw [equal, normalized_of_valid (ca.valid entry member)]
    exact Zones.Under.refl dot (zone entry)
  · refine ⟨entry, member, ?_⟩
    by_cases root : zone entry = []
    · exact .inl root
    · rw [← equal, normalized_append front (ca.valid entry member) root]
      exact Zones.Under.append _ (zone entry)
  · refine ⟨entry, member, ?_⟩
    rw [← equal, normalized_of_valid (ca.valid entry member)]
    exact Zones.Under.refl dot (zone entry)

theorem applyCALane_under (lane : ca.permittedDNS ≠ []) {ending : Bytes}
    (member : ending ∈ (ca.applyCALane profile).permittedDNSSuffixes) :
    ∃ entry ∈ ca.permittedDNS,
      Zones.Under dot (normalized (trimPrefix ending [dot])) (zone entry) := by
  rw [applyCALane_suffixes lane] at member
  split at member
  · refine ⟨ending, member, ?_⟩
    rw [normalized_of_valid (ca.valid ending member)]
    exact Zones.Under.refl dot (zone ending)
  · exact permittedBy.under ca (List.mem_filter.mp member).2

theorem clamped_iff (lane : ca.permittedDNS ≠ []) :
    Clamped ca profile ↔
      (ca.applyCALane profile).permittedDNSSuffixes ≠ [] ∨
        leafSANPolicyConfigured (ca.applyCALane profile) = true := by
  obtain ⟨-, -, foldedCIDRs, foldedEmails, foldedURIs⟩ := applyCALane_rest ca profile
  have configured : leafSANPolicyConfigured (ca.applyCALane profile) = true ↔
      (ca.applyCALane profile).permittedDNSSuffixes ≠ [] ∨ profile.permittedIPCIDRs ≠ [] ∨
        profile.permittedEmailDomains ≠ [] ∨ profile.permittedURIPrefixes ≠ [] := by
    simp only [leafSANPolicyConfigured, foldedCIDRs, foldedEmails, foldedURIs, gt_iff_lt,
      decide_eq_true_iff, ← List.length_pos_iff]
    omega
  have suffixes : (ca.applyCALane profile).permittedDNSSuffixes ≠ [] ↔
      profile.permittedDNSSuffixes = [] ∨
        ∃ entry ∈ profile.permittedDNSSuffixes, permittedBy ca.permittedDNS entry = true := by
    rw [applyCALane_suffixes lane]
    by_cases none : profile.permittedDNSSuffixes = []
    · simp [none, lane]
    · simp [none]
  rw [configured, or_self_left, suffixes, or_assoc, Clamped]

/-- A name that the folded suffixes permit is in the lane without the white
space around it. -/
theorem inLane_of_permitted (lane : ca.permittedDNS ≠ []) {name : Bytes} (ascii : Go.IsAscii name)
    (permitted :
      dnsSuffixPermitted name (ca.applyCALane profile).permittedDNSSuffixes = true) :
    InLane ca (Go.trimSpace name) := by
  obtain ⟨ending, member, nameUnder⟩ := dnsSuffixPermitted.under permitted
  obtain ⟨entry, entryMember, endingUnder⟩ := applyCALane_under lane member
  have trimmed : normalized name = absolute (Go.trimSpace name) := by
    have trimmedAscii : Go.IsAscii (Go.trimSpace name) := fun byte byteMember =>
      ascii byte ((Go.trimSpace_infix name).subset byteMember)
    rw [← normalized_of_plain trimmedAscii (Go.trimSpace_trimSpace name), normalized, normalized,
      Go.trimSpace_trimSpace]
  rw [trimmed] at nameUnder
  exact ⟨entry, entryMember, nameUnder.trans endingUnder⟩

theorem checkLeaf_eq_ok_iff (lane : ca.permittedDNS ≠ []) {request : CertificateRequest}
    {ttl : Int} :
    ca.checkLeaf parsers request ttl profile = .ok () ↔
      OthersPass parsers (ca.applyCALane profile) request.names ttl ∧
        ∀ name ∈ request.names.dnsNames, ¬ Clamped ca profile ∨
          dnsSuffixPermitted name (ca.applyCALane profile).permittedDNSSuffixes = true := by
  have passes : ∀ name, checkName (leafSANPolicyConfigured (ca.applyCALane profile)) "DNS"
        (ca.applyCALane profile).permittedDNSSuffixes
        (dnsSuffixPermitted name (ca.applyCALane profile).permittedDNSSuffixes) name = .ok () ↔
      ¬ Clamped ca profile ∨
        dnsSuffixPermitted name (ca.applyCALane profile).permittedDNSSuffixes = true := by
    intro name
    rw [checkName_eq_ok, clamped_iff lane]
    by_cases empty : (ca.applyCALane profile).permittedDNSSuffixes = []
    · simp [empty, dnsSuffixPermitted]
    · simp [empty]
  rw [CA.checkLeaf, enforceLeafProfileInfo_eq_ok]
  simp only [passes]
  constructor
  · rintro ⟨unreserved, extensions, validity, cidrs, parsed, names, addresses, emails, uris⟩
    exact ⟨⟨unreserved, extensions, validity, ⟨cidrs, parsed, addresses⟩, emails, uris⟩, names⟩
  · rintro ⟨⟨unreserved, extensions, validity, ⟨cidrs, parsed, addresses⟩, emails, uris⟩, names⟩
    exact ⟨unreserved, extensions, validity, cidrs, parsed, names, addresses, emails, uris⟩

/-- A CA keeps a request in its lane unless the rest of the request passes and
its DNS names escape. -/
theorem keepsLane_iff_not_namesEscape
    (parsers : Parsers)
    (ca : CA)
    (profile : LeafProfile)
    (request : CertificateRequest)
    (ttl : Int)
    (lane : ca.permittedDNS ≠ []) :
    KeepsLane parsers ca profile request ttl ↔
      ¬ (OthersPass parsers (ca.applyCALane profile) request.names ttl ∧
        NamesEscape ca profile request.names.dnsNames) := by
  rw [KeepsLane, checkLeaf_eq_ok_iff lane]
  constructor
  · rintro keeps ⟨others, ⟨unclamped, name, member, outside⟩ | ⟨permitted, name, member, padded⟩⟩
    · exact outside (keeps ⟨others, fun _ _ => .inl unclamped⟩ name member)
    · exact padded.2 (keeps ⟨others, fun other listed => .inr (permitted other listed)⟩ name member)
  · rintro held ⟨others, names⟩ name member
    by_contra outside
    refine held ⟨others, ?_⟩
    by_cases clamped : Clamped ca profile
    · -- Under a clamped profile every name is permitted, so this one is padded.
      have permitted := fun other listed => (names other listed).resolve_left (not_not.mpr clamped)
      exact .inr ⟨permitted, name, member,
        inLane_of_permitted lane (request.ia5 name member) (permitted name member), outside⟩
    · exact .inl ⟨clamped, name, member, outside⟩

/-- A CA for `corp.example`. -/
def corpCA : CA where
  commonName := bytes "corp"
  permittedDNS := [bytes "corp.example"]
  maxPathLen := 0
  ekus := []
  valid := corpDomain_valid
  named := by decide

/-- A profile with a suffix in that lane and one outside it. -/
def serviceProfile : LeafProfile :=
  { permittedDNSSuffixes := [bytes "other.test", bytes "api.corp.example"] }

/-- A request for one DNS name. -/
def nameRequest (name : Bytes) (ascii : Go.IsAscii name) : CertificateRequest where
  names := { dnsNames := [name] }
  ia5 := by
    intro other member
    rw [List.mem_singleton.mp member]
    exact ascii

/-- The theorem under the clamped profile: a padded name outside the lane is
refused, and a padded name inside leaves it. -/
theorem keepsLane_iff_not_namesEscape_padded :
    KeepsLane noParsers corpCA serviceProfile
        (nameRequest (bytes " evil.test") (by decide +kernel)) 3600 ∧
      ¬ KeepsLane noParsers corpCA serviceProfile
        (nameRequest (bytes "api.corp.example ") (by decide +kernel)) 3600 := by
  have kept := fun name ascii => keepsLane_iff_not_namesEscape noParsers corpCA serviceProfile
    (nameRequest name ascii) 3600 (by decide)
  have clamped : Clamped corpCA serviceProfile :=
    .inr (.inl ⟨bytes "api.corp.example", by decide, by decide +kernel⟩)
  constructor
  · refine (kept _ _).mpr ?_
    rintro ⟨-, ⟨unclamped, -⟩ | ⟨permitted, -⟩⟩
    · exact unclamped clamped
    · exact absurd (permitted (bytes " evil.test") List.mem_cons_self) (by decide +kernel)
  · refine fun keeps => (kept _ _).mp keeps ⟨?_, .inr ⟨?_, ?_⟩⟩
    · exact ⟨nofun, nofun, by decide, ⟨[], rfl, nofun⟩, nofun, nofun⟩
    · intro name member
      rw [List.mem_singleton.mp member]
      decide +kernel
    · refine ⟨bytes "api.corp.example ", List.mem_cons_self, ?_⟩
      simp only [InLane]
      decide +kernel

/-- A profile for another domain. -/
def otherProfile : LeafProfile :=
  { permittedDNSSuffixes := [bytes "other.test"] }

/-- A request for a name that neither the CA nor the profile permits. -/
def evilRequest : CertificateRequest :=
  nameRequest (bytes "evil.test") (by decide +kernel)

/-- The request is accepted although its name is outside the lane. -/
theorem not_keepsLane_evilRequest :
    ¬ ∀ (parsers : Parsers) (ca : CA) (profile : LeafProfile) (request : CertificateRequest)
      (ttl : Int), ca.permittedDNS ≠ [] → KeepsLane parsers ca profile request ttl := by
  intro keeps
  have accepted : corpCA.checkLeaf noParsers evilRequest 3600 otherProfile = .ok () := by
    decide +kernel
  obtain ⟨entry, member, inZone⟩ :=
    keeps noParsers corpCA otherProfile evilRequest 3600 (by decide) accepted (bytes "evil.test")
      List.mem_cons_self
  rw [List.mem_singleton.mp member] at inZone
  revert inZone
  decide +kernel

end Trstctl.Crypto.Ca
