import Trstctl.Crypto.Ca.Hierarchy
import Trstctl.Crypto.HierarchyCa

/-!
# Subordinate CAs narrow their ancestors

Both ways of signing an intermediate hand the lists of the parent on when the
request has none, and sign the lists of the request as they are when it has
some.  A tree in which every request stays within the lists of its parent
narrows from level to level; the depth does so for every request.
-/

namespace Trstctl.Crypto

open Go (Bytes bytes)

/-- The zones of name constraints. -/
def zonesOf (entries : List Bytes) : List Bytes :=
  entries.map zone

/-- The domains of a request are absent or within those of the parent. -/
def DomainsWithin (requested inherited : List Bytes) : Prop :=
  requested = [] ∨ Allowlist.Within (Zones.Under dot) (zonesOf requested) (zonesOf inherited)

instance (requested inherited : List Bytes) : Decidable (DomainsWithin requested inherited) :=
  inferInstanceAs (Decidable (_ ∨ _))

theorem DomainsWithin.signed {requested inherited : List Bytes}
    (within : DomainsWithin requested inherited) :
    Allowlist.Within (Zones.Under dot)
      (zonesOf (if requested.isEmpty then inherited else requested)) (zonesOf inherited) := by
  by_cases none : requested = []
  · rw [if_pos (List.isEmpty_iff.mpr none)]
    exact Allowlist.Within.refl (Zones.Under.refl dot) _
  · rw [if_neg (fun empty => none (List.isEmpty_iff.mp empty))]
    exact within.resolve_left none

namespace Ca

/-- What a CA may sign. -/
def CA.authority (ca : CA) : Authority where
  zones := zonesOf ca.permittedDNS
  usages := ca.ekus.map ExtKeyUsage.oid
  pathLen := if ca.maxPathLen < 0 then none else some ca.maxPathLen.toNat

/-- The lists of a spec are absent or within those of the parent. -/
def CASpec.Within (spec : CASpec) (parent : CA) : Prop :=
  DomainsWithin spec.permittedDNSDomains parent.permittedDNS ∧
    (spec.ekus = [] ∨
      Allowlist.Within Eq (restriction ((ekusFromStrings spec.ekus).map ExtKeyUsage.oid))
        (restriction (parent.ekus.map ExtKeyUsage.oid)))

instance (spec : CASpec) (parent : CA) : Decidable (spec.Within parent) :=
  inferInstanceAs (Decidable (_ ∧ (_ ∨ _)))

/-- A child is created, from any spec. -/
def CA.Creates (parent child : CA) : Prop :=
  ∃ failure spec, parent.createIntermediate failure spec = .ok child

/-- A child is created from a spec within the lists of its parent. -/
def CA.Issues (parent child : CA) : Prop :=
  ∃ failure spec, spec.Within parent ∧ parent.createIntermediate failure spec = .ok child

theorem CA.createIntermediate_eq_ok {parent child : CA} {failure : Option Bytes} {spec : CASpec}
    (created : parent.createIntermediate failure spec = .ok child) :
    parent.maxPathLen ≠ 0 ∧
      child.permittedDNS = childPermitted parent spec ∧
      child.maxPathLen = (if parent.maxPathLen > 0 then parent.maxPathLen - 1 else -1) ∧
      child.ekus = ekusFromStrings (childEkus parent spec) := by
  simp only [CA.createIntermediate, Result.guard_eq_ok, Result.bind_eq_ok] at created
  obtain ⟨remaining, ⟨valid⟩, -, equal⟩ := created
  obtain rfl := Except.ok.inj equal
  exact ⟨remaining, rfl, rfl, rfl⟩

theorem ekusFromStrings_ekuStrings (ekus : List ExtKeyUsage)
    (named : ∀ usage ∈ ekus, (ekuString usage).isSome = true) :
    ekusFromStrings (ekuStrings ekus) = ekus := by
  induction ekus with
  | nil => rfl
  | cons usage rest ih =>
      obtain ⟨name, written⟩ := Option.isSome_iff_exists.mp (named usage List.mem_cons_self)
      have read : usageNames.lookup name = some usage := by
        cases usage <;> simp [ekuString] at written <;> subst written <;> decide
      have tail := ih fun other member =>
        named other (List.mem_cons_of_mem usage member)
      simp only [ekusFromStrings, ekuStrings, List.filterMap_cons, written, read]
      exact congrArg (usage :: ·) tail

/-- The depth falls below a CA whatever the spec. -/
theorem CA.Creates.depthWithin {parent child : CA} (creates : parent.Creates child) :
    Authority.DepthWithin 1 child.authority parent.authority := by
  obtain ⟨failure, spec, created⟩ := creates
  obtain ⟨remaining, -, pathLen, -⟩ := CA.createIntermediate_eq_ok created
  intro depth limited
  simp only [CA.authority] at limited ⊢
  split at limited
  · cases limited
  · have positive : parent.maxPathLen > 0 := by omega
    rw [if_pos positive] at pathLen
    refine ⟨(parent.maxPathLen - 1).toNat, ?_, ?_⟩
    · rw [pathLen, if_neg (by omega)]
    · have := Option.some.inj limited
      omega

theorem CA.Issues.narrows {parent child : CA} (issues : parent.Issues child) :
    Authority.Narrows 1 child.authority parent.authority := by
  obtain ⟨failure, spec, ⟨domains, usages⟩, created⟩ := issues
  obtain ⟨-, permittedDNS, -, ekus⟩ := CA.createIntermediate_eq_ok created
  refine ⟨?_, ?_, CA.Creates.depthWithin ⟨failure, spec, created⟩⟩
  · refine Authority.permitsDNS_of_within ?_
    simp only [CA.authority, permittedDNS, childPermitted]
    exact domains.signed
  · by_cases none : spec.ekus = []
    · refine Authority.usagesWithin_of_mem_iff fun oid => ?_
      rw [CA.authority, CA.authority, ekus, childEkus, if_pos (List.isEmpty_iff.mpr none),
        ekusFromStrings_ekuStrings parent.ekus parent.named]
    · rw [Authority.UsagesWithin, CA.authority, CA.authority, ekus, childEkus,
        if_neg (fun empty => none (List.isEmpty_iff.mp empty))]
      exact usages.resolve_left none

end Ca

def Certificate.authority (certificate : Certificate) : Authority where
  zones := zonesOf certificate.permittedDNSDomains
  usages := certificate.usages
  pathLen := certificate.pathLen.map Int.toNat

/-- The lists of a profile are absent or within those of the parent. -/
def HierarchyCAProfile.Within (profile : HierarchyCAProfile) (parent : Certificate) : Prop :=
  DomainsWithin profile.permittedDNSDomains parent.permittedDNSDomains ∧
    (profile.ekus = [] ∨ ∀ usages, caExtKeyUsage profile.ekus = .ok usages →
      Allowlist.Within Eq (restriction (extensionOIDs usages)) (restriction parent.usages))

/-- A certificate is signed, from any profile. -/
def Certificate.Signs (parent child : Certificate) : Prop :=
  ∃ issuance profile, parent.signIntermediateHierarchyCA issuance profile = .ok child

/-- A certificate is signed from a profile within the lists of its parent. -/
def Certificate.Issues (parent child : Certificate) : Prop :=
  ∃ issuance profile, profile.Within parent ∧
    parent.signIntermediateHierarchyCA issuance profile = .ok child

theorem signHierarchyCA_eq_ok
    {issuance : Issuance} {issuer : Option Certificate} {profile : HierarchyCAProfile}
    {certificate : Certificate}
    (signed : signHierarchyCA issuance issuer profile = .ok certificate) :
    ∃ usages, caExtKeyUsage profile.ekus = .ok usages ∧
      certificate.permittedDNSDomains = profile.permittedDNSDomains ∧
      certificate.usages = extensionOIDs usages ∧
      certificate.maxPathLen = (if profile.maxPathLen ≥ 0 then profile.maxPathLen else -1) ∧
      certificate.maxPathLenZero = decide (profile.maxPathLen = 0) := by
  unfold signHierarchyCA at signed
  cases weak : issuance.weakKey with
  | some cause =>
      simp only [weak] at signed
      cases signed
  | none =>
      simp only [weak, Result.guard_eq_ok, Result.bind_eq_ok, Result.mapError_eq_ok] at signed
      obtain ⟨-, -, usages, resolved, signed⟩ := signed
      split at signed
      · cases failure : issuance.failure with
        | some cause =>
            simp only [failure] at signed
            cases signed
        | none =>
            simp only [failure] at signed
            obtain rfl := Except.ok.inj signed
            exact ⟨usages, resolved, rfl, rfl, rfl, rfl⟩
      · cases signed

theorem Certificate.pathLen_of_signed {certificate : Certificate} {pathLen : Int}
    (length : certificate.maxPathLen = (if pathLen ≥ 0 then pathLen else -1))
    (zero : certificate.maxPathLenZero = decide (pathLen = 0)) (limited : pathLen ≥ 0) :
    certificate.pathLen = some pathLen := by
  rw [if_pos limited] at length
  rw [Certificate.pathLen, length, zero, if_pos]
  rw [decide_eq_true_eq]
  omega

/-- The depth falls below a certificate whatever the profile. -/
theorem Certificate.Signs.depthWithin {parent child : Certificate} (signs : parent.Signs child) :
    Authority.DepthWithin 1 child.authority parent.authority := by
  obtain ⟨issuance, profile, signed⟩ := signs
  simp only [Certificate.signIntermediateHierarchyCA, Result.guard_eq_ok] at signed
  obtain ⟨remaining, signed⟩ := signed
  obtain ⟨-, -, -, -, length, zero⟩ := signHierarchyCA_eq_ok signed
  intro depth limited
  obtain ⟨pathLen, parentLimited, rfl⟩ := Option.map_eq_some_iff.mp limited
  have positive : pathLen > 0 := by
    simp only [Certificate.pathLen] at parentLimited remaining
    split at parentLimited
    · rename_i present
      obtain rfl := Option.some.inj parentLimited
      rw [if_pos present, Option.some.injEq] at remaining
      rcases present with positive | flag
      · exact positive
      · exact absurd (parent.zero_of_maxPathLenZero flag) remaining
    · cases parentLimited
  have bound : (profile.below parent issuance.now).maxPathLen ≥ 0 ∧
      (profile.below parent issuance.now).maxPathLen ≤ pathLen - 1 := by
    simp only [HierarchyCAProfile.below, parentLimited]
    split <;> omega
  have childLimited := Certificate.pathLen_of_signed length zero bound.1
  refine ⟨(profile.below parent issuance.now).maxPathLen.toNat, ?_, by omega⟩
  rw [Certificate.authority, childLimited]
  rfl

/-- A certificate signed within the lists of its parent narrows it. -/
theorem Certificate.Issues.narrows {parent child : Certificate} (issues : parent.Issues child) :
    Authority.Narrows 1 child.authority parent.authority := by
  obtain ⟨issuance, profile, ⟨domains, within⟩, signed⟩ := issues
  have depth := Certificate.Signs.depthWithin ⟨issuance, profile, signed⟩
  simp only [Certificate.signIntermediateHierarchyCA, Result.guard_eq_ok] at signed
  obtain ⟨usages, resolved, permitted, childUsages, -, -⟩ := signHierarchyCA_eq_ok signed.2
  refine ⟨?_, ?_, depth⟩
  · refine Authority.permitsDNS_of_within ?_
    simp only [Certificate.authority, permitted, HierarchyCAProfile.below]
    exact domains.signed
  · simp only [HierarchyCAProfile.below] at resolved
    by_cases none : profile.ekus = []
    · rw [if_pos (List.isEmpty_iff.mpr none)] at resolved
      refine Authority.usagesWithin_of_mem_iff fun oid => ?_
      rw [Certificate.authority, Certificate.authority, childUsages]
      exact mem_of_extKeyUsageStrings resolved oid
    · rw [if_neg (fun empty => none (List.isEmpty_iff.mp empty))] at resolved
      rw [Authority.UsagesWithin, Certificate.authority, Certificate.authority, childUsages]
      exact within.resolve_left none usages resolved

/-- In every tree of CAs, and of CA certificates, from any requests, the depth falls
by a level at least from each ancestor. -/
theorem descendants_shorten (level : Nat) :
    (∀ (root : Ca.CA) (nodes : List (Ca.CA × List Ca.CA)),
      Descent.Built Ca.CA.Creates root nodes →
      ∀ node above ancestor, (node, above) ∈ nodes → above[level]? = some ancestor →
        Authority.DepthWithin (level + 1) node.authority ancestor.authority) ∧
    (∀ (root : Certificate) (nodes : List (Certificate × List Certificate)),
      Descent.Built Certificate.Signs root nodes →
      ∀ node above ancestor, (node, above) ∈ nodes → above[level]? = some ancestor →
        Authority.DepthWithin (level + 1) node.authority ancestor.authority) := by
  constructor
  · intro root nodes built node above ancestor member position
    exact Descent.Built.ancestor
      (fun levels lower upper => Authority.DepthWithin levels lower.authority upper.authority)
      built (fun creates => creates.depthWithin) (fun first rest => first.compose rest)
      member position
  · intro root nodes built node above ancestor member position
    exact Descent.Built.ancestor
      (fun levels lower upper => Authority.DepthWithin levels lower.authority upper.authority)
      built (fun signs => signs.depthWithin) (fun first rest => first.compose rest)
      member position

/-- In every tree of CAs whose requests stay within the lists of the parents,
every CA narrows each of its ancestors, at every level above it, and likewise in
every tree of CA certificates. -/
theorem descendants_narrow (level : Nat) :
    (∀ (root : Ca.CA) (nodes : List (Ca.CA × List Ca.CA)),
      Descent.Built Ca.CA.Issues root nodes →
      ∀ node above ancestor, (node, above) ∈ nodes → above[level]? = some ancestor →
        Authority.Narrows (level + 1) node.authority ancestor.authority) ∧
    (∀ (root : Certificate) (nodes : List (Certificate × List Certificate)),
      Descent.Built Certificate.Issues root nodes →
      ∀ node above ancestor, (node, above) ∈ nodes → above[level]? = some ancestor →
        Authority.Narrows (level + 1) node.authority ancestor.authority) := by
  constructor
  · intro root nodes built node above ancestor member position
    exact Descent.Built.ancestor
      (fun levels lower upper => Authority.Narrows levels lower.authority upper.authority) built
      (fun issues => issues.narrows) (fun first rest => first.compose rest) member position
  · intro root nodes built node above ancestor member position
    exact Descent.Built.ancestor
      (fun levels lower upper => Authority.Narrows levels lower.authority upper.authority) built
      (fun issues => issues.narrows) (fun first rest => first.compose rest) member position

namespace Ca

/-- A root for `corp.example` with two levels below it. -/
def corpRoot : CA where
  commonName := bytes "corp"
  permittedDNS := [bytes "corp.example"]
  maxPathLen := 2
  ekus := [.serverAuth, .clientAuth]
  valid := corpDomain_valid
  named := by decide

/-- An intermediate that inherits both lists. -/
def regionSpec : CASpec where
  commonName := bytes "region"
  permittedDNSDomains := []
  maxPathLen := 7
  ekus := []

/-- What it gets. -/
def regionCA : CA where
  commonName := bytes "region"
  permittedDNS := [bytes "corp.example"]
  maxPathLen := 1
  ekus := [.serverAuth, .clientAuth]
  valid := corpDomain_valid
  named := by decide

/-- An intermediate for one service. -/
def serviceSpec : CASpec where
  commonName := bytes "service"
  permittedDNSDomains := [bytes "api.corp.example"]
  maxPathLen := 0
  ekus := [bytes "serverAuth"]

/-- What it gets. -/
def serviceCA : CA where
  commonName := bytes "service"
  permittedDNS := [bytes "api.corp.example"]
  maxPathLen := 0
  ekus := [.serverAuth]
  valid := by decide +kernel
  named := by decide

theorem regionCA_issued : corpRoot.Issues regionCA :=
  ⟨none, regionSpec, by decide +kernel, by decide +kernel⟩

theorem serviceCA_issued : regionCA.Issues serviceCA :=
  ⟨none, serviceSpec, by decide +kernel, by decide +kernel⟩

end Ca

/-- A root certificate with two levels below it. -/
def corpCertificate : Certificate :=
  { corpTarget with
    maxPathLen := 2
    zero_of_maxPathLenZero := nofun
    usages := [ExtKeyUsage.oid .serverAuth, ExtKeyUsage.oid .clientAuth] }

/-- A profile for one service. -/
def serviceProfile : HierarchyCAProfile where
  commonName := bytes "service"
  permittedDNSDomains := [bytes "api.corp.example"]
  excludedDNSDomains := []
  maxPathLen := 7
  ekus := [bytes "serverAuth"]
  ttl := 0

def serviceIssuance : Issuance where
  now := 50
  skew := 0
  weakKey := none
  failure := none
  rawSubject := bytes "CN=service"
  rawSubjectPublicKeyInfo := bytes "service key"
  raw := bytes "service"
  subjectKeyId := [3]

/-- The CA of the service is two levels below its root, its certificate one. -/
theorem descendants_narrow_serviceCA :
    Descent.Built Ca.CA.Issues Ca.corpRoot
        [(Ca.serviceCA, [Ca.regionCA, Ca.corpRoot]), (Ca.regionCA, [Ca.corpRoot]),
          (Ca.corpRoot, [])] ∧
      Authority.Narrows 2 Ca.serviceCA.authority Ca.corpRoot.authority ∧
        ∃ certificate,
          corpCertificate.signIntermediateHierarchyCA serviceIssuance serviceProfile =
              .ok certificate ∧
            Authority.Narrows 1 certificate.authority corpCertificate.authority := by
  have built : Descent.Built Ca.CA.Issues Ca.corpRoot
      [(Ca.serviceCA, [Ca.regionCA, Ca.corpRoot]), (Ca.regionCA, [Ca.corpRoot]),
        (Ca.corpRoot, [])] :=
    .grow (.grow .start List.mem_cons_self Ca.regionCA_issued) List.mem_cons_self
      Ca.serviceCA_issued
  obtain ⟨certificate, signed⟩ : ∃ certificate,
      corpCertificate.signIntermediateHierarchyCA serviceIssuance serviceProfile =
        .ok certificate :=
    Result.isOk_iff.mp (by decide +kernel)
  have within : serviceProfile.Within corpCertificate := by
    refine ⟨by decide +kernel, .inr fun usages resolved => ?_⟩
    have server : caExtKeyUsage serviceProfile.ekus = .ok ([.serverAuth], []) := by decide +kernel
    obtain rfl := Except.ok.inj (server.symm.trans resolved)
    decide +kernel
  have signedTree : Descent.Built Certificate.Issues corpCertificate
      [(certificate, [corpCertificate]), (corpCertificate, [])] :=
    .grow .start List.mem_cons_self ⟨serviceIssuance, serviceProfile, within, signed⟩
  exact ⟨built, (descendants_narrow 1).1 Ca.corpRoot _ built Ca.serviceCA _ Ca.corpRoot
    List.mem_cons_self rfl, certificate, signed, (descendants_narrow 0).2 corpCertificate _
      signedTree certificate _ corpCertificate List.mem_cons_self rfl⟩

/-- An intermediate for another domain. -/
def Ca.otherSpec : Ca.CASpec where
  commonName := bytes "other"
  permittedDNSDomains := [bytes "other.test"]
  maxPathLen := 0
  ekus := []

/-- The domain of the spec replaces that of the root. -/
theorem not_narrows_otherSpec :
    ¬ ∀ (root : Ca.CA) (nodes : List (Ca.CA × List Ca.CA)),
      Descent.Built Ca.CA.Creates root nodes →
      ∀ node above level ancestor, (node, above) ∈ nodes → above[level]? = some ancestor →
        Authority.Narrows (level + 1) node.authority ancestor.authority := by
  intro narrows
  obtain ⟨child, created⟩ : ∃ child, Ca.corpRoot.createIntermediate none Ca.otherSpec = .ok child :=
    Result.isOk_iff.mp (by decide +kernel)
  have permitted : child.permittedDNS = [bytes "other.test"] :=
    (Ca.CA.createIntermediate_eq_ok created).2.1
  have below : child.authority.PermitsDNS (bytes "other.test") := by
    rw [Authority.PermitsDNS, Ca.CA.authority, permitted]
    exact .inr ⟨zone (bytes "other.test"), List.mem_cons_self, by decide +kernel⟩
  have built : Descent.Built Ca.CA.Creates Ca.corpRoot
      [(child, [Ca.corpRoot]), (Ca.corpRoot, [])] :=
    .grow .start List.mem_cons_self ⟨none, Ca.otherSpec, created⟩
  have narrowed := narrows Ca.corpRoot _ built child _ 0 Ca.corpRoot List.mem_cons_self rfl
  have above := narrowed.names _ below
  rcases above with unrestricted | ⟨entry, member, under⟩
  · exact absurd unrestricted (by decide)
  · rw [List.mem_singleton.mp member] at under
    revert under
    decide +kernel

end Trstctl.Crypto
