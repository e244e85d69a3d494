import Trstctl.Crypto.Leafca

/-!
# Name constraints

The eight lists of the name-constraints extension and their meaning: a DNS entry
stands for a zone, an entry for URIs for a host or for the hosts of a domain, one
for mail addresses for a mailbox, the mailboxes of a host or those of a domain,
and an IP entry for a range of addresses.  An empty entry stands for everything.
-/

namespace Trstctl.Crypto

open Go (Bytes bytes foldCase)
open Subtrees (noWider_iff)

/-- The name constraints of a parsed certificate. -/
structure NameConstraints where
  permittedDNSDomains : List Bytes
  excludedDNSDomains : List Bytes
  permittedIPRanges : List IPNet
  excludedIPRanges : List IPNet
  permittedEmailAddresses : List Bytes
  excludedEmailAddresses : List Bytes
  permittedURIDomains : List Bytes
  excludedURIDomains : List Bytes
  validDNS : ∀ entry ∈ permittedDNSDomains ++ excludedDNSDomains, domainNameValid entry = true
  validEmail : ∀ entry ∈ permittedEmailAddresses ++ excludedEmailAddresses,
    0x40 ∈ entry ∨ domainNameValid entry = true
  validURI : ∀ entry ∈ permittedURIDomains ++ excludedURIDomains, domainNameValid entry = true

theorem validDomains_nil : ∀ entry ∈ ([] ++ [] : List Bytes), domainNameValid entry = true :=
  fun _ member => absurd member List.not_mem_nil

theorem validMailboxes_nil :
    ∀ entry ∈ ([] ++ [] : List Bytes), 0x40 ∈ entry ∨ domainNameValid entry = true :=
  fun _ member => absurd member List.not_mem_nil

/-- A region of DNS names lies in the zone of an entry. -/
def withinDNS : Option Bytes → Bytes → Prop
  | none, entry => zone entry = []
  | some inner, entry => Zones.Under dot (zone inner) (zone entry)

theorem under_or_under {name first second : Bytes} (inFirst : Zones.Under dot name first)
    (inSecond : Zones.Under dot name second) :
    Zones.Under dot first second ∨ Zones.Under dot second first := by
  rcases inFirst with root | rfl | firstEnds
  · exact .inr (.inl root)
  · exact .inl inSecond
  · rcases inSecond with root | rfl | secondEnds
    · exact .inl (.inl root)
    · exact .inr (.inr (.inr firstEnds))
    · rcases List.suffix_or_suffix_of_suffix firstEnds secondEnds with shorter | longer
      · rcases List.suffix_cons_iff.mp shorter with equal | ends
        · rw [(List.cons.inj equal).2]
          exact .inl (Zones.Under.refl dot second)
        · exact .inr (.inr (.inr ends))
      · rcases List.suffix_cons_iff.mp longer with equal | ends
        · rw [(List.cons.inj equal).2]
          exact .inl (Zones.Under.refl dot first)
        · exact .inl (.inr (.inr ends))

/-- The zones of DNS entries are nested or disjoint. -/
theorem nestedDNS :
    Subtrees.Nested InZone withinDNS fun entry => domainNameValid entry = true where
  holds_of_within := by
    intro name region entry inRegion lies
    cases region with
    | none => exact .inl lies
    | some inner => exact Zones.Under.trans inRegion lies
  nested := by
    intro name region entry inRegion inEntry
    cases region with
    | none => exact .inr trivial
    | some inner => exact under_or_under inRegion inEntry
  outside := by
    intro region entries valid lies
    cases region with
    | none =>
        exact ⟨longLabel (entries.map zone), trivial, fun entry member =>
          not_inZone_longLabel (List.mem_map_of_mem member) (lies entry member)⟩
    | some inner =>
        by_cases root : zone inner = []
        · refine ⟨longLabel (entries.map zone), .inl root, fun entry member => ?_⟩
          refine not_inZone_longLabel (List.mem_map_of_mem member) fun whole => ?_
          exact lies entry member (.inl whole)
        · have canonical :=
            canonical_append (entries.map zone) (canonical_zone (valid inner rfl)) root
          refine ⟨longLabel (entries.map zone) ++ dot :: zone inner,
            ?_, fun entry member inZone => ?_⟩
          · rw [Subtrees.InRegion, InZone, canonical.absolute]
            exact Zones.Under.append _ _
          · rw [InZone, canonical.absolute] at inZone
            rcases inZone with whole | equal | ends
            · exact lies entry member (.inl whole)
            · have short := length_lt_longLabel (List.mem_map_of_mem (f := zone) member)
              rw [← equal, List.length_append] at short
              omega
            · have inner_ends := suffix_of_suffix_append (dot_notMem_longLabel _) ends
              rcases List.suffix_cons_iff.mp inner_ends with same | deeper
              · exact lies entry member (.inr (.inl (List.cons.inj same).2.symm))
              · exact lies entry member (.inr (.inr deeper))

/-- What an entry for hosts stands for. -/
inductive HostConstraint where
  | anyHost
  | host (name : Bytes)
  | domain (name : Bytes)
deriving DecidableEq

/-- The constraint of an entry: one that starts with a dot is for the hosts below
a domain. -/
def hostConstraint (entry : Bytes) : HostConstraint :=
  if entry = [] then .anyHost
  else if Go.hasPrefix entry [dot] then .domain (zone entry)
  else .host (zone entry)

def HoldsHost (name : Bytes) : HostConstraint → Prop
  | .anyHost => True
  | .host host => absolute name = host
  | .domain domain => dot :: domain <:+ absolute name

/-- A region of hosts lies in the hosts of a constraint. -/
def withinHost : Option HostConstraint → HostConstraint → Prop
  | _, .anyHost => True
  | some (.host inner), .host outer => inner = outer
  | some (.host inner), .domain outer => dot :: outer <:+ inner
  | some (.domain inner), .domain outer => dot :: outer <:+ dot :: inner
  | _, _ => False

/-- The names of a constraint are canonical. -/
def HostConstraint.Valid : HostConstraint → Prop
  | .anyHost => True
  | .host name => Canonical name
  | .domain name => Canonical name ∧ name ≠ []

theorem valid_hostConstraint {entry : Bytes} (valid : domainNameValid entry = true) :
    (hostConstraint entry).Valid := by
  rw [hostConstraint]
  split
  · trivial
  · rename_i proper
    split
    · exact ⟨canonical_zone valid, domainNameValid.zone_ne_nil valid proper⟩
    · exact canonical_zone valid

variable {constraint : HostConstraint}

theorem withinHost_of_holds {name : Bytes} (holds : HoldsHost name constraint) :
    withinHost (some (.host (absolute name))) constraint := by
  cases constraint with
  | anyHost => trivial
  | host host => exact holds
  | domain domain => exact holds

def HostConstraint.names : HostConstraint → List Bytes
  | .anyHost => []
  | .host name => [name]
  | .domain _ => []

theorem domain_of_holds_label {names : List Bytes} {name : Bytes}
    (canonical : Canonical (longLabel names ++ dot :: name))
    (listed : ∀ host ∈ constraint.names, host ∈ names)
    (holds : HoldsHost (longLabel names ++ dot :: name) constraint) :
    withinHost (some (.domain name)) constraint := by
  cases constraint with
  | anyHost => trivial
  | host host =>
      have equal : longLabel names ++ dot :: name = host := by
        rw [← canonical.absolute]
        exact holds
      have short := length_lt_longLabel (listed host List.mem_cons_self)
      rw [← equal, List.length_append] at short
      omega
  | domain domain =>
      rw [HoldsHost, canonical.absolute] at holds
      exact suffix_of_suffix_append (dot_notMem_longLabel names) holds

theorem any_of_holds_label {names : List Bytes} (listed : ∀ host ∈ constraint.names, host ∈ names)
    (holds : HoldsHost (longLabel names) constraint) :
    constraint = .anyHost := by
  have canonical := canonical_longLabel names
  cases constraint with
  | anyHost => rfl
  | host host =>
      have equal : longLabel names = host := by
        rw [← canonical.absolute]
        exact holds
      have short := length_lt_longLabel (listed host List.mem_cons_self)
      rw [← equal] at short
      omega
  | domain domain =>
      rw [HoldsHost, canonical.absolute] at holds
      exact absurd (holds.subset List.mem_cons_self) (dot_notMem_longLabel names)

theorem mem_hostNames {constraints : List HostConstraint} (member : constraint ∈ constraints) :
    ∀ host ∈ constraint.names, host ∈ constraints.flatMap HostConstraint.names :=
  fun _ mentioned => List.mem_flatMap.mpr ⟨constraint, member, mentioned⟩

/-- The constraints for hosts are nested or disjoint. -/
theorem nestedHost : Subtrees.Nested HoldsHost withinHost HostConstraint.Valid where
  holds_of_within := by
    intro name region constraint inRegion lies
    cases constraint with
    | anyHost => trivial
    | host outer =>
        match region, inRegion, lies with
        | some (.host inner), inRegion, lies => exact inRegion.trans lies
    | domain outer =>
        match region, inRegion, lies with
        | some (.host inner), inRegion, lies =>
            rw [HoldsHost, inRegion]
            exact lies
        | some (.domain inner), inRegion, lies => exact lies.trans inRegion
  nested := by
    intro name region constraint inRegion holds
    match region, inRegion with
    | none, _ => exact .inr trivial
    | some .anyHost, _ => exact .inr trivial
    | some (.host host), inRegion =>
        rw [← inRegion]
        exact .inl (withinHost_of_holds holds)
    | some (.domain domain), inRegion =>
        cases constraint with
        | anyHost => exact .inl trivial
        | host host =>
            refine .inr ?_
            rw [← holds]
            exact inRegion
        | domain other =>
            exact (List.suffix_or_suffix_of_suffix holds inRegion)
  outside := by
    intro region constraints valid lies
    match region with
    | none =>
        refine ⟨longLabel (constraints.flatMap HostConstraint.names), trivial, ?_⟩
        intro constraint member holds
        apply lies constraint member
        rw [any_of_holds_label (mem_hostNames member) holds]
        trivial
    | some .anyHost =>
        refine ⟨longLabel (constraints.flatMap HostConstraint.names), trivial, ?_⟩
        intro constraint member holds
        apply lies constraint member
        rw [any_of_holds_label (mem_hostNames member) holds]
        trivial
    | some (.host host) =>
        have canonical : Canonical host := valid (.host host) rfl
        refine ⟨host, canonical.absolute, fun constraint member holds => ?_⟩
        have within := withinHost_of_holds holds
        rw [canonical.absolute] at within
        exact lies constraint member within
    | some (.domain domain) =>
        obtain ⟨canonical, proper⟩ : Canonical domain ∧ domain ≠ [] := valid (.domain domain) rfl
        have labelled :=
          canonical_append (constraints.flatMap HostConstraint.names) canonical proper
        refine ⟨longLabel (constraints.flatMap HostConstraint.names) ++ dot :: domain, ?_,
          fun constraint member holds => ?_⟩
        · rw [Subtrees.InRegion, HoldsHost, labelled.absolute]
          exact List.suffix_append _ _
        · exact lies constraint member
            (domain_of_holds_label labelled (mem_hostNames member) holds)

/-- A mail address. -/
structure Mailbox where
  localPart : Bytes
  host : Bytes

/-- What an entry for mail addresses stands for. -/
inductive MailConstraint where
  | mailbox (localPart host : Bytes)
  | atHost (constraint : HostConstraint)

/-- The constraint of an entry: a complete address, or a constraint on the host. -/
def mailConstraint (entry : Bytes) : MailConstraint :=
  if 0x40 ∈ entry then
    .mailbox (entry.take (entry.length - (mailDomain entry).length - 1))
      (absolute (mailDomain entry))
  else .atHost (hostConstraint entry)

def HoldsMail (address : Mailbox) : MailConstraint → Prop
  | .mailbox localPart host => address.localPart = localPart ∧ absolute address.host = host
  | .atHost constraint => HoldsHost address.host constraint

/-- A region of mail addresses lies in the addresses of a constraint. -/
def withinMail : Option MailConstraint → MailConstraint → Prop
  | some (.mailbox innerPart inner), .mailbox outerPart outer =>
      innerPart = outerPart ∧ inner = outer
  | some (.mailbox _ inner), .atHost outer => withinHost (some (.host inner)) outer
  | some (.atHost inner), .atHost outer => withinHost (some inner) outer
  | none, .atHost outer => withinHost none outer
  | _, _ => False

/-- The host of a mailbox is that of an address, and the names of a constraint on
hosts are canonical. -/
def MailConstraint.Valid : MailConstraint → Prop
  | .mailbox _ name => ∃ raw, absolute raw = name
  | .atHost constraint => constraint.Valid

theorem valid_mailConstraint {entry : Bytes} (valid : 0x40 ∈ entry ∨ domainNameValid entry = true) :
    (mailConstraint entry).Valid := by
  rw [mailConstraint]
  split
  · exact ⟨mailDomain entry, rfl⟩
  · rename_i plain
    exact valid_hostConstraint (valid.resolve_left plain)

def MailConstraint.onHost : MailConstraint → Option HostConstraint
  | .mailbox _ _ => none
  | .atHost constraint => some constraint

/-- The local part of a mailbox. -/
def MailConstraint.part : MailConstraint → Option Bytes
  | .mailbox localPart _ => some localPart
  | .atHost _ => none

/-- In a region of hosts there is an address outside of constraints that do not
hold the region. -/
theorem exists_outside_hosts (region : Option HostConstraint) (constraints : List MailConstraint)
    (valid : ∀ constraint ∈ region, constraint.Valid)
    (lies : ∀ constraint, .atHost constraint ∈ constraints → ¬ withinHost region constraint) :
    ∃ address : Mailbox, Subtrees.InRegion HoldsHost address.host region ∧
      ∀ constraint ∈ constraints, ¬ HoldsMail address constraint := by
  have hosts : ∀ constraint ∈ constraints.filterMap MailConstraint.onHost,
      ¬ withinHost region constraint := by
    intro constraint member
    obtain ⟨entry, entryMember, onHost⟩ := List.mem_filterMap.mp member
    cases entry with
    | mailbox localPart host => cases onHost
    | atHost outer =>
        obtain rfl := Option.some.inj onHost
        exact lies outer entryMember
  obtain ⟨host, inRegion, outside⟩ := nestedHost.outside region _ valid hosts
  refine ⟨⟨longLabel (constraints.filterMap MailConstraint.part), host⟩, inRegion, ?_⟩
  intro constraint member holds
  cases constraint with
  | mailbox localPart name =>
      have listed : localPart ∈ constraints.filterMap MailConstraint.part :=
        List.mem_filterMap.mpr ⟨_, member, rfl⟩
      have short := length_lt_longLabel listed
      rw [← holds.1] at short
      exact lt_irrefl _ short
  | atHost outer =>
      exact outside outer (List.mem_filterMap.mpr ⟨_, member, rfl⟩) holds

/-- The constraints for mail addresses are nested or disjoint. -/
theorem nestedMail : Subtrees.Nested HoldsMail withinMail MailConstraint.Valid where
  holds_of_within := by
    intro address region constraint inRegion lies
    match region, constraint, inRegion, lies with
    | none, .atHost outer, _, lies =>
        have whole : Subtrees.InRegion HoldsHost address.host none := trivial
        exact nestedHost.holds_of_within whole lies
    | some (.mailbox innerPart inner), .mailbox outerPart outer, inRegion, lies =>
        exact ⟨inRegion.1.trans lies.1, inRegion.2.trans lies.2⟩
    | some (.mailbox innerPart inner), .atHost outer, inRegion, lies =>
        have atHost : Subtrees.InRegion HoldsHost address.host (some (.host inner)) := inRegion.2
        exact nestedHost.holds_of_within atHost lies
    | some (.atHost inner), .atHost outer, inRegion, lies =>
        have atHost : Subtrees.InRegion HoldsHost address.host (some inner) := inRegion
        exact nestedHost.holds_of_within atHost lies
  nested := by
    intro address region constraint inRegion holds
    match region, constraint, inRegion, holds with
    | none, _, _, _ => exact .inr trivial
    | some (.mailbox innerPart inner), .mailbox outerPart outer, inRegion, holds =>
        exact .inl ⟨inRegion.1.symm.trans holds.1, inRegion.2.symm.trans holds.2⟩
    | some (.mailbox innerPart inner), .atHost outer, inRegion, holds =>
        refine .inl ?_
        rw [← inRegion.2]
        exact withinHost_of_holds holds
    | some (.atHost inner), .mailbox outerPart outer, inRegion, holds =>
        refine .inr ?_
        rw [← holds.2]
        exact withinHost_of_holds inRegion
    | some (.atHost inner), .atHost outer, inRegion, holds =>
        have atHost : Subtrees.InRegion HoldsHost address.host (some inner) := inRegion
        exact nestedHost.nested atHost holds
  outside := by
    intro region constraints valid lies
    match region with
    | none =>
        obtain ⟨address, -, outside⟩ :=
          exists_outside_hosts none constraints nofun fun outer member => lies _ member
        exact ⟨address, trivial, outside⟩
    | some (.mailbox localPart host) =>
        obtain ⟨raw, rfl⟩ : ∃ raw, absolute raw = host := valid (.mailbox localPart host) rfl
        refine ⟨⟨localPart, raw⟩, ⟨rfl, rfl⟩, fun constraint member holds => ?_⟩
        apply lies constraint member
        cases constraint with
        | mailbox outerPart outer => exact holds
        | atHost outer => exact withinHost_of_holds holds
    | some (.atHost inner) =>
        have proper : ∀ constraint ∈ some inner, constraint.Valid := by
          intro constraint equal
          rw [← Option.mem_some.mp equal]
          exact valid (.atHost inner) rfl
        exact exists_outside_hosts (some inner) constraints proper fun outer member =>
          lies _ member

/-- An address is in a range: it has the same length and the same bits under the
mask. -/
def HoldsIP (address : Bytes) (range : IPNet) : Prop :=
  address.length = range.ip.length ∧
    List.zipWith (· &&& ·) address range.mask = List.zipWith (· &&& ·) range.ip range.mask

section Addresses

/-- The range goes on after a first byte of an address. -/
def IPNet.starts (byte : UInt8) (range : IPNet) : Bool :=
  !range.ip.isEmpty && range.mask.head?.all fun mask => byte &&& mask == range.ip.headI &&& mask

/-- The range of the addresses after their first byte. -/
def IPNet.rest (range : IPNet) : IPNet :=
  ⟨range.ip.tail, range.mask.tail⟩

/-- What the regions have in common at a length is filled by ranges, which is read
off them byte by byte. -/
def FilledIP : Nat → List IPNet → List IPNet → Prop
  | 0, regions, ranges => (∀ region ∈ regions, region.ip = []) → ∃ range ∈ ranges, range.ip = []
  | length + 1, regions, ranges => ∀ byte, (∀ region ∈ regions, region.starts byte) →
      FilledIP length (regions.map IPNet.rest) ((ranges.filter (IPNet.starts byte)).map IPNet.rest)

theorem holdsIP_nil {range : IPNet} : HoldsIP [] range ↔ range.ip = [] := by
  constructor
  · exact fun holds => List.eq_nil_of_length_eq_zero holds.1.symm
  · intro empty
    simp [HoldsIP, empty]

theorem holdsIP_cons {byte : UInt8} {address : Bytes} {range : IPNet} :
    HoldsIP (byte :: address) range ↔ range.starts byte ∧ HoldsIP address range.rest := by
  obtain ⟨ip, mask⟩ := range
  cases ip with
  | nil => simp [HoldsIP, IPNet.starts]
  | cons first ip =>
      cases mask with
      | nil => simp [HoldsIP, IPNet.starts, IPNet.rest]
      | cons bits mask => simp [HoldsIP, IPNet.starts, IPNet.rest, and_left_comm]

theorem filledIP_iff {length : Nat} {regions ranges : List IPNet} :
    FilledIP length regions ranges ↔ ∀ address, address.length = length →
      (∀ region ∈ regions, HoldsIP address region) → ∃ range ∈ ranges, HoldsIP address range := by
  induction length generalizing regions ranges with
  | zero => simp [FilledIP, holdsIP_nil]
  | succ length ih =>
      constructor
      · rintro filled (_ | ⟨byte, address⟩) size within
        · cases size
        · simp only [holdsIP_cons] at within ⊢
          simpa [and_assoc] using ih.mp (filled byte fun region member => (within region member).1)
            address (Nat.succ.inj size)
              (by simpa using fun region member => (within region member).2)
      · intro covered byte starts
        refine ih.mpr fun address size within => ?_
        simpa [holdsIP_cons, and_assoc] using covered (byte :: address) (congrArg (· + 1) size)
          fun region member => holdsIP_cons.mpr ⟨starts region member,
            within _ (List.mem_map_of_mem member)⟩

/-- Every permitted region is a range that is filled by the ones the outer lists
permit and those the inner lists exclude. -/
def FillsPermittedIP (inner outer : Subtrees.Lists IPNet) : Prop :=
  outer.permitted = [] ∨ ∀ region ∈ inner.regions, ∃ range ∈ region,
    FilledIP range.ip.length [range] (outer.permitted ++ inner.excluded)

/-- What a permitted region has in common with a range the outer lists exclude is
filled by ranges the inner lists exclude. -/
def FillsExcludedIP (inner outer : Subtrees.Lists IPNet) : Prop :=
  ∀ region ∈ inner.regions, ∀ range ∈ outer.excluded,
    FilledIP range.ip.length (range :: region.toList) inner.excluded

variable {inner outer : Subtrees.Lists IPNet}

theorem permitsRegionsIP_iff :
    Subtrees.PermitsRegions HoldsIP inner outer ↔ FillsPermittedIP inner outer := by
  refine or_congr_right (forall₂_congr fun region member => ?_)
  cases region with
  | none =>
      refine iff_of_false (fun covered => ?_) nofun
      -- An address longer than every range is in none.
      let lengths := (outer.permitted ++ inner.excluded).map fun range => range.ip.length
      obtain ⟨range, listed, size, -⟩ := covered (List.replicate (lengths.sum + 1) 0) trivial
      have short : range.ip.length ≤ lengths.sum :=
        List.le_sum_of_mem (List.mem_map_of_mem listed)
      rw [List.length_replicate] at size
      omega
  | some range =>
      simp only [Option.mem_some_iff, exists_eq_left', filledIP_iff, List.forall_mem_singleton]
      exact forall_congr' fun address =>
        ⟨fun covered _ => covered, fun covered holds => covered holds.1 holds⟩

theorem excludesRegionsIP_iff :
    Subtrees.ExcludesRegions HoldsIP inner outer ↔ FillsExcludedIP inner outer := by
  refine forall₂_congr fun region member => forall₂_congr fun range listed => ?_
  rw [filledIP_iff]
  refine forall_congr' fun address => ?_
  cases region with
  | none => simp [Subtrees.InRegion, HoldsIP]
  | some region =>
      rw [Option.toList_some, List.forall_mem_cons, List.forall_mem_singleton]
      exact ⟨fun covered _ both => covered ⟨both.2, both.1⟩,
        fun covered both => covered both.2.1 ⟨both.2, both.1⟩⟩

end Addresses

namespace NameConstraints

def dns (constraints : NameConstraints) : Subtrees.Lists Bytes :=
  ⟨constraints.permittedDNSDomains, constraints.excludedDNSDomains⟩

/-- The ranges of addresses. -/
def ip (constraints : NameConstraints) : Subtrees.Lists IPNet :=
  ⟨constraints.permittedIPRanges, constraints.excludedIPRanges⟩

def email (constraints : NameConstraints) : Subtrees.Lists MailConstraint :=
  ⟨constraints.permittedEmailAddresses.map mailConstraint,
    constraints.excludedEmailAddresses.map mailConstraint⟩

def uri (constraints : NameConstraints) : Subtrees.Lists HostConstraint :=
  ⟨constraints.permittedURIDomains.map hostConstraint,
    constraints.excludedURIDomains.map hostConstraint⟩

/-- The inner constraints permit no further name of any kind. -/
structure NoWider (inner outer : NameConstraints) : Prop where
  dns : Subtrees.NoWider InZone inner.dns outer.dns
  ip : Subtrees.NoWider HoldsIP inner.ip outer.ip
  email : Subtrees.NoWider HoldsMail inner.email outer.email
  uri : Subtrees.NoWider HoldsHost inner.uri outer.uri

/-- The lists of the inner constraints carry those of the outer ones on, the
permitted DNS domains apart. -/
structure Carries (inner outer : NameConstraints) : Prop where
  excludedDNS : Subtrees.CarriesExcluded withinDNS inner.dns outer.dns
  permittedIP : FillsPermittedIP inner.ip outer.ip
  excludedIP : FillsExcludedIP inner.ip outer.ip
  permittedEmail : Subtrees.CarriesPermitted withinMail inner.email outer.email
  excludedEmail : Subtrees.CarriesExcluded withinMail inner.email outer.email
  permittedURI : Subtrees.CarriesPermitted withinHost inner.uri outer.uri
  excludedURI : Subtrees.CarriesExcluded withinHost inner.uri outer.uri

/-- Once the permitted DNS domains are carried, no further name is permitted
exactly when the other lists are carried. -/
theorem noWider_iff_carries {inner outer : NameConstraints}
    (permittedDNS : Subtrees.CarriesPermitted withinDNS inner.dns outer.dns) :
    NoWider inner outer ↔ Carries inner outer := by
  have dnsPermitted : ∀ entry ∈ inner.dns.permitted, domainNameValid entry = true :=
    fun entry member => inner.validDNS entry (List.mem_append_left _ member)
  have dnsExcluded : ∀ entry ∈ outer.dns.excluded, domainNameValid entry = true :=
    fun entry member => outer.validDNS entry (List.mem_append_right _ member)
  have emailPermitted : ∀ constraint ∈ inner.email.permitted, constraint.Valid := by
    intro constraint member
    obtain ⟨entry, entryMember, rfl⟩ := List.mem_map.mp member
    exact valid_mailConstraint (inner.validEmail entry (List.mem_append_left _ entryMember))
  have emailExcluded : ∀ constraint ∈ outer.email.excluded, constraint.Valid := by
    intro constraint member
    obtain ⟨entry, entryMember, rfl⟩ := List.mem_map.mp member
    exact valid_mailConstraint (outer.validEmail entry (List.mem_append_right _ entryMember))
  have uriPermitted : ∀ constraint ∈ inner.uri.permitted, constraint.Valid := by
    intro constraint member
    obtain ⟨entry, entryMember, rfl⟩ := List.mem_map.mp member
    exact valid_hostConstraint (inner.validURI entry (List.mem_append_left _ entryMember))
  have uriExcluded : ∀ constraint ∈ outer.uri.excluded, constraint.Valid := by
    intro constraint member
    obtain ⟨entry, entryMember, rfl⟩ := List.mem_map.mp member
    exact valid_hostConstraint (outer.validURI entry (List.mem_append_right _ entryMember))
  constructor
  · rintro ⟨dns, ip, email, uri⟩
    obtain ⟨-, excludesDNS⟩ := noWider_iff.mp dns
    obtain ⟨permitsIP, excludesIP⟩ := noWider_iff.mp ip
    obtain ⟨permitsEmail, excludesEmail⟩ := noWider_iff.mp email
    obtain ⟨permitsURI, excludesURI⟩ := noWider_iff.mp uri
    exact {
      excludedDNS := (nestedDNS.excludesRegions_iff dnsPermitted dnsExcluded).mp excludesDNS
      permittedIP := permitsRegionsIP_iff.mp permitsIP
      excludedIP := excludesRegionsIP_iff.mp excludesIP
      permittedEmail := (nestedMail.permitsRegions_iff emailPermitted).mp permitsEmail
      excludedEmail :=
        (nestedMail.excludesRegions_iff emailPermitted emailExcluded).mp excludesEmail
      permittedURI := (nestedHost.permitsRegions_iff uriPermitted).mp permitsURI
      excludedURI := (nestedHost.excludesRegions_iff uriPermitted uriExcluded).mp excludesURI }
  · intro carries
    exact {
      dns := noWider_iff.mpr
        ⟨(nestedDNS.permitsRegions_iff dnsPermitted).mpr permittedDNS,
          (nestedDNS.excludesRegions_iff dnsPermitted dnsExcluded).mpr carries.excludedDNS⟩
      ip := noWider_iff.mpr
        ⟨permitsRegionsIP_iff.mpr carries.permittedIP,
          excludesRegionsIP_iff.mpr carries.excludedIP⟩
      email := noWider_iff.mpr
        ⟨(nestedMail.permitsRegions_iff emailPermitted).mpr carries.permittedEmail,
          (nestedMail.excludesRegions_iff emailPermitted emailExcluded).mpr
            carries.excludedEmail⟩
      uri := noWider_iff.mpr
        ⟨(nestedHost.permitsRegions_iff uriPermitted).mpr carries.permittedURI,
          (nestedHost.excludesRegions_iff uriPermitted uriExcluded).mpr carries.excludedURI⟩ }

end NameConstraints
end Trstctl.Crypto
