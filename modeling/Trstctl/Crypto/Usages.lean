import Mathlib.Data.Nat.Digits.Defs
import Trstctl.Crypto.Leafca
import Trstctl.Library.Allowlist

/-!
# Extended key usages

The extended key usages of certificates and the names they have in profiles
(`internal/crypto/eku.go`, `internal/crypto/hierarchy_ca.go`).  A usage without
a name of its own is written as a dotted object identifier.  Reading back what
was written gives the same usages.
-/

namespace Trstctl.Crypto

open Go (Bytes bytes trimPrefix)

/-- `asn1.ObjectIdentifier`: the arcs. -/
abbrev OID := List Nat

/-- Membership in a list of identifiers is decided by the one equality of arcs. -/
instance lawfulBEqOID : LawfulBEq OID :=
  inferInstance

inductive ExtKeyUsage where
  | any
  | serverAuth
  | clientAuth
  | codeSigning
  | emailProtection
  | ipsecEndSystem
  | ipsecTunnel
  | ipsecUser
  | timeStamping
  | ocspSigning
  | microsoftServerGatedCrypto
  | netscapeServerGatedCrypto
  | microsoftCommercialCodeSigning
  | microsoftKernelCodeSigning
deriving DecidableEq

namespace ExtKeyUsage

/-- The identifier a usage is encoded with. -/
def oid : ExtKeyUsage → OID
  | any => [2, 5, 29, 37, 0]
  | serverAuth => [1, 3, 6, 1, 5, 5, 7, 3, 1]
  | clientAuth => [1, 3, 6, 1, 5, 5, 7, 3, 2]
  | codeSigning => [1, 3, 6, 1, 5, 5, 7, 3, 3]
  | emailProtection => [1, 3, 6, 1, 5, 5, 7, 3, 4]
  | ipsecEndSystem => [1, 3, 6, 1, 5, 5, 7, 3, 5]
  | ipsecTunnel => [1, 3, 6, 1, 5, 5, 7, 3, 6]
  | ipsecUser => [1, 3, 6, 1, 5, 5, 7, 3, 7]
  | timeStamping => [1, 3, 6, 1, 5, 5, 7, 3, 8]
  | ocspSigning => [1, 3, 6, 1, 5, 5, 7, 3, 9]
  | microsoftServerGatedCrypto => [1, 3, 6, 1, 4, 1, 311, 10, 3, 3]
  | netscapeServerGatedCrypto => [2, 16, 840, 1, 113730, 4, 1]
  | microsoftCommercialCodeSigning => [1, 3, 6, 1, 4, 1, 311, 2, 1, 22]
  | microsoftKernelCodeSigning => [1, 3, 6, 1, 4, 1, 311, 61, 1, 1]

def all : List ExtKeyUsage :=
  [any, serverAuth, clientAuth, codeSigning, emailProtection, ipsecEndSystem, ipsecTunnel,
    ipsecUser, timeStamping, ocspSigning, microsoftServerGatedCrypto, netscapeServerGatedCrypto,
    microsoftCommercialCodeSigning, microsoftKernelCodeSigning]

/-- `extKeyUsageFromOID` of package `x509`. -/
def ofOID (oid : OID) : Option ExtKeyUsage :=
  all.find? fun usage => usage.oid = oid

theorem oid_of_ofOID {oid : OID} {usage : ExtKeyUsage} (found : ofOID oid = some usage) :
    usage.oid = oid := by
  simpa using List.find?_some found

end ExtKeyUsage

/-- `extKeyUsageDefs`; the identifiers are those of the usages. -/
def extKeyUsageDefs : List (Bytes × ExtKeyUsage) :=
  [(bytes "any", .any), (bytes "serverAuth", .serverAuth), (bytes "clientAuth", .clientAuth),
    (bytes "codeSigning", .codeSigning), (bytes "emailProtection", .emailProtection),
    (bytes "timeStamping", .timeStamping), (bytes "ocspSigning", .ocspSigning)]

def knownExtKeyUsage (name : Bytes) : Option ExtKeyUsage :=
  extKeyUsageDefs.lookup name

/-- The decimal digits of an arc. -/
def arcText (arc : Nat) : Bytes :=
  if arc = 0 then bytes "0" else (Nat.digits 10 arc).reverse.map fun digit => (0x30 + digit).toUInt8

/-- `ObjectIdentifier.String`. -/
def oidText (oid : OID) : Bytes :=
  [dot].intercalate (oid.map arcText)

def parseDottedOID (text : Bytes) : Option OID :=
  let parts := Go.split dot (trimPrefix (Go.trimSpace text) (bytes "oid:"))
  if parts.length < 2 then none
  else
    match parts.mapM parseArc with
    | some (first :: second :: rest) =>
        if first > 2 ∨ (first < 2 ∧ second > 39) then none else some (first :: second :: rest)
    | _ => none

def extKeyUsageString (usage : ExtKeyUsage) : Bytes :=
  match extKeyUsageDefs.find? fun definition => definition.2 = usage with
  | some definition => definition.1
  | none => oidText usage.oid

/-- `extKeyUsageStringsForCertificate`, from the identifiers in the extension of a
certificate: the usages the parser knows come first. -/
def extKeyUsageStrings (oids : List OID) : List Bytes :=
  (oids.filterMap ExtKeyUsage.ofOID).map extKeyUsageString ++
    (oids.filter fun oid => (ExtKeyUsage.ofOID oid).isNone).map oidText

/-- The identifier a name of a profile stands for. -/
def usageOID (name : Bytes) : Option OID :=
  match knownExtKeyUsage name with
  | some usage => some usage.oid
  | none => parseDottedOID name

/-- `caExtKeyUsage`, up to the first name that stands for no usage: the known
usages and the custom identifiers. -/
def caExtKeyUsage : List Bytes → Except Bytes (List ExtKeyUsage × List OID)
  | [] => .ok ([], [])
  | name :: rest =>
      match knownExtKeyUsage name, parseDottedOID name with
      | some usage, _ => (caExtKeyUsage rest).map fun (known, custom) => (usage :: known, custom)
      | none, some oid => (caExtKeyUsage rest).map fun (known, custom) => (known, oid :: custom)
      | none, none => .error name

/-- The identifiers the extension of the certificate has. -/
def extensionOIDs (usages : List ExtKeyUsage × List OID) : List OID :=
  usages.1.map ExtKeyUsage.oid ++ usages.2

/-- The usages a certificate is restricted to, empty when there is no restriction. -/
def restriction (oids : List OID) : List OID :=
  if ExtKeyUsage.any.oid ∈ oids then [] else oids

variable {usages : List ExtKeyUsage × List OID}

/-- The names that resolve have the identifiers they stand for. -/
theorem mem_extensionOIDs {names : List Bytes} (resolved : caExtKeyUsage names = .ok usages)
    (oid : OID) :
    oid ∈ extensionOIDs usages ↔ ∃ name ∈ names, usageOID name = some oid := by
  induction names generalizing usages with
  | nil =>
      obtain rfl := Except.ok.inj resolved
      simp [extensionOIDs]
  | cons name rest ih =>
      rw [caExtKeyUsage] at resolved
      cases known : knownExtKeyUsage name with
      | some usage =>
          simp only [known] at resolved
          cases tail : caExtKeyUsage rest with
          | error error => simp [tail, Except.map] at resolved
          | ok others =>
              simp only [tail, Except.map, Except.ok.injEq] at resolved
              subst resolved
              have others := ih tail
              simp only [extensionOIDs, List.map_cons, List.cons_append, List.mem_cons,
                exists_eq_or_imp, usageOID, known, Option.some.injEq] at others ⊢
              rw [others, eq_comm]
      | none =>
          cases parsed : parseDottedOID name with
          | none => simp [known, parsed] at resolved
          | some found =>
              simp only [known, parsed] at resolved
              cases tail : caExtKeyUsage rest with
              | error error => simp [tail, Except.map] at resolved
              | ok others =>
                  simp only [tail, Except.map, Except.ok.injEq] at resolved
                  subst resolved
                  have others := ih tail
                  simp only [extensionOIDs, List.mem_append, List.mem_cons, exists_eq_or_imp,
                    usageOID, known, parsed, Option.some.injEq] at others ⊢
                  rw [← others, or_left_comm, eq_comm]

theorem exists_usageOID {names : List Bytes} (resolved : caExtKeyUsage names = .ok usages)
    {name : Bytes} (member : name ∈ names) :
    ∃ oid, usageOID name = some oid := by
  fun_induction caExtKeyUsage names generalizing usages with
  | case1 => cases member
  | case2 first rest usage known ih =>
      rcases List.mem_cons.mp member with rfl | later
      · exact ⟨usage.oid, by simp [usageOID, known]⟩
      · cases tail : caExtKeyUsage rest with
        | error error => simp [tail, Except.map] at resolved
        | ok others => exact ih tail later
  | case3 first rest found parsed known ih =>
      rcases List.mem_cons.mp member with rfl | later
      · exact ⟨found, by simp [usageOID, known, parsed]⟩
      · cases tail : caExtKeyUsage rest with
        | error error => simp [tail, Except.map] at resolved
        | ok others => exact ih tail later
  | case4 => cases resolved

theorem digit_bounds {digit : Nat} (small : digit < 10) :
    (0x30 + digit).toUInt8.toNat = 0x30 + digit := by
  rw [Nat.toUInt8, UInt8.toNat_ofNat']
  omega

theorem arcText_digits {arc : Nat} {byte : UInt8} (member : byte ∈ arcText arc) :
    0x30 ≤ byte.toNat ∧ byte.toNat ≤ 0x39 := by
  rw [arcText] at member
  split at member
  · rw [List.mem_singleton.mp member]
    decide
  · obtain ⟨digit, digitMember, rfl⟩ := List.mem_map.mp member
    have small : digit < 10 := Nat.digits_lt_base (by decide) (List.mem_reverse.mp digitMember)
    rw [digit_bounds small]
    omega

theorem arcText_ne_nil (arc : Nat) : arcText arc ≠ [] := by
  rw [arcText]
  split
  · decide
  · rename_i positive
    rw [Ne, List.map_eq_nil_iff, List.reverse_eq_nil_iff, Nat.digits_eq_nil_iff_eq_zero]
    exact positive

theorem parseDigits_arcText (arc : Nat) : Go.parseDigits (arcText arc) = some arc := by
  have digits : (arcText arc).all (fun byte => 0x30 ≤ byte && byte ≤ 0x39) = true := by
    refine List.all_eq_true.mpr fun byte member => ?_
    simpa [UInt8.le_iff_toNat_le] using arcText_digits member
  rw [Go.parseDigits, if_pos ⟨arcText_ne_nil arc, digits⟩, arcText]
  split
  · rename_i zero
    rw [zero]
    rfl
  · have value : ∀ digits : List Nat, (∀ digit ∈ digits, digit < 10) →
        (digits.reverse.map fun digit => (0x30 + digit).toUInt8).foldl
          (fun value byte => 10 * value + (byte.toNat - 0x30)) 0 = Nat.ofDigits 10 digits := by
      intro digits small
      induction digits with
      | nil => rfl
      | cons digit rest ih =>
          have tail := ih fun other member =>
            small other (List.mem_cons_of_mem digit member)
          rw [List.reverse_cons, List.map_append, List.foldl_append, tail, Nat.ofDigits_cons]
          simp only [List.map_cons, List.map_nil, List.foldl_cons, List.foldl_nil,
            digit_bounds (small digit List.mem_cons_self)]
          omega
    rw [value _ fun digit member => Nat.digits_lt_base (by decide) member, Nat.ofDigits_digits]

theorem parseArc_arcText {arc value : Nat} (parsed : parseArc (arcText arc) = some value) :
    value = arc := by
  obtain ⟨first, rest, text⟩ := List.exists_cons_of_ne_nil (arcText_ne_nil arc)
  have digit : 0x30 ≤ first.toNat ∧ first.toNat ≤ 0x39 :=
    arcText_digits (text ▸ List.mem_cons_self)
  have unsigned : Go.atoi (arcText arc) = if arc < 2 ^ 63 then some (arc : Int) else none := by
    have read := parseDigits_arcText arc
    rw [text] at read ⊢
    rw [Go.atoi.eq_3]
    · simp only [read, Option.bind_eq_bind, Option.bind_some]
    · rintro digits equal
      rw [(List.cons.inj equal).1] at digit
      exact absurd digit (by decide)
    · rintro digits equal
      rw [(List.cons.inj equal).1] at digit
      exact absurd digit (by decide)
  rw [parseArc, unsigned] at parsed
  split at parsed
  · simp only [Option.bind_some] at parsed
    split at parsed
    · cases parsed
    · have := Option.some.inj parsed
      omega
  · cases parsed

theorem mapM_parseArc {arcs values : List Nat}
    (parsed : (arcs.map arcText).mapM parseArc = some values) :
    values = arcs := by
  induction arcs generalizing values with
  | nil => exact (Option.some.inj parsed).symm
  | cons arc rest ih =>
      rw [List.map_cons, List.mapM_cons] at parsed
      obtain ⟨value, first, more⟩ := Option.bind_eq_some_iff.mp parsed
      obtain ⟨others, later, equal⟩ := Option.bind_eq_some_iff.mp more
      rw [← Option.some.inj equal, parseArc_arcText first, ih later]

theorem oidText_bytes {oid : OID} {byte : UInt8} (member : byte ∈ oidText oid) :
    byte = dot ∨ (0x30 ≤ byte.toNat ∧ byte.toNat ≤ 0x39) := by
  induction oid with
  | nil => cases member
  | cons arc rest ih =>
      cases rest with
      | nil =>
          have digit : byte ∈ arcText arc := by simpa [oidText] using member
          exact .inr (arcText_digits digit)
      | cons next rest =>
          have split : oidText (arc :: next :: rest) =
              arcText arc ++ dot :: oidText (next :: rest) := by
            simp [oidText, List.intercalate]
          rw [split, List.mem_append, List.mem_cons] at member
          rcases member with digit | isDot | later
          · exact .inr (arcText_digits digit)
          · exact .inl isDot
          · exact ih later

/-- An identifier that is read back is the one that was written. -/
theorem parseDottedOID_oidText {oid found : OID}
    (parsed : parseDottedOID (oidText oid) = some found) :
    found = oid := by
  have graphic : Go.IsGraphic (oidText oid) := by
    intro byte member
    rcases oidText_bytes member with rfl | digit
    · decide
    · omega
  have untagged : trimPrefix (oidText oid) (bytes "oid:") = oidText oid := by
    rw [trimPrefix, if_neg]
    intro starts
    obtain ⟨rest, equal⟩ := Go.hasPrefix_iff.mp starts
    have member : 0x6F ∈ oidText oid := by
      rw [← equal]
      exact List.mem_append_left rest (by decide)
    rcases oidText_bytes member with isDot | digit
    · exact absurd isDot (by decide)
    · exact absurd digit (by decide)
  rw [parseDottedOID, Go.trimSpace_of_graphic _ graphic, untagged] at parsed
  by_cases empty : oid = []
  · subst empty
    simp [oidText, Go.split] at parsed
  · have parts : Go.split dot (oidText oid) = oid.map arcText := by
      rw [Go.split, oidText, List.splitOn_intercalate]
      · intro text member
        obtain ⟨arc, -, rfl⟩ := List.mem_map.mp member
        intro isDot
        exact absurd (arcText_digits isDot) (by decide)
      · simpa using empty
    simp only [parts] at parsed
    split at parsed
    · cases parsed
    · split at parsed
      · rename_i first second rest read
        split at parsed
        · cases parsed
        · rw [← Option.some.inj parsed]
          exact mapM_parseArc read
      · cases parsed

theorem knownExtKeyUsage_oidText (oid : OID) : knownExtKeyUsage (oidText oid) = none := by
  have lettered : ∀ definition ∈ extKeyUsageDefs, ∃ byte ∈ definition.1,
      byte ≠ dot ∧ ¬ (0x30 ≤ byte.toNat ∧ byte.toNat ≤ 0x39) := by decide
  rw [knownExtKeyUsage, List.lookup_eq_none_iff]
  intro definition listed
  rw [bne_iff_ne]
  intro equal
  obtain ⟨byte, member, notDot, notDigit⟩ := lettered definition listed
  rcases oidText_bytes (equal ▸ member) with isDot | digit
  · exact absurd isDot notDot
  · exact absurd digit notDigit

theorem usageOID_oidText {oid found : OID} (resolved : usageOID (oidText oid) = some found) :
    found = oid := by
  simp only [usageOID, knownExtKeyUsage_oidText] at resolved
  exact parseDottedOID_oidText resolved

theorem usageOID_extKeyUsageString (usage : ExtKeyUsage) :
    usageOID (extKeyUsageString usage) = some usage.oid := by
  cases usage <;> decide +kernel

theorem mem_of_extKeyUsageStrings {oids : List OID}
    (resolved : caExtKeyUsage (extKeyUsageStrings oids) = .ok usages) (oid : OID) :
    oid ∈ extensionOIDs usages ↔ oid ∈ oids := by
  rw [mem_extensionOIDs resolved]
  constructor
  · rintro ⟨name, member, stands⟩
    rcases List.mem_append.mp member with known | custom
    · obtain ⟨usage, usageMember, rfl⟩ := List.mem_map.mp known
      obtain ⟨listed, listedMember, found⟩ := List.mem_filterMap.mp usageMember
      rw [usageOID_extKeyUsageString] at stands
      rw [← Option.some.inj stands, ExtKeyUsage.oid_of_ofOID found]
      exact listedMember
    · obtain ⟨listed, listedMember, rfl⟩ := List.mem_map.mp custom
      rw [usageOID_oidText stands]
      exact (List.mem_filter.mp listedMember).1
  · intro listed
    cases found : ExtKeyUsage.ofOID oid with
    | some usage =>
        refine ⟨extKeyUsageString usage, List.mem_append_left _ (List.mem_map_of_mem ?_), ?_⟩
        · exact List.mem_filterMap.mpr ⟨oid, listed, found⟩
        · rw [usageOID_extKeyUsageString, ExtKeyUsage.oid_of_ofOID found]
    | none =>
        have member : oidText oid ∈ extKeyUsageStrings oids :=
          List.mem_append_right _ (List.mem_map_of_mem
            (List.mem_filter.mpr ⟨listed, by rw [found]; rfl⟩))
        obtain ⟨read, stands⟩ := exists_usageOID resolved member
        exact ⟨oidText oid, member, by rw [stands, usageOID_oidText stands]⟩

end Trstctl.Crypto
