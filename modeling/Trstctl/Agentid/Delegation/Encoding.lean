import Trstctl.Agentid.Delegation.Record
import Trstctl.Library.Codes

/-!
# The signed encodings

Signatures and digests are over the canonical bytes of authorities and
records.  The fields are written one after another, texts behind their lengths
and sets behind their counts, so canonical bytes are read back in one way only:
those of an authority determine its normal form, those of a record everything
it says.
-/

namespace Trstctl.Agentid.Delegation

open Go (Bytes bytes bigEndian64)

/-! ## Codes of the fields

Lengths are written as unsigned 64-bit numbers; every Go slice is shorter than
`2 ^ 63`. -/

theorem bigEndian64_eq_of_addressable (count other : Nat) (addressable : count < 2 ^ 63)
    (otherAddressable : other < 2 ^ 63) (equal : bigEndian64 count = bigEndian64 other) :
    count = other :=
  Go.bigEndian64_injective (by omega) (by omega) equal

theorem writeStr_selfDelimiting : SelfDelimiting (2 ^ 63) writeStr :=
  SelfDelimiting.lengthPrefixed Go.length_bigEndian64 bigEndian64_eq_of_addressable

theorem writeStr_ne_nil (text : Bytes) : writeStr text ≠ [] :=
  List.cons_ne_nil _ _

theorem writeStrSet_selfDelimiting (name : String) :
    SelfDelimiting (2 ^ 63) (writeStrSet name) := by
  have code := (SelfDelimiting.counted Go.length_bigEndian64 bigEndian64_eq_of_addressable
    writeStr_ne_nil writeStr_selfDelimiting).tagged (writeField name)
  unfold writeStrSet
  simpa only [List.append_assoc] using code

/-- The encoding of one selector. -/
def writeSelector (selector : ResourceSelector) : Bytes :=
  writeStr selector.kind ++ writeStr selector.value

theorem writeSelector_selfDelimiting : SelfDelimiting (2 ^ 63) writeSelector := by
  intro selector other rest otherRest within otherWithin equal
  have code := writeStr_selfDelimiting.append writeStr_selfDelimiting
  obtain ⟨parts, rests⟩ := @code (selector.kind, selector.value) (other.kind, other.value)
    rest otherRest within otherWithin equal
  obtain ⟨kinds, values⟩ := Prod.mk.inj parts
  refine ⟨?_, rests⟩
  rw [ResourceSelector.mk.injEq]
  exact ⟨kinds, values⟩

theorem writeSelector_ne_nil (selector : ResourceSelector) : writeSelector selector ≠ [] :=
  List.append_ne_nil_of_left_ne_nil (writeStr_ne_nil selector.kind) _

/-- The encoding of the set of selectors. -/
def writeSelectors (selectors : List ResourceSelector) : Bytes :=
  writeField "resources" ++ (bigEndian64 selectors.length ++ selectors.flatMap writeSelector)

theorem writeSelectors_selfDelimiting : SelfDelimiting (2 ^ 63) writeSelectors := by
  unfold writeSelectors
  exact (SelfDelimiting.counted Go.length_bigEndian64 bigEndian64_eq_of_addressable
    writeSelector_ne_nil writeSelector_selfDelimiting).tagged (writeField "resources")

theorem writeU64_selfDelimiting :
    SelfDelimiting (2 ^ 63) fun value : UInt64 => bigEndian64 value.toNat :=
  SelfDelimiting.of_width (fun _ => Go.length_bigEndian64 _) fun value other equal =>
    UInt64.toNat_inj.mp (Go.bigEndian64_injective value.toNat_lt other.toNat_lt equal)

theorem writeDepth_selfDelimiting :
    SelfDelimiting (2 ^ 63) fun value : UInt32 => bigEndian64 value.toNat :=
  SelfDelimiting.of_width (fun _ => Go.length_bigEndian64 _) fun value other equal =>
    UInt32.toNat_inj.mp (Go.bigEndian64_injective (Nat.lt_trans value.toNat_lt (by decide))
      (Nat.lt_trans other.toNat_lt (by decide)) equal)

theorem writeI64_selfDelimiting : SelfDelimiting (2 ^ 63) writeI64 :=
  SelfDelimiting.of_width (fun _ => Go.length_bigEndian64 _) fun value other equal =>
    congrArg UInt64.toInt64 (UInt64.toNat_inj.mp
      (Go.bigEndian64_injective value.toUInt64.toNat_lt other.toUInt64.toNat_lt equal))

/-- The fields of an authority, in the order of the encoding. -/
def Authority.fields (authority : Authority) :
    List Bytes × List Bytes × List ResourceSelector × List Bytes × (Bytes × UInt64) ×
      (Bytes × UInt64) × UInt32 × Int64 × Int64 :=
  (authority.scopes, authority.tools, authority.resources, authority.classes,
    (authority.spend.currency, authority.spend.amount),
    (authority.rate.per, authority.rate.limit), authority.depth,
    authority.validity.notBefore, authority.validity.notAfter)

theorem Authority.fields_injective : Function.Injective Authority.fields := by
  intro authority other equal
  obtain ⟨scopes, tools, resources, classes, ⟨amount, currency⟩, ⟨limit, per⟩, depth,
    ⟨notBefore, notAfter⟩⟩ := authority
  obtain ⟨scopes', tools', resources', classes', ⟨amount', currency'⟩, ⟨limit', per'⟩, depth',
    ⟨notBefore', notAfter'⟩⟩ := other
  simp only [fields, Prod.mk.injEq] at equal
  simp only [Authority.mk.injEq, Budget.mk.injEq, Rate.mk.injEq, Window.mk.injEq]
  tauto

/-- The encoding of the fields of an authority. -/
def writeFields (fields : List Bytes × List Bytes × List ResourceSelector × List Bytes ×
    (Bytes × UInt64) × (Bytes × UInt64) × UInt32 × Int64 × Int64) : Bytes :=
  let (scopes, tools, resources, classes, spend, rate, depth, validity) := fields
  bytes "agid/authority/v1" ++
    (writeStrSet "scopes" scopes ++
      (writeStrSet "tools" tools ++
        (writeSelectors resources ++
          (writeStrSet "classes" classes ++
            (writeField "spend" ++ (writeStr spend.1 ++ bigEndian64 spend.2.toNat) ++
              (writeField "rate" ++ (writeStr rate.1 ++ bigEndian64 rate.2.toNat) ++
                (writeField "depth" ++ bigEndian64 depth.toNat ++
                  (writeField "validity" ++
                    (writeI64 validity.1 ++ writeI64 validity.2)))))))))

theorem writeFields_selfDelimiting : SelfDelimiting (2 ^ 63) writeFields :=
  ((writeStrSet_selfDelimiting "scopes").append
    ((writeStrSet_selfDelimiting "tools").append
    (writeSelectors_selfDelimiting.append
    ((writeStrSet_selfDelimiting "classes").append
    (((writeStr_selfDelimiting.append writeU64_selfDelimiting).tagged (writeField "spend")).append
    (((writeStr_selfDelimiting.append writeU64_selfDelimiting).tagged (writeField "rate")).append
    ((writeDepth_selfDelimiting.tagged (writeField "depth")).append
    ((writeI64_selfDelimiting.append writeI64_selfDelimiting).tagged
      (writeField "validity"))))))))).tagged (bytes "agid/authority/v1")

theorem canonicalBytes_eq_writeFields (authority : Authority) (registry : ToolRegistry) :
    authority.canonicalBytes registry = writeFields (normalize authority registry).fields := by
  unfold Authority.canonicalBytes writeFields writeSelectors
  simp only [List.append_assoc]
  rfl

variable {registry : ToolRegistry}

theorem normalize_eq_of_canonicalBytes_eq {authority other : Authority}
    (addressable : (authority.canonicalBytes registry).length < 2 ^ 63)
    (equal : authority.canonicalBytes registry = other.canonicalBytes registry) :
    normalize authority registry = normalize other registry := by
  rw [canonicalBytes_eq_writeFields] at addressable equal
  rw [canonicalBytes_eq_writeFields] at equal
  exact Authority.fields_injective (writeFields_selfDelimiting.injective addressable equal)

/-- The linkage of a record: a root, or the digest of its parent. -/
def Record.linkage (record : Record) : Option Bytes :=
  if record.rootAnchor then none else some record.parentDigest

/-- The encoding of a linkage. -/
def linkageBytes : Option Bytes → Bytes
  | none => writeStr (bytes "root")
  | some parentDigest => writeStr (bytes "parent") ++ writeStr parentDigest

/-- The texts of a record before its linkage, in the order of the encoding. -/
def Record.leadingTexts (record : Record) (registry : ToolRegistry) : List Bytes :=
  [normToken record.tenantID, record.delegatorID, record.delegatorKey.id,
    record.delegatorKey.algorithm, record.delegateID, bytes "delegate_key_thumbprint",
    record.delegateKeyThumbprint, bytes "authority", record.authority.canonicalBytes registry,
    bytes "depth_remaining"]

/-- The numbers of a record before its linkage. -/
def Record.numbers (record : Record) : Bytes :=
  bigEndian64 record.depthRemaining.toNat ++ writeField "validity" ++
    writeI64 record.validity.notBefore ++ writeI64 record.validity.notAfter ++
    writeField "linkage"

theorem canonicalBytes_eq (record : Record) (registry : ToolRegistry) :
    record.canonicalBytes registry =
      bytes "agid/delegation/record/v1" ++
        ((record.leadingTexts registry).flatMap writeStr ++
          (record.numbers ++ (linkageBytes record.linkage ++
            (writeField "task_digest" ++ writeStr record.taskDigest)))) := by
  have linkage : linkageBytes record.linkage =
      if record.rootAnchor then writeStr (bytes "root")
        else writeStr (bytes "parent") ++ writeStr record.parentDigest := by
    unfold Record.linkage
    cases record.rootAnchor with
    | true => rfl
    | false => rfl
  rw [linkage]
  unfold Record.canonicalBytes Record.leadingTexts Record.numbers writeField
  simp only [List.flatMap_cons, List.flatMap_nil, List.append_nil, List.append_assoc]

theorem linkageBytes_selfDelimiting : SelfDelimiting (2 ^ 63) linkageBytes := by
  have tags : ∀ rest otherRest : Bytes,
      writeStr (bytes "root") ++ rest ≠ writeStr (bytes "parent") ++ otherRest := by
    intro rest otherRest same
    have names := (writeStr_selfDelimiting (by decide) (by decide) same).1
    exact absurd names (by decide)
  intro linkage other rest otherRest within otherWithin equal
  cases linkage with
  | none =>
      cases other with
      | none => exact ⟨rfl, List.append_cancel_left equal⟩
      | some otherDigest =>
          rw [linkageBytes, linkageBytes, List.append_assoc] at equal
          exact absurd equal (tags _ _)
  | some digest =>
      cases other with
      | none =>
          rw [linkageBytes, linkageBytes, List.append_assoc] at equal
          exact absurd equal.symm (tags _ _)
      | some otherDigest =>
          obtain ⟨same, rests⟩ := writeStr_selfDelimiting.tagged (writeStr (bytes "parent"))
            within otherWithin equal
          exact ⟨congrArg some same, rests⟩

variable {record : Record}

theorem addressable_parts (addressable : (record.canonicalBytes registry).length < 2 ^ 63) :
    ((record.leadingTexts registry).flatMap writeStr).length < 2 ^ 63 ∧
      (linkageBytes record.linkage).length < 2 ^ 63 ∧
      (writeStr record.taskDigest).length < 2 ^ 63 := by
  rw [canonicalBytes_eq] at addressable
  simp only [List.length_append] at addressable
  omega

variable {other : Record}

theorem parts_eq_of_canonicalBytes_eq
    (addressable : (record.canonicalBytes registry).length < 2 ^ 63)
    (equal : record.canonicalBytes registry = other.canonicalBytes registry) :
    record.leadingTexts registry = other.leadingTexts registry ∧
      record.numbers = other.numbers ∧
      record.linkage = other.linkage ∧
      record.taskDigest = other.taskDigest := by
  have otherAddressable : (other.canonicalBytes registry).length < 2 ^ 63 := equal ▸ addressable
  obtain ⟨texts, linkages, digests⟩ := addressable_parts addressable
  obtain ⟨otherTexts, otherLinkages, otherDigests⟩ := addressable_parts otherAddressable
  rw [canonicalBytes_eq, canonicalBytes_eq] at equal
  have counts : (record.leadingTexts registry).length = (other.leadingTexts registry).length := by
    unfold Record.leadingTexts
    simp only [List.length_cons, List.length_nil]
  obtain ⟨sameTexts, afterTexts⟩ := writeStr_selfDelimiting.flatMap counts texts otherTexts
    (List.append_cancel_left equal)
  have widths : record.numbers.length = other.numbers.length := by
    unfold Record.numbers writeI64
    simp only [List.length_append, Go.length_bigEndian64]
  obtain ⟨sameNumbers, afterNumbers⟩ := List.append_inj afterTexts widths
  obtain ⟨sameLinkage, afterLinkage⟩ := linkageBytes_selfDelimiting linkages otherLinkages
    afterNumbers
  exact ⟨sameTexts, sameNumbers, sameLinkage,
    writeStr_selfDelimiting.injective digests (List.append_cancel_left afterLinkage)⟩

theorem linkage_eq_of_canonicalBytes_eq
    (addressable : (record.canonicalBytes registry).length < 2 ^ 63)
    (equal : record.canonicalBytes registry = other.canonicalBytes registry) :
    record.linkage = other.linkage :=
  (parts_eq_of_canonicalBytes_eq addressable equal).2.2.1

theorem numbers_injective (equal : record.numbers = other.numbers) :
    record.depthRemaining = other.depthRemaining ∧ record.validity = other.validity := by
  have code := (writeDepth_selfDelimiting.append
    ((writeI64_selfDelimiting.append writeI64_selfDelimiting).tagged (writeField "validity")))
  have parts : bigEndian64 record.depthRemaining.toNat ++ (writeField "validity" ++
      (writeI64 record.validity.notBefore ++ writeI64 record.validity.notAfter)) =
      bigEndian64 other.depthRemaining.toNat ++ (writeField "validity" ++
        (writeI64 other.validity.notBefore ++ writeI64 other.validity.notAfter)) := by
    unfold Record.numbers at equal
    simpa only [List.append_assoc] using List.append_cancel_right equal
  have same := @SelfDelimiting.injective _ _ _ _ code
    (record.depthRemaining, record.validity.notBefore, record.validity.notAfter)
    (other.depthRemaining, other.validity.notBefore, other.validity.notAfter)
    (by simp [writeI64, writeField, writeStr]; decide) parts
  simp only [Prod.mk.injEq] at same
  obtain ⟨depths, starts, ends⟩ := same
  refine ⟨depths, ?_⟩
  rw [Window.mk.injEq]
  exact ⟨starts, ends⟩

theorem rootAnchor_of_linkage (equal : record.linkage = other.linkage) :
    record.rootAnchor = other.rootAnchor ∧
      (record.rootAnchor = false → record.parentDigest = other.parentDigest) := by
  unfold Record.linkage at equal
  cases anchored : record.rootAnchor with
  | true =>
      cases otherAnchored : other.rootAnchor with
      | true => simp
      | false => simp [anchored, otherAnchored] at equal
  | false =>
      cases otherAnchored : other.rootAnchor with
      | true => simp [anchored, otherAnchored] at equal
      | false => simpa [anchored, otherAnchored] using equal

/-- What the canonical bytes of a record say. -/
structure Record.SameContent (record other : Record) (registry : ToolRegistry) : Prop where
  tenantID : normToken record.tenantID = normToken other.tenantID
  delegatorID : record.delegatorID = other.delegatorID
  delegatorKey : record.delegatorKey = other.delegatorKey
  delegateID : record.delegateID = other.delegateID
  delegateKeyThumbprint : record.delegateKeyThumbprint = other.delegateKeyThumbprint
  authority : normalize record.authority registry = normalize other.authority registry
  depthRemaining : record.depthRemaining = other.depthRemaining
  validity : record.validity = other.validity
  rootAnchor : record.rootAnchor = other.rootAnchor
  parentDigest : record.rootAnchor = false → record.parentDigest = other.parentDigest
  taskDigest : record.taskDigest = other.taskDigest

theorem sameContent_of_canonicalBytes_eq
    (addressable : (record.canonicalBytes registry).length < 2 ^ 63)
    (equal : record.canonicalBytes registry = other.canonicalBytes registry) :
    record.SameContent other registry := by
  obtain ⟨texts, numbers, linkage, taskDigest⟩ := parts_eq_of_canonicalBytes_eq addressable equal
  obtain ⟨depthRemaining, validity⟩ := numbers_injective numbers
  obtain ⟨rootAnchor, parentDigest⟩ := rootAnchor_of_linkage linkage
  have within := (addressable_parts addressable).1
  unfold Record.leadingTexts at texts within
  simp only [List.cons.injEq, true_and] at texts
  obtain ⟨tenantID, delegatorID, keyID, algorithm, delegateID, thumbprint, authority, -⟩ := texts
  have authorityWithin : (record.authority.canonicalBytes registry).length < 2 ^ 63 := by
    simp only [List.flatMap_cons, writeStr, List.length_append] at within
    omega
  exact
    { tenantID
      delegatorID
      delegatorKey := by rw [KeyRef.mk.injEq]; exact ⟨keyID, algorithm⟩
      delegateID
      delegateKeyThumbprint := thumbprint
      authority := normalize_eq_of_canonicalBytes_eq authorityWithin authority
      depthRemaining
      validity
      rootAnchor
      parentDigest
      taskDigest }

/-- Canonical bytes are equal exactly when normal forms are, and those of
records determine what the records say. -/
theorem canonicalBytes_determine_content (registry : ToolRegistry) :
    (∀ authority other : Authority, (authority.canonicalBytes registry).length < 2 ^ 63 →
      (authority.canonicalBytes registry = other.canonicalBytes registry ↔
        normalize authority registry = normalize other registry)) ∧
    ∀ record other : Record, (record.canonicalBytes registry).length < 2 ^ 63 →
      record.canonicalBytes registry = other.canonicalBytes registry →
      record.SameContent other registry := by
  refine ⟨fun authority other addressable => ?_, fun record other addressable equal => ?_⟩
  · constructor
    · exact normalize_eq_of_canonicalBytes_eq addressable
    · intro equal
      rw [canonicalBytes_eq_writeFields, canonicalBytes_eq_writeFields, equal]
  · exact sameContent_of_canonicalBytes_eq addressable equal

/-- An authority over one path and tool, as spelled. -/
def pathAuthority (tool path : String) (amount : UInt64) : Authority where
  scopes := [bytes "read"]
  tools := [bytes tool]
  resources := [{ kind := bytes "path", value := bytes path }]
  classes := []
  spend := { amount := amount, currency := bytes "usd" }
  rate := { limit := 1, per := bytes "hour" }
  depth := 1
  validity := { notBefore := 0, notAfter := 0 }

/-- A record that confers such an authority. -/
def pathRecord (tenantID tool path : String) : Record where
  tenantID := bytes tenantID
  delegatorID := bytes "agent"
  delegatorKey := { id := bytes "agent-key", algorithm := bytes "ECDSA-P256" }
  delegateID := bytes "helper"
  delegateKeyThumbprint := [1]
  authority := pathAuthority tool path 5
  depthRemaining := 1
  validity := { notBefore := 0, notAfter := 9 }
  rootAnchor := false
  parentDigest := [2]
  taskDigest := []
  signature := []

/-- The theorem at two spellings of one authority. -/
theorem canonicalBytes_determine_content_spellings :
    normalize (pathAuthority " Grep" "/data/" 5) none =
        normalize (pathAuthority "grep" "/data" 5) none ∧
      (pathRecord "A" "grep" "/data/").SameContent (pathRecord "a " "GREP" "/data") none :=
  ⟨((canonicalBytes_determine_content none).1 (pathAuthority " Grep" "/data/" 5)
      (pathAuthority "grep" "/data" 5) (by decide +kernel)).mp (by decide +kernel),
    (canonicalBytes_determine_content none).2 (pathRecord "A" "grep" "/data/")
      (pathRecord "a " "GREP" "/data") (by decide +kernel) (by decide +kernel)⟩

theorem withinParent_congr {authority other : Authority}
    (equal : normalize authority registry = normalize other registry) (third : Authority) :
    withinParent authority third registry = withinParent other third registry ∧
      withinParent third authority registry = withinParent third other registry := by
  unfold withinParent
  rw [equal]
  exact ⟨rfl, rfl⟩

/-- The comparison is a preorder on what authorities sign. -/
theorem withinParent_preorder (registry : ToolRegistry) :
    (∀ authority : Authority, withinParent authority authority registry = true) ∧
    (∀ child middle parent : Authority, withinParent child middle registry = true →
      withinParent middle parent registry = true → withinParent child parent registry = true) ∧
    ∀ authority other third : Authority,
      (authority.canonicalBytes registry).length < 2 ^ 63 →
      authority.canonicalBytes registry = other.canonicalBytes registry →
      withinParent authority third registry = withinParent other third registry ∧
        withinParent third authority registry = withinParent third other registry := by
  refine ⟨fun authority => withinParent_refl authority registry,
    fun child middle parent => withinParent_trans, ?_⟩
  intro authority other third addressable equal
  exact withinParent_congr (normalize_eq_of_canonicalBytes_eq addressable equal) third

/-- The theorem at three nested paths and at two spellings of the outermost. -/
theorem withinParent_preorder_nested :
    withinParent (pathAuthority "grep" "/data/a/b" 3) (pathAuthority "grep" "/data" 5) none =
        true ∧
      withinParent (pathAuthority "grep" "/data" 5) (pathAuthority "grep" "/" 5) none =
        withinParent (pathAuthority " GREP" "/data//" 5) (pathAuthority "grep" "/" 5) none := by
  obtain ⟨-, transitive, canonical⟩ := withinParent_preorder none
  exact ⟨transitive _ (pathAuthority "grep" "/data/a" 4) _ (by decide +kernel) (by decide +kernel),
    (canonical _ _ _ (by decide +kernel) (by decide +kernel)).1⟩

end Trstctl.Agentid.Delegation
