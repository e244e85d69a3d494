import Trstctl.Library.Result
import Trstctl.Reconcile.Canon.Record

/-!
# Reading canonical bytes

The canonical bytes of a record are an object with nine members in a fixed
order, so equal bytes have equal members.  In particular they name the same
authority.
-/

namespace Trstctl.Reconcile.Canon

open Go (Bytes bytes IsValue)
open Result (bind_eq_ok)

variable {primitives : Primitives}

theorem isValue_writeJSONString (text : Bytes) : IsValue (writeJSONString primitives text) :=
  Go.isValue_jsonStringPlain _

def memberText (primitives : Primitives) (member : Bytes × Bytes) : Bytes :=
  writeJSONString primitives member.1 ++ bytes ":" ++ member.2

theorem isValue_memberText {member : Bytes × Bytes} (isValue : IsValue member.2) :
    IsValue (memberText primitives member) := by
  have colon : IsValue (bytes ":") := Go.isValue_scalar (by decide +kernel)
  exact ((isValue_writeJSONString _).append colon).append isValue

variable {members : Go.Map Bytes}

theorem mem_sortMembers {member : Bytes × Bytes} :
    member ∈ sortMembers members ↔ member ∈ members :=
  (List.perm_insertionSort _ members).mem_iff

theorem isValue_writeObject (values : ∀ member ∈ members, IsValue member.2) :
    IsValue (writeObject primitives members) := by
  refine Go.isValue_jsonObject fun text textMember => ?_
  obtain ⟨member, found, rfl⟩ := List.mem_map.mp textMember
  exact isValue_memberText (values member (mem_sortMembers.mp found))

variable {text : Bytes}

theorem forall_mem_set {written : Go.Map Bytes} {name : Bytes}
    (values : ∀ member ∈ written, IsValue member.2) (isValue : IsValue text) :
    ∀ member ∈ written.set name text, IsValue member.2 := by
  intro member found
  rcases List.mem_cons.mp found with rfl | kept
  · exact isValue
  · exact values member (List.mem_filter.mp kept).1

mutual

theorem isValue_json : ∀ {value : Value} {text : Bytes},
    value.json primitives = .ok text → IsValue text
  | .invalid, _, written => by
      rw [Value.json] at written
      cases written
  | .bool value, _, written => by
      rw [Value.json] at written
      rw [← Except.ok.inj written]
      exact Go.isValue_jsonBool value
  | .int value, _, written => by
      rw [Value.json] at written
      rw [← Except.ok.inj written]
      exact Go.isValue_decimal value
  | .string kind source, _, written => by
      rw [Value.json] at written
      obtain ⟨normalized, -, written⟩ := bind_eq_ok.mp written
      split at written
      · cases written
      · rw [← Except.ok.inj written]
        exact isValue_writeJSONString _
  | .bytes source, _, written => by
      rw [Value.json] at written
      split at written
      · cases written
      · rw [← Except.ok.inj written]
        exact isValue_writeJSONString _
  | .array items, _, written => by
      rw [Value.json] at written
      obtain ⟨texts, items_eq, written⟩ := bind_eq_ok.mp written
      rw [← Except.ok.inj written]
      exact Go.isValue_jsonArray (isValue_jsonItems items_eq)
  | .object members, _, written => by
      rw [Value.json] at written
      obtain ⟨texts, members_eq, written⟩ := bind_eq_ok.mp written
      rw [← Except.ok.inj written]
      exact isValue_writeObject
        (isValue_jsonMembers (fun member found => absurd found List.not_mem_nil) members_eq)

theorem isValue_jsonItems : ∀ {items : List Value} {texts : List Bytes},
    jsonItems primitives items = .ok texts → ∀ text ∈ texts, IsValue text
  | [], texts, written => by
      rw [jsonItems] at written
      rw [← Except.ok.inj written]
      exact fun text found => absurd found List.not_mem_nil
  | item :: rest, texts, written => by
      rw [jsonItems] at written
      obtain ⟨text, item_eq, written⟩ := bind_eq_ok.mp written
      obtain ⟨others, rest_eq, written⟩ := bind_eq_ok.mp written
      rw [← Except.ok.inj written]
      exact List.forall_mem_cons.mpr ⟨isValue_json item_eq, isValue_jsonItems rest_eq⟩

theorem isValue_jsonMembers : ∀ {site : MemberSite} {members : List (Bytes × Value)}
    {start texts : Go.Map Bytes},
    (∀ member ∈ start, IsValue member.2) →
      jsonMembers primitives site start members = .ok texts →
        ∀ member ∈ texts, IsValue member.2
  | site, [], start, texts, values, written => by
      rw [jsonMembers] at written
      rw [← Except.ok.inj written]
      exact values
  | site, (raw, value) :: rest, start, texts, values, written => by
      rw [jsonMembers] at written
      split at written
      · cases written
      · split at written
        · cases written
        · split at written
          · cases written
          · obtain ⟨text, value_eq, written⟩ := bind_eq_ok.mp written
            exact isValue_jsonMembers (forall_mem_set values (isValue_json value_eq)) written

end

theorem writeObject_of_sorted (sorted : (members.map Prod.fst).Pairwise (· ≤ ·)) :
    writeObject primitives members = Go.jsonObject (members.map (memberText primitives)) := by
  have unchanged : sortMembers members = members :=
    (List.pairwise_map.mp sorted).insertionSort_eq
  rw [writeObject, unchanged]
  rfl

/-- Objects with members under the same names have equal members when their
texts are equal. -/
theorem eq_of_writeObject_eq {others : Go.Map Bytes}
    (names : members.map Prod.fst = others.map Prod.fst)
    (sorted : (members.map Prod.fst).Pairwise (· ≤ ·))
    (values : ∀ member ∈ members, IsValue member.2)
    (otherValues : ∀ member ∈ others, IsValue member.2)
    (equal : writeObject primitives members = writeObject primitives others) :
    members = others := by
  rw [writeObject_of_sorted sorted, writeObject_of_sorted (names ▸ sorted)] at equal
  have texts : members.map (memberText primitives) = others.map (memberText primitives) := by
    cases members with
    | nil =>
        cases others with
        | nil => rfl
        | cons other more => cases names
    | cons member rest =>
        cases others with
        | nil => cases names
        | cons other more =>
            rw [List.map_cons, List.map_cons] at equal ⊢
            refine Go.eq_of_jsonObject_eq ?_ ?_ equal
            · rw [← List.map_cons]
              exact List.forall_mem_map.mpr
                fun member found => isValue_memberText (values member found)
            · rw [← List.map_cons]
              exact List.forall_mem_map.mpr fun member found =>
                isValue_memberText (otherValues member found)
  -- Names and texts determine the values, member by member.
  clear equal sorted values otherValues
  induction members generalizing others with
  | nil =>
      cases others with
      | nil => rfl
      | cons other more => cases names
  | cons member rest ih =>
      cases others with
      | nil => cases names
      | cons other more =>
          obtain ⟨name_eq, restNames⟩ := List.cons.inj names
          obtain ⟨text_eq, restTexts⟩ := List.cons.inj texts
          rw [memberText, memberText, name_eq] at text_eq
          rw [Prod.ext name_eq (List.append_cancel_left text_eq),
            ih restNames restTexts]

def provenanceMembers (primitives : Primitives) (provenance : Provenance) : Go.Map Bytes :=
  [stringMember primitives "authority_id" (normalizeID primitives provenance.authorityID),
    stringMember primitives "native_id" (normalizeID primitives provenance.nativeID)]

theorem sorted_provenanceMembers (provenance : Provenance) :
    ((provenanceMembers primitives provenance).map Prod.fst).Pairwise (· ≤ ·) := by
  change ([bytes "authority_id", bytes "native_id"] : List Bytes).Pairwise (· ≤ ·)
  decide +kernel

theorem isValue_provenanceMembers (provenance : Provenance) :
    ∀ member ∈ provenanceMembers primitives provenance, IsValue member.2 := by
  simp only [provenanceMembers, stringMember, List.forall_mem_cons]
  exact ⟨isValue_writeJSONString _, isValue_writeJSONString _,
    fun member found => absurd found List.not_mem_nil⟩

theorem isValue_keyJSON (key : RecordKey) : IsValue (keyJSON primitives key) := by
  refine isValue_writeObject ?_
  simp only [stringMember, List.forall_mem_cons]
  exact ⟨isValue_writeJSONString _, isValue_writeJSONString _, isValue_writeJSONString _,
    fun member found => absurd found List.not_mem_nil⟩

theorem isValue_validity (validity : Validity) : IsValue (validity.json primitives) := by
  have instants : ∀ (name : String) (instant : Option Int),
      ∀ member ∈ instantMember name instant, IsValue member.2 := by
    intro name instant member found
    cases instant with
    | none => cases found
    | some seconds =>
        rw [List.mem_singleton.mp found]
        exact Go.isValue_decimal seconds
  refine isValue_writeObject fun member found => ?_
  simp only [List.mem_append] at found
  rcases found with ((created | deleted) | notAfter) | notBefore
  · exact instants _ _ _ created
  · exact instants _ _ _ deleted
  · exact instants _ _ _ notAfter
  · exact instants _ _ _ notBefore

theorem sorted_recordMembers (record : CanonicalRecord) (attributes : Go.Map Bytes) :
    ((recordMembers primitives record attributes).map Prod.fst).Pairwise (· ≤ ·) := by
  change ([bytes "algorithm", bytes "attributes", bytes "provenance", bytes "record_key",
    bytes "record_type", bytes "spec_version", bytes "status", bytes "tenant_id",
    bytes "validity"] : List Bytes).Pairwise (· ≤ ·)
  decide +kernel

theorem isValue_recordMembers {record : CanonicalRecord} {attributes : Go.Map Bytes}
    (canonical : canonicalizeAttributes primitives record.attributes = .ok attributes) :
    ∀ member ∈ recordMembers primitives record attributes, IsValue member.2 := by
  have attributesValue : IsValue (writeObject primitives attributes) :=
    isValue_writeObject
      (isValue_jsonMembers (fun member found => absurd found List.not_mem_nil) canonical)
  simp only [recordMembers, stringMember, List.forall_mem_cons]
  exact ⟨isValue_writeJSONString _, attributesValue,
    isValue_writeObject (isValue_provenanceMembers _), isValue_keyJSON _,
    isValue_writeJSONString _, isValue_writeJSONString _, isValue_writeJSONString _,
    isValue_writeJSONString _, isValue_validity _,
    fun member found => absurd found List.not_mem_nil⟩

theorem canonicalBytes_eq_ok {record : CanonicalRecord}
    (written : record.canonicalBytes primitives = .ok text) :
    ∃ attributes, canonicalizeAttributes primitives record.attributes = .ok attributes ∧
      text = writeObject primitives (recordMembers primitives record attributes) := by
  obtain ⟨attributes, canonical, written⟩ := bind_eq_ok.mp written
  exact ⟨attributes, canonical, (Except.ok.inj written).symm⟩

def authorityText (primitives : Primitives) (authorityID : Bytes) : Bytes :=
  writeJSONString primitives (normalizeID primitives authorityID)

theorem authorityText_eq_of_canonicalBytes_eq {record other : CanonicalRecord}
    (written : record.canonicalBytes primitives = .ok text)
    (otherWritten : other.canonicalBytes primitives = .ok text) :
    authorityText primitives record.provenance.authorityID =
      authorityText primitives other.provenance.authorityID := by
  obtain ⟨attributes, canonical, text_eq⟩ := canonicalBytes_eq_ok written
  obtain ⟨otherAttributes, otherCanonical, otherText_eq⟩ := canonicalBytes_eq_ok otherWritten
  have members : recordMembers primitives record attributes =
      recordMembers primitives other otherAttributes :=
    eq_of_writeObject_eq rfl (sorted_recordMembers record attributes)
      (isValue_recordMembers canonical) (isValue_recordMembers otherCanonical)
      (text_eq.symm.trans otherText_eq)
  have provenance : record.provenance.json primitives = other.provenance.json primitives := by
    have third := congrArg (fun members : Go.Map Bytes => (members.drop 2).head?) members
    exact (Prod.mk.inj (Option.some.inj third)).2
  have names : provenanceMembers primitives record.provenance =
      provenanceMembers primitives other.provenance :=
    eq_of_writeObject_eq rfl (sorted_provenanceMembers _) (isValue_provenanceMembers _)
      (isValue_provenanceMembers _) provenance
  exact (Prod.mk.inj (List.cons.inj names).1).2

/-- The length octets of a DER element and its contents. -/
def derLength : Bytes → Option (Nat × Bytes)
  | [] => none
  | first :: rest =>
      if first.toNat < 0x80 then some (first.toNat, rest)
      else if first.toNat = 0x80 ∨ rest.length < first.toNat - 0x80 then none
      else
        some ((rest.take (first.toNat - 0x80)).foldl (fun number byte =>
          number * 256 + byte.toNat) 0,
          rest.drop (first.toNat - 0x80))

/-- A DER sequence, such as the name of an issuer. -/
def IsDerSequence (name : Bytes) : Prop :=
  ∃ text contents, name = 0x30 :: text ∧ derLength text = some (contents.length, contents)

theorem derLength_append {contents : Bytes} {length : Nat}
    (read : derLength text = some (length, contents)) (rest : Bytes) :
    derLength (text ++ rest) = some (length, contents ++ rest) := by
  rcases text with _ | ⟨first, text⟩
  · cases read
  · rw [derLength] at read
    rw [List.cons_append, derLength]
    by_cases short : first.toNat < 0x80
    · rw [if_pos short] at read ⊢
      obtain ⟨rfl, rfl⟩ : first.toNat = length ∧ text = contents := by simpa using read
      rfl
    · rw [if_neg short] at read ⊢
      by_cases refused : first.toNat = 0x80 ∨ text.length < first.toNat - 0x80
      · rw [if_pos refused] at read
        cases read
      · rw [if_neg refused] at read
        rw [if_neg (by rw [List.length_append]; omega),
          List.take_append_of_le_length (by omega), List.drop_append_of_le_length (by omega)]
        obtain ⟨rfl, rfl⟩ := Prod.mk.inj (Option.some.inj read)
        rfl

theorem IsDerSequence.eq_of_append_eq {name other rest otherRest : Bytes} (der : IsDerSequence name)
    (otherDer : IsDerSequence other) (equal : name ++ rest = other ++ otherRest) :
    name = other ∧ rest = otherRest := by
  obtain ⟨text, contents, rfl, read⟩ := der
  obtain ⟨otherText, otherContents, rfl, otherRead⟩ := otherDer
  have texts : text ++ rest = otherText ++ otherRest := (List.cons.inj equal).2
  have whole := derLength_append read rest
  have otherWhole := derLength_append otherRead otherRest
  rw [texts, otherWhole] at whole
  obtain ⟨lengths, parts⟩ := Prod.mk.inj (Option.some.inj whole)
  have rests : rest = otherRest := ((List.append_inj parts) lengths).2.symm
  subst rests
  exact ⟨congrArg _ (List.append_cancel_right texts), rfl⟩

/-- The digits a serial number is spelled with. -/
def serialDigits (serial : Bytes) : Bytes :=
  (Go.trimSpace serial).filter fun byte => !(bytes ": -").contains byte

/-- The number that hexadecimal digits spell. -/
def hexNumber (digits : Bytes) : Nat :=
  digits.foldl (fun number digit => number * 16 + (Go.hexValue digit).getD 0) 0

/-- The serial number a spelling stands for. -/
def serialNumber (serial : Bytes) : Nat :=
  hexNumber (serialDigits serial)

/-- The number of bytes a spelling has digits for. -/
def serialBytes (serial : Bytes) : Nat :=
  ((serialDigits serial).length + 1) / 2

/-- The number that bytes spell. -/
def bytesNumber (text : Bytes) : Nat :=
  text.foldl (fun number byte => number * 256 + byte.toNat) 0

theorem hexValue_lt {digit : UInt8} {value : Nat} (read : Go.hexValue digit = some value) :
    value < 16 := by
  unfold Go.hexValue at read
  grind

theorem hexDecode_spec {digits decoded : Bytes}
    (read : Go.hexDecode digits = some decoded) (start : Nat) :
    digits.length = 2 * decoded.length ∧
      digits.foldl (fun number digit => number * 16 + (Go.hexValue digit).getD 0) start =
        decoded.foldl (fun number byte => number * 256 + byte.toNat) start := by
  fun_induction Go.hexDecode digits generalizing decoded start with
  | case1 =>
      obtain rfl := Option.some.inj read
      exact ⟨rfl, rfl⟩
  | case2 => cases read
  | case3 high low rest highValue lowValue tail tailRead highRead lowRead ih =>
      obtain rfl := Option.some.inj read
      have highBound := hexValue_lt highRead
      have lowBound := hexValue_lt lowRead
      have byte : (highValue * 16 + lowValue).toUInt8.toNat = highValue * 16 + lowValue := by
        rw [Nat.toUInt8, UInt8.toNat_ofNat']
        omega
      obtain ⟨lengths, numbers⟩ := ih tailRead
        (start * 256 + (highValue * 16 + lowValue))
      refine ⟨by simp only [List.length_cons]; omega, ?_⟩
      rw [List.foldl_cons, List.foldl_cons, List.foldl_cons, highRead, lowRead, byte, ← numbers]
      congr 1
      simp only [Option.getD_some]
      omega
  | case4 => cases read

/-- The bytes of an accepted spelling: as many as it has digits for, and of the
number it stands for. -/
theorem decodeSerialHex_spec {serial decoded : Bytes}
    (accepted : decodeSerialHex serial = .ok decoded) :
    decoded.length = serialBytes serial ∧ bytesNumber decoded = serialNumber serial := by
  rw [decodeSerialHex, ← serialDigits] at accepted
  rw [serialBytes, serialNumber, bytesNumber, hexNumber]
  generalize serialDigits serial = digits at accepted
  split at accepted
  · cases accepted
  · split at accepted
    · cases accepted
    · rename_i read
      obtain rfl := Except.ok.inj accepted
      by_cases odd : digits.length % 2 = 1
      · rw [if_pos odd] at read
        obtain ⟨lengths, numbers⟩ := hexDecode_spec read 0
        have zero : bytes "0" = [0x30] := by decide
        rw [zero, List.singleton_append] at lengths numbers
        rw [List.length_cons] at lengths
        exact ⟨by omega, numbers.symm⟩
      · rw [if_neg odd] at read
        obtain ⟨lengths, numbers⟩ := hexDecode_spec read 0
        exact ⟨by omega, numbers.symm⟩

theorem eq_of_foldl_eq {other : Bytes} (lengths : text.length = other.length)
    {start otherStart : Nat}
    (numbers : text.foldl (fun number byte => number * 256 + byte.toNat) start =
      other.foldl (fun number byte => number * 256 + byte.toNat) otherStart) :
    start = otherStart ∧ text = other := by
  induction text generalizing other start otherStart with
  | nil =>
      obtain rfl := List.length_eq_zero_iff.mp lengths.symm
      exact ⟨numbers, rfl⟩
  | cons byte text ih =>
      rcases other with _ | ⟨otherByte, other⟩
      · cases lengths
      · obtain ⟨heads, rfl⟩ := ih (Nat.succ.inj lengths) numbers
        simp only at heads
        have bound := byte.toNat_lt
        have otherBound := otherByte.toNat_lt
        obtain rfl : byte = otherByte := UInt8.toNat_inj.mp (by omega)
        exact ⟨by omega, rfl⟩

/-- Two certificates have one identity when issuer and serial number are the
same, and only then, unless one spelling of the number has more bytes than the
other. -/
theorem x509StableID_eq_iff
    {issuer other serialHex otherHex serial otherSerial : Bytes}
    (binds : Hash.Binds primitives.sha256Sum {issuer ++ serial})
    (der : IsDerSequence issuer)
    (otherDer : IsDerSequence other)
    (accepted : decodeSerialHex serialHex = .ok serial)
    (otherAccepted : decodeSerialHex otherHex = .ok otherSerial) :
    (x509StableID primitives issuer serialHex = x509StableID primitives other otherHex ↔
        issuer = other ∧ serialNumber serialHex = serialNumber otherHex) ↔
      issuer ≠ other ∨ serialNumber serialHex ≠ serialNumber otherHex ∨
        serialBytes serialHex = serialBytes otherHex := by
  have spec := decodeSerialHex_spec accepted
  have otherSpec := decodeSerialHex_spec otherAccepted
  have ids : x509StableID primitives issuer serialHex = x509StableID primitives other otherHex ↔
      issuer = other ∧ serial = otherSerial := by
    rw [x509StableID, x509StableID, accepted, otherAccepted]
    constructor
    · intro equal
      have digests := Go.hexEncode_injective (Except.ok.inj equal)
      exact der.eq_of_append_eq otherDer (binds.eq_of_hash_eq _ rfl _ digests.symm).symm
    · rintro ⟨rfl, rfl⟩
      rfl
  rw [ids, ← spec.1, ← spec.2, ← otherSpec.1, ← otherSpec.2]
  constructor
  · intro exact
    by_contra! denied
    obtain ⟨issuers, numbers, lengths⟩ := denied
    exact lengths (congrArg List.length (exact.mpr ⟨issuers, numbers⟩).2)
  · rintro (issuers | numbers | lengths)
    · exact ⟨fun equal => absurd equal.1 issuers, fun equal => absurd equal.1 issuers⟩
    · exact ⟨fun equal => absurd (congrArg bytesNumber equal.2) numbers,
        fun equal => absurd equal.2 numbers⟩
    · exact ⟨fun equal => ⟨equal.1, congrArg bytesNumber equal.2⟩,
        fun equal => ⟨equal.1, (eq_of_foldl_eq lengths equal.2).2⟩⟩

/-- Primitives whose digests tell the identities of one certificate apart. -/
def serialPrimitives : Primitives where
  nfc text := text
  sha256Sum := Hash.numbering [[0x30, 0x00, 0xAB], [0x30, 0x00, 0x00, 0xAB]]
  parseURL _ := none
  escapedPath _ := []
  urlString _ := []

theorem serialPrimitives_binds :
    Hash.Binds serialPrimitives.sha256Sum {[0x30, 0x00] ++ [0xAB]} :=
  (Hash.numbering_binds _ (by decide)).mono (by
    rintro text rfl
    exact List.mem_cons_self)

theorem isDerSequence_empty : IsDerSequence [0x30, 0x00] :=
  ⟨[0x00], [], rfl, rfl⟩

/-- Two spellings of one serial number are one identity. -/
theorem x509StableID_eq_iff_spellings :
    x509StableID serialPrimitives [0x30, 0x00] (bytes "AB") =
        x509StableID serialPrimitives [0x30, 0x00] (bytes " a:b ") ↔
      [(0x30 : UInt8), 0x00] = [0x30, 0x00] ∧
        serialNumber (bytes "AB") = serialNumber (bytes " a:b ") :=
  (x509StableID_eq_iff serialPrimitives_binds isDerSequence_empty isDerSequence_empty
    (show decodeSerialHex (bytes "AB") = .ok [0xAB] by decide +kernel)
    (show decodeSerialHex (bytes " a:b ") = .ok [0xAB] by decide +kernel)).mpr
    (Or.inr (Or.inr (by decide +kernel)))

/-- A leading zero byte changes the identity and not the number. -/
theorem x509StableID_splits_leading_zeros :
    IsDerSequence [0x30, 0x00] ∧
      decodeSerialHex (bytes "AB") = .ok [0xAB] ∧
      decodeSerialHex (bytes "00AB") = .ok [0x00, 0xAB] ∧
      ¬ (x509StableID serialPrimitives [0x30, 0x00] (bytes "AB") =
          x509StableID serialPrimitives [0x30, 0x00] (bytes "00AB") ↔
        [(0x30 : UInt8), 0x00] = [0x30, 0x00] ∧
          serialNumber (bytes "AB") = serialNumber (bytes "00AB")) := by
  refine ⟨isDerSequence_empty, by decide +kernel, by decide +kernel, fun exact => ?_⟩
  have ids : x509StableID serialPrimitives [0x30, 0x00] (bytes "AB") ≠
      x509StableID serialPrimitives [0x30, 0x00] (bytes "00AB") := by decide +kernel
  exact ids (exact.mpr ⟨rfl, by decide +kernel⟩)

end Trstctl.Reconcile.Canon
