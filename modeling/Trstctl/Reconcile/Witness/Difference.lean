import Mathlib.Data.List.Dedup
import Trstctl.Reconcile.Digest.Completeness
import Trstctl.Reconcile.Witness.Verify

/-!
# The difference of two planes

The records in which two planes differ, with their proofs
(`internal/reconcile/witness/build.go` and `proof.go`).
-/

namespace Trstctl.Reconcile.Witness

open Go (Bytes bytes)
open Result (bind_eq_ok)
open Canon (CanonicalRecord RecordSet Primitives)
open Digest (SignedDigest Tree Leaf LeavesOf recordKeyBytes buildTreeFromSet newLeaf_eq_ok
  recordKey_eq namedRecord namedLeaf buildLevels)

/-- `PlaneState`, without the signed digest, which the difference does not
read. -/
structure PlaneState where
  authorityID : Bytes
  set : RecordSet
  tree : Tree

structure PlaneIndex where
  state : PlaneState
  records : Go.Map CanonicalRecord
  leaves : Go.Map Leaf

/-- The errors of the difference. -/
inductive DiffError where
  | recordKey (error : Digest.TreeError)
  | canonical (error : Canon.CanonError)
  | missingInclusionProof
  | missingAbsenceProof

/-- The loop of `indexPlane` over the records. -/
def indexRecords :
    Go.Map CanonicalRecord → List CanonicalRecord → Except DiffError (Go.Map CanonicalRecord)
  | records, [] => pure records
  | records, record :: rest => do
      let key ← (Digest.recordKeyBytes record.recordKey).mapError .recordKey
      indexRecords (records.set key record) rest

def indexPlane (state : PlaneState) : Except DiffError PlaneIndex := do
  let records ← indexRecords [] state.set.records
  pure
    { state := state
      records := records
      leaves := state.tree.leaves.foldl (fun leaves leaf =>
        leaves.set leaf.recordKeyBytes leaf) [] }

def unionKeys (left right : Go.Map CanonicalRecord) : List Bytes :=
  (left.keys ++ right.keys).dedup.insertionSort (· ≤ ·)

section Entries

variable (primitives : Primitives)

/-- `materialBytes`: the canonical bytes of a record without its provenance. -/
def materialBytes (record : CanonicalRecord) : Except Canon.CanonError Bytes :=
  CanonicalRecord.canonicalBytes primitives { record with provenance := ⟨[], []⟩ }

def bracketFromDigest (proof : Digest.ProofLeaf) : BracketProof where
  recordKeyBytes := proof.recordKeyBytes
  leafHash := Digest.leafHash primitives.sha256Sum proof.recordKeyBytes proof.canonicalRecordBytes
  siblings := proof.proof.siblings

def absenceFromDigest (proof : Digest.AbsenceProof) : AbsenceProof where
  targetKeyBytes := proof.targetKeyBytes
  lower := proof.lower.map (bracketFromDigest primitives)
  upper := proof.upper.map (bracketFromDigest primitives)

/-- `presenceEntry`. -/
def presenceEntryFor (containing absent : PlaneIndex) (key : Bytes) (record : CanonicalRecord) :
    Except DiffError Entry :=
  match containing.state.tree.inclusionProof key with
  | none => .error .missingInclusionProof
  | some inclusion =>
      match absent.state.tree.absenceProof key with
      | none => .error .missingAbsenceProof
      | some absence => do
          let text ← (record.canonicalBytes primitives).mapError .canonical
          pure
            { recordKey := record.recordKey
              recordClass := bytes "presence"
              presentAuthority := containing.state.authorityID
              inclusions := [⟨containing.state.authorityID, inclusion⟩]
              absence := some (absenceFromDigest primitives absence)
              disclosedRecords := [⟨containing.state.authorityID, record.recordKey, text⟩]
              policy := none
              staleness := none }

def attributeEntry (left right : PlaneIndex) (key : Bytes)
    (leftRecord rightRecord : CanonicalRecord) : Except DiffError Entry :=
  match left.state.tree.inclusionProof key, right.state.tree.inclusionProof key with
  | none, _ => .error .missingInclusionProof
  | some _, none => .error .missingInclusionProof
  | some leftInclusion, some rightInclusion => do
      let leftText ← (leftRecord.canonicalBytes primitives).mapError .canonical
      let rightText ← (rightRecord.canonicalBytes primitives).mapError .canonical
      pure
        { recordKey := leftRecord.recordKey
          recordClass := bytes "attribute_conflict"
          presentAuthority := []
          inclusions :=
            [⟨left.state.authorityID, leftInclusion⟩, ⟨right.state.authorityID, rightInclusion⟩]
          absence := none
          disclosedRecords :=
            [⟨left.state.authorityID, leftRecord.recordKey, leftText⟩,
              ⟨right.state.authorityID, rightRecord.recordKey, rightText⟩]
          policy := none
          staleness := none }

/-- The entry for a key, if the planes differ there. -/
def diffKey (left right : PlaneIndex) (key : Bytes) : Except DiffError (Option Entry) :=
  match left.records.lookup key, right.records.lookup key with
  | some record, none => do
      let entry ← presenceEntryFor primitives left right key record
      pure (some entry)
  | none, some record => do
      let entry ← presenceEntryFor primitives right left key record
      pure (some entry)
  | some leftRecord, some rightRecord => do
      let leftText ← (materialBytes primitives leftRecord).mapError .canonical
      let rightText ← (materialBytes primitives rightRecord).mapError .canonical
      if leftText = rightText then pure none
      else do
        let entry ← attributeEntry primitives left right key leftRecord rightRecord
        pure (some entry)
  | none, none => pure none

/-- The loop of `diffEntries`. -/
def diffKeys (left right : PlaneIndex) : List Bytes → Except DiffError (List Entry)
  | [] => pure []
  | key :: rest => do
      let entry ← diffKey primitives left right key
      let entries ← diffKeys left right rest
      pure (entry.toList ++ entries)

/-- The differences of two planes, by record key. -/
def diffEntries (left right : PlaneIndex) : Except DiffError (List Entry) :=
  diffKeys primitives left right (unionKeys left.records right.records)

end Entries

/-!
## What the difference of two planes finds

On planes whose trees were built from their record sets the difference never
fails, and it has no entry exactly when the planes have the same record keys
with the same material bytes.
-/

/-- A plane's index holds its records by their keys, and its tree has their
leaves. -/
structure Indexes (primitives : Primitives) (set : RecordSet) (index : PlaneIndex) : Prop where
  leavesOf : LeavesOf primitives set index.state.tree.leaves
  lookup : ∀ key record, index.records.lookup key = some record ↔
    record ∈ set.records ∧ recordKeyBytes record.recordKey = .ok key

theorem indexRecords_spec {start index : Go.Map CanonicalRecord} {records : List CanonicalRecord}
    (unique : ∀ record ∈ records, ∀ other ∈ records,
      recordKeyBytes record.recordKey = recordKeyBytes other.recordKey → record = other)
    (indexed : indexRecords start records = .ok index)
    (key : Bytes) :
    (∀ record ∈ records, recordKeyBytes record.recordKey = .ok key →
        index.lookup key = some record) ∧
      ((∀ record ∈ records, recordKeyBytes record.recordKey ≠ .ok key) →
        index.lookup key = start.lookup key) := by
  induction records generalizing start with
  | nil =>
      obtain rfl := Except.ok.inj indexed
      exact ⟨fun record member => absurd member List.not_mem_nil, fun _ => rfl⟩
  | cons first rest ih =>
      obtain ⟨firstKey, wrapped, indexed⟩ := bind_eq_ok.mp indexed
      have firstKey_eq := Result.mapError_eq_ok.mp wrapped
      have restUnique : ∀ record ∈ rest, ∀ other ∈ rest,
          recordKeyBytes record.recordKey = recordKeyBytes other.recordKey → record = other :=
        fun record member other otherMember =>
          unique record (List.mem_cons_of_mem _ member) other (List.mem_cons_of_mem _ otherMember)
      obtain ⟨found, kept⟩ := ih restUnique indexed
      refine ⟨List.forall_mem_cons.mpr ⟨?_, found⟩, ?_⟩
      · intro key_eq
        obtain rfl := Except.ok.inj (firstKey_eq.symm.trans key_eq)
        by_cases later : ∃ record ∈ rest, recordKeyBytes record.recordKey = .ok firstKey
        · obtain ⟨record, member, same⟩ := later
          have equal := unique first List.mem_cons_self record (List.mem_cons_of_mem _ member)
            (firstKey_eq.trans same.symm)
          rw [found record member same, equal]
        · rw [kept fun record member same => later ⟨record, member, same⟩, Go.MapOf.lookup_set,
            if_pos rfl]
      · intro absent
        obtain ⟨notFirst, notRest⟩ := List.forall_mem_cons.mp absent
        rw [kept notRest, Go.MapOf.lookup_set, if_neg]
        rintro rfl
        exact notFirst firstKey_eq

theorem indexes_indexPlane {primitives : Primitives} {state : PlaneState} {index : PlaneIndex}
    (built : buildTreeFromSet primitives state.set = .ok state.tree)
    (indexed : indexPlane state = .ok index) :
    index.state = state ∧ Indexes primitives state.set index := by
  obtain ⟨records, records_eq, made⟩ := bind_eq_ok.mp indexed
  obtain rfl := Except.ok.inj made
  obtain ⟨leaves, leaves_eq, tree_eq⟩ := bind_eq_ok.mp built
  have leavesOf := Digest.leavesOf_leavesFromSet leaves_eq
  have sorted : Digest.sortLeaves leaves = leaves := leavesOf.sorted.insertionSort_eq
  have treeLeaves : state.tree.leaves = leaves :=
    (Digest.leaves_of_buildTree tree_eq).trans sorted
  refine ⟨rfl, treeLeaves ▸ leavesOf, fun key record => ?_⟩
  have spec := indexRecords_spec leavesOf.unique records_eq key
  constructor
  · intro found
    by_cases present : ∃ other ∈ state.set.records, recordKeyBytes other.recordKey = .ok key
    · obtain ⟨other, member, same⟩ := present
      obtain rfl := Option.some.inj ((spec.1 other member same).symm.trans found)
      exact ⟨member, same⟩
    · have none := spec.2 fun other member same => present ⟨other, member, same⟩
      rw [none] at found
      cases found
  · rintro ⟨member, same⟩
    exact spec.1 record member same

section Difference

variable {primitives : Primitives}

variable {key : Bytes} {record : CanonicalRecord}

theorem Indexes.exists_leaf {set : RecordSet} {index : PlaneIndex}
    (indexes : Indexes primitives set index) (found : index.records.lookup key = some record) :
    ∃ leaf ∈ index.state.tree.leaves, leaf.recordKeyBytes = key ∧
      record.canonicalBytes primitives = .ok leaf.canonicalRecordBytes := by
  obtain ⟨member, key_eq⟩ := (indexes.lookup key record).mp found
  obtain ⟨leaf, leafMember, made⟩ := indexes.leavesOf.of_record record member
  obtain ⟨leafKey, text⟩ := newLeaf_eq_ok made
  exact ⟨leaf, leafMember, Except.ok.inj (leafKey.symm.trans key_eq), text⟩

theorem Indexes.ne_of_lookup_eq_none {set : RecordSet} {index : PlaneIndex}
    (indexes : Indexes primitives set index) (none : index.records.lookup key = none) :
    ∀ leaf ∈ index.state.tree.leaves, leaf.recordKeyBytes ≠ key := by
  rintro leaf member rfl
  obtain ⟨record, recordMember, made⟩ := indexes.leavesOf.of_leaf leaf member
  have found := (indexes.lookup _ record).mpr ⟨recordMember, (newLeaf_eq_ok made).1⟩
  rw [none] at found
  cases found

theorem exists_materialBytes {text : Bytes}
    (written : record.canonicalBytes primitives = .ok text) :
    ∃ material, materialBytes primitives record = .ok material := by
  obtain ⟨attributes, canonical, -⟩ := Canon.canonicalBytes_eq_ok written
  exact ⟨_, bind_eq_ok.mpr ⟨attributes, canonical, rfl⟩⟩

/-- What an entry says: the record, the class and the authority that has it. -/
def Entry.shape (entry : Entry) : RecordKey × Bytes × Bytes :=
  (entry.recordKey, entry.recordClass, entry.presentAuthority)

/-- What there is to say of a key: nothing where the planes have nothing or the
same material. -/
def shapeAt (primitives : Primitives) (left right : PlaneIndex) (key : Bytes) :
    Option (RecordKey × Bytes × Bytes) :=
  match left.records.lookup key, right.records.lookup key with
  | some record, none => some (record.recordKey, bytes "presence", left.state.authorityID)
  | none, some record => some (record.recordKey, bytes "presence", right.state.authorityID)
  | some record, some other =>
      if materialBytes primitives record = materialBytes primitives other then none
      else some (record.recordKey, bytes "attribute_conflict", [])
  | none, none => none

/-- The planes have nothing or the same material under a key. -/
def SameAt (primitives : Primitives) (left right : PlaneIndex) (key : Bytes) : Prop :=
  match left.records.lookup key, right.records.lookup key with
  | some record, some other => materialBytes primitives record = materialBytes primitives other
  | none, none => True
  | _, _ => False

variable {leftSet rightSet : RecordSet}
variable {left right : PlaneIndex}

theorem shapeAt_eq_none_iff :
    shapeAt primitives left right key = none ↔ SameAt primitives left right key := by
  unfold shapeAt SameAt
  cases left.records.lookup key <;> cases right.records.lookup key <;> simp

theorem mem_unionKeys {records others : Go.Map CanonicalRecord} :
    key ∈ unionKeys records others ↔ key ∈ records.keys ∨ key ∈ others.keys := by
  rw [unionKeys, (List.perm_insertionSort _ _).mem_iff, List.mem_dedup, List.mem_append]

/-- Every record of a set has one under its key with its material bytes in
another set. -/
def MaterialWithin (primitives : Primitives) (records others : List CanonicalRecord) : Prop :=
  ∀ record ∈ records, ∃ other ∈ others, other.recordKey = record.recordKey ∧
    materialBytes primitives other = materialBytes primitives record

/-- Two sets have the same record keys, with the same material bytes. -/
def SameMaterial (primitives : Primitives) (records others : List CanonicalRecord) : Prop :=
  MaterialWithin primitives records others ∧ MaterialWithin primitives others records

theorem SameAt.symm (same : SameAt primitives left right key) :
    SameAt primitives right left key := by
  unfold SameAt at same ⊢
  cases found : left.records.lookup key with
  | none =>
      cases otherFound : right.records.lookup key with
      | none => trivial
      | some other => simp [found, otherFound] at same
  | some record =>
      cases otherFound : right.records.lookup key with
      | none => simp [found, otherFound] at same
      | some other =>
          simp only [found, otherFound] at same
          exact same.symm

/-- How two planes diverge at a record: one side only has it, or both have it
with different material. -/
inductive Diverges (primitives : Primitives) (left right : PlaneState) :
    RecordKey → Bytes → Bytes → Prop where
  | onLeft {record : CanonicalRecord} :
      record ∈ left.set.records →
      (∀ other ∈ right.set.records, other.recordKey ≠ record.recordKey) →
      Diverges primitives left right record.recordKey (bytes "presence") left.authorityID
  | onRight {record : CanonicalRecord} :
      record ∈ right.set.records →
      (∀ other ∈ left.set.records, other.recordKey ≠ record.recordKey) →
      Diverges primitives left right record.recordKey (bytes "presence") right.authorityID
  | conflict {record other : CanonicalRecord} :
      record ∈ left.set.records → other ∈ right.set.records →
      other.recordKey = record.recordKey →
      materialBytes primitives record ≠ materialBytes primitives other →
      Diverges primitives left right record.recordKey (bytes "attribute_conflict") []

theorem Indexes.exists_key (indexes : Indexes primitives leftSet left)
    (member : record ∈ leftSet.records) :
    ∃ key, recordKeyBytes record.recordKey = .ok key ∧ left.records.lookup key = some record := by
  obtain ⟨leaf, -, made⟩ := indexes.leavesOf.of_record record member
  obtain ⟨key_eq, -⟩ := newLeaf_eq_ok made
  exact ⟨_, key_eq, (indexes.lookup _ record).mpr ⟨member, key_eq⟩⟩

theorem Indexes.lookup_eq_none_iff (indexes : Indexes primitives leftSet left)
    {recordKey : RecordKey} (key_eq : recordKeyBytes recordKey = .ok key) :
    left.records.lookup key = none ↔ ∀ other ∈ leftSet.records, other.recordKey ≠ recordKey := by
  rw [Option.eq_none_iff_forall_ne_some]
  constructor
  · rintro absent other member rfl
    exact absent other ((indexes.lookup key other).mpr ⟨member, key_eq⟩)
  · intro absent other found
    obtain ⟨member, otherKey_eq⟩ := (indexes.lookup key other).mp found
    exact absent other member (recordKey_eq otherKey_eq key_eq)

section Indexes

variable (leftIndexes : Indexes primitives leftSet left)
  (rightIndexes : Indexes primitives rightSet right)

include leftIndexes rightIndexes

theorem exists_presenceEntryFor
    (found : left.records.lookup key = some record) (absent : right.records.lookup key = none) :
    ∃ entry, presenceEntryFor primitives left right key record = .ok entry ∧
      entry.shape = (record.recordKey, bytes "presence", left.state.authorityID) := by
  obtain ⟨leaf, member, rfl, text⟩ := leftIndexes.exists_leaf found
  obtain ⟨inclusion, inclusion_eq⟩ :=
    Digest.exists_inclusionProof leftIndexes.leavesOf.sorted member
  obtain ⟨absence, absence_eq⟩ :=
    Digest.exists_absenceProof (rightIndexes.ne_of_lookup_eq_none absent)
  rw [presenceEntryFor, inclusion_eq]
  simp only [absence_eq, text]
  exact ⟨_, rfl, rfl⟩

theorem exists_attributeEntry {other : CanonicalRecord}
    (found : left.records.lookup key = some record)
    (otherFound : right.records.lookup key = some other) :
    ∃ entry, attributeEntry primitives left right key record other = .ok entry ∧
      entry.shape = (record.recordKey, bytes "attribute_conflict", []) := by
  obtain ⟨leaf, member, key_eq, text⟩ := leftIndexes.exists_leaf found
  obtain ⟨otherLeaf, otherMember, otherKey_eq, otherText⟩ := rightIndexes.exists_leaf otherFound
  obtain ⟨inclusion, inclusion_eq⟩ :=
    Digest.exists_inclusionProof leftIndexes.leavesOf.sorted member
  obtain ⟨otherInclusion, otherInclusion_eq⟩ :=
    Digest.exists_inclusionProof rightIndexes.leavesOf.sorted otherMember
  rw [key_eq] at inclusion_eq
  rw [otherKey_eq] at otherInclusion_eq
  rw [attributeEntry, inclusion_eq, otherInclusion_eq]
  simp only [text, otherText]
  exact ⟨_, rfl, rfl⟩

theorem diffKey_spec (key : Bytes) :
    ∃ entry, diffKey primitives left right key = .ok entry ∧
      entry.map Entry.shape = shapeAt primitives left right key := by
  unfold diffKey shapeAt
  cases found : left.records.lookup key with
  | none =>
      cases otherFound : right.records.lookup key with
      | none => exact ⟨none, rfl, rfl⟩
      | some other =>
          obtain ⟨entry, entry_eq, shape⟩ :=
            exists_presenceEntryFor rightIndexes leftIndexes otherFound found
          exact ⟨some entry, bind_eq_ok.mpr ⟨entry, entry_eq, rfl⟩, congrArg some shape⟩
  | some record =>
      cases otherFound : right.records.lookup key with
      | none =>
          obtain ⟨entry, entry_eq, shape⟩ :=
            exists_presenceEntryFor leftIndexes rightIndexes found otherFound
          exact ⟨some entry, bind_eq_ok.mpr ⟨entry, entry_eq, rfl⟩, congrArg some shape⟩
      | some other =>
          obtain ⟨leaf, -, -, text⟩ := leftIndexes.exists_leaf found
          obtain ⟨otherLeaf, -, -, otherText⟩ := rightIndexes.exists_leaf otherFound
          obtain ⟨material, material_eq⟩ := exists_materialBytes text
          obtain ⟨otherMaterial, otherMaterial_eq⟩ := exists_materialBytes otherText
          obtain ⟨entry, entry_eq, shape⟩ :=
            exists_attributeEntry leftIndexes rightIndexes found otherFound
          simp only [material_eq, otherMaterial_eq, entry_eq, Except.ok.injEq]
          by_cases same : material = otherMaterial
          · exact ⟨none, if_pos same, (if_pos same).symm⟩
          · exact ⟨some entry, if_neg same, (congrArg some shape).trans (if_neg same).symm⟩

theorem diffKeys_spec (keys : List Bytes) :
    ∃ entries, diffKeys primitives left right keys = .ok entries ∧
      entries.map Entry.shape = keys.filterMap (shapeAt primitives left right) := by
  induction keys with
  | nil => exact ⟨[], rfl, rfl⟩
  | cons key rest ih =>
      obtain ⟨entry, entry_eq, shape⟩ := diffKey_spec leftIndexes rightIndexes key
      obtain ⟨entries, entries_eq, shapes⟩ := ih
      refine ⟨entry.toList ++ entries, ?_, ?_⟩
      · exact bind_eq_ok.mpr ⟨entry, entry_eq,
          bind_eq_ok.mpr ⟨entries, entries_eq, rfl⟩⟩
      · rw [List.map_append, shapes, List.filterMap_cons, ← shape]
        cases entry with
        | none => rfl
        | some entry => rfl

theorem materialWithin_of_sameAt
    (same : ∀ key ∈ left.records.keys, SameAt primitives left right key) :
    MaterialWithin primitives leftSet.records rightSet.records := by
  intro record member
  obtain ⟨leaf, -, made⟩ := leftIndexes.leavesOf.of_record record member
  obtain ⟨key_eq, -⟩ := newLeaf_eq_ok made
  have found := (leftIndexes.lookup _ record).mpr ⟨member, key_eq⟩
  have here := same _ (Go.Map.mem_keys.mpr ⟨record, found⟩)
  rw [SameAt, found] at here
  cases otherFound : right.records.lookup leaf.recordKeyBytes with
  | none => simp [otherFound] at here
  | some other =>
      rw [otherFound] at here
      obtain ⟨otherMember, otherKey_eq⟩ := (rightIndexes.lookup _ other).mp otherFound
      exact ⟨other, otherMember, recordKey_eq otherKey_eq key_eq, here.symm⟩

theorem sameAt_of_materialWithin
    (within : MaterialWithin primitives leftSet.records rightSet.records)
    (bound : key ∈ left.records.keys) :
    SameAt primitives left right key := by
  obtain ⟨record, found⟩ := Go.Map.mem_keys.mp bound
  obtain ⟨member, key_eq⟩ := (leftIndexes.lookup key record).mp found
  obtain ⟨other, otherMember, recordKey, material⟩ := within record member
  have otherFound := (rightIndexes.lookup key other).mpr ⟨otherMember, recordKey ▸ key_eq⟩
  rw [SameAt, found, otherFound]
  exact material.symm

theorem diffEntries_spec :
    ∃ entries, diffEntries primitives left right = .ok entries ∧
      (entries = [] ↔ SameMaterial primitives leftSet.records rightSet.records) := by
  obtain ⟨entries, entries_eq, shapes⟩ := diffKeys_spec leftIndexes rightIndexes
    (unionKeys left.records right.records)
  have nil_iff : entries = [] ↔ ∀ key ∈ unionKeys left.records right.records,
      SameAt primitives left right key := by
    rw [← List.map_eq_nil_iff, shapes, List.filterMap_eq_nil_iff]
    exact forall_congr' fun key => forall_congr' fun _ => shapeAt_eq_none_iff
  refine ⟨entries, entries_eq, nil_iff.trans ⟨fun same => ⟨?_, ?_⟩, fun same key member => ?_⟩⟩
  · exact materialWithin_of_sameAt leftIndexes rightIndexes fun key bound =>
      same key (mem_unionKeys.mpr (Or.inl bound))
  · exact materialWithin_of_sameAt rightIndexes leftIndexes fun key bound =>
      (same key (mem_unionKeys.mpr (Or.inr bound))).symm
  · rcases mem_unionKeys.mp member with bound | bound
    · exact sameAt_of_materialWithin leftIndexes rightIndexes same.1 bound
    · exact (sameAt_of_materialWithin rightIndexes leftIndexes same.2 bound).symm

theorem recordKeyBytes_of_shapeAt {shape : RecordKey × Bytes × Bytes}
    (said : shapeAt primitives left right key = some shape) :
    recordKeyBytes shape.1 = .ok key := by
  unfold shapeAt at said
  cases found : left.records.lookup key with
  | none =>
      cases otherFound : right.records.lookup key with
      | none => simp [found, otherFound] at said
      | some other =>
          simp only [found, otherFound, Option.some.injEq] at said
          obtain rfl := said
          exact ((rightIndexes.lookup key other).mp otherFound).2
  | some record =>
      have key_eq := ((leftIndexes.lookup key record).mp found).2
      cases otherFound : right.records.lookup key with
      | none =>
          simp only [found, otherFound, Option.some.injEq] at said
          obtain rfl := said
          exact key_eq
      | some other =>
          simp only [found, otherFound] at said
          split at said
          next => cases said
          next =>
            obtain rfl := Option.some.inj said
            exact key_eq

theorem shapeAt_comm (key : Bytes) :
    shapeAt primitives left right key = shapeAt primitives right left key := by
  unfold shapeAt
  cases found : left.records.lookup key with
  | none =>
      cases otherFound : right.records.lookup key with
      | none => rfl
      | some other => rfl
  | some record =>
      cases otherFound : right.records.lookup key with
      | none => rfl
      | some other =>
          have keys : record.recordKey = other.recordKey :=
            recordKey_eq ((leftIndexes.lookup key record).mp found).2
              ((rightIndexes.lookup key other).mp otherFound).2
          simp only [keys, eq_comm (a := materialBytes primitives record)]

end Indexes

/-- What is said of the keys of two planes are their divergences. -/
theorem exists_shapeAt_iff (leftIndexes : Indexes primitives left.state.set left)
    (rightIndexes : Indexes primitives right.state.set right) {recordKey : RecordKey}
    {recordClass authority : Bytes} :
    (∃ key, shapeAt primitives left right key = some (recordKey, recordClass, authority)) ↔
      Diverges primitives left.state right.state recordKey recordClass authority := by
  constructor
  · rintro ⟨key, said⟩
    unfold shapeAt at said
    cases found : left.records.lookup key with
    | none =>
        cases otherFound : right.records.lookup key with
        | none => simp [found, otherFound] at said
        | some other =>
            simp only [found, otherFound, Option.some.injEq, Prod.mk.injEq] at said
            obtain ⟨rfl, rfl, rfl⟩ := said
            obtain ⟨member, key_eq⟩ := (rightIndexes.lookup key other).mp otherFound
            exact .onRight member ((leftIndexes.lookup_eq_none_iff key_eq).mp found)
    | some record =>
        obtain ⟨member, key_eq⟩ := (leftIndexes.lookup key record).mp found
        cases otherFound : right.records.lookup key with
        | none =>
            simp only [found, otherFound, Option.some.injEq, Prod.mk.injEq] at said
            obtain ⟨rfl, rfl, rfl⟩ := said
            exact .onLeft member ((rightIndexes.lookup_eq_none_iff key_eq).mp otherFound)
        | some other =>
            obtain ⟨otherMember, otherKey_eq⟩ := (rightIndexes.lookup key other).mp otherFound
            simp only [found, otherFound] at said
            split at said
            next => cases said
            next different =>
              simp only [Option.some.injEq, Prod.mk.injEq] at said
              obtain ⟨rfl, rfl, rfl⟩ := said
              exact .conflict member otherMember (recordKey_eq otherKey_eq key_eq) different
  · intro diverges
    cases diverges with
    | onLeft member absent =>
        obtain ⟨key, key_eq, found⟩ := leftIndexes.exists_key member
        have none := (rightIndexes.lookup_eq_none_iff key_eq).mpr absent
        exact ⟨key, by rw [shapeAt, found, none]⟩
    | onRight member absent =>
        obtain ⟨key, key_eq, found⟩ := rightIndexes.exists_key member
        have none := (leftIndexes.lookup_eq_none_iff key_eq).mpr absent
        exact ⟨key, by rw [shapeAt, found, none]⟩
    | conflict member otherMember keys different =>
        obtain ⟨key, key_eq, found⟩ := leftIndexes.exists_key member
        have otherFound := (rightIndexes.lookup key _).mpr ⟨otherMember, keys ▸ key_eq⟩
        exact ⟨key, by rw [shapeAt, found, otherFound]; exact if_neg different⟩

theorem unionKeys_comm (records others : Go.Map CanonicalRecord) :
    unionKeys records others = unionKeys others records :=
  Sorting.insertionSort_eq_of_perm List.perm_append_comm.dedup fun _ _ _ _ => List.le_antisymm

theorem nodup_unionKeys (records others : Go.Map CanonicalRecord) :
    (unionKeys records others).Nodup :=
  (List.perm_insertionSort _ _).nodup_iff.mpr (List.nodup_dedup _)

theorem mem_unionKeys_of_shapeAt {shape : RecordKey × Bytes × Bytes}
    (said : shapeAt primitives left right key = some shape) :
    key ∈ unionKeys left.records right.records := by
  rw [mem_unionKeys, Go.Map.mem_keys, Go.Map.mem_keys]
  by_contra absent
  simp only [not_or, not_exists, ← ne_eq, ← Option.eq_none_iff_forall_ne_some] at absent
  rw [shapeAt, absent.1, absent.2] at said
  cases said

/-- The difference of two planes has exactly one entry for each divergence, and
says the same of the planes in the other order. -/
theorem diffEntries_exact_and_symmetric
    (primitives : Primitives)
    (leftState rightState : PlaneState)
    (left right : PlaneIndex)
    (leftBuilt : buildTreeFromSet primitives leftState.set = .ok leftState.tree)
    (rightBuilt : buildTreeFromSet primitives rightState.set = .ok rightState.tree)
    (leftIndexed : indexPlane leftState = .ok left)
    (rightIndexed : indexPlane rightState = .ok right) :
    ∃ entries swapped, diffEntries primitives left right = .ok entries ∧
      diffEntries primitives right left = .ok swapped ∧
      (entries.map Entry.recordKey).Nodup ∧
      (∀ recordKey recordClass authority,
        (recordKey, recordClass, authority) ∈ entries.map Entry.shape ↔
          Diverges primitives leftState rightState recordKey recordClass authority) ∧
      swapped.map Entry.shape = entries.map Entry.shape := by
  obtain ⟨rfl, leftIndexes⟩ := indexes_indexPlane leftBuilt leftIndexed
  obtain ⟨rfl, rightIndexes⟩ := indexes_indexPlane rightBuilt rightIndexed
  obtain ⟨entries, entries_eq, shapes⟩ := diffKeys_spec leftIndexes rightIndexes
    (unionKeys left.records right.records)
  obtain ⟨swapped, swapped_eq, swappedShapes⟩ := diffKeys_spec rightIndexes leftIndexes
    (unionKeys right.records left.records)
  refine ⟨entries, swapped, entries_eq, swapped_eq, ?_, ?_, ?_⟩
  · have keys : entries.map Entry.recordKey = (entries.map Entry.shape).map Prod.fst := by
      rw [List.map_map]
      rfl
    rw [keys, shapes, List.map_filterMap]
    refine (nodup_unionKeys left.records right.records).filterMap ?_
    intro key other recordKey member otherMember
    obtain ⟨shape, said, rfl⟩ := Option.mem_map.mp member
    obtain ⟨otherShape, otherSaid, same⟩ := Option.mem_map.mp otherMember
    have key_eq := recordKeyBytes_of_shapeAt leftIndexes rightIndexes said
    have otherKey_eq := recordKeyBytes_of_shapeAt leftIndexes rightIndexes otherSaid
    rw [same, key_eq] at otherKey_eq
    exact Except.ok.inj otherKey_eq
  · intro recordKey recordClass authority
    rw [shapes, List.mem_filterMap, ← exists_shapeAt_iff leftIndexes rightIndexes]
    exact exists_congr fun key => and_iff_right_of_imp mem_unionKeys_of_shapeAt
  · rw [shapes, swappedShapes, unionKeys_comm right.records]
    exact List.filterMap_congr fun key _ => (shapeAt_comm leftIndexes rightIndexes key).symm

end Difference

/-- Primitives with a hash that numbers the leaf of the one record. -/
def namedPrimitives : Primitives :=
  Digest.textPrimitives (Hash.numbering [Digest.namedInput])

/-- A plane with one record. -/
def namedState : PlaneState where
  authorityID := bytes "vault"
  set := ⟨Canon.specVersionV1, bytes "t", [namedRecord]⟩
  tree := ⟨[namedLeaf], [[Hash.digestOf 0]], Hash.digestOf 0⟩

/-- A plane without records. -/
def bareState : PlaneState where
  authorityID := bytes "kms"
  set := ⟨Canon.specVersionV1, bytes "t", []⟩
  tree := ⟨[], [], Digest.emptyRoot namedPrimitives.sha256Sum⟩

theorem buildTreeFromSet_namedState {primitives : Primitives}
    (leaves : Digest.leavesFromSet primitives namedState.set = .ok [namedLeaf]) :
    buildTreeFromSet primitives namedState.set = .ok namedState.tree := by
  have levels : buildLevels primitives.sha256Sum [Hash.digestOf 0] =
      [[Hash.digestOf 0]] := by
    rw [buildLevels]
    exact if_neg (Nat.lt_irrefl 1)
  refine bind_eq_ok.mpr ⟨_, leaves, ?_⟩
  change Except.ok (Tree.mk [namedLeaf]
    (buildLevels primitives.sha256Sum [Hash.digestOf 0])
    (Digest.topNode (buildLevels primitives.sha256Sum [Hash.digestOf 0]))) = _
  rw [levels]
  rfl

/-- The entries for a plane with one record and a plane without. -/
theorem diffEntries_of_one_record :
    ∃ left right entries swapped, indexPlane namedState = .ok left ∧
      indexPlane bareState = .ok right ∧
      diffEntries namedPrimitives left right = .ok entries ∧
      diffEntries namedPrimitives right left = .ok swapped ∧
      (⟨bytes "t", bytes "key", bytes "k"⟩, bytes "presence", bytes "vault") ∈
        swapped.map Entry.shape := by
  obtain ⟨left, leftIndexed⟩ : ∃ left, indexPlane namedState = .ok left := ⟨_, rfl⟩
  obtain ⟨right, rightIndexed⟩ : ∃ right, indexPlane bareState = .ok right := ⟨_, rfl⟩
  obtain ⟨entries, swapped, entries_eq, swapped_eq, -, diverging, same⟩ :=
    diffEntries_exact_and_symmetric namedPrimitives namedState bareState left right
      (buildTreeFromSet_namedState (by decide +kernel)) rfl leftIndexed rightIndexed
  refine ⟨left, right, entries, swapped, leftIndexed, rightIndexed, entries_eq, swapped_eq, ?_⟩
  have absent : Diverges namedPrimitives namedState bareState namedRecord.recordKey
      (bytes "presence") namedState.authorityID :=
    .onLeft List.mem_cons_self (List.forall_mem_nil _)
  rw [same]
  exact (diverging _ _ _).mpr absent

end Trstctl.Reconcile.Witness
