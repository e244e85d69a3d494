import Mathlib.Data.List.Perm.Basic
import Trstctl.Reconcile.Witness.Difference

/-!
# Majorities of planes

`ClassifyMajority` (`internal/reconcile/witness/majority.go`) compares the
material of three or more planes under every record key.  A key gets the
material of the authoritative plane as its target, or else the material that
more than half of the planes hold, absence counting as a material of its own;
the planes with another material are told to conform.
-/

namespace Trstctl.Reconcile.Witness

open Go (Bytes bytes trimSpace hexEncode MapOrder)
open Result (bind_eq_ok)
open Canon (CanonicalRecord RecordSet Primitives)
open Digest (Tree buildTreeFromSet recordKeyBytes recordKey_eq namedInput)

/-- What `ClassifyMajority` reads of a `PlaneState`; the tree may be nil. -/
structure MajorityPlane where
  authorityID : Bytes
  digestHash : Bytes
  set : RecordSet
  tree : Option Tree

/-- The planes to compare. -/
structure MajorityRequest where
  tenantID : Bytes
  specVersion : Bytes
  planes : List MajorityPlane
  authoritativeByRecordType : Go.Map Bytes

structure PlaneProof where
  authorityID : Bytes
  digestHash : Bytes
  present : Bool
  inclusion : Option Digest.InclusionProof
  absence : Option AbsenceProof
  materialHash : Bytes

structure ConformAction where
  authorityID : Bytes
  recordKey : RecordKey
  operation : Bytes
  targetAuthorityID : Bytes
  targetMaterialHash : Bytes

/-- What most planes hold of a record. -/
structure MajorityEntry where
  recordKey : RecordKey
  targetMaterialHash : Bytes
  targetPresent : Bool
  majorityAuthorityIDs : List Bytes
  minorityAuthorityIDs : List Bytes
  authoritativeAuthorityID : Bytes
  perPlaneProofs : List PlaneProof
  actions : List ConformAction

structure MajorityResult where
  tenantID : Bytes
  entries : List MajorityEntry

structure MajorityObservation where
  authorityID : Bytes
  present : Bool
  materialHash : Bytes
  inclusion : Option Digest.InclusionProof
  absence : Option AbsenceProof
  digestHash : Bytes

/-- The errors of `ClassifyMajority`. -/
inductive MajorityError where
  | invalidWitness
  | index (error : DiffError)
  | canonical (error : Canon.CanonError)

/-- A plane with its index. -/
structure MajorityIndex where
  index : PlaneIndex
  digestHash : Bytes

def absentMaterialHash : Bytes :=
  bytes "absent"

def operationConformToMajority : Bytes :=
  bytes "conform-to-majority"

def operationConformToAuthoritative : Bytes :=
  bytes "conform-to-authoritative"

def planeProofs (observations : List MajorityObservation) : List PlaneProof :=
  (observations.map fun observation =>
    { authorityID := observation.authorityID
      digestHash := observation.digestHash
      present := observation.present
      inclusion := observation.inclusion
      absence := observation.absence
      materialHash := observation.materialHash : PlaneProof }).insertionSort
    fun first second => first.authorityID ≤ second.authorityID

/-- The authorities by the hash of their material, as the loop of `majorityEntry`
collects them. -/
def groupsOf (observations : List MajorityObservation) : Go.Map (List Bytes) :=
  observations.foldl (fun groups observation =>
    groups.set observation.materialHash
      ((groups.lookup observation.materialHash).getD [] ++ [observation.authorityID])) []

/-- The groups with their authorities sorted. -/
def sortedGroups (observations : List MajorityObservation) : Go.Map (List Bytes) :=
  (groupsOf observations).map fun (hash, authorities) =>
    (hash, authorities.insertionSort (· ≤ ·))

/-- The results of `targetMaterial`; the hash is empty when there is no
target. -/
structure Target where
  hash : Bytes
  present : Bool
  authority : Bytes
  authoritativeOverride : Bool

def configuredAuthority (recordKey : RecordKey) (authoritative : Go.Map Bytes) : Bytes :=
  trimSpace ((authoritative.lookup (trimSpace recordKey.recordType)).getD [])

/-- The loop of `targetMaterial` over the groups. -/
def majorityTarget (order : MapOrder) (observations : List MajorityObservation)
    (groups : Go.Map (List Bytes)) :
    Target :=
  match (order.arrange groups.keys).find? fun hash =>
      decide (observations.length / 2 < ((groups.lookup hash).getD []).length) with
  | some hash => ⟨hash, hash != absentMaterialHash, [], false⟩
  | none => ⟨[], false, [], false⟩

def targetMaterial (order : MapOrder) (recordKey : RecordKey)
    (observations : List MajorityObservation) (groups : Go.Map (List Bytes))
    (authoritative : Go.Map Bytes) :
    Target :=
  let authority := configuredAuthority recordKey authoritative
  if authority = [] then majorityTarget order observations groups
  else
    match observations.find? fun observation => observation.authorityID == authority with
    | some observation => ⟨observation.materialHash, observation.present, authority, true⟩
    | none => majorityTarget order observations groups

def majorityEntry (order : MapOrder) (recordKey : RecordKey)
    (observations : List MajorityObservation) (authoritative : Go.Map Bytes) :
    Option MajorityEntry :=
  let groups := sortedGroups observations
  let target := targetMaterial order recordKey observations groups authoritative
  if target.hash = [] then none
  else
    let minority := ((observations.filter fun observation =>
      observation.materialHash != target.hash).map MajorityObservation.authorityID).insertionSort
        (· ≤ ·)
    if minority = [] then none
    else
      let operation :=
        if target.authoritativeOverride then operationConformToAuthoritative
        else operationConformToMajority
      some
        { recordKey := recordKey
          targetMaterialHash := target.hash
          targetPresent := target.present
          majorityAuthorityIDs :=
            if target.authoritativeOverride then [] else (groups.lookup target.hash).getD []
          minorityAuthorityIDs := minority
          authoritativeAuthorityID := target.authority
          perPlaneProofs := planeProofs observations
          actions := minority.map fun authorityID =>
            ⟨authorityID, recordKey, operation, target.authority, target.hash⟩ }

section Classify

variable (primitives : Primitives)

def materialHash : Option Bytes → Bytes
  | some material => hexEncode (primitives.sha256Sum material)
  | none => absentMaterialHash

def observe (key : Bytes) (plane : MajorityIndex) : Except MajorityError MajorityObservation :=
  match plane.index.records.lookup key with
  | some record => do
      let material ← (materialBytes primitives record).mapError .canonical
      match plane.index.state.tree.inclusionProof key with
      | none => throw .invalidWitness
      | some inclusion =>
          pure
            { authorityID := plane.index.state.authorityID
              present := true
              materialHash := materialHash primitives (some material)
              inclusion := some inclusion
              absence := none
              digestHash := hexEncode plane.digestHash }
  | none =>
      match plane.index.state.tree.absenceProof key with
      | none => throw .invalidWitness
      | some absence =>
          pure
            { authorityID := plane.index.state.authorityID
              present := false
              materialHash := materialHash primitives none
              inclusion := none
              absence := some (absenceFromDigest primitives absence)
              digestHash := hexEncode plane.digestHash }

/-- The record key under a key: that of the first record there. -/
def recordKeyAt (indexes : List MajorityIndex) (key : Bytes) : RecordKey :=
  indexes.foldl (fun recordKey plane =>
    match plane.index.records.lookup key with
    | some record => if recordKey.tenantID = [] then record.recordKey else recordKey
    | none => recordKey) ⟨[], [], []⟩

def majorityObservations (indexes : List MajorityIndex) (key : Bytes) :
    Except MajorityError (List MajorityObservation × RecordKey) := do
  let observations ← indexes.mapM (observe primitives key)
  if (recordKeyAt indexes key).tenantID = [] then throw .invalidWitness
  else pure (observations, recordKeyAt indexes key)

def majorityUnionKeys (indexes : List MajorityIndex) : List Bytes :=
  (indexes.flatMap fun plane => plane.index.records.keys).dedup.insertionSort (· ≤ ·)

/-- The loop of `ClassifyMajority` over the planes, with the authorities seen
before. -/
def indexPlanes (tenantID specVersion : Bytes) :
    List Bytes → List MajorityPlane → Except MajorityError (List MajorityIndex)
  | _, [] => pure []
  | seen, plane :: rest =>
      let authorityID := trimSpace plane.authorityID
      match plane.tree with
      | none => throw .invalidWitness
      | some tree =>
          if authorityID = [] ∨ authorityID ∈ seen ∨ plane.set.tenantID ≠ tenantID ∨
              plane.set.specVersion ≠ specVersion then
            throw .invalidWitness
          else do
            let index ← (indexPlane ⟨plane.authorityID, plane.set, tree⟩).mapError .index
            let indexes ← indexPlanes tenantID specVersion (authorityID :: seen) rest
            pure (⟨index, plane.digestHash⟩ :: indexes)

/-- The loop of `ClassifyMajority` over the keys. -/
def classifyKeys (order : MapOrder) (authoritative : Go.Map Bytes)
    (indexes : List MajorityIndex) :
    List Bytes → Except MajorityError (List MajorityEntry)
  | [] => pure []
  | key :: rest => do
      let (observations, recordKey) ← majorityObservations primitives indexes key
      let entries ← classifyKeys order authoritative indexes rest
      pure ((majorityEntry order recordKey observations authoritative).toList ++ entries)

/-- The planes, classified record by record. -/
def classifyMajority (order : MapOrder) (request : MajorityRequest) :
    Except MajorityError MajorityResult := do
  let tenantID := trimSpace request.tenantID
  let specVersion := trimSpace request.specVersion
  if tenantID = [] ∨ specVersion = [] ∨ request.planes.length < 3 then throw .invalidWitness
  else
    let indexes ← indexPlanes tenantID specVersion [] request.planes
    let entries ← classifyKeys primitives order request.authoritativeByRecordType indexes
      (majorityUnionKeys indexes)
    pure ⟨tenantID, entries⟩

end Classify

/-- The observations with a material. -/
def holders (observations : List MajorityObservation) (hash : Bytes) : List MajorityObservation :=
  observations.filter fun observation => observation.materialHash == hash

variable (observations : List MajorityObservation)

theorem holders_concat (observation : MajorityObservation) (hash : Bytes) :
    holders (observations ++ [observation]) hash =
      holders observations hash ++
        if observation.materialHash = hash then [observation] else [] := by
  rw [holders, List.filter_append]
  by_cases own : observation.materialHash = hash
  · simp [own, holders]
  · simp [own, holders]

theorem groupsOf_concat (observation : MajorityObservation) :
    groupsOf (observations ++ [observation]) =
      (groupsOf observations).set observation.materialHash
        (((groupsOf observations).lookup observation.materialHash).getD [] ++
          [observation.authorityID]) :=
  List.foldl_concat ..

theorem lookup_groupsOf (hash : Bytes) :
    ((groupsOf observations).lookup hash).getD [] =
      (holders observations hash).map MajorityObservation.authorityID := by
  induction observations using List.reverseRecOn generalizing hash with
  | nil => rfl
  | append_singleton observations observation ih =>
      rw [groupsOf_concat, Go.MapOf.lookup_set, holders_concat, List.map_append]
      by_cases own : hash = observation.materialHash
      · rw [if_pos own, if_pos own.symm, Option.getD_some, ih, own]
        rfl
      · rw [if_neg own, if_neg (Ne.symm own), ih, List.map_nil, List.append_nil]

theorem mem_keys_groupsOf {observations : List MajorityObservation} {hash : Bytes} :
    hash ∈ (groupsOf observations).keys ↔
      ∃ observation ∈ observations, observation.materialHash = hash := by
  induction observations using List.reverseRecOn with
  | nil => simp [groupsOf, Go.Map.keys]
  | append_singleton observations observation ih =>
      rw [Go.Map.mem_keys] at ih ⊢
      simp only [groupsOf_concat, Go.MapOf.lookup_set, List.mem_append, List.mem_singleton,
        or_and_right, exists_or, exists_eq_left, ← ih]
      by_cases own : hash = observation.materialHash
      · simp [own]
      · simp [own, Ne.symm own]

theorem lookup_sortedGroups (hash : Bytes) :
    ((sortedGroups observations).lookup hash).getD [] =
      ((holders observations hash).map MajorityObservation.authorityID).insertionSort (· ≤ ·) := by
  rw [sortedGroups, Go.MapOf.lookup_map, ← lookup_groupsOf]
  cases (groupsOf observations).lookup hash with
  | none => rfl
  | some authorities => rfl

theorem keys_sortedGroups :
    (sortedGroups observations).keys = (groupsOf observations).keys := by
  rw [sortedGroups, Go.Map.keys, List.map_map]
  rfl

/-- More than half of the observations have a material. -/
def HeldByMajority (observations : List MajorityObservation) (hash : Bytes) : Prop :=
  observations.length < 2 * (holders observations hash).length

instance (observations : List MajorityObservation) (hash : Bytes) :
    Decidable (HeldByMajority observations hash) :=
  inferInstanceAs (Decidable (_ < _))

theorem length_holders_add_le {hash other : Bytes} (different : hash ≠ other) :
    (holders observations hash).length + (holders observations other).length ≤
      observations.length := by
  induction observations using List.reverseRecOn with
  | nil => exact Nat.le_refl 0
  | append_singleton observations observation ih =>
      rw [holders_concat, holders_concat, List.length_append, List.length_append,
        List.length_append, List.length_singleton]
      by_cases own : observation.materialHash = hash
      · rw [if_pos own, if_neg (own ▸ different), List.length_singleton, List.length_nil]
        omega
      · rw [if_neg own]
        split
        next => rw [List.length_nil, List.length_singleton]; omega
        next => rw [List.length_nil]; omega

theorem HeldByMajority.unique {observations : List MajorityObservation} {hash other : Bytes}
    (held : HeldByMajority observations hash) (otherHeld : HeldByMajority observations other) :
    hash = other := by
  by_contra different
  have apart := length_holders_add_le observations different
  unfold HeldByMajority at held otherHeld
  omega

theorem find?_eq_of_mem_iff {α : Type} {first second : List α} {property : α → Bool}
    (same : ∀ item, item ∈ first ↔ item ∈ second)
    (unique : ∀ item ∈ first, ∀ other ∈ first, property item = true → property other = true →
      item = other) :
    first.find? property = second.find? property := by
  cases found : first.find? property with
  | none =>
      rw [List.find?_eq_none] at found
      exact (List.find?_eq_none.mpr fun item member => found item ((same item).mpr member)).symm
  | some item =>
      have holds := List.find?_some found
      have member := List.mem_of_find?_eq_some found
      cases otherFound : second.find? property with
      | none =>
          rw [List.find?_eq_none] at otherFound
          exact absurd holds (otherFound item ((same item).mp member))
      | some other =>
          have otherMember := (same other).mpr (List.mem_of_find?_eq_some otherFound)
          rw [unique item member other otherMember holds (List.find?_some otherFound)]

theorem majorityTarget_eq (order : MapOrder) (observations : List MajorityObservation) :
    majorityTarget order observations (sortedGroups observations) =
      match (groupsOf observations).keys.find? fun hash =>
          decide (HeldByMajority observations hash) with
      | some hash => ⟨hash, hash != absentMaterialHash, [], false⟩
      | none => ⟨[], false, [], false⟩ := by
  have held : (fun hash => decide (observations.length / 2 <
      (((sortedGroups observations).lookup hash).getD []).length)) =
      fun hash => decide (HeldByMajority observations hash) := by
    funext hash
    rw [lookup_sortedGroups, List.length_insertionSort, List.length_map]
    unfold HeldByMajority
    congr 1
    apply propext
    omega
  rw [majorityTarget, held, keys_sortedGroups]
  rw [find?_eq_of_mem_iff (fun hash => (order.perm _).mem_iff)]
  intro hash _ other _ majority otherMajority
  exact (of_decide_eq_true majority).unique (of_decide_eq_true otherMajority)

section Order

variable {observations others : List MajorityObservation}

theorem sort_eq_of_perm {first second : List Bytes} (permutation : first.Perm second) :
    first.insertionSort (· ≤ ·) = second.insertionSort (· ≤ ·) :=
  Sorting.insertionSort_eq_of_perm permutation fun _ _ _ _ => List.le_antisymm

theorem heldByMajority_congr (permutation : observations.Perm others) (hash : Bytes) :
    HeldByMajority observations hash ↔ HeldByMajority others hash := by
  rw [HeldByMajority, HeldByMajority, permutation.length_eq, holders, holders,
    (permutation.filter _).length_eq]

theorem targetMaterial_eq_of_perm (order otherOrder : MapOrder) (recordKey : RecordKey)
    (permutation : observations.Perm others)
    (distinct : (observations.map MajorityObservation.authorityID).Nodup)
    (authoritative : Go.Map Bytes) :
    targetMaterial order recordKey observations (sortedGroups observations) authoritative =
      targetMaterial otherOrder recordKey others (sortedGroups others) authoritative := by
  have majority : majorityTarget order observations (sortedGroups observations) =
      majorityTarget otherOrder others (sortedGroups others) := by
    have keys : ∀ hash, hash ∈ (groupsOf observations).keys ↔ hash ∈ (groupsOf others).keys := by
      intro hash
      rw [mem_keys_groupsOf, mem_keys_groupsOf]
      simp only [permutation.mem_iff]
    rw [majorityTarget_eq, majorityTarget_eq]
    simp only [← heldByMajority_congr permutation]
    rw [find?_eq_of_mem_iff keys]
    intro hash _ other _ held otherHeld
    exact (of_decide_eq_true held).unique (of_decide_eq_true otherHeld)
  have authority : (observations.find? fun observation =>
      observation.authorityID == configuredAuthority recordKey authoritative) =
      others.find? fun observation =>
        observation.authorityID == configuredAuthority recordKey authoritative := by
    refine find?_eq_of_mem_iff (fun _ => permutation.mem_iff) ?_
    intro observation member other otherMember named otherNamed
    exact List.inj_on_of_nodup_map distinct member otherMember
      ((beq_iff_eq.mp named).trans (beq_iff_eq.mp otherNamed).symm)
  rw [targetMaterial, targetMaterial, majority, authority]

theorem planeProofs_eq_of_perm (permutation : observations.Perm others)
    (distinct : (observations.map MajorityObservation.authorityID).Nodup) :
    planeProofs observations = planeProofs others := by
  refine Sorting.insertionSort_eq_of_perm (permutation.map _) ?_
  intro proof member other otherMember below above
  obtain ⟨observation, isObservation, rfl⟩ := List.mem_map.mp member
  obtain ⟨otherObservation, isOther, rfl⟩ := List.mem_map.mp otherMember
  rw [List.inj_on_of_nodup_map distinct isObservation isOther (List.le_antisymm below above)]

theorem majorityEntry_eq_of_perm (order otherOrder : MapOrder) (recordKey : RecordKey)
    (permutation : observations.Perm others)
    (distinct : (observations.map MajorityObservation.authorityID).Nodup)
    (authoritative : Go.Map Bytes) :
    majorityEntry order recordKey observations authoritative =
      majorityEntry otherOrder recordKey others authoritative := by
  have groups : ∀ hash, ((sortedGroups observations).lookup hash).getD [] =
      ((sortedGroups others).lookup hash).getD [] := by
    intro hash
    rw [lookup_sortedGroups, lookup_sortedGroups]
    exact sort_eq_of_perm ((permutation.filter _).map _)
  have minority : ∀ hash, ((observations.filter fun observation =>
      observation.materialHash != hash).map MajorityObservation.authorityID).insertionSort (· ≤ ·) =
      ((others.filter fun observation =>
        observation.materialHash != hash).map MajorityObservation.authorityID).insertionSort
          (· ≤ ·) :=
    fun hash => sort_eq_of_perm ((permutation.filter _).map _)
  unfold majorityEntry
  simp only [minority, groups, planeProofs_eq_of_perm permutation distinct,
    targetMaterial_eq_of_perm order otherOrder recordKey permutation distinct authoritative]

end Order

section Valid

variable {primitives : Primitives}

/-- A request that passes the checks, with trees built from the record sets. -/
structure MajorityRequest.Valid (primitives : Primitives) (request : MajorityRequest) : Prop where
  tenant : trimSpace request.tenantID ≠ []
  spec : trimSpace request.specVersion ≠ []
  three : 3 ≤ request.planes.length
  named : ∀ plane ∈ request.planes, trimSpace plane.authorityID ≠ []
  distinct : (request.planes.map fun plane => trimSpace plane.authorityID).Nodup
  tenants : ∀ plane ∈ request.planes, plane.set.tenantID = trimSpace request.tenantID
  specs : ∀ plane ∈ request.planes, plane.set.specVersion = trimSpace request.specVersion
  built : ∀ plane ∈ request.planes, ∃ tree, plane.tree = some tree ∧
    buildTreeFromSet primitives plane.set = .ok tree

variable {request : MajorityRequest} {planes : List MajorityPlane}

theorem MajorityRequest.Valid.of_perm (valid : request.Valid primitives)
    (permutation : planes.Perm request.planes) :
    MajorityRequest.Valid primitives { request with planes := planes } where
  tenant := valid.tenant
  spec := valid.spec
  three := permutation.length_eq ▸ valid.three
  named plane member := valid.named plane (permutation.mem_iff.mp member)
  distinct := (permutation.map _).nodup_iff.mpr valid.distinct
  tenants plane member := valid.tenants plane (permutation.mem_iff.mp member)
  specs plane member := valid.specs plane (permutation.mem_iff.mp member)
  built plane member := valid.built plane (permutation.mem_iff.mp member)

def material (primitives : Primitives) (set : RecordSet) (recordKey : RecordKey) : Option Bytes :=
  (set.records.find? fun record => record.recordKey == recordKey).bind fun record =>
    (materialBytes primitives record).toOption

/-- The index of a plane. -/
structure Indexed (primitives : Primitives) (plane : MajorityPlane) (index : MajorityIndex) :
    Prop where
  indexes : Indexes primitives plane.set index.index
  authorityID : index.index.state.authorityID = plane.authorityID

/-- The index that a plane has, if any. -/
def MajorityPlane.indexed (plane : MajorityPlane) : Option MajorityIndex :=
  plane.tree.bind fun tree =>
    (indexPlane ⟨plane.authorityID, plane.set, tree⟩).toOption.map fun index =>
      ⟨index, plane.digestHash⟩

theorem exists_indexRecords {records : List CanonicalRecord}
    (keyed : ∀ record ∈ records, ∃ key, recordKeyBytes record.recordKey = .ok key)
    (start : Go.Map CanonicalRecord) :
    ∃ index, indexRecords start records = .ok index := by
  induction records generalizing start with
  | nil => exact ⟨start, rfl⟩
  | cons record rest ih =>
      obtain ⟨⟨key, key_eq⟩, others⟩ := List.forall_mem_cons.mp keyed
      obtain ⟨index, index_eq⟩ := ih others (start.set key record)
      exact ⟨index, bind_eq_ok.mpr ⟨key, by rw [key_eq]; rfl, index_eq⟩⟩

theorem exists_indexPlane {state : PlaneState}
    (built : buildTreeFromSet primitives state.set = .ok state.tree) :
    ∃ index, indexPlane state = .ok index := by
  obtain ⟨leaves, leaves_eq, -⟩ := bind_eq_ok.mp built
  have leavesOf := Digest.leavesOf_leavesFromSet leaves_eq
  have keyed : ∀ record ∈ state.set.records,
      ∃ key, recordKeyBytes record.recordKey = .ok key := by
    intro record member
    obtain ⟨leaf, -, made⟩ := leavesOf.of_record record member
    exact ⟨_, (Digest.newLeaf_eq_ok made).1⟩
  obtain ⟨records, records_eq⟩ := exists_indexRecords keyed []
  exact ⟨_, bind_eq_ok.mpr ⟨records, records_eq, rfl⟩⟩

/-- Valid planes are indexed one by one. -/
theorem indexPlanes_spec {tenantID specVersion : Bytes} {seen : List Bytes}
    (named : ∀ plane ∈ planes, trimSpace plane.authorityID ≠ [])
    (fresh : ∀ plane ∈ planes, trimSpace plane.authorityID ∉ seen)
    (distinct : (planes.map fun plane => trimSpace plane.authorityID).Nodup)
    (tenants : ∀ plane ∈ planes, plane.set.tenantID = tenantID)
    (specs : ∀ plane ∈ planes, plane.set.specVersion = specVersion)
    (built : ∀ plane ∈ planes, ∃ tree, plane.tree = some tree ∧
      buildTreeFromSet primitives plane.set = .ok tree) :
    ∃ indexes, indexPlanes tenantID specVersion seen planes = .ok indexes ∧
      planes.map MajorityPlane.indexed = indexes.map some := by
  induction planes generalizing seen with
  | nil => exact ⟨[], rfl, rfl⟩
  | cons plane rest ih =>
      rw [List.map_cons, List.nodup_cons] at distinct
      simp only [List.forall_mem_cons] at named fresh tenants specs built
      obtain ⟨⟨tree, tree_eq, tree_built⟩, others⟩ := built
      have further : ∀ other ∈ rest,
          trimSpace other.authorityID ∉ trimSpace plane.authorityID :: seen := by
        intro other member again
        rcases List.mem_cons.mp again with same | before
        · exact distinct.1 (same ▸ List.mem_map_of_mem member)
        · exact fresh.2 other member before
      obtain ⟨indexes, indexes_eq, each⟩ := ih named.2 further distinct.2 tenants.2
        specs.2 others
      obtain ⟨index, index_eq⟩ : ∃ index,
          indexPlane ⟨plane.authorityID, plane.set, tree⟩ = .ok index :=
        exists_indexPlane tree_built
      refine ⟨⟨index, plane.digestHash⟩ :: indexes, ?_, ?_⟩
      · rw [indexPlanes, tree_eq]
        dsimp only
        rw [if_neg]
        · exact bind_eq_ok.mpr ⟨index, by rw [index_eq]; rfl,
            bind_eq_ok.mpr ⟨indexes, indexes_eq, rfl⟩⟩
        · rintro (empty | again | tenant | spec)
          · exact named.1 empty
          · exact fresh.1 again
          · exact tenant tenants.1
          · exact spec specs.1
      · rw [List.map_cons, List.map_cons, each, MajorityPlane.indexed, tree_eq]
        simp only [Option.bind_some, index_eq]
        rfl

variable {plane : MajorityPlane}

variable {index : MajorityIndex}

theorem indexed_of_built {tree : Tree} (tree_eq : plane.tree = some tree)
    (built : buildTreeFromSet primitives plane.set = .ok tree)
    (index_eq : plane.indexed = some index) :
    Indexed primitives plane index := by
  rw [MajorityPlane.indexed, tree_eq, Option.bind_some] at index_eq
  obtain ⟨inner, isOk, rfl⟩ := Option.map_eq_some_iff.mp index_eq
  have inner_eq : indexPlane ⟨plane.authorityID, plane.set, tree⟩ = .ok inner := by
    cases made : indexPlane ⟨plane.authorityID, plane.set, tree⟩ with
    | error error => rw [made] at isOk; cases isOk
    | ok result => rw [made] at isOk; rw [Option.some.inj isOk]
  obtain ⟨state_eq, indexes⟩ := indexes_indexPlane built inner_eq
  exact ⟨indexes, by rw [state_eq]⟩

variable {recordKey : RecordKey}

variable {key : Bytes}

theorem Indexed.material_eq (indexed : Indexed primitives plane index)
    (key_eq : recordKeyBytes recordKey = .ok key) :
    material primitives plane.set recordKey =
      (index.index.records.lookup key).bind fun record =>
        (materialBytes primitives record).toOption := by
  have found : (plane.set.records.find? fun record => record.recordKey == recordKey) =
      index.index.records.lookup key := by
    cases found : index.index.records.lookup key with
    | none =>
        rw [List.find?_eq_none]
        intro record member same
        exact (indexed.indexes.lookup_eq_none_iff key_eq).mp found record member
          (beq_iff_eq.mp same)
    | some record =>
        obtain ⟨member, own⟩ := (indexed.indexes.lookup key record).mp found
        cases first : plane.set.records.find? fun record => record.recordKey == recordKey with
        | none =>
            rw [List.find?_eq_none] at first
            exact absurd (beq_iff_eq.mpr (recordKey_eq own key_eq)) (first record member)
        | some other =>
            have named := List.find?_some first
            have otherKey : other.recordKey = recordKey := beq_iff_eq.mp named
            have otherFound := (indexed.indexes.lookup key other).mpr
              ⟨List.mem_of_find?_eq_some first, otherKey ▸ key_eq⟩
            rw [← otherFound, found]
  rw [material, found]

/-- What the entries are made from: the authority, and the material as its
hash. -/
def MajorityObservation.shape (observation : MajorityObservation) : Bytes × Bool × Bytes :=
  (observation.authorityID, observation.present, observation.materialHash)

def MajorityPlane.shape (primitives : Primitives) (recordKey : RecordKey)
    (plane : MajorityPlane) : Bytes × Bool × Bytes :=
  (plane.authorityID, (material primitives plane.set recordKey).isSome,
    materialHash primitives (material primitives plane.set recordKey))

theorem shape_eq_iff {observation : MajorityObservation} :
    observation.shape = plane.shape primitives recordKey ↔
      observation.authorityID = plane.authorityID ∧
      observation.present = (material primitives plane.set recordKey).isSome ∧
      observation.materialHash =
        materialHash primitives (material primitives plane.set recordKey) := by
  simp only [MajorityObservation.shape, MajorityPlane.shape, Prod.mk.injEq]

theorem exists_observe (indexed : Indexed primitives plane index)
    (key_eq : recordKeyBytes recordKey = .ok key) :
    ∃ observation, observe primitives key index = .ok observation ∧
      observation.shape = plane.shape primitives recordKey := by
  rw [MajorityPlane.shape, indexed.material_eq key_eq, ← indexed.authorityID, observe]
  cases found : index.index.records.lookup key with
  | none =>
      obtain ⟨absence, absence_eq⟩ :=
        Digest.exists_absenceProof (indexed.indexes.ne_of_lookup_eq_none found)
      dsimp only
      rw [absence_eq]
      exact ⟨_, rfl, rfl⟩
  | some record =>
      obtain ⟨leaf, member, rfl, text⟩ := indexed.indexes.exists_leaf found
      obtain ⟨inclusion, inclusion_eq⟩ :=
        Digest.exists_inclusionProof indexed.indexes.leavesOf.sorted member
      obtain ⟨own, own_eq⟩ := exists_materialBytes text
      dsimp only
      rw [own_eq, inclusion_eq, Option.bind_some, own_eq]
      exact ⟨_, rfl, rfl⟩

variable {indexes : List MajorityIndex}

/-- Every record found under a key has the same record key. -/
theorem recordKeyAt_eq (named : recordKey.tenantID ≠ [])
    (same : ∀ plane ∈ indexes, ∀ record, plane.index.records.lookup key = some record →
      record.recordKey = recordKey)
    (present : ∃ plane ∈ indexes, ∃ record, plane.index.records.lookup key = some record) :
    recordKeyAt indexes key = recordKey := by
  -- Until a plane with a record is passed the key is empty, and from there on it stays.
  suffices loop : ∀ start : RecordKey, start = recordKey ∨ start.tenantID = [] ∧
      (∃ plane ∈ indexes, ∃ record, plane.index.records.lookup key = some record) →
      indexes.foldl (fun recordKey plane =>
        match plane.index.records.lookup key with
        | some record => if recordKey.tenantID = [] then record.recordKey else recordKey
        | none => recordKey) start = recordKey from
    loop _ (Or.inr ⟨rfl, present⟩)
  clear present
  induction indexes with
  | nil =>
      rintro start (rfl | ⟨-, plane, member, -⟩)
      · rfl
      · exact absurd member List.not_mem_nil
  | cons plane rest ih =>
      obtain ⟨own, others⟩ := List.forall_mem_cons.mp same
      intro start reached
      rw [List.foldl_cons]
      apply ih others
      cases found : plane.index.records.lookup key with
      | none =>
          refine reached.imp_right (And.imp_right ?_)
          rintro ⟨other, member, record, otherFound⟩
          rcases List.mem_cons.mp member with rfl | later
          · rw [found] at otherFound
            cases otherFound
          · exact ⟨other, later, record, otherFound⟩
      | some record =>
          left
          rcases reached with rfl | ⟨empty, -⟩
          · exact if_neg named
          · exact (if_pos empty).trans (own record found)

/-- What a plane shows under a key, if anything. -/
def observed (primitives : Primitives) (key : Bytes) (plane : MajorityPlane) :
    Option MajorityObservation :=
  plane.indexed.bind fun index => (observe primitives key index).toOption

/-- The planes show their material under each of their keys, and the record key
there is one for all of them. -/
theorem majorityObservations_spec
    (built : ∀ plane ∈ planes, ∃ tree, plane.tree = some tree ∧
      buildTreeFromSet primitives plane.set = .ok tree)
    (each : planes.map MajorityPlane.indexed = indexes.map some)
    (member : key ∈ majorityUnionKeys indexes) :
    ∃ observations recordKey,
      majorityObservations primitives indexes key = .ok (observations, recordKey) ∧
      recordKeyBytes recordKey = .ok key ∧
      planes.map (observed primitives key) = observations.map some ∧
      planes.map (MajorityPlane.shape primitives recordKey) =
        observations.map MajorityObservation.shape := by
  have indexed : ∀ plane ∈ planes, ∃ index, plane.indexed = some index ∧
      Indexed primitives plane index := by
    intro plane isPlane
    obtain ⟨tree, tree_eq, tree_built⟩ := built plane isPlane
    obtain ⟨index, -, index_eq⟩ := List.mem_map.mp (each ▸ List.mem_map_of_mem isPlane)
    exact ⟨index, index_eq.symm, indexed_of_built tree_eq tree_built index_eq.symm⟩
  have ofIndex : ∀ index ∈ indexes, ∃ plane ∈ planes, Indexed primitives plane index := by
    intro index isIndex
    obtain ⟨plane, isPlane, index_eq⟩ := List.mem_map.mp (each.symm ▸ List.mem_map_of_mem isIndex)
    obtain ⟨other, other_eq, otherIndexed⟩ := indexed plane isPlane
    obtain rfl := Option.some.inj (index_eq.symm.trans other_eq)
    exact ⟨plane, isPlane, otherIndexed⟩
  -- The key is one of some plane's records.
  obtain ⟨index, isIndex, record, found⟩ : ∃ index ∈ indexes, ∃ record,
      index.index.records.lookup key = some record := by
    rw [majorityUnionKeys, (List.perm_insertionSort _ _).mem_iff, List.mem_dedup,
      List.mem_flatMap] at member
    obtain ⟨index, isIndex, bound⟩ := member
    exact ⟨index, isIndex, Go.Map.mem_keys.mp bound⟩
  obtain ⟨plane, isPlane, planeIndexed⟩ := ofIndex index isIndex
  have key_eq := ((planeIndexed.indexes.lookup key record).mp found).2
  have shows : ∀ index ∈ indexes, ∃ observation,
      observe primitives key index = .ok observation := by
    intro index isIndex
    obtain ⟨plane, -, planeIndexed⟩ := ofIndex index isIndex
    obtain ⟨observation, observation_eq, -⟩ := exists_observe planeIndexed key_eq
    exact ⟨observation, observation_eq⟩
  obtain ⟨observations, observations_eq⟩ := Result.exists_mapM_eq_ok_iff.mpr shows
  have recordKey_eq : recordKeyAt indexes key = record.recordKey := by
    refine recordKeyAt_eq (Digest.tenantID_ne_nil key_eq) ?_ ⟨index, isIndex, record, found⟩
    intro other isOther otherRecord otherFound
    obtain ⟨otherPlane, -, otherIndexed⟩ := ofIndex other isOther
    exact recordKey_eq ((otherIndexed.indexes.lookup key otherRecord).mp otherFound).2 key_eq
  have listed : planes.map (observed primitives key) = observations.map some := by
    calc
      planes.map (observed primitives key)
      _ = (planes.map MajorityPlane.indexed).map fun index =>
            index.bind fun index => (observe primitives key index).toOption := by
        rw [List.map_map]
        rfl
      _ = indexes.map fun index => (observe primitives key index).toOption := by
        rw [each, List.map_map]
        rfl
      _ = observations.map some := by
        refine Result.map_eq_of_mapM ?_ observations_eq
        intro index observation observation_eq
        rw [observation_eq]
        rfl
  refine ⟨observations, record.recordKey, ?_, key_eq, listed, ?_⟩
  · refine bind_eq_ok.mpr ⟨observations, observations_eq, ?_⟩
    rw [recordKey_eq, if_neg (Digest.tenantID_ne_nil key_eq)]
    rfl
  · apply List.map_injective_iff.mpr (Option.some_injective _)
    calc
      (planes.map (MajorityPlane.shape primitives record.recordKey)).map some
      _ = planes.map fun plane =>
            (observed primitives key plane).map MajorityObservation.shape := by
        rw [List.map_map]
        refine List.map_congr_left fun plane isPlane => ?_
        obtain ⟨index, index_eq, planeIndexed⟩ := indexed plane isPlane
        obtain ⟨observation, observation_eq, shape_eq⟩ := exists_observe planeIndexed key_eq
        rw [observed, index_eq, Option.bind_some, observation_eq, Function.comp_apply, ← shape_eq]
        rfl
      _ = (observations.map MajorityObservation.shape).map some := by
        rw [← Function.comp_def, ← List.map_map, listed, List.map_map, List.map_map]
        rfl

section Entries

variable {order : MapOrder}
variable {recordKey : RecordKey}
variable {observations : List MajorityObservation}
variable {authoritative : Go.Map Bytes}

/-- A target is the material of the authority that is configured, or else that of
the majority. -/
theorem targetMaterial_spec
    (targeted : (targetMaterial order recordKey observations (sortedGroups observations)
      authoritative).hash ≠ []) :
    (∃ observation ∈ observations,
        observation.authorityID = configuredAuthority recordKey authoritative ∧
        targetMaterial order recordKey observations (sortedGroups observations) authoritative =
          ⟨observation.materialHash, observation.present,
            configuredAuthority recordKey authoritative, true⟩) ∨
      ((∀ observation ∈ observations, observation.authorityID ≠ [] →
          observation.authorityID ≠ configuredAuthority recordKey authoritative) ∧
        ∃ hash, HeldByMajority observations hash ∧
          targetMaterial order recordKey observations (sortedGroups observations) authoritative =
            ⟨hash, hash != absentMaterialHash, [], false⟩) := by
  have majority : (majorityTarget order observations (sortedGroups observations)).hash ≠ [] →
      ∃ hash, HeldByMajority observations hash ∧
        majorityTarget order observations (sortedGroups observations) =
          ⟨hash, hash != absentMaterialHash, [], false⟩ := by
    rw [majorityTarget_eq]
    intro targeted
    split at targeted
    next hash found =>
      have held := List.find?_some found
      exact ⟨hash, of_decide_eq_true held, rfl⟩
    next => exact absurd rfl targeted
  unfold targetMaterial at targeted ⊢
  by_cases empty : configuredAuthority recordKey authoritative = []
  · simp only [empty, if_true] at targeted ⊢
    exact Or.inr ⟨fun _ _ named => named, majority targeted⟩
  · simp only [empty, if_false] at targeted ⊢
    cases found : observations.find? fun observation =>
        observation.authorityID == configuredAuthority recordKey authoritative with
    | some observation =>
        have named := List.find?_some found
        exact Or.inl ⟨observation, List.mem_of_find?_eq_some found, beq_iff_eq.mp named, rfl⟩
    | none =>
        rw [found] at targeted
        rw [List.find?_eq_none] at found
        exact Or.inr ⟨fun observation member _ same => found observation member
          (beq_iff_eq.mpr same), majority targeted⟩

theorem majorityEntry_eq_some {entry : MajorityEntry}
    (emitted : majorityEntry order recordKey observations authoritative = some entry) :
    (targetMaterial order recordKey observations (sortedGroups observations)
        authoritative).hash ≠ [] ∧
      entry.recordKey = recordKey ∧
      entry.targetMaterialHash = (targetMaterial order recordKey observations
        (sortedGroups observations) authoritative).hash ∧
      entry.targetPresent = (targetMaterial order recordKey observations
        (sortedGroups observations) authoritative).present ∧
      (∀ action ∈ entry.actions, action.recordKey = recordKey ∧
        action.targetMaterialHash = entry.targetMaterialHash) ∧
      ∀ observation ∈ observations,
        observation.authorityID ∉ entry.actions.map ConformAction.authorityID →
        observation.materialHash = entry.targetMaterialHash := by
  unfold majorityEntry at emitted
  dsimp only at emitted
  split at emitted
  next => cases emitted
  next targeted =>
    split at emitted
    next => cases emitted
    next =>
      obtain rfl := Option.some.inj emitted
      refine ⟨targeted, rfl, rfl, rfl, ?_, ?_⟩
      · intro action member
        obtain ⟨authorityID, -, rfl⟩ := List.mem_map.mp member
        exact ⟨rfl, rfl⟩
      · intro observation member spared
        by_contra other
        apply spared
        rw [List.map_map, Function.comp_def, List.map_id', (List.perm_insertionSort _ _).mem_iff]
        exact List.mem_map_of_mem (List.mem_filter.mpr ⟨member, bne_iff_ne.mpr other⟩)

end Entries

theorem classifyKeys_spec (order : MapOrder) (authoritative : Go.Map Bytes) {keys : List Bytes}
    (shown : ∀ key ∈ keys, ∃ observations recordKey,
      majorityObservations primitives indexes key = .ok (observations, recordKey)) :
    ∃ entries, classifyKeys primitives order authoritative indexes keys = .ok entries ∧
      ∀ entry ∈ entries, ∃ key ∈ keys, ∃ observations recordKey,
        majorityObservations primitives indexes key = .ok (observations, recordKey) ∧
        majorityEntry order recordKey observations authoritative = some entry := by
  induction keys with
  | nil => exact ⟨[], rfl, List.forall_mem_nil _⟩
  | cons key rest ih =>
      obtain ⟨⟨observations, recordKey, own⟩, others⟩ := List.forall_mem_cons.mp shown
      obtain ⟨entries, entries_eq, origin⟩ := ih others
      refine ⟨_, bind_eq_ok.mpr ⟨_, own, bind_eq_ok.mpr ⟨_, entries_eq, rfl⟩⟩, ?_⟩
      intro entry member
      rcases List.mem_append.mp member with first | later
      · exact ⟨key, List.mem_cons_self, observations, recordKey, own, Option.mem_toList.mp first⟩
      · obtain ⟨other, isKey, rest⟩ := origin entry later
        exact ⟨other, List.mem_cons_of_mem _ isKey, rest⟩

theorem classifyKeys_eq_of_perm {order otherOrder : MapOrder} {authoritative : Go.Map Bytes}
    {others : List MajorityIndex} {keys : List Bytes}
    (shown : ∀ key ∈ keys, ∃ observations otherObservations recordKey,
      majorityObservations primitives indexes key = .ok (observations, recordKey) ∧
      majorityObservations primitives others key = .ok (otherObservations, recordKey) ∧
      observations.Perm otherObservations ∧
      (observations.map MajorityObservation.authorityID).Nodup) :
    classifyKeys primitives order authoritative indexes keys =
      classifyKeys primitives otherOrder authoritative others keys := by
  induction keys with
  | nil => rfl
  | cons key rest ih =>
      obtain ⟨⟨observations, otherObservations, recordKey, own, otherOwn, permutation, distinct⟩,
        later⟩ := List.forall_mem_cons.mp shown
      have entry := majorityEntry_eq_of_perm order otherOrder recordKey permutation distinct
        authoritative
      rw [classifyKeys, classifyKeys, own, otherOwn, ih later]
      change (classifyKeys primitives otherOrder authoritative others rest >>= fun entries =>
        pure ((majorityEntry order recordKey observations authoritative).toList ++ entries)) = _
      rw [entry]
      rfl

def materials (primitives : Primitives) (planes : List MajorityPlane) : Set Bytes :=
  { text | ∃ plane ∈ planes, ∃ recordKey, material primitives plane.set recordKey = some text }

/-- The target of a record key: the material of the plane whose authority is
configured, or else the one material that more than half of the planes hold. -/
def Resolves (primitives : Primitives) (request : MajorityRequest) (recordKey : RecordKey)
    (target : Option Bytes) : Prop :=
  (∃ plane ∈ request.planes,
      plane.authorityID = configuredAuthority recordKey request.authoritativeByRecordType ∧
      material primitives plane.set recordKey = target) ∨
    ((∀ plane ∈ request.planes,
        plane.authorityID ≠ configuredAuthority recordKey request.authoritativeByRecordType) ∧
      ∀ other,
        request.planes.length < 2 * request.planes.countP (fun plane =>
            material primitives plane.set recordKey == other) ↔
          other = target)

/-- The material of a plane once the planes that are told to conform have the
target. -/
def conformed (primitives : Primitives) (entry : MajorityEntry) (target : Option Bytes)
    (plane : MajorityPlane) : Option Bytes :=
  if plane.authorityID ∈ entry.actions.map ConformAction.authorityID then target
  else material primitives plane.set entry.recordKey

theorem materialHash_bne_absent {inputs : Set Bytes}
    (binds : Hash.Binds primitives.sha256Sum inputs) (held : Option Bytes) :
    (materialHash primitives held != absentMaterialHash) = held.isSome := by
  cases held with
  | none => exact bne_self_eq_false _
  | some text =>
      apply bne_iff_ne.mpr
      intro equal
      have lengths := congrArg List.length equal
      rw [materialHash, Go.length_hexEncode, binds.length_eq] at lengths
      exact absurd lengths (by decide)

theorem materialHash_inj {inputs : Set Bytes} (binds : Hash.Binds primitives.sha256Sum inputs)
    {first second : Option Bytes} (known : ∀ text, second = some text → text ∈ inputs)
    (same : materialHash primitives first = materialHash primitives second) :
    first = second := by
  have presence : first.isSome = second.isSome := by
    rw [← materialHash_bne_absent binds, same, materialHash_bne_absent binds]
  cases first with
  | none => exact (Option.not_isSome_iff_eq_none.mp (Bool.eq_false_iff.mp presence.symm)).symm
  | some text =>
      obtain ⟨other, rfl⟩ := Option.isSome_iff_exists.mp presence.symm
      rw [binds.eq_of_hash_eq other (known other rfl) text (Go.hexEncode_injective same)]

variable {observations : List MajorityObservation}

theorem length_holders
    (shapes : planes.map (MajorityPlane.shape primitives recordKey) =
      observations.map MajorityObservation.shape)
    (hash : Bytes) :
    (holders observations hash).length = planes.countP fun plane =>
      materialHash primitives (material primitives plane.set recordKey) == hash := by
  calc
    (holders observations hash).length
    _ = (observations.map MajorityObservation.shape).countP fun shape => shape.2.2 == hash := by
      rw [holders, ← List.countP_eq_length_filter, List.countP_map]
      rfl
    _ = planes.countP fun plane =>
          materialHash primitives (material primitives plane.set recordKey) == hash := by
      rw [← shapes, List.countP_map]
      rfl

/-- Where the hash binds, the hash that the majority shows is that of one
material, which the majority holds. -/
theorem majority_iff (binds : Hash.Binds primitives.sha256Sum (materials primitives planes))
    (shapes : planes.map (MajorityPlane.shape primitives recordKey) =
      observations.map MajorityObservation.shape)
    (member : plane ∈ planes)
    (held : HeldByMajority observations
      (materialHash primitives (material primitives plane.set recordKey)))
    (other : Option Bytes) :
    planes.length <
        2 * planes.countP (fun plane => material primitives plane.set recordKey == other) ↔
      other = material primitives plane.set recordKey := by
  have lengths : planes.length = observations.length := by
    rw [← List.length_map (MajorityPlane.shape primitives recordKey), shapes, List.length_map]
  have bound : ∀ first, materialHash primitives first =
      materialHash primitives (material primitives plane.set recordKey) →
      first = material primitives plane.set recordKey :=
    fun first => materialHash_inj binds fun text found => ⟨plane, member, recordKey, found⟩
  constructor
  · intro majority
    have fewer : planes.countP (fun plane => material primitives plane.set recordKey == other) ≤
        (holders observations (materialHash primitives other)).length := by
      rw [length_holders shapes]
      refine List.countP_mono_left fun plane _ same => ?_
      rw [beq_iff_eq.mp same]
      exact beq_self_eq_true _
    refine bound other (HeldByMajority.unique ?_ held)
    unfold HeldByMajority
    omega
  · rintro rfl
    have equal : planes.countP (fun other =>
        material primitives other.set recordKey == material primitives plane.set recordKey) =
        (holders observations
          (materialHash primitives (material primitives plane.set recordKey))).length := by
      rw [length_holders shapes]
      refine List.countP_congr fun other _ => ?_
      rw [beq_iff_eq, beq_iff_eq]
      exact ⟨fun same => by rw [same], bound _⟩
    unfold HeldByMajority at held
    omega

/-- An entry resolves its key. -/
theorem resolves_of_majorityEntry {order : MapOrder} {entry : MajorityEntry}
    (binds : Hash.Binds primitives.sha256Sum (materials primitives request.planes))
    (named : ∀ plane ∈ request.planes, plane.authorityID ≠ [])
    (shapes : request.planes.map (MajorityPlane.shape primitives recordKey) =
      observations.map MajorityObservation.shape)
    (emitted : majorityEntry order recordKey observations request.authoritativeByRecordType =
      some entry) :
    ∃ target, entry.targetMaterialHash = materialHash primitives target ∧
      entry.targetPresent = target.isSome ∧
      Resolves primitives request entry.recordKey target ∧
      (∀ action ∈ entry.actions, action.recordKey = entry.recordKey ∧
        action.targetMaterialHash = entry.targetMaterialHash) ∧
      ∀ plane ∈ request.planes, conformed primitives entry target plane = target := by
  obtain ⟨targeted, rfl, hash_eq, present_eq, actions, spared⟩ := majorityEntry_eq_some emitted
  have ofObservation : ∀ observation ∈ observations, ∃ plane ∈ request.planes,
      observation.shape = plane.shape primitives entry.recordKey := by
    intro observation member
    obtain ⟨plane, isPlane, shape_eq⟩ := List.mem_map.mp (shapes ▸ List.mem_map_of_mem member)
    exact ⟨plane, isPlane, shape_eq.symm⟩
  have ofPlane : ∀ plane ∈ request.planes, ∃ observation ∈ observations,
      observation.shape = plane.shape primitives entry.recordKey := by
    intro plane member
    exact List.mem_map.mp (shapes ▸ List.mem_map_of_mem member)
  -- The target is the material of a plane, by either way.
  have origin : ∃ plane ∈ request.planes,
      entry.targetMaterialHash =
        materialHash primitives (material primitives plane.set entry.recordKey) ∧
      entry.targetPresent = (material primitives plane.set entry.recordKey).isSome ∧
      Resolves primitives request entry.recordKey
        (material primitives plane.set entry.recordKey) := by
    rcases targetMaterial_spec targeted with
      ⟨observation, member, authority, target_eq⟩ | ⟨unobserved, hash, held, target_eq⟩
    · obtain ⟨plane, isPlane, shape_eq⟩ := ofObservation observation member
      obtain ⟨authority_eq, present, material_eq⟩ := shape_eq_iff.mp shape_eq
      refine ⟨plane, isPlane, ?_, ?_, Or.inl ⟨plane, isPlane, authority_eq ▸ authority, rfl⟩⟩
      · rw [hash_eq, target_eq, material_eq]
      · rw [present_eq, target_eq, present]
    · -- More than half of the planes is at least one of them.
      obtain ⟨observation, isHolder⟩ : ∃ observation, observation ∈ holders observations hash := by
        refine List.exists_mem_of_ne_nil _ fun empty => ?_
        rw [HeldByMajority, empty] at held
        exact absurd held (Nat.not_lt_zero _)
      obtain ⟨member, same⟩ := List.mem_filter.mp isHolder
      obtain ⟨plane, isPlane, shape_eq⟩ := ofObservation observation member
      obtain ⟨-, -, material_eq⟩ := shape_eq_iff.mp shape_eq
      obtain rfl : materialHash primitives (material primitives plane.set entry.recordKey) = hash :=
        material_eq.symm.trans (beq_iff_eq.mp same)
      refine ⟨plane, isPlane, ?_, ?_, Or.inr ⟨?_, majority_iff binds shapes isPlane held⟩⟩
      · rw [hash_eq, target_eq]
      · rw [present_eq, target_eq, materialHash_bne_absent binds]
      · intro other isOther
        obtain ⟨observation, member, shape_eq⟩ := ofPlane other isOther
        obtain ⟨authority_eq, -, -⟩ := shape_eq_iff.mp shape_eq
        rw [← authority_eq]
        exact unobserved observation member (authority_eq ▸ named other isOther)
  obtain ⟨source, isSource, sourceHash, sourcePresent, resolves⟩ := origin
  refine ⟨_, sourceHash, sourcePresent, resolves, actions, ?_⟩
  intro plane isPlane
  unfold conformed
  split
  next => rfl
  next outside =>
    obtain ⟨observation, member, shape_eq⟩ := ofPlane plane isPlane
    obtain ⟨authority_eq, -, material_eq⟩ := shape_eq_iff.mp shape_eq
    have same := spared observation member (authority_eq ▸ outside)
    refine materialHash_inj binds (fun text found => ⟨source, isSource, entry.recordKey, found⟩) ?_
    rw [← material_eq, same, sourceHash]

theorem majorityUnionKeys_eq_of_perm {others : List MajorityIndex}
    (permutation : indexes.Perm others) :
    majorityUnionKeys indexes = majorityUnionKeys others :=
  sort_eq_of_perm (permutation.flatMap_right _).dedup

theorem MajorityRequest.Valid.exists_indexes (valid : request.Valid primitives) :
    ∃ indexes, indexPlanes (trimSpace request.tenantID) (trimSpace request.specVersion) []
        request.planes = .ok indexes ∧
      request.planes.map MajorityPlane.indexed = indexes.map some :=
  indexPlanes_spec valid.named (fun _ _ => List.not_mem_nil) valid.distinct valid.tenants
    valid.specs valid.built

theorem MajorityRequest.Valid.named_raw (valid : request.Valid primitives) :
    ∀ plane ∈ request.planes, plane.authorityID ≠ [] := by
  intro plane member empty
  exact valid.named plane member (by rw [empty]; rfl)

theorem MajorityRequest.Valid.distinct_raw (valid : request.Valid primitives) :
    (request.planes.map MajorityPlane.authorityID).Nodup := by
  apply List.Nodup.of_map trimSpace
  rw [List.map_map]
  exact valid.distinct

theorem classifyMajority_eq_ok {order : MapOrder} (valid : request.Valid primitives)
    (indexes_eq : indexPlanes (trimSpace request.tenantID) (trimSpace request.specVersion) []
      request.planes = .ok indexes)
    {entries : List MajorityEntry}
    (entries_eq : classifyKeys primitives order request.authoritativeByRecordType indexes
      (majorityUnionKeys indexes) = .ok entries) :
    classifyMajority primitives order request = .ok ⟨trimSpace request.tenantID, entries⟩ := by
  have three := valid.three
  unfold classifyMajority
  dsimp only
  rw [if_neg]
  · exact bind_eq_ok.mpr ⟨indexes, indexes_eq,
      bind_eq_ok.mpr ⟨entries, entries_eq, rfl⟩⟩
  · rintro (tenant | spec | few)
    · exact valid.tenant tenant
    · exact valid.spec spec
    · omega

/-- Three or more valid planes are classified alike in every order, and each
entry has a target that the planes agree on once they conform. -/
theorem majority_order_independent_and_resolving
    (primitives : Primitives)
    (order otherOrder : MapOrder)
    (request : MajorityRequest)
    (planes : List MajorityPlane)
    (valid : request.Valid primitives)
    (permutation : planes.Perm request.planes)
    (binds : Hash.Binds primitives.sha256Sum (materials primitives request.planes)) :
    ∃ result, classifyMajority primitives order request = .ok result ∧
      classifyMajority primitives otherOrder { request with planes := planes } = .ok result ∧
      ∀ entry ∈ result.entries, ∃ target,
        entry.targetMaterialHash = materialHash primitives target ∧
        entry.targetPresent = target.isSome ∧
        Resolves primitives request entry.recordKey target ∧
        (∀ action ∈ entry.actions, action.recordKey = entry.recordKey ∧
          action.targetMaterialHash = entry.targetMaterialHash) ∧
        ∀ plane ∈ request.planes, conformed primitives entry target plane = target := by
  have otherValid := valid.of_perm permutation
  obtain ⟨indexes, indexes_eq, each⟩ := valid.exists_indexes
  obtain ⟨others, others_eq, otherEach⟩ := otherValid.exists_indexes
  have indexesPermute : others.Perm indexes := by
    rw [← List.map_perm_map_iff (Option.some_injective _), ← each, ← otherEach]
    exact permutation.map _
  have keys := majorityUnionKeys_eq_of_perm indexesPermute
  have shown : ∀ key ∈ majorityUnionKeys indexes, ∃ observations otherObservations recordKey,
      majorityObservations primitives indexes key = .ok (observations, recordKey) ∧
      majorityObservations primitives others key = .ok (otherObservations, recordKey) ∧
      observations.Perm otherObservations ∧
      (observations.map MajorityObservation.authorityID).Nodup := by
    intro key member
    obtain ⟨observations, recordKey, own, key_eq, listed, shapes⟩ :=
      majorityObservations_spec valid.built each member
    obtain ⟨otherObservations, otherRecordKey, otherOwn, otherKey_eq, otherListed, -⟩ :=
      majorityObservations_spec otherValid.built otherEach (keys ▸ member)
    obtain rfl := recordKey_eq key_eq otherKey_eq
    refine ⟨observations, otherObservations, recordKey, own, otherOwn, ?_, ?_⟩
    · rw [← List.map_perm_map_iff (Option.some_injective _), ← listed, ← otherListed]
      exact permutation.symm.map _
    · have authorities : request.planes.map MajorityPlane.authorityID =
          observations.map MajorityObservation.authorityID := by
        have firsts := congrArg (List.map Prod.fst) shapes
        rwa [List.map_map, List.map_map] at firsts
      exact authorities ▸ valid.distinct_raw
  have observable : ∀ key ∈ majorityUnionKeys indexes, ∃ observations recordKey,
      majorityObservations primitives indexes key = .ok (observations, recordKey) := by
    intro key member
    obtain ⟨observations, -, recordKey, own, -⟩ := shown key member
    exact ⟨observations, recordKey, own⟩
  obtain ⟨entries, entries_eq, origin⟩ :=
    classifyKeys_spec order request.authoritativeByRecordType observable
  have otherEntries_eq : classifyKeys primitives otherOrder request.authoritativeByRecordType others
      (majorityUnionKeys others) = .ok entries := by
    rw [keys, ← classifyKeys_eq_of_perm shown, entries_eq]
  refine ⟨⟨trimSpace request.tenantID, entries⟩, classifyMajority_eq_ok valid indexes_eq entries_eq,
    classifyMajority_eq_ok otherValid others_eq otherEntries_eq, ?_⟩
  intro entry member
  obtain ⟨key, isKey, observations, recordKey, own, emitted⟩ := origin entry member
  obtain ⟨shownObservations, shownKey, shownOwn, -, -, shapes⟩ :=
    majorityObservations_spec valid.built each isKey
  obtain ⟨rfl, rfl⟩ := Prod.mk.inj (Except.ok.inj (own.symm.trans shownOwn))
  exact resolves_of_majorityEntry binds valid.named_raw shapes emitted

end Valid

/-- The material of the one record. -/
def namedMaterial : Bytes :=
  (materialBytes (Digest.textPrimitives id) Digest.namedRecord).toOption.getD []

/-- Primitives with a hash that numbers the leaf and the material of the one
record. -/
def majorityPrimitives : Primitives :=
  Digest.textPrimitives (Hash.numbering [namedInput, namedMaterial])

/-- A plane without records. -/
def barePlane (authorityID : Bytes) : MajorityPlane where
  authorityID := authorityID
  digestHash := []
  set := bareState.set
  tree := some ⟨[], [], Digest.emptyRoot majorityPrimitives.sha256Sum⟩

/-- A plane with one record and two without. -/
def bareMajority : MajorityRequest where
  tenantID := bytes "t"
  specVersion := Canon.specVersionV1
  planes :=
    [⟨namedState.authorityID, [], namedState.set, some namedState.tree⟩, barePlane (bytes "kms"),
      barePlane (bytes "hsm")]
  authoritativeByRecordType := []

theorem bareMajority_valid : bareMajority.Valid majorityPrimitives where
  tenant := by decide +kernel
  spec := by decide +kernel
  three := by decide
  named := by decide +kernel
  distinct := by decide +kernel
  tenants := by decide +kernel
  specs := by decide +kernel
  built := by
    have leaves : Digest.leavesFromSet majorityPrimitives namedState.set =
        .ok [Digest.namedLeaf] := by
      decide +kernel
    refine List.forall_mem_cons.mpr ⟨⟨_, rfl, buildTreeFromSet_namedState leaves⟩, ?_⟩
    exact List.forall_mem_cons.mpr ⟨⟨_, rfl, rfl⟩, List.forall_mem_cons.mpr ⟨⟨_, rfl, rfl⟩,
      List.forall_mem_nil _⟩⟩

theorem bareMajority_materials :
    materials majorityPrimitives bareMajority.planes ⊆
      {text | text ∈ [namedInput, namedMaterial]} := by
  rintro text ⟨plane, member, recordKey, held⟩
  obtain ⟨record, found, isOk⟩ := Option.bind_eq_some_iff.mp held
  have isRecord := List.mem_of_find?_eq_some found
  have own : ∀ plane ∈ bareMajority.planes, ∀ record ∈ plane.set.records,
      (materialBytes majorityPrimitives record).toOption = some namedMaterial := by
    decide +kernel
  have text_eq := (own plane member record isRecord).symm.trans isOk
  exact List.mem_cons_of_mem _ (List.mem_singleton.mpr (Option.some.inj text_eq).symm)

/-- The two planes without the record prevail, in both orders. -/
theorem majority_without_the_record :
    ∃ result, classifyMajority majorityPrimitives MapOrder.listed bareMajority = .ok result ∧
      classifyMajority majorityPrimitives MapOrder.listed
        { bareMajority with planes := bareMajority.planes.reverse } = .ok result ∧
      result.entries.map MajorityEntry.targetPresent = [false] ∧
      ∀ entry ∈ result.entries, ∃ target, ∀ plane ∈ bareMajority.planes,
        conformed majorityPrimitives entry target plane = target := by
  obtain ⟨result, result_eq, reversed_eq, resolved⟩ :=
    majority_order_independent_and_resolving majorityPrimitives MapOrder.listed
      MapOrder.listed bareMajority bareMajority.planes.reverse bareMajority_valid
      (List.reverse_perm _)
      ((Hash.numbering_binds _ (by decide)).mono bareMajority_materials)
  refine ⟨result, result_eq, reversed_eq, ?_, ?_⟩
  · have presence : (classifyMajority majorityPrimitives MapOrder.listed
        bareMajority).toOption.map (fun result => result.entries.map MajorityEntry.targetPresent) =
        some [false] := by
      decide +kernel
    rw [result_eq] at presence
    exact Option.some.inj presence
  · intro entry member
    obtain ⟨target, -, -, -, -, conform⟩ := resolved entry member
    exact ⟨target, conform⟩

end Trstctl.Reconcile.Witness
