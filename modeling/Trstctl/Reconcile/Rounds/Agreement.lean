import Trstctl.Reconcile.Witness.Difference

/-!
# Round agreement and the witness difference

A round compares the roots of two authorities, which commit to canonical bytes
with provenance, and a witness compares the records without it.  The canonical
bytes of different authorities are never equal, so the two agree only on empty
states and on states that differ in more than provenance.
-/

namespace Trstctl.Reconcile.Rounds

open Go (Bytes bytes)
open Result (bind_eq_ok guard_eq_ok)
open Canon (ObservedRecord CanonicalRecord RecordSet Primitives normalizeID authorityText)
open Digest (Rule RuleCount Body Tree Leaf build countRule buildTree buildInputs leafInput newLeaf
  buildLevels)
open Witness (PlaneIndex SameMaterial diffEntries)

/-- What a round has of one authority of a tenant: the observed records under
its provenance, their canonical set, and the digest body, tree and index made
of the set. -/
structure Plane (primitives : Primitives) (specVersion tenantID : Bytes) (rules : List Rule) where
  authorityID : Bytes
  observed : List ObservedRecord
  watermark : Digest.Watermark
  generatedAt : Int
  set : RecordSet
  body : Body
  tree : Tree
  index : PlaneIndex
  own : ∀ record ∈ observed, record.provenance.authorityID = authorityID
  reduced : Canon.reduceTenant primitives specVersion tenantID observed = .ok set
  built : build primitives ⟨set, authorityID, rules, watermark, generatedAt⟩ =
    .ok (body, tree)
  indexed : Witness.indexPlane ⟨authorityID, set, tree⟩ = .ok index
  addressable : ∀ leaf ∈ tree.leaves, leaf.recordKeyBytes.length < 2 ^ 63

section Reduction

variable {primitives : Primitives}

theorem reduceOne_provenance {specVersion tenantID : Bytes} {observed : ObservedRecord}
    {record : CanonicalRecord}
    (reduced : Canon.reduceOne primitives specVersion tenantID observed = .ok record) :
    record.provenance.authorityID = normalizeID primitives observed.provenance.authorityID := by
  simp only [Canon.reduceOne, bind_eq_ok, guard_eq_ok] at reduced
  obtain ⟨-, stableID, -, -, attributes, -, made⟩ := reduced
  rw [← Except.ok.inj made]

theorem reduceTenant_eq_ok
    {specVersion tenantID : Bytes} {observed : List ObservedRecord} {set : RecordSet}
    (reduced : Canon.reduceTenant primitives specVersion tenantID observed = .ok set) :
    set.specVersion = (if specVersion = [] then Canon.specVersionV1 else specVersion) ∧
      set.tenantID = normalizeID primitives tenantID ∧
      ∀ record ∈ set.records, ∃ source ∈ observed,
        Canon.reduceOne primitives set.specVersion set.tenantID source = .ok record := by
  simp only [Canon.reduceTenant, bind_eq_ok, guard_eq_ok] at reduced
  obtain ⟨-, records, mapped, made⟩ := reduced
  split at made
  · cases made
  · obtain rfl := Except.ok.inj made
    refine ⟨rfl, rfl, fun record member => ?_⟩
    exact Result.exists_of_mem_mapM mapped record
      ((List.perm_insertionSort _ records).mem_iff.mp member)

theorem build_eq_ok {request : Digest.BuildRequest} {body : Body} {tree : Tree}
    (built : build primitives request = .ok (body, tree)) :
    Digest.buildTreeFromSet primitives request.set = .ok tree ∧
      body.specVersion = request.set.specVersion ∧ body.tenantID = request.set.tenantID ∧
      body.merkleRoot = tree.root ∧ body.recordCount = request.set.records.length ∧
      body.hashAlg = bytes "sha-256" ∧
      body.postureSummary.policySetHash = Digest.policySetHash primitives.sha256Sum request.rules ∧
      body.postureSummary.perRule = request.rules.map (countRule request.set.records) := by
  simp only [build, Digest.summarizePosture, bind_eq_ok, Result.mapError_eq_ok]
    at built
  obtain ⟨made, tree_eq, posture, ⟨-, -, posture_eq⟩, -, -, result⟩ := built
  obtain ⟨body_eq, made_eq⟩ := Prod.mk.inj (Except.ok.inj result)
  obtain rfl := Except.ok.inj posture_eq
  subst made_eq
  subst body_eq
  exact ⟨tree_eq, rfl, rfl, rfl, rfl, rfl, rfl, rfl⟩

end Reduction

section Agreement

variable {primitives : Primitives}
variable {specVersion tenantID : Bytes}
variable {rules : List Rule}

/-- The authority as canonical bytes write it. -/
def Plane.writtenAuthority (plane : Plane primitives specVersion tenantID rules) : Bytes :=
  authorityText primitives (normalizeID primitives plane.authorityID)

variable (plane : Plane primitives specVersion tenantID rules)

theorem Plane.authorityText_provenance {record : CanonicalRecord}
    (member : record ∈ plane.set.records) :
    authorityText primitives record.provenance.authorityID = plane.writtenAuthority := by
  obtain ⟨-, -, sources⟩ := reduceTenant_eq_ok plane.reduced
  obtain ⟨source, sourceMember, made⟩ := sources record member
  rw [reduceOne_provenance made, plane.own source sourceMember, Plane.writtenAuthority]

theorem Plane.indexes :
    Witness.Indexes primitives plane.set plane.index :=
  (Witness.indexes_indexPlane (build_eq_ok plane.built).1 plane.indexed).2

theorem Plane.leavesOf :
    Digest.LeavesOf primitives plane.set plane.tree.leaves := by
  obtain ⟨state_eq, indexes⟩ :=
    Witness.indexes_indexPlane (build_eq_ok plane.built).1 plane.indexed
  have leavesOf := indexes.leavesOf
  rw [state_eq] at leavesOf
  exact leavesOf

theorem Plane.buildTree_leaves :
    buildTree primitives.sha256Sum plane.tree.leaves = .ok plane.tree := by
  obtain ⟨leaves, leaves_eq, tree_eq⟩ := bind_eq_ok.mp (build_eq_ok plane.built).1
  have sorted : Digest.sortLeaves leaves = leaves :=
    (Digest.leavesOf_leavesFromSet leaves_eq).sorted.insertionSort_eq
  rw [Digest.leaves_of_buildTree tree_eq, sorted]
  exact tree_eq

theorem Plane.leaves_eq_nil :
    plane.tree.leaves = [] ↔ plane.set.records = [] := by
  constructor
  · intro empty
    refine List.eq_nil_iff_forall_not_mem.mpr fun record member => ?_
    obtain ⟨leaf, leafMember, -⟩ := plane.leavesOf.of_record record member
    rw [empty] at leafMember
    cases leafMember
  · intro empty
    refine List.eq_nil_iff_forall_not_mem.mpr fun leaf member => ?_
    obtain ⟨record, recordMember, -⟩ := plane.leavesOf.of_leaf leaf member
    rw [empty] at recordMember
    cases recordMember

variable (left right : Plane primitives specVersion tenantID rules)

theorem root_ne
    (binds : Hash.Binds primitives.sha256Sum
      {text | text ∈ buildInputs primitives.sha256Sum left.tree.leaves})
    (different : left.writtenAuthority ≠ right.writtenAuthority)
    (nonempty : left.set.records ≠ []) :
    left.tree.root ≠ right.tree.root := by
  intro equal
  obtain ⟨leaf, member, other, otherMember, inputs⟩ := Digest.exists_input_eq_of_root_eq
    left.leavesOf.made left.leavesOf.distinct (mt left.leaves_eq_nil.mp nonempty)
    right.leavesOf.made right.leavesOf.distinct binds left.buildTree_leaves
    right.buildTree_leaves equal
  obtain ⟨-, texts⟩ := Digest.leafInput_injective (left.addressable leaf member)
    (right.addressable other otherMember) inputs
  obtain ⟨record, recordMember, made⟩ := left.leavesOf.of_leaf leaf member
  obtain ⟨otherRecord, otherRecordMember, otherMade⟩ := right.leavesOf.of_leaf other otherMember
  have written := (Digest.newLeaf_eq_ok made).2
  have otherWritten := (Digest.newLeaf_eq_ok otherMade).2
  rw [← texts] at otherWritten
  apply different
  rw [← left.authorityText_provenance recordMember,
    ← right.authorityText_provenance otherRecordMember]
  exact Canon.authorityText_eq_of_canonicalBytes_eq written otherWritten

theorem stateBodyEqual_iff :
    stateBodyEqual left.body right.body = true ↔
      left.set.records.length = right.set.records.length ∧ left.tree.root = right.tree.root ∧
        sortCounts (rules.map (countRule left.set.records)) =
          sortCounts (rules.map (countRule right.set.records)) := by
  obtain ⟨-, version, tenant, root, count, hashAlg, policy, perRule⟩ := build_eq_ok left.built
  obtain ⟨-, version', tenant', root', count', hashAlg', policy', perRule'⟩ :=
    build_eq_ok right.built
  obtain ⟨setVersion, setTenant, -⟩ := reduceTenant_eq_ok left.reduced
  obtain ⟨setVersion', setTenant', -⟩ := reduceTenant_eq_ok right.reduced
  simp only [stateBodyEqual, version, tenant, root, count, hashAlg, policy, perRule, version',
    tenant', root', count', hashAlg', policy', perRule', setVersion, setTenant, setVersion',
    setTenant', ne_eq, not_true_eq_false, false_or, or_false]
  by_cases lengths : left.set.records.length = right.set.records.length
  · by_cases roots : left.tree.root = right.tree.root
    · simp [lengths, roots]
    · simp [roots]
  · simp [lengths]

theorem stateBodyEqual_iff_empty
    (binds : Hash.Binds primitives.sha256Sum
      {text | text ∈ buildInputs primitives.sha256Sum left.tree.leaves})
    (different : left.writtenAuthority ≠ right.writtenAuthority) :
    stateBodyEqual left.body right.body = true ↔
      left.set.records = [] ∧ right.set.records = [] := by
  rw [stateBodyEqual_iff left right]
  constructor
  · rintro ⟨lengths, roots, -⟩
    by_contra someRecord
    have nonempty : left.set.records ≠ [] := by
      intro empty
      refine someRecord ⟨empty, List.eq_nil_of_length_eq_zero ?_⟩
      rw [← lengths, empty, List.length_nil]
    exact root_ne left right binds different nonempty roots
  · rintro ⟨empty, otherEmpty⟩
    refine ⟨by rw [empty, otherEmpty], ?_, by rw [empty, otherEmpty]⟩
    have built := left.buildTree_leaves
    have otherBuilt := right.buildTree_leaves
    rw [left.leaves_eq_nil.mpr empty] at built
    rw [right.leaves_eq_nil.mpr otherEmpty] at otherBuilt
    rw [Except.ok.inj (built.symm.trans otherBuilt)]

/-- The comparison of a round and the difference of a witness agree exactly
when both states are empty or they differ in more than provenance. -/
theorem stateBodyEqual_agrees_diffEntries_iff
    (left right : Plane primitives specVersion tenantID rules)
    (binds : Hash.Binds primitives.sha256Sum
      {text | text ∈ buildInputs primitives.sha256Sum left.tree.leaves})
    (different : left.writtenAuthority ≠ right.writtenAuthority) :
    ∃ entries, diffEntries primitives left.index right.index = .ok entries ∧
      ((stateBodyEqual left.body right.body = true ↔ entries = []) ↔
        (left.set.records = [] ∧ right.set.records = []) ∨
          ¬ SameMaterial primitives left.set.records right.set.records) := by
  obtain ⟨entries, entries_eq, nil_iff⟩ := Witness.diffEntries_spec left.indexes right.indexes
  refine ⟨entries, entries_eq, ?_⟩
  rw [stateBodyEqual_iff_empty left right binds different, nil_iff]
  have same : left.set.records = [] ∧ right.set.records = [] →
      SameMaterial primitives left.set.records right.set.records := by
    rintro ⟨empty, otherEmpty⟩
    rw [empty, otherEmpty]
    exact ⟨fun record member => absurd member List.not_mem_nil,
      fun record member => absurd member List.not_mem_nil⟩
  tauto

end Agreement

/-- The authorities of the example. -/
def authorities : List Bytes :=
  [bytes "vault", bytes "kms"]

def observedKey (authorityID : Bytes) : ObservedRecord where
  tenantID := bytes "t"
  recordType := bytes "key"
  stableID := []
  x509 := none
  key := some ⟨bytes "k", []⟩
  secretRef := none
  workload := none
  algorithm := bytes "RSA_2048"
  validity := ⟨some 300, none, none, none⟩
  status := bytes "Enabled"
  provenance := ⟨authorityID, bytes "k"⟩
  attributes := [(bytes "rotation_enabled", .bool true)]

def canonicalKey (authorityID : Bytes) : CanonicalRecord where
  specVersion := Canon.specVersionV1
  recordKey := ⟨bytes "t", bytes "key", bytes "k"⟩
  recordType := bytes "key"
  tenantID := bytes "t"
  algorithm := bytes "rsa-2048"
  validity := ⟨some 300, none, none, none⟩
  status := bytes "active"
  provenance := ⟨authorityID, bytes "k"⟩
  attributes := [(bytes "rotation_enabled", .bool true)]

/-- Primitives that are right on ASCII texts without URLs, with a hash. -/
def asciiPrimitives (hash : Bytes → Bytes) : Primitives where
  nfc text := text
  sha256Sum := hash
  parseURL _ := none
  escapedPath url := url.path
  urlString url := url.path

/-- The canonical bytes of the key, which do not depend on the hash. -/
def keyText (authorityID : Bytes) : Bytes :=
  ((canonicalKey authorityID).canonicalBytes (asciiPrimitives id)).toOption.getD []

def keyBytes : Bytes :=
  bytes "t\x00key\x00k"

/-- Primitives with a hash that separates the leaves of the two authorities. -/
def keyPrimitives : Primitives :=
  asciiPrimitives (Hash.numbering
    (authorities.map fun authorityID => leafInput keyBytes (keyText authorityID)))

def keyLeaf (authorityID : Bytes) : Leaf where
  recordKeyBytes := keyBytes
  canonicalRecordBytes := keyText authorityID
  hash := Digest.leafHash keyPrimitives.sha256Sum keyBytes (keyText authorityID)

def keyTree (authorityID : Bytes) : Tree where
  leaves := [keyLeaf authorityID]
  levels := [[(keyLeaf authorityID).hash]]
  root := (keyLeaf authorityID).hash

def keySet (authorityID : Bytes) : RecordSet where
  specVersion := Canon.specVersionV1
  tenantID := bytes "t"
  records := [canonicalKey authorityID]

/-- The digest body of the key, with no rules. -/
def keyBody (authorityID : Bytes) : Body where
  version := bytes "xrec.digest/v1"
  specVersion := Canon.specVersionV1
  authorityID := authorityID
  tenantID := bytes "t"
  merkleRoot := (keyTree authorityID).root
  recordCount := 1
  hashAlg := bytes "sha-256"
  postureSummary := ⟨Digest.policySetHash keyPrimitives.sha256Sum [], []⟩
  watermark := ⟨bytes "1", 1⟩
  generatedAt := 1

def keyIndex (authorityID : Bytes) : PlaneIndex where
  state := ⟨authorityID, keySet authorityID, keyTree authorityID⟩
  records := [(keyBytes, canonicalKey authorityID)]
  leaves := [(keyBytes, keyLeaf authorityID)]

variable (authorityID : Bytes)

theorem own_observedKey :
    ∀ record ∈ [observedKey authorityID], record.provenance.authorityID = authorityID := by
  intro record member
  rw [List.mem_singleton.mp member]
  rfl

theorem reduceTenant_observedKey :
    ∀ authorityID ∈ authorities,
      Canon.reduceTenant keyPrimitives [] (bytes "t") [observedKey authorityID] =
        .ok (keySet authorityID) :=
  List.forall_mem_cons.mpr ⟨rfl, List.forall_mem_singleton.mpr rfl⟩

theorem leavesFromSet_keySet :
    Digest.leavesFromSet keyPrimitives (keySet authorityID) = .ok [keyLeaf authorityID] := by
  have key : Digest.recordKeyBytes (canonicalKey authorityID).recordKey = .ok keyBytes := rfl
  have written : (canonicalKey authorityID).canonicalBytes keyPrimitives =
      .ok (keyText authorityID) := rfl
  have made : newLeaf keyPrimitives.sha256Sum (Canon.recordEncoding keyPrimitives)
      (canonicalKey authorityID) = .ok (keyLeaf authorityID) := by
    simp only [newLeaf, Canon.recordEncoding, key, written]
    rfl
  refine bind_eq_ok.mpr ⟨[keyLeaf authorityID], ?_, rfl⟩
  rw [keySet, List.mapM_cons, made]
  rfl

theorem buildLevels_keyLeaf :
    buildLevels keyPrimitives.sha256Sum [(keyLeaf authorityID).hash] =
      [[(keyLeaf authorityID).hash]] := by
  rw [buildLevels]
  exact if_neg (Nat.lt_irrefl 1)

theorem buildTree_keyLeaf :
    buildTree keyPrimitives.sha256Sum [keyLeaf authorityID] = .ok (keyTree authorityID) := by
  change Except.ok (Tree.mk [keyLeaf authorityID]
    (buildLevels keyPrimitives.sha256Sum [(keyLeaf authorityID).hash])
    (Digest.topNode (buildLevels keyPrimitives.sha256Sum [(keyLeaf authorityID).hash]))) = _
  rw [buildLevels_keyLeaf]
  rfl

theorem canonicalBytes_keyBody :
    ∀ authorityID ∈ authorities, (keyBody authorityID).canonicalBytes.toOption.isSome = true :=
  List.forall_mem_cons.mpr ⟨by decide +kernel, List.forall_mem_singleton.mpr (by decide +kernel)⟩

theorem build_keySet :
    ∀ authorityID ∈ authorities,
      build keyPrimitives ⟨keySet authorityID, authorityID, [], ⟨bytes "1", 1⟩, 1⟩ =
        .ok (keyBody authorityID, keyTree authorityID) := by
  intro authorityID member
  have tree : Digest.buildTreeFromSet keyPrimitives (keySet authorityID) =
      .ok (keyTree authorityID) :=
    bind_eq_ok.mpr
      ⟨_, leavesFromSet_keySet authorityID, buildTree_keyLeaf authorityID⟩
  have trimmed : ∀ authorityID ∈ authorities, Go.trimSpace authorityID = authorityID := by
    decide +kernel
  have written := canonicalBytes_keyBody authorityID member
  cases text : (keyBody authorityID).canonicalBytes with
  | error error =>
      rw [text] at written
      cases written
  | ok canonical =>
      simp only [build, tree, trimmed authorityID member, bind_eq_ok,
        Result.mapError_eq_ok]
      exact ⟨_, rfl, _, rfl, canonical, text, rfl⟩

theorem indexPlane_keySet :
    ∀ authorityID ∈ authorities,
      Witness.indexPlane ⟨authorityID, keySet authorityID, keyTree authorityID⟩ =
        .ok (keyIndex authorityID) :=
  List.forall_mem_cons.mpr ⟨rfl, List.forall_mem_singleton.mpr rfl⟩

theorem length_keyLeaf :
    ∀ leaf ∈ (keyTree authorityID).leaves, leaf.recordKeyBytes.length < 2 ^ 63 := by
  intro leaf member
  have short : keyBytes.length < 2 ^ 63 := by decide +kernel
  rw [List.mem_singleton.mp member]
  exact short

def keyPlane (authorityID : Bytes) (known : authorityID ∈ authorities) :
    Plane keyPrimitives [] (bytes "t") [] where
  authorityID := authorityID
  observed := [observedKey authorityID]
  watermark := ⟨bytes "1", 1⟩
  generatedAt := 1
  set := keySet authorityID
  body := keyBody authorityID
  tree := keyTree authorityID
  index := keyIndex authorityID
  own := own_observedKey authorityID
  reduced := reduceTenant_observedKey authorityID known
  built := build_keySet authorityID known
  indexed := indexPlane_keySet authorityID known
  addressable := length_keyLeaf authorityID

/-- The plane of the first authority. -/
def vaultPlane : Plane keyPrimitives [] (bytes "t") [] :=
  keyPlane (bytes "vault") List.mem_cons_self

/-- The plane of the second authority. -/
def kmsPlane : Plane keyPrimitives [] (bytes "t") [] :=
  keyPlane (bytes "kms") (List.mem_cons_of_mem _ List.mem_cons_self)

theorem writtenAuthority_ne : vaultPlane.writtenAuthority ≠ kmsPlane.writtenAuthority := by
  decide +kernel

theorem binds_vaultPlane :
    Hash.Binds keyPrimitives.sha256Sum
      {text | text ∈ buildInputs keyPrimitives.sha256Sum vaultPlane.tree.leaves} := by
  refine (Hash.numbering_binds _ (by decide)).mono ?_
  intro text member
  change text ∈ [leafInput keyBytes (keyText (bytes "vault"))] ++
    (buildLevels keyPrimitives.sha256Sum [(keyLeaf (bytes "vault")).hash]).flatMap
      Digest.levelInputs at member
  rw [buildLevels_keyLeaf] at member
  rw [List.mem_singleton.mp member]
  exact List.mem_cons_self

theorem sameMaterial_key :
    SameMaterial keyPrimitives vaultPlane.set.records kmsPlane.set.records := by
  have material : Witness.materialBytes keyPrimitives (canonicalKey (bytes "vault")) =
      Witness.materialBytes keyPrimitives (canonicalKey (bytes "kms")) := rfl
  constructor
  · intro record member
    rw [List.mem_singleton.mp member]
    exact ⟨canonicalKey (bytes "kms"), List.mem_cons_self, rfl, material.symm⟩
  · intro record member
    rw [List.mem_singleton.mp member]
    exact ⟨canonicalKey (bytes "vault"), List.mem_cons_self, rfl, material⟩

/-- Two authorities that hold one key in the same state: the round reports a
disagreement, and the witness has no entry. -/
theorem round_disagrees_without_entry :
    ¬ ∀ (primitives : Primitives) (specVersion tenantID : Bytes) (rules : List Rule)
        (left right : Plane primitives specVersion tenantID rules),
      Hash.Binds primitives.sha256Sum
        {text | text ∈ buildInputs primitives.sha256Sum left.tree.leaves} →
      left.writtenAuthority ≠ right.writtenAuthority →
      ∀ entries, diffEntries primitives left.index right.index = .ok entries →
        (stateBodyEqual left.body right.body = true ↔ entries = []) := by
  intro claim
  obtain ⟨entries, entries_eq, nil_iff⟩ :=
    Witness.diffEntries_spec vaultPlane.indexes kmsPlane.indexes
  have agrees := claim keyPrimitives [] (bytes "t") [] vaultPlane kmsPlane binds_vaultPlane
    writtenAuthority_ne entries entries_eq
  have equal := agrees.mpr (nil_iff.mpr sameMaterial_key)
  exact absurd equal (by decide +kernel)

/-- The theorem on rounds, at the planes of the two authorities. -/
theorem stateBodyEqual_agrees_diffEntries_iff_key :
    ∃ entries, diffEntries keyPrimitives vaultPlane.index kmsPlane.index = .ok entries ∧
      ((stateBodyEqual vaultPlane.body kmsPlane.body = true ↔ entries = []) ↔
        (vaultPlane.set.records = [] ∧ kmsPlane.set.records = []) ∨
          ¬ SameMaterial keyPrimitives vaultPlane.set.records kmsPlane.set.records) :=
  stateBodyEqual_agrees_diffEntries_iff vaultPlane kmsPlane binds_vaultPlane writtenAuthority_ne

end Trstctl.Reconcile.Rounds
