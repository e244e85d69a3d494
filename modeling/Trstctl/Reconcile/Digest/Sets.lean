import Trstctl.Library.Codes
import Trstctl.Reconcile.Digest.State
import Trstctl.Reconcile.Digest.Soundness

/-!
# The tree of a record set

The leaves of a canonical record set are those of its records, in strict order
of their keys.  Sets with the same root have records with the same leaf
strings, and every key is either proved to be in the tree or not to be in it.
-/

namespace Trstctl.Reconcile.Digest

open Go (Bytes bytes)
open Canon (CanonicalRecord RecordSet Primitives recordEncoding)

variable {key : RecordKey} {text : Bytes}

theorem recordKeyBytes_eq_ok (made : recordKeyBytes key = .ok text) :
    ((0 : UInt8) ∉ key.tenantID ∧ (0 : UInt8) ∉ key.recordType ∧ (0 : UInt8) ∉ key.stableID) ∧
      text = key.tenantID ++ 0 :: (key.recordType ++ 0 :: key.stableID) := by
  unfold recordKeyBytes at made
  split at made
  · cases made
  · rename_i free
    refine ⟨?_, ?_⟩
    · simp only [List.any_cons, List.any_nil, Bool.or_false, Bool.or_eq_true, not_or,
        List.contains_iff_mem] at free
      exact ⟨free.1.2, free.2.1.2, free.2.2.2⟩
    · rw [← Except.ok.inj made]
      simp

theorem tenantID_ne_nil (made : recordKeyBytes key = .ok text) :
    key.tenantID ≠ [] := by
  intro empty
  rw [recordKeyBytes, empty] at made
  cases made

theorem recordKey_eq {other : RecordKey} (made : recordKeyBytes key = .ok text)
    (otherMade : recordKeyBytes other = .ok text) :
    key = other := by
  obtain ⟨⟨tenant, type, -⟩, text_eq⟩ := recordKeyBytes_eq_ok made
  obtain ⟨⟨otherTenant, otherType, -⟩, other_eq⟩ := recordKeyBytes_eq_ok otherMade
  obtain ⟨tenants, rests⟩ := Separator.eq_of_append_cons_eq tenant otherTenant
    (text_eq.symm.trans other_eq)
  obtain ⟨types, stables⟩ := Separator.eq_of_append_cons_eq type otherType rests
  cases key
  cases other
  simp_all

section Leaves

variable {primitives : Primitives}

theorem newLeaf_eq_ok {record : CanonicalRecord} {leaf : Leaf}
    (made : newLeaf primitives.sha256Sum (recordEncoding primitives) record = .ok leaf) :
    recordKeyBytes record.recordKey = .ok leaf.recordKeyBytes ∧
      record.canonicalBytes primitives = .ok leaf.canonicalRecordBytes := by
  unfold newLeaf at made
  split at made
  · cases made
  · rename_i key key_eq
    split at made
    · cases made
    · rename_i canonical canonical_eq
      obtain rfl := Except.ok.inj made
      refine ⟨key_eq, ?_⟩
      change (record.canonicalBytes primitives).toOption = some canonical at canonical_eq
      cases written : record.canonicalBytes primitives with
      | error error =>
          rw [written] at canonical_eq
          cases canonical_eq
      | ok text =>
          rw [written] at canonical_eq
          exact congrArg Except.ok (Option.some.inj canonical_eq)

theorem pairwise_sortLeaves (leaves : List Leaf) :
    (sortLeaves leaves).Pairwise fun left right => left.recordKeyBytes ≤ right.recordKeyBytes :=
  List.pairwise_insertionSort _ _

theorem nodup_of_duplicateKey_eq_none {leaves : List Leaf}
    (sorted : leaves.Pairwise fun left right => left.recordKeyBytes ≤ right.recordKeyBytes)
    (none : duplicateKey leaves = none) :
    (leaves.map Leaf.recordKeyBytes).Nodup := by
  have strict : leaves.Pairwise fun left right => left.recordKeyBytes < right.recordKeyBytes := by
    fun_induction duplicateKey leaves with
    | case1 first second rest same => cases none
    | case2 first second rest different ih =>
        obtain ⟨heads, tails⟩ := List.pairwise_cons.mp sorted
        have tail := ih tails none
        refine List.pairwise_cons.mpr ⟨?_, tail⟩
        have near : first.recordKeyBytes < second.recordKeyBytes :=
          (List.le_iff_lt_or_eq.mp (heads second List.mem_cons_self)).resolve_right different
        intro later member
        rcases List.mem_cons.mp member with rfl | member
        · exact near
        · exact List.lt_trans near ((List.pairwise_cons.mp tail).1 later member)
    | case3 leaves short =>
        cases leaves with
        | nil => exact List.Pairwise.nil
        | cons first rest =>
            cases rest with
            | nil => exact List.pairwise_singleton _ _
            | cons second more => exact absurd rfl (short first second more)
  refine (List.pairwise_map.mpr strict).imp fun {first second} lower same => ?_
  exact List.lt_irrefl second (same ▸ lower)

/-- The leaves of a set are those of its records, sorted and with different
keys. -/
structure LeavesOf (primitives : Primitives) (set : RecordSet) (leaves : List Leaf) : Prop where
  of_record : ∀ record ∈ set.records, ∃ leaf ∈ leaves,
    newLeaf primitives.sha256Sum (recordEncoding primitives) record = .ok leaf
  of_leaf : ∀ leaf ∈ leaves, ∃ record ∈ set.records,
    newLeaf primitives.sha256Sum (recordEncoding primitives) record = .ok leaf
  distinct : (leaves.map Leaf.recordKeyBytes).Nodup
  sorted : leaves.Pairwise fun left right => left.recordKeyBytes ≤ right.recordKeyBytes
  unique : ∀ record ∈ set.records, ∀ other ∈ set.records,
    recordKeyBytes record.recordKey = recordKeyBytes other.recordKey → record = other

theorem LeavesOf.made {set : RecordSet} {leaves : List Leaf}
    (leavesOf : LeavesOf primitives set leaves) :
    AllNew primitives.sha256Sum (recordEncoding primitives) leaves := by
  intro leaf member
  obtain ⟨record, -, made⟩ := leavesOf.of_leaf leaf member
  exact ⟨record, made⟩

theorem leavesOf_leavesFromSet {set : RecordSet} {leaves : List Leaf}
    (made : leavesFromSet primitives set = .ok leaves) :
    LeavesOf primitives set leaves := by
  obtain ⟨unsorted, mapped, checked⟩ := Result.bind_eq_ok.mp made
  simp only at checked
  split at checked
  · cases checked
  · rename_i none
    obtain rfl := Except.ok.inj checked
    have sorted := pairwise_sortLeaves unsorted
    have distinct := nodup_of_duplicateKey_eq_none sorted none
    have keys : set.records.map (fun record => recordKeyBytes record.recordKey) =
        unsorted.map (fun leaf => .ok leaf.recordKeyBytes) :=
      Result.map_eq_of_mapM (fun record leaf made => (newLeaf_eq_ok made).1) mapped
    have recordKeys : (set.records.map fun record => recordKeyBytes record.recordKey).Nodup := by
      have unsortedKeys : (unsorted.map Leaf.recordKeyBytes).Nodup :=
        ((List.perm_insertionSort _ unsorted).map Leaf.recordKeyBytes).nodup_iff.mp distinct
      have wrapped : ((unsorted.map Leaf.recordKeyBytes).map
          (Except.ok : Bytes → Except TreeError Bytes)).Nodup :=
        unsortedKeys.map fun _ _ same => Except.ok.inj same
      rw [List.map_map] at wrapped
      rw [keys]
      exact wrapped
    exact
      { of_record := by
          intro record member
          obtain ⟨leaf, leafMember, leaf_eq⟩ := Result.exists_of_mapM_eq_ok mapped record member
          exact ⟨leaf, mem_sortLeaves.mpr leafMember, leaf_eq⟩
        of_leaf := by
          intro leaf member
          exact Result.exists_of_mem_mapM mapped leaf (mem_sortLeaves.mp member)
        distinct := distinct
        sorted := sorted
        unique := fun record member other otherMember same =>
          List.inj_on_of_nodup_map recordKeys member otherMember same }

end Leaves

section Trees

variable {hash : Bytes → Bytes}

variable {leaves : List Leaf}

variable {tree : Tree}

theorem leaves_of_buildTree (built : buildTree hash leaves = .ok tree) :
    tree.leaves = sortLeaves leaves := by
  unfold buildTree at built
  simp only at built
  split at built
  · cases built
  · split at built
    · rename_i empty
      rw [← Except.ok.inj built, List.isEmpty_iff.mp empty]
    · rw [← Except.ok.inj built]

/-- The search finds the first leaf that is not below a key, which has the key
when a leaf has it. -/
theorem getElem?_searchLeaf
    (sorted : leaves.Pairwise fun left right => left.recordKeyBytes ≤ right.recordKeyBytes)
    {leaf : Leaf} (member : leaf ∈ leaves) :
    ∃ found, leaves[searchLeaf leaves leaf.recordKeyBytes]? = some found ∧
      found.recordKeyBytes = leaf.recordKeyBytes := by
  have reaches : decide (leaf.recordKeyBytes ≤ leaf.recordKeyBytes) = true := by
    simp
  have inside : searchLeaf leaves leaf.recordKeyBytes < leaves.length :=
    List.findIdx_lt_length_of_exists ⟨leaf, member, reaches⟩
  refine ⟨leaves[searchLeaf leaves leaf.recordKeyBytes], List.getElem?_eq_getElem inside, ?_⟩
  have least : leaf.recordKeyBytes ≤
      (leaves[searchLeaf leaves leaf.recordKeyBytes]).recordKeyBytes :=
    of_decide_eq_true (@List.findIdx_getElem _ _ _ inside)
  obtain ⟨position, bound, leaf_eq⟩ := List.getElem_of_mem member
  have before : searchLeaf leaves leaf.recordKeyBytes ≤ position := by
    by_contra later
    have skipped := List.not_of_lt_findIdx (Nat.lt_of_not_le later)
    rw [leaf_eq] at skipped
    exact absurd reaches (by rw [skipped]; exact Bool.false_ne_true)
  rcases Nat.eq_or_lt_of_le before with same | earlier
  · simp only [same, leaf_eq]
  · have order := List.pairwise_iff_getElem.mp sorted _ _ inside bound earlier
    rw [leaf_eq] at order
    exact List.le_antisymm order least

theorem exists_inclusionProof
    (sorted : tree.leaves.Pairwise fun left right => left.recordKeyBytes ≤ right.recordKeyBytes)
    {leaf : Leaf} (member : leaf ∈ tree.leaves) :
    ∃ proof, tree.inclusionProof leaf.recordKeyBytes = some proof := by
  obtain ⟨found, found_eq, key_eq⟩ := getElem?_searchLeaf sorted member
  unfold Tree.inclusionProof
  simp only [found_eq, if_pos key_eq]
  exact ⟨_, rfl⟩

theorem exists_absenceProof {key : Bytes}
    (absent : ∀ leaf ∈ tree.leaves, leaf.recordKeyBytes ≠ key) :
    ∃ proof, tree.absenceProof key = some proof := by
  have free : (tree.leaves[searchLeaf tree.leaves key]?).any
      (fun leaf => leaf.recordKeyBytes == key) = false := by
    cases found : tree.leaves[searchLeaf tree.leaves key]? with
    | none => rfl
    | some leaf => exact beq_false_of_ne (absent leaf (List.mem_of_getElem? found))
  unfold Tree.absenceProof
  simp only [free, Bool.false_eq_true, if_false]
  exact ⟨_, rfl⟩

theorem mem_inputs_iff_of_root_eq {Record : Type} {encoding : Encoding Record} {others : List Leaf}
    (made : AllNew hash encoding leaves) (distinct : (leaves.map Leaf.recordKeyBytes).Nodup)
    (otherMade : AllNew hash encoding others)
    (otherDistinct : (others.map Leaf.recordKeyBytes).Nodup)
    (binds : Hash.Binds hash {text | text ∈ buildInputs hash leaves}) {otherTree : Tree}
    (built : buildTree hash leaves = .ok tree) (otherBuilt : buildTree hash others = .ok otherTree)
    (equal : tree.root = otherTree.root) (text : Bytes) :
    text ∈ leaves.map Leaf.input ↔ text ∈ others.map Leaf.input := by
  obtain ⟨tree', built', shape⟩ := buildTree_spec hash made distinct
  obtain ⟨otherTree', otherBuilt', otherShape⟩ := buildTree_spec hash otherMade otherDistinct
  obtain rfl := Except.ok.inj (built'.symm.trans built)
  obtain rfl := Except.ok.inj (otherBuilt'.symm.trans otherBuilt)
  rcases otherShape with ⟨rfl, otherRoot_eq⟩ | ⟨otherDigests, otherEntries, otherRoot_eq, -⟩
  · rw [eq_nil_of_root_eq_emptyRoot hash made distinct binds built (equal.trans otherRoot_eq)]
  · rcases shape with ⟨rfl, root_eq⟩ | ⟨digests, entries, root_eq, contained⟩
    · -- The string of no leaves is that of no tree of leaves.
      have bound : emptyInput ∈ {text | text ∈ buildInputs hash []} := by simp [buildInputs]
      rw [root_eq, otherRoot_eq, treeDigest, HashTree.digest_eq] at equal
      have same := binds.eq_of_hash_eq _ bound _ equal.symm
      cases otherDigests with
      | leaf leaf => exact absurd same.symm (emptyInput_ne_leafInput _ _)
      | node left right => exact absurd same.symm (emptyInput_ne_nodeInput _ _)
    · have separated : ∀ (leaf : Leaf) left right,
          leaf.input ≠ HashTree.nodeInput nodeTag left right :=
        fun leaf => leafInput_ne_nodeInput _ _
      have inputs := HashTree.map_entries_eq_of_digest_eq binds separated contained
        (otherRoot_eq.symm.trans (equal.symm.trans root_eq))
      have strings : text ∈ digests.entries.map Leaf.input ↔
          text ∈ otherDigests.entries.map Leaf.input := by rw [inputs]
      simpa only [List.mem_map, entries, otherEntries] using strings

theorem exists_input_eq_of_root_eq {Record : Type} {encoding : Encoding Record} {others : List Leaf}
    (made : AllNew hash encoding leaves) (distinct : (leaves.map Leaf.recordKeyBytes).Nodup)
    (nonempty : leaves ≠ []) (otherMade : AllNew hash encoding others)
    (otherDistinct : (others.map Leaf.recordKeyBytes).Nodup)
    (binds : Hash.Binds hash {text | text ∈ buildInputs hash leaves}) {otherTree : Tree}
    (built : buildTree hash leaves = .ok tree) (otherBuilt : buildTree hash others = .ok otherTree)
    (equal : tree.root = otherTree.root) :
    ∃ leaf ∈ leaves, ∃ other ∈ others, leaf.input = other.input := by
  obtain ⟨leaf, member⟩ := List.exists_mem_of_ne_nil leaves nonempty
  have strings := mem_inputs_iff_of_root_eq made distinct otherMade otherDistinct binds built
    otherBuilt equal leaf.input
  obtain ⟨other, otherMember, other_eq⟩ := List.mem_map.mp (strings.mp (List.mem_map_of_mem member))
  exact ⟨leaf, member, other, otherMember, other_eq.symm⟩

end Trees

end Trstctl.Reconcile.Digest
