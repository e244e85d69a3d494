import Trstctl.Library.HashTree
import Trstctl.Reconcile.Digest.Tree

/-!
# Soundness of inclusion and absence proofs

`BuildTree` assembles a tree of digests whose entries are the sorted leaves.
An inclusion proof that verifies against its root is one of a leaf.  An absence
proof is only as good as the brackets it carries: `VerifyAbsence` compares the
target with the two bracket keys but not the brackets with each other's
position, so it is sound exactly when no leaf lies between the carried keys.
-/

namespace Trstctl.Reconcile.Digest

open Go (Bytes bytes bigEndian64)
open Hash (digestOf numbering)

variable (hash : Bytes → Bytes)

/-- The string hashed for a leaf of the tree. -/
def Leaf.input (leaf : Leaf) : Bytes :=
  leafInput leaf.recordKeyBytes leaf.canonicalRecordBytes

/-- The strings hashed to make the next level. -/
def levelInputs : List Bytes → List Bytes
  | left :: right :: rest => HashTree.nodeInput nodeTag left right :: levelInputs rest
  | _ => []

/-- All strings hashed to build the tree over leaves. -/
def buildInputs (leaves : List Leaf) : List Bytes :=
  if leaves.isEmpty then [emptyInput]
  else
    leaves.map Leaf.input ++
      (buildLevels hash ((sortLeaves leaves).map Leaf.hash)).flatMap levelInputs

/-- Leaves that `NewLeaf` returned. -/
def AllNew {Record : Type} (encoding : Encoding Record) (leaves : List Leaf) : Prop :=
  ∀ leaf ∈ leaves, ∃ record, newLeaf hash encoding record = .ok leaf

variable {Record : Type} {encoding : Encoding Record}

theorem newLeaf_spec {record : Record} {leaf : Leaf}
    (made : newLeaf hash encoding record = .ok leaf) :
    leaf.hash = hash leaf.input ∧ leaf.recordKeyBytes ≠ [] ∧
      recordKeyBytes (encoding.recordKey record) = .ok leaf.recordKeyBytes := by
  unfold newLeaf at made
  split at made
  · simp at made
  · rename_i key key_eq
    split at made
    · simp at made
    · obtain rfl := Except.ok.inj made
      refine ⟨rfl, ?_, key_eq⟩
      unfold recordKeyBytes at key_eq
      split at key_eq
      · simp at key_eq
      · obtain rfl := Except.ok.inj key_eq
        simp

theorem leafInput_ne_nodeInput (key canonical left right : Bytes) :
    leafInput key canonical ≠ HashTree.nodeInput nodeTag left right := by
  intro equal
  have first := congrArg List.head? equal
  simp [leafInput, HashTree.nodeInput, nodeTag] at first

theorem emptyInput_ne_leafInput (key canonical : Bytes) :
    emptyInput ≠ leafInput key canonical := by
  intro equal
  have start := congrArg (List.take 7) equal
  simp only [leafInput, List.append_assoc] at start
  rw [← List.append_assoc, List.take_append_of_le_length (by decide)] at start
  exact absurd start (by decide)

theorem emptyInput_ne_nodeInput (left right : Bytes) :
    emptyInput ≠ HashTree.nodeInput nodeTag left right := by
  intro equal
  have first := congrArg List.head? equal
  simp [emptyInput, HashTree.nodeInput, nodeTag] at first

def treeDigest (tree : HashTree Leaf) : Bytes :=
  tree.digest hash Leaf.input nodeTag

variable (level : List (HashTree Leaf))

theorem nextLevel_map_treeDigest :
    nextLevel hash (level.map (treeDigest hash)) =
      (HashTree.pairUp level).map (treeDigest hash) := by
  fun_induction HashTree.pairUp level with
  | case1 left right rest ih =>
      simp only [List.map_cons, nextLevel, ih]
      rfl
  | case2 tree => rfl
  | case3 => rfl

/-- The strings hashed for the trees of the next level are those of this level
and those that make the next one. -/
theorem inputs_pairUp :
    ∀ text ∈ (HashTree.pairUp level).flatMap (HashTree.inputs hash Leaf.input nodeTag),
      text ∈ level.flatMap (HashTree.inputs hash Leaf.input nodeTag) ∨
        text ∈ levelInputs (level.map (treeDigest hash)) := by
  fun_induction HashTree.pairUp level with
  | case1 left right rest ih =>
      intro text member
      simp only [List.flatMap_cons, List.mem_append] at member
      rcases member with member | member
      · simp only [HashTree.inputs, HashTree.subtrees, List.map_cons, List.map_append,
          List.mem_cons, List.mem_append] at member
        rcases member with root | member | member
        · exact Or.inr (List.mem_cons.mpr (Or.inl root))
        · exact Or.inl (by simp [HashTree.inputs]; exact Or.inl (by simpa using member))
        · exact Or.inl (by simp [HashTree.inputs]; exact Or.inr (Or.inl (by simpa using member)))
      · rcases ih text member with below | making
        · refine Or.inl ?_
          simp only [List.flatMap_cons, List.mem_append]
          exact Or.inr (Or.inr below)
        · exact Or.inr (List.mem_cons_of_mem _ making)
  | case2 tree => exact fun text member => Or.inl member
  | case3 => exact fun text member => Or.inl member

/-- The levels over a non-empty list of trees end in the digest of a tree with
the same entries, hashed from the strings of the trees and of the levels. -/
theorem exists_tree_of_level (nonempty : level ≠ []) :
    ∃ tree : HashTree Leaf,
      tree.entries = level.flatMap HashTree.entries ∧
      topNode (buildLevels hash (level.map (treeDigest hash))) = treeDigest hash tree ∧
      ∀ text ∈ tree.inputs hash Leaf.input nodeTag,
        text ∈ level.flatMap (HashTree.inputs hash Leaf.input nodeTag) ∨
          text ∈ (buildLevels hash (level.map (treeDigest hash))).flatMap levelInputs := by
  induction size : level.length using Nat.strong_induction_on generalizing level with
  | _ count ih =>
  subst size
  rw [buildLevels]
  by_cases several : 1 < (level.map (treeDigest hash)).length
  · rw [if_pos several, nextLevel_map_treeDigest]
    rw [List.length_map] at several
    have shorter : (HashTree.pairUp level).length < level.length := by
      rw [HashTree.length_pairUp]
      omega
    have pairs : HashTree.pairUp level ≠ [] := by
      intro empty
      have := congrArg List.length empty
      rw [HashTree.length_pairUp, List.length_nil] at this
      omega
    obtain ⟨tree, entries, root, contained⟩ :=
      ih _ shorter (HashTree.pairUp level) pairs rfl
    refine ⟨tree, entries.trans (HashTree.flatMap_entries_pairUp level), ?_, ?_⟩
    · rw [← root]
      unfold topNode
      rw [buildLevels]
      split <;> rfl
    · intro text member
      rcases contained text member with below | above
      · rcases inputs_pairUp hash level text below with below | making
        · exact Or.inl below
        · exact Or.inr (List.mem_append_left _ making)
      · exact Or.inr (List.mem_append_right _ above)
  · rw [if_neg several]
    rw [List.length_map] at several
    match level, nonempty with
    | [tree], _ =>
        refine ⟨tree, by simp, rfl, fun text member => Or.inl (by simpa using member)⟩
    | _ :: _ :: _, _ => simp at several

variable {leaves : List Leaf}

theorem mem_sortLeaves {leaf : Leaf} :
    leaf ∈ sortLeaves leaves ↔ leaf ∈ leaves :=
  (List.perm_insertionSort _ leaves).mem_iff

theorem sortLeaves_eq_nil_iff : sortLeaves leaves = [] ↔ leaves = [] := by
  rw [← List.length_eq_zero_iff, ← List.length_eq_zero_iff, sortLeaves, List.length_insertionSort]

theorem duplicateKey_eq_none (leaves : List Leaf)
    (distinct : (leaves.map Leaf.recordKeyBytes).Nodup) :
    duplicateKey leaves = none := by
  fun_induction duplicateKey leaves with
  | case1 first second rest same =>
      simp [same] at distinct
  | case2 first second rest different ih =>
      apply ih
      rw [List.map_cons] at distinct
      exact (List.nodup_cons.mp distinct).2
  | case3 => rfl

theorem buildTree_of_distinct (distinct : (leaves.map Leaf.recordKeyBytes).Nodup) :
    ∃ tree, buildTree hash leaves = .ok tree ∧ tree.leaves = sortLeaves leaves ∧
      (leaves = [] → tree.root = emptyRoot hash) ∧
      (leaves ≠ [] → tree.levels = buildLevels hash (tree.leaves.map Leaf.hash) ∧
        tree.root = topNode tree.levels) := by
  have permutation := List.perm_insertionSort
    (fun left right : Leaf => left.recordKeyBytes ≤ right.recordKeyBytes) leaves
  have unique := duplicateKey_eq_none (sortLeaves leaves)
    ((permutation.map Leaf.recordKeyBytes).nodup_iff.mpr distinct)
  unfold buildTree
  simp only [unique]
  by_cases empty : leaves = []
  · subst empty
    exact ⟨_, rfl, rfl, fun _ => rfl, fun nonempty => absurd rfl nonempty⟩
  · have sorted : (sortLeaves leaves).isEmpty = false := by
      rwa [List.isEmpty_eq_false_iff, ne_eq, sortLeaves_eq_nil_iff]
    rw [sorted]
    exact ⟨_, rfl, rfl, fun nothing => absurd nothing empty, fun _ => ⟨rfl, rfl⟩⟩

/-- Leaves with distinct keys have a tree.  Its root is that of no leaves, or
the digest of a tree of the leaves, hashed from the strings of `buildInputs`. -/
theorem buildTree_spec
    (made : AllNew hash encoding leaves) (distinct : (leaves.map Leaf.recordKeyBytes).Nodup) :
    ∃ built, buildTree hash leaves = .ok built ∧
      ((leaves = [] ∧ built.root = emptyRoot hash) ∨
        ∃ tree : HashTree Leaf,
          (∀ leaf, leaf ∈ tree.entries ↔ leaf ∈ leaves) ∧
          built.root = treeDigest hash tree ∧
          ∀ text ∈ tree.inputs hash Leaf.input nodeTag, text ∈ buildInputs hash leaves) := by
  obtain ⟨built, assembled, leaves_eq, empty_root, shape⟩ := buildTree_of_distinct hash distinct
  refine ⟨built, assembled, ?_⟩
  by_cases empty : leaves = []
  · exact Or.inl ⟨empty, empty_root empty⟩
  · refine Or.inr ?_
    obtain ⟨levels_eq, root_eq⟩ := shape empty
    rw [levels_eq, leaves_eq] at root_eq
    have digests : (sortLeaves leaves).map Leaf.hash =
        ((sortLeaves leaves).map HashTree.leaf).map (treeDigest hash) := by
      rw [List.map_map]
      apply List.map_congr_left
      intro leaf member
      obtain ⟨record, leaf_eq⟩ := made leaf (mem_sortLeaves.mp member)
      exact (newLeaf_spec hash leaf_eq).1
    obtain ⟨tree, entries, root, contained⟩ := exists_tree_of_level hash
      ((sortLeaves leaves).map HashTree.leaf) (by simpa [sortLeaves_eq_nil_iff] using empty)
    have entries_eq : tree.entries = sortLeaves leaves := by
      rw [entries, List.flatMap_map]
      simp [HashTree.entries]
    refine ⟨tree, fun leaf => by rw [entries_eq]; exact mem_sortLeaves, ?_, ?_⟩
    · rw [root_eq, ← root, digests]
    · intro text member
      unfold buildInputs
      rw [if_neg (by simpa using empty), digests, List.mem_append]
      refine (contained text member).imp_left ?_
      intro below
      simp only [List.flatMap_map, HashTree.inputs, HashTree.subtrees, List.map_cons,
        List.map_nil, HashTree.input, List.mem_flatMap, List.mem_cons, List.not_mem_nil,
        or_false] at below
      obtain ⟨leaf, leafMember, rfl⟩ := below
      exact List.mem_map_of_mem (mem_sortLeaves.mp leafMember)

theorem climbSiblings_spec {current reached : Bytes} {siblings : List ProofNode}
    (climbed : climbSiblings hash current siblings = some reached) :
    (∀ step ∈ siblings.map (fun sibling => (sibling.hash, sibling.left)), step.1.length = 32) ∧
      HashTree.climb hash nodeTag current
        (siblings.map fun sibling => (sibling.hash, sibling.left)) = reached := by
  induction siblings generalizing current with
  | nil => simpa [climbSiblings, HashTree.climb] using climbed
  | cons sibling rest ih =>
      rw [climbSiblings] at climbed
      split at climbed
      · rename_i length
        obtain ⟨lengths, reached_eq⟩ := ih climbed
        refine ⟨?_, ?_⟩
        · intro step member
          rcases List.mem_cons.mp member with rfl | member
          · exact length
          · exact lengths step member
        · rw [← reached_eq]
          obtain ⟨text, side⟩ := sibling
          cases side <;> rfl
      · simp at climbed

theorem leafInput_injective {key canonical key' canonical' : Bytes}
    (addressable : key.length < 2 ^ 63) (addressable' : key'.length < 2 ^ 63)
    (equal : leafInput key canonical = leafInput key' canonical') :
    key = key' ∧ canonical = canonical' := by
  simp only [leafInput, List.append_assoc] at equal
  have afterTag := List.append_cancel_left (List.append_cancel_left equal)
  obtain ⟨lengths, material⟩ := List.append_inj afterTag rfl
  have sameLength := Go.bigEndian64_injective (by omega) (by omega) lengths
  exact List.append_inj material sameLength

theorem exists_input_of_climb (start : Bytes) (path : List (Bytes × Bool))
    (different : emptyInput ≠ start) :
    ∃ text, HashTree.climb hash nodeTag (hash start) path = hash text ∧ emptyInput ≠ text := by
  induction path using List.reverseRecOn with
  | nil => exact ⟨start, rfl, different⟩
  | append_singleton path step =>
      refine ⟨_, HashTree.climb_concat hash nodeTag _ path step, ?_⟩
      split
      · exact emptyInput_ne_nodeInput _ _
      · exact emptyInput_ne_nodeInput _ _

/-- An inclusion proof that verifies carries the material of a leaf. -/
theorem exists_leaf_of_verifyInclusion
    (made : AllNew hash encoding leaves) (distinct : (leaves.map Leaf.recordKeyBytes).Nodup)
    (binds : Hash.Binds hash {text | text ∈ buildInputs hash leaves}) {built : Tree}
    (assembled : buildTree hash leaves = .ok built) {proof : InclusionProof}
    (verified : proof.verifyInclusion hash built.root = true) :
    ∃ leaf ∈ leaves,
      leaf.input = leafInput proof.recordKeyBytes proof.canonicalRecordBytes := by
  obtain ⟨built', assembled', shape⟩ := buildTree_spec hash made distinct
  obtain rfl := Except.ok.inj (assembled'.symm.trans assembled)
  unfold InclusionProof.verifyInclusion at verified
  split at verified
  · simp at verified
  · split at verified
    · simp at verified
    · rename_i reached climbed
      obtain ⟨lengths, climb_eq⟩ := climbSiblings_spec hash climbed
      have reached_eq : reached = built'.root := by simpa using verified
      rcases shape with ⟨empty, root_eq⟩ | ⟨tree, entries, root_eq, contained⟩
      · -- The empty tree has a string of its own.
        subst empty
        have bound : emptyInput ∈ {text | text ∈ buildInputs hash []} := by simp [buildInputs]
        obtain ⟨text, text_eq, different⟩ := exists_input_of_climb hash
          (leafInput proof.recordKeyBytes proof.canonicalRecordBytes)
          (proof.siblings.map fun sibling => (sibling.hash, sibling.left))
          (emptyInput_ne_leafInput _ _)
        have same := binds.eq_of_hash_eq _ bound text
          (text_eq.symm.trans (climb_eq.trans (reached_eq.trans root_eq)))
        exact absurd same.symm different
      · have separated : ∀ (leaf : Leaf) left right,
            leaf.input ≠ HashTree.nodeInput nodeTag left right :=
          fun leaf => leafInput_ne_nodeInput _ _
        obtain ⟨leaf, member, input_eq⟩ := HashTree.exists_entry_of_climb_eq binds separated _
          lengths (leafInput_ne_nodeInput _ _) contained
          (climb_eq.trans (reached_eq.trans root_eq))
        exact ⟨leaf, (entries leaf).mp member, input_eq⟩

/-- The inclusion proofs of the brackets at hand verify against the root. -/
def bracketsVerify (lower upper : Option ProofLeaf) (root : Bytes) : Prop :=
  (∀ bracket ∈ lower, bracket.proof.verifyInclusion hash root = true) ∧
    ∀ bracket ∈ upper, bracket.proof.verifyInclusion hash root = true

/-- The key lies strictly between the bracket keys at hand. -/
def Between (lower upper : Option Bytes) (key : Bytes) : Prop :=
  (∀ bound ∈ lower, bound < key) ∧ ∀ bound ∈ upper, key < bound

/-- What `VerifyAbsence` checks of a proof with a bracket: it never compares
the brackets' positions in the tree. -/
theorem verifyAbsence_iff (target root : Bytes) (lower upper : Option ProofLeaf)
    (some_bracket : ¬ (lower = none ∧ upper = none)) :
    AbsenceProof.verifyAbsence hash ⟨target, lower, upper⟩ root = true ↔
      target ≠ [] ∧ bracketsVerify hash lower upper root ∧
        Between (lower.map ProofLeaf.recordKeyBytes) (upper.map ProofLeaf.recordKeyBytes)
          target := by
  cases lower with
  | none =>
      cases upper with
      | none => exact absurd ⟨rfl, rfl⟩ some_bracket
      | some upper =>
          simp [AbsenceProof.verifyAbsence, upperHolds, bracketsVerify, Between]
          tauto
  | some lower =>
      cases upper with
      | none =>
          simp [AbsenceProof.verifyAbsence, lowerHolds, bracketsVerify, Between]
          tauto
      | some upper =>
          have ordered : lower.recordKeyBytes < target → target < upper.recordKeyBytes →
              lower.recordKeyBytes < upper.recordKeyBytes := List.lt_trans
          simp [AbsenceProof.verifyAbsence, lowerHolds, upperHolds, bracketsVerify, Between]
          tauto

theorem eq_nil_of_root_eq_emptyRoot
    (made : AllNew hash encoding leaves) (distinct : (leaves.map Leaf.recordKeyBytes).Nodup)
    (binds : Hash.Binds hash {text | text ∈ buildInputs hash leaves}) {built : Tree}
    (assembled : buildTree hash leaves = .ok built) (empty_eq : built.root = emptyRoot hash) :
    leaves = [] := by
  obtain ⟨built', assembled', shape⟩ := buildTree_spec hash made distinct
  obtain rfl := Except.ok.inj (assembled'.symm.trans assembled)
  rcases shape with ⟨empty, -⟩ | ⟨tree, -, root_eq, contained⟩
  · exact empty
  · rw [root_eq, treeDigest, HashTree.digest_eq] at empty_eq
    have same := binds.eq_of_hash_eq _
      (contained _ (HashTree.input_mem_inputs hash Leaf.input nodeTag tree)) _ empty_eq.symm
    cases tree with
    | leaf leaf => exact absurd same (emptyInput_ne_leafInput _ _)
    | node left right => exact absurd same (emptyInput_ne_nodeInput _ _)

/-- Absence proofs with the given brackets show absence exactly when they carry
no bracket, or a bracket whose inclusion proof fails, or brackets with no leaf
between them. -/
theorem verifyAbsence_sound_iff
    {Record : Type}
    (encoding : Encoding Record)
    (hash : Bytes → Bytes)
    (leaves : List Leaf)
    (made : AllNew hash encoding leaves)
    (distinct : (leaves.map Leaf.recordKeyBytes).Nodup)
    (binds : Hash.Binds hash {text | text ∈ buildInputs hash leaves})
    (lower upper : Option ProofLeaf) :
    ∃ built, buildTree hash leaves = .ok built ∧
      ((∀ target, AbsenceProof.verifyAbsence hash ⟨target, lower, upper⟩ built.root = true →
          ∀ leaf ∈ leaves, leaf.recordKeyBytes ≠ target) ↔
        (lower = none ∧ upper = none) ∨
          ¬ bracketsVerify hash lower upper built.root ∨
          ∀ leaf ∈ leaves,
            ¬ Between (lower.map ProofLeaf.recordKeyBytes) (upper.map ProofLeaf.recordKeyBytes)
              leaf.recordKeyBytes) := by
  obtain ⟨built, assembled, -⟩ := buildTree_spec hash made distinct
  refine ⟨built, assembled, ?_⟩
  by_cases some_bracket : lower = none ∧ upper = none
  · obtain ⟨rfl, rfl⟩ := some_bracket
    refine ⟨fun _ => Or.inl ⟨rfl, rfl⟩, fun _ target verified leaf member => ?_⟩
    have empty_eq : built.root = emptyRoot hash := by
      simp [AbsenceProof.verifyAbsence] at verified
      exact verified.2
    rw [eq_nil_of_root_eq_emptyRoot hash made distinct binds assembled empty_eq] at member
    exact absurd member List.not_mem_nil
  · constructor
    · intro sound
      by_cases verify : bracketsVerify hash lower upper built.root
      · refine Or.inr (Or.inr fun leaf member between => ?_)
        obtain ⟨record, leaf_eq⟩ := made leaf member
        have key := (newLeaf_spec hash leaf_eq).2.1
        exact sound leaf.recordKeyBytes
          ((verifyAbsence_iff hash _ _ lower upper some_bracket).mpr ⟨key, verify, between⟩)
          leaf member rfl
      · exact Or.inr (Or.inl verify)
    · intro condition target verified leaf member equal
      obtain ⟨-, verify, between⟩ :=
        (verifyAbsence_iff hash _ _ lower upper some_bracket).mp verified
      rcases condition with none | failing | adjacent
      · exact some_bracket none
      · exact failing verify
      · exact adjacent leaf member (equal ▸ between)

/-- Records given by their key and their canonical bytes. -/
def pairEncoding : Encoding (RecordKey × Bytes) where
  recordKey := Prod.fst
  canonicalBytes record := some record.2

/-- The strings hashed for two keys of tenant `t`. -/
def twoRecordInputs : List Bytes :=
  [leafInput (bytes "t\x00key\x00a") (bytes "1"), leafInput (bytes "t\x00key\x00b") (bytes "2"),
    HashTree.nodeInput nodeTag (digestOf 0) (digestOf 1)]

def twoLeaves : List Leaf :=
  [⟨bytes "t\x00key\x00a", bytes "1", digestOf 0⟩,
    ⟨bytes "t\x00key\x00b", bytes "2", digestOf 1⟩]

/-- Their tree. -/
def twoLeafTree : Tree where
  leaves := twoLeaves
  levels := [[digestOf 0, digestOf 1], [digestOf 2]]
  root := digestOf 2

theorem twoLeaves_allNew :
    AllNew (numbering twoRecordInputs) pairEncoding twoLeaves := by
  intro leaf member
  simp only [twoLeaves, List.mem_cons, List.not_mem_nil, or_false] at member
  rcases member with rfl | rfl
  · exact ⟨(⟨bytes "t", bytes "key", bytes "a"⟩, bytes "1"), by decide⟩
  · exact ⟨(⟨bytes "t", bytes "key", bytes "b"⟩, bytes "2"), by decide⟩

theorem buildLevels_twoLeaves :
    buildLevels (numbering twoRecordInputs) (twoLeaves.map Leaf.hash) =
      twoLeafTree.levels := by
  rw [buildLevels, if_pos (by decide), buildLevels, if_neg (by decide)]
  decide

theorem buildTree_twoLeaves :
    buildTree (numbering twoRecordInputs) twoLeaves = .ok twoLeafTree := by
  have sorted : sortLeaves twoLeaves = twoLeaves := by decide
  have unique : duplicateKey twoLeaves = none := by decide
  unfold buildTree
  simp only [sorted, unique, buildLevels_twoLeaves]
  decide

theorem twoLeaves_binds :
    Hash.Binds (numbering twoRecordInputs)
      {text | text ∈ buildInputs (numbering twoRecordInputs) twoLeaves} := by
  refine (Hash.numbering_binds twoRecordInputs (by decide)).mono ?_
  intro text member
  have sorted : sortLeaves twoLeaves = twoLeaves := by decide
  have all : buildInputs (numbering twoRecordInputs) twoLeaves = twoRecordInputs := by
    unfold buildInputs
    rw [sorted, buildLevels_twoLeaves]
    decide
  exact all ▸ member

/-- A boundary leaf that is not the last one hides the leaf after it: the
proof with the first of two leaves as its only bracket shows the second one
absent. -/
theorem verifyAbsence_of_present_key :
    ¬ ∀ (hash : Bytes → Bytes) (leaves : List Leaf) (built : Tree) (proof : AbsenceProof),
      AllNew hash pairEncoding leaves →
      (leaves.map Leaf.recordKeyBytes).Nodup →
      Hash.Binds hash {text | text ∈ buildInputs hash leaves} →
      buildTree hash leaves = .ok built →
      proof.verifyAbsence hash built.root = true →
      ∀ leaf ∈ leaves, leaf.recordKeyBytes ≠ proof.targetKeyBytes := by
  intro claim
  exact claim (numbering twoRecordInputs) twoLeaves twoLeafTree
    { targetKeyBytes := bytes "t\x00key\x00b"
      lower := twoLeafTree.proofLeaf 0
      upper := none }
    twoLeaves_allNew (by decide) twoLeaves_binds buildTree_twoLeaves (by decide)
    ⟨bytes "t\x00key\x00b", bytes "2", digestOf 1⟩ (by decide) (by decide)

/-- The theorem on brackets, at the brackets of a key below both leaves. -/
theorem verifyAbsence_sound_iff_twoLeaves :
    ∃ built, buildTree (numbering twoRecordInputs) twoLeaves = .ok built ∧
      ∀ target, AbsenceProof.verifyAbsence (numbering twoRecordInputs)
          ⟨target, none, twoLeafTree.proofLeaf 0⟩ built.root = true →
        ∀ leaf ∈ twoLeaves, leaf.recordKeyBytes ≠ target := by
  obtain ⟨built, assembled, sound⟩ := verifyAbsence_sound_iff pairEncoding
    (numbering twoRecordInputs) twoLeaves twoLeaves_allNew (by decide) twoLeaves_binds
    none (twoLeafTree.proofLeaf 0)
  refine ⟨built, assembled, sound.mpr (Or.inr (Or.inr ?_))⟩
  intro leaf member between
  have upper := between.2 (bytes "t\x00key\x00a") (by decide)
  simp only [twoLeaves, List.mem_cons, List.not_mem_nil, or_false] at member
  rcases member with rfl | rfl
  · exact absurd upper (by decide)
  · exact absurd upper (by decide)

end Trstctl.Reconcile.Digest
