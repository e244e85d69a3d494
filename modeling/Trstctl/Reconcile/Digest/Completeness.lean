import Trstctl.Library.Sorting
import Trstctl.Reconcile.Canon.Encoding
import Trstctl.Reconcile.Digest.Sets

/-!
# Completeness of proofs, and what a root commits to

The siblings that `InclusionProof` collects level by level climb from a leaf to
the root, also where an odd node was promoted and a level gives none.  Every key
has therefore either an inclusion or an absence proof that verifies.  The root
depends on the set of leaves only, and different sets of leaves have different
roots.
-/

namespace Trstctl.Reconcile.Digest

open Go (Bytes bytes)
open Hash (digestOf numbering)
open Canon (CanonicalRecord Primitives recordEncoding)

section Climbing

variable (hash : Bytes → Bytes)

theorem getElem?_nextLevel (level : List Bytes) (position : Nat) :
    (nextLevel hash level)[position]? =
      match level[2 * position]?, level[2 * position + 1]? with
      | some left, some right => some (nodeHash hash left right)
      | some last, none => some last
      | none, _ => none := by
  fun_induction nextLevel hash level generalizing position with
  | case1 left right rest ih =>
      cases position with
      | zero => rfl
      | succ position =>
          rw [List.getElem?_cons_succ, ih]
          rfl
  | case2 last =>
      cases position with
      | zero => rfl
      | succ position => simp [Nat.mul_succ]
  | case3 => simp

theorem buildLevels_eq_cons (level : List Bytes) :
    ∃ above, buildLevels hash level = level :: above := by
  rw [buildLevels]
  split
  · exact ⟨_, rfl⟩
  · exact ⟨_, rfl⟩

variable {level : List Bytes}

theorem length_mem_nextLevel (digests : ∀ text, (hash text).length = 32)
    (lengths : ∀ node ∈ level, node.length = 32) :
    ∀ node ∈ nextLevel hash level, node.length = 32 := by
  fun_induction nextLevel hash level with
  | case1 left right rest ih =>
      obtain ⟨-, others⟩ := List.forall_mem_cons.mp lengths
      exact List.forall_mem_cons.mpr
        ⟨digests _, ih (List.forall_mem_cons.mp others).2⟩
  | case2 last => exact lengths
  | case3 => exact lengths

theorem siblingsAt_cons {upper : List (List Bytes)} (higher : upper ≠ []) (position : Nat) :
    siblingsAt position (level :: upper) =
      if position % 2 = 0 then
        match level[position + 1]? with
        | some sibling => ⟨sibling, false⟩ :: siblingsAt (position / 2) upper
        | none => siblingsAt (position / 2) upper
      else ⟨level.getD (position - 1) [], true⟩ :: siblingsAt (position / 2) upper := by
  cases upper with
  | nil => exact absurd rfl higher
  | cons next rest => rfl

theorem climbSiblings_cons {current sibling : Bytes} {side : Bool} {above : List ProofNode}
    (length : sibling.length = 32) :
    climbSiblings hash current (⟨sibling, side⟩ :: above) =
      climbSiblings hash
        (if side then nodeHash hash sibling current else nodeHash hash current sibling) above := by
  rw [climbSiblings, if_pos length]

theorem exists_parent {upper : List (List Bytes)} (higher : upper ≠ [])
    (lengths : ∀ node ∈ level, node.length = 32) {position : Nat} {node : Bytes}
    (found : level[position]? = some node) :
    ∃ parent, (nextLevel hash level)[position / 2]? = some parent ∧
      climbSiblings hash node (siblingsAt position (level :: upper)) =
        climbSiblings hash parent (siblingsAt (position / 2) upper) := by
  rw [getElem?_nextLevel, siblingsAt_cons higher]
  by_cases even : position % 2 = 0
  · rw [if_pos even, show 2 * (position / 2) = position by omega, found]
    cases beside : level[position + 1]? with
    | some sibling =>
        refine ⟨nodeHash hash node sibling, rfl, ?_⟩
        exact climbSiblings_cons hash (lengths sibling (List.mem_of_getElem? beside))
    | none => exact ⟨node, rfl, rfl⟩
  · have inside : position < level.length := (List.getElem?_eq_some_iff.mp found).1
    have beside : level[position - 1]? = some level[position - 1] :=
      List.getElem?_eq_getElem (by omega)
    rw [if_neg even, show 2 * (position / 2) = position - 1 by omega,
      show position - 1 + 1 = position by omega, beside, found, List.getD_eq_getElem?_getD, beside]
    refine ⟨nodeHash hash level[position - 1] node, rfl, ?_⟩
    exact climbSiblings_cons hash (lengths _ (List.mem_of_getElem? beside))

theorem climbSiblings_siblingsAt (digests : ∀ text, (hash text).length = 32)
    (lengths : ∀ node ∈ level, node.length = 32) {position : Nat} {node : Bytes}
    (found : level[position]? = some node) :
    climbSiblings hash node (siblingsAt position (buildLevels hash level)) =
      some (topNode (buildLevels hash level)) := by
  induction level using buildLevels.induct hash generalizing position node with
  | case1 level several ih =>
      obtain ⟨above, above_eq⟩ := buildLevels_eq_cons hash (nextLevel hash level)
      have higher : buildLevels hash (nextLevel hash level) ≠ [] := by
        rw [above_eq]
        exact List.cons_ne_nil _ _
      have top : topNode (level :: buildLevels hash (nextLevel hash level)) =
          topNode (buildLevels hash (nextLevel hash level)) := by
        rw [above_eq]
        rfl
      obtain ⟨parent, parentFound, climbs⟩ := exists_parent hash higher lengths found
      rw [buildLevels, if_pos several, top, climbs]
      exact ih (length_mem_nextLevel hash digests lengths) parentFound
  | case2 level single =>
      rw [buildLevels, if_neg single]
      rcases level with _ | ⟨only, _ | ⟨second, rest⟩⟩
      · cases found
      · cases position with
        | zero =>
            obtain rfl := Option.some.inj found
            rfl
        | succ position => cases found
      · exact absurd (by simp) single

/-- Leaves that hash their own material, which is not empty, with different
keys. -/
structure Sealed (leaves : List Leaf) : Prop where
  hashed : ∀ leaf ∈ leaves, leaf.hash = hash leaf.input
  keyed : ∀ leaf ∈ leaves, leaf.recordKeyBytes ≠ []
  written : ∀ leaf ∈ leaves, leaf.canonicalRecordBytes ≠ []
  distinct : (leaves.map Leaf.recordKeyBytes).Nodup

variable {hash}

variable {leaves : List Leaf} {tree : Tree} {key : Bytes}

/-- An inclusion proof that a tree gives is one of the leaf at the place of the
key, and verifies. -/
theorem verifyInclusion_inclusionProof (digests : ∀ text, (hash text).length = 32)
    (isSealed : Sealed hash leaves)
    (built : buildTree hash leaves = .ok tree) {proof : InclusionProof}
    (produced : tree.inclusionProof key = some proof) :
    proof.recordKeyBytes = key ∧ proof.verifyInclusion hash tree.root = true := by
  obtain ⟨tree', built', leaves_eq, -, shape⟩ := buildTree_of_distinct hash isSealed.distinct
  obtain rfl := Except.ok.inj (built'.symm.trans built)
  unfold Tree.inclusionProof at produced
  dsimp only at produced
  split at produced
  next => cases produced
  next leaf found =>
    split at produced
    next same =>
      obtain rfl := Option.some.inj produced
      refine ⟨same, ?_⟩
      have member : leaf ∈ leaves := by
        rw [← mem_sortLeaves, ← leaves_eq]
        exact List.mem_of_getElem? found
      obtain ⟨levels_eq, root_eq⟩ := shape (List.ne_nil_of_mem member)
      have lengths : ∀ node ∈ tree'.leaves.map Leaf.hash, node.length = 32 := by
        intro node isNode
        obtain ⟨other, isOther, rfl⟩ := List.mem_map.mp isNode
        rw [leaves_eq, mem_sortLeaves] at isOther
        rw [isSealed.hashed other isOther]
        exact digests _
      have hashFound : (tree'.leaves.map Leaf.hash)[searchLeaf tree'.leaves key]? =
          some leaf.hash := by
        rw [List.getElem?_map, found]
        rfl
      have climbs := climbSiblings_siblingsAt hash digests lengths hashFound
      rw [← levels_eq, ← root_eq, isSealed.hashed leaf member] at climbs
      unfold InclusionProof.verifyInclusion
      have material :
        (leaf.recordKeyBytes.isEmpty || leaf.canonicalRecordBytes.isEmpty) = false := by
        simp [isSealed.keyed leaf member, isSealed.written leaf member]
      rw [material, leafHash]
      change climbSiblings hash (hash (leafInput _ _)) _ = _ at climbs
      rw [climbs]
      exact beq_self_eq_true _
    next => cases produced

theorem verifyInclusion_proofLeaf (digests : ∀ text, (hash text).length = 32)
    (isSealed : Sealed hash leaves) (built : buildTree hash leaves = .ok tree)
    {index : Nat} {bracket : ProofLeaf} (produced : tree.proofLeaf index = some bracket) :
    (∃ leaf, tree.leaves[index]? = some leaf ∧ bracket.recordKeyBytes = leaf.recordKeyBytes) ∧
      bracket.proof.verifyInclusion hash tree.root = true := by
  obtain ⟨leaf, found, rfl⟩ := Option.map_eq_some_iff.mp produced
  refine ⟨⟨leaf, found, rfl⟩, ?_⟩
  have sorted : tree.leaves.Pairwise
      fun left right => left.recordKeyBytes ≤ right.recordKeyBytes := by
    rw [leaves_of_buildTree built]
    exact pairwise_sortLeaves leaves
  obtain ⟨proof, proof_eq⟩ := exists_inclusionProof sorted (List.mem_of_getElem? found)
  change ((tree.inclusionProof leaf.recordKeyBytes).getD _).verifyInclusion hash tree.root = true
  rw [proof_eq]
  exact (verifyInclusion_inclusionProof digests isSealed built proof_eq).2

/-- An absence proof that a tree gives verifies. -/
theorem verifyAbsence_absenceProof (digests : ∀ text, (hash text).length = 32)
    (isSealed : Sealed hash leaves) (built : buildTree hash leaves = .ok tree)
    (named : key ≠ []) {proof : AbsenceProof} (produced : tree.absenceProof key = some proof) :
    proof.targetKeyBytes = key ∧ proof.verifyAbsence hash tree.root = true := by
  unfold Tree.absenceProof at produced
  dsimp only at produced
  split at produced
  next => cases produced
  next free =>
    obtain rfl := Option.some.inj produced
    refine ⟨rfl, ?_⟩
    have below : ∀ bracket ∈ (if 0 < searchLeaf tree.leaves key then
        tree.proofLeaf (searchLeaf tree.leaves key - 1) else none),
        bracket.recordKeyBytes < key ∧ bracket.proof.verifyInclusion hash tree.root = true := by
      intro bracket isBracket
      split at isBracket
      next later =>
        obtain ⟨⟨leaf, found, isKey⟩, verifies⟩ :=
          verifyInclusion_proofLeaf digests isSealed built isBracket
        refine ⟨?_, verifies⟩
        obtain ⟨inside, rfl⟩ := List.getElem?_eq_some_iff.mp found
        have passed := List.not_of_lt_findIdx (Nat.sub_one_lt_of_lt later)
        rw [isKey, ← List.not_le]
        exact of_decide_eq_false passed
      next => cases isBracket
    have above : ∀ bracket ∈ tree.proofLeaf (searchLeaf tree.leaves key),
        key < bracket.recordKeyBytes ∧ bracket.proof.verifyInclusion hash tree.root = true := by
      intro bracket isBracket
      obtain ⟨⟨leaf, found, isKey⟩, verifies⟩ :=
        verifyInclusion_proofLeaf digests isSealed built isBracket
      refine ⟨?_, verifies⟩
      rw [found] at free
      have different : leaf.recordKeyBytes ≠ key := by simpa using free
      obtain ⟨inside, rfl⟩ := List.getElem?_eq_some_iff.mp found
      have reached := of_decide_eq_true (@List.findIdx_getElem _ _ _ inside)
      rw [isKey]
      exact (List.le_iff_lt_or_eq.mp reached).resolve_right (Ne.symm different)
    by_cases brackets : (if 0 < searchLeaf tree.leaves key then
        tree.proofLeaf (searchLeaf tree.leaves key - 1) else none) = none ∧
        tree.proofLeaf (searchLeaf tree.leaves key) = none
    · -- Neither bracket: the search stopped at once, in a tree without leaves.
      have outside := List.getElem?_eq_none_iff.mp (Option.map_eq_none_iff.mp brackets.2)
      have first : searchLeaf tree.leaves key = 0 := by
        by_contra later
        rw [if_pos (Nat.pos_of_ne_zero later)] at brackets
        have beyond := List.getElem?_eq_none_iff.mp (Option.map_eq_none_iff.mp brackets.1)
        have within : searchLeaf tree.leaves key ≤ tree.leaves.length := List.findIdx_le_length
        omega
      rw [first, Nat.le_zero, List.length_eq_zero_iff, leaves_of_buildTree built,
        sortLeaves_eq_nil_iff] at outside
      obtain ⟨tree', built', -, root_eq, -⟩ := buildTree_of_distinct hash isSealed.distinct
      obtain rfl := Except.ok.inj (built'.symm.trans built)
      rw [brackets.1, brackets.2, root_eq outside]
      simp [AbsenceProof.verifyAbsence, named]
    · refine (verifyAbsence_iff hash _ _ _ _ brackets).mpr ⟨named, ⟨?_, ?_⟩, ?_, ?_⟩
      · exact fun bracket isBracket => (below bracket isBracket).2
      · exact fun bracket isBracket => (above bracket isBracket).2
      · intro bound isBound
        obtain ⟨bracket, isBracket, rfl⟩ := Option.mem_map.mp isBound
        exact (below bracket isBracket).1
      · intro bound isBound
        obtain ⟨bracket, isBracket, rfl⟩ := Option.mem_map.mp isBound
        exact (above bracket isBracket).1

theorem absenceProof_eq_none_iff :
    tree.absenceProof key = none ↔ tree.inclusionProof key ≠ none := by
  unfold Tree.absenceProof Tree.inclusionProof
  dsimp only
  cases tree.leaves[searchLeaf tree.leaves key]? with
  | none => simp
  | some leaf =>
      by_cases same : leaf.recordKeyBytes = key
      · simp [same]
      · simp [same]

end Climbing

section Records

variable {primitives : Primitives}

theorem sealed_of_allNew {leaves : List Leaf}
    (made : AllNew primitives.sha256Sum (recordEncoding primitives) leaves)
    (distinct : (leaves.map Leaf.recordKeyBytes).Nodup) :
    Sealed primitives.sha256Sum leaves where
  hashed leaf member := by
    obtain ⟨record, isNew⟩ := made leaf member
    exact (newLeaf_spec _ isNew).1
  keyed leaf member := by
    obtain ⟨record, isNew⟩ := made leaf member
    exact (newLeaf_spec _ isNew).2.1
  written leaf member := by
    obtain ⟨record, isNew⟩ := made leaf member
    obtain ⟨attributes, -, text_eq⟩ := Canon.canonicalBytes_eq_ok (newLeaf_eq_ok isNew).2
    rw [text_eq]
    exact List.cons_ne_nil _ _
  distinct := distinct

/-- Every key has exactly one of the two proofs, which verifies against the
root, and an inclusion proof that verifies is one of a leaf. -/
theorem proofs_complete_and_inclusion_sound
    (primitives : Primitives)
    (digests : ∀ text, (primitives.sha256Sum text).length = 32)
    (leaves : List Leaf)
    (made : AllNew primitives.sha256Sum (recordEncoding primitives) leaves)
    (distinct : (leaves.map Leaf.recordKeyBytes).Nodup) :
    ∃ tree, buildTree primitives.sha256Sum leaves = .ok tree ∧
      (∀ key, key ≠ [] →
        (tree.absenceProof key = none ∧
          ∃ proof, tree.inclusionProof key = some proof ∧ proof.recordKeyBytes = key ∧
            proof.verifyInclusion primitives.sha256Sum tree.root = true) ∨
        (tree.inclusionProof key = none ∧
          ∃ proof, tree.absenceProof key = some proof ∧ proof.targetKeyBytes = key ∧
            proof.verifyAbsence primitives.sha256Sum tree.root = true)) ∧
      (Hash.Binds primitives.sha256Sum {text | text ∈ buildInputs primitives.sha256Sum leaves} →
        (∀ leaf ∈ leaves, leaf.recordKeyBytes.length < 2 ^ 63) →
        ∀ proof : InclusionProof, proof.recordKeyBytes.length < 2 ^ 63 →
          proof.verifyInclusion primitives.sha256Sum tree.root = true →
          ∃ leaf ∈ leaves, leaf.recordKeyBytes = proof.recordKeyBytes ∧
            leaf.canonicalRecordBytes = proof.canonicalRecordBytes) := by
  have isSealed := sealed_of_allNew made distinct
  obtain ⟨tree, built, -⟩ := buildTree_of_distinct primitives.sha256Sum distinct
  refine ⟨tree, built, ?_, ?_⟩
  · intro key named
    cases produced : tree.inclusionProof key with
    | some proof =>
        refine .inl ⟨absenceProof_eq_none_iff.mpr (by rw [produced]; exact Option.some_ne_none _),
          proof, rfl, verifyInclusion_inclusionProof digests isSealed built produced⟩
    | none =>
        obtain ⟨proof, absent⟩ := Option.ne_none_iff_exists'.mp
          (mt absenceProof_eq_none_iff.mp (not_not.mpr produced))
        exact .inr ⟨rfl, proof, absent,
          verifyAbsence_absenceProof digests isSealed built named absent⟩
  · intro binds addressable proof proofAddressable verified
    obtain ⟨leaf, member, inputs⟩ :=
      exists_leaf_of_verifyInclusion primitives.sha256Sum made distinct binds built verified
    exact ⟨leaf, member, leafInput_injective (addressable leaf member) proofAddressable inputs⟩

/-- A record with the given name and nothing else. -/
def recordNamed (name : Bytes) : CanonicalRecord where
  specVersion := Canon.specVersionV1
  recordKey := ⟨bytes "t", bytes "key", name⟩
  recordType := bytes "key"
  tenantID := bytes "t"
  algorithm := []
  validity := ⟨none, none, none, none⟩
  status := bytes "active"
  provenance := ⟨bytes "vault", name⟩
  attributes := []

/-- Primitives that keep ASCII texts, with a hash. -/
def textPrimitives (hash : Bytes → Bytes) : Primitives where
  nfc text := text
  sha256Sum := hash
  parseURL _ := none
  escapedPath url := url.path
  urlString url := url.path

/-- The canonical bytes of that record. -/
def textNamed (name : Bytes) : Bytes :=
  ((recordNamed name).canonicalBytes (textPrimitives id)).toOption.getD []

/-- The string hashed for its leaf. -/
def inputNamed (name : Bytes) : Bytes :=
  leafInput (bytes "t\x00key\x00" ++ name) (textNamed name)

/-- Its leaf, with a numbered digest. -/
def leafNamed (name : Bytes) (number : Nat) : Leaf where
  recordKeyBytes := bytes "t\x00key\x00" ++ name
  canonicalRecordBytes := textNamed name
  hash := digestOf number

/-- The record named `k`. -/
def namedRecord : CanonicalRecord :=
  recordNamed (bytes "k")

/-- The string hashed for the leaf of that record. -/
def namedInput : Bytes :=
  inputNamed (bytes "k")

/-- The leaf of that record. -/
def namedLeaf : Leaf :=
  leafNamed (bytes "k") 0

/-- Three leaves. -/
def threeLeaves : List Leaf :=
  [leafNamed (bytes "a") 0, leafNamed (bytes "b") 1, leafNamed (bytes "c") 2]

/-- The strings hashed for their tree, in the order of their digests. -/
def threeInputs : List Bytes :=
  [inputNamed (bytes "a"), inputNamed (bytes "b"), inputNamed (bytes "c"),
    HashTree.nodeInput nodeTag (digestOf 0) (digestOf 1),
    HashTree.nodeInput nodeTag (digestOf 3) (digestOf 2)]

theorem threeLeaves_allNew :
    AllNew (numbering threeInputs)
      (recordEncoding (textPrimitives (numbering threeInputs))) threeLeaves := by
  intro leaf member
  simp only [threeLeaves, List.mem_cons, List.not_mem_nil, or_false] at member
  rcases member with rfl | rfl | rfl
  · exact ⟨recordNamed (bytes "a"), by decide +kernel⟩
  · exact ⟨recordNamed (bytes "b"), by decide +kernel⟩
  · exact ⟨recordNamed (bytes "c"), by decide +kernel⟩

theorem buildLevels_threeLeaves :
    buildLevels (numbering threeInputs) (threeLeaves.map Leaf.hash) =
      [[digestOf 0, digestOf 1, digestOf 2],
        [digestOf 3, digestOf 2], [digestOf 4]] := by
  rw [buildLevels, if_pos (by decide), buildLevels, if_pos (by decide +kernel), buildLevels,
    if_neg (by decide +kernel)]
  decide +kernel

theorem threeLeaves_binds :
    Hash.Binds (numbering threeInputs)
      {text | text ∈ buildInputs (numbering threeInputs) threeLeaves} := by
  refine (Hash.numbering_binds threeInputs (by decide)).mono ?_
  intro text member
  have sorted : sortLeaves threeLeaves = threeLeaves := by decide +kernel
  have all : buildInputs (numbering threeInputs) threeLeaves = threeInputs := by
    unfold buildInputs
    rw [sorted, buildLevels_threeLeaves]
    decide +kernel
  exact all ▸ member

/-- The proofs in the tree of three records: of the key of one of them and of a
key between two, and no proof of any other record. -/
theorem proofs_in_tree_of_three_records :
    ∃ tree, buildTree (numbering threeInputs) threeLeaves = .ok tree ∧
      (∀ key ∈ [bytes "t\x00key\x00b", bytes "t\x00key\x00bb"],
        (tree.absenceProof key = none ∧
          ∃ proof, tree.inclusionProof key = some proof ∧ proof.recordKeyBytes = key ∧
            proof.verifyInclusion (numbering threeInputs) tree.root = true) ∨
        (tree.inclusionProof key = none ∧
          ∃ proof, tree.absenceProof key = some proof ∧ proof.targetKeyBytes = key ∧
            proof.verifyAbsence (numbering threeInputs) tree.root = true)) ∧
      ∀ proof : InclusionProof, proof.recordKeyBytes.length < 2 ^ 63 →
        proof.verifyInclusion (numbering threeInputs) tree.root = true →
        ∃ leaf ∈ threeLeaves, leaf.recordKeyBytes = proof.recordKeyBytes ∧
          leaf.canonicalRecordBytes = proof.canonicalRecordBytes := by
  obtain ⟨tree, built, complete, sound⟩ := proofs_complete_and_inclusion_sound
    (textPrimitives (numbering threeInputs)) threeLeaves_binds.length_eq threeLeaves
    threeLeaves_allNew (by decide +kernel)
  refine ⟨tree, built, fun key member => complete key ?_,
    sound threeLeaves_binds (by decide +kernel)⟩
  have named : ∀ key ∈ [bytes "t\x00key\x00b", bytes "t\x00key\x00bb"], key ≠ [] := by
    decide +kernel
  exact named key member

end Records

section Roots

variable {hash : Bytes → Bytes}

variable {leaves : List Leaf}

theorem duplicateKey_eq_of_keys_eq {others : List Leaf}
    (keys : leaves.map Leaf.recordKeyBytes = others.map Leaf.recordKeyBytes) :
    duplicateKey leaves = duplicateKey others := by
  fun_induction duplicateKey leaves generalizing others with
  | case1 first second rest same =>
      rcases others with _ | ⟨otherFirst, _ | ⟨otherSecond, otherRest⟩⟩
      · simp at keys
      · simp at keys
      · simp only [List.map_cons, List.cons.injEq] at keys
        rw [duplicateKey, if_pos (keys.1.symm.trans (same.trans keys.2.1)), keys.2.1]
  | case2 first second rest different ih =>
      rcases others with _ | ⟨otherFirst, _ | ⟨otherSecond, otherRest⟩⟩
      · simp at keys
      · simp at keys
      · obtain ⟨head, tail⟩ := List.cons.inj keys
        rw [ih tail, duplicateKey, if_neg]
        intro same
        exact different (head.trans (same.trans (List.cons.inj tail).1.symm))
  | case3 leaves short =>
      have single : others.length = leaves.length := by
        simpa using congrArg List.length keys.symm
      rcases leaves with _ | ⟨first, _ | ⟨second, rest⟩⟩
      · rw [List.length_eq_zero_iff.mp single]
        rfl
      · obtain ⟨only, rfl⟩ := List.length_eq_one_iff.mp single
        rfl
      · exact absurd rfl (short first second rest)

theorem buildTree_eq_of_perm {others : List Leaf} (permutation : leaves.Perm others) :
    buildTree hash leaves = buildTree hash others := by
  have sorts : (sortLeaves leaves).Perm (sortLeaves others) :=
    (List.perm_insertionSort _ leaves).trans
      (permutation.trans (List.perm_insertionSort _ others).symm)
  have keys : (sortLeaves leaves).map Leaf.recordKeyBytes =
      (sortLeaves others).map Leaf.recordKeyBytes :=
    (sorts.map Leaf.recordKeyBytes).eq_of_pairwise (fun _ _ _ _ => List.le_antisymm)
      (List.pairwise_map.mpr (pairwise_sortLeaves leaves))
      (List.pairwise_map.mpr (pairwise_sortLeaves others))
  have duplicates := duplicateKey_eq_of_keys_eq keys
  unfold buildTree
  cases unique : duplicateKey (sortLeaves leaves) with
  | some key => simp only [← duplicates, unique]
  | none =>
      have distinct := nodup_of_duplicateKey_eq_none (pairwise_sortLeaves leaves) unique
      have same : sortLeaves leaves = sortLeaves others := by
        refine Sorting.insertionSort_eq_of_perm permutation ?_
        intro first member second otherMember below above
        have sorted : (sortLeaves leaves).Perm leaves := List.perm_insertionSort _ leaves
        exact List.inj_on_of_nodup_map distinct (sorted.mem_iff.mpr member)
          (sorted.mem_iff.mpr otherMember) (List.le_antisymm below above)
      rw [same] at unique ⊢

theorem nodup_of_buildTree {tree : Tree} (built : buildTree hash leaves = .ok tree) :
    (leaves.map Leaf.recordKeyBytes).Nodup := by
  have permutation := List.perm_insertionSort
    (fun left right : Leaf => left.recordKeyBytes ≤ right.recordKeyBytes) leaves
  rw [← (permutation.map Leaf.recordKeyBytes).nodup_iff]
  refine nodup_of_duplicateKey_eq_none (pairwise_sortLeaves leaves) ?_
  unfold buildTree at built
  dsimp only at built
  split at built
  next => cases built
  next unique => exact unique

theorem eq_of_input_eq {Record : Type} {encoding : Encoding Record} {leaf other : Leaf}
    (made : ∃ record, newLeaf hash encoding record = .ok leaf)
    (otherMade : ∃ record, newLeaf hash encoding record = .ok other)
    (addressable : leaf.recordKeyBytes.length < 2 ^ 63)
    (otherAddressable : other.recordKeyBytes.length < 2 ^ 63) (inputs : leaf.input = other.input) :
    leaf = other := by
  obtain ⟨record, isNew⟩ := made
  obtain ⟨otherRecord, otherIsNew⟩ := otherMade
  obtain ⟨keys, texts⟩ := leafInput_injective addressable otherAddressable inputs
  have hashes : leaf.hash = other.hash := by
    rw [(newLeaf_spec hash isNew).1, (newLeaf_spec hash otherIsNew).1, inputs]
  cases leaf
  cases other
  cases keys
  cases texts
  cases hashes
  rfl

/-- The root commits to the set of leaves and to nothing else: neither to their
order nor to their number. -/
theorem root_commits_to_leaves
    {Record : Type}
    (encoding : Encoding Record)
    (hash : Bytes → Bytes) :
    (∀ leaves others : List Leaf, leaves.Perm others →
      buildTree hash leaves = buildTree hash others) ∧
    (∀ (leaves others : List Leaf) (tree otherTree : Tree),
      AllNew hash encoding leaves → AllNew hash encoding others →
      (∀ leaf ∈ leaves, leaf.recordKeyBytes.length < 2 ^ 63) →
      (∀ leaf ∈ others, leaf.recordKeyBytes.length < 2 ^ 63) →
      Hash.Binds hash {text | text ∈ buildInputs hash leaves} →
      buildTree hash leaves = .ok tree → buildTree hash others = .ok otherTree →
      (tree.root = otherTree.root ↔ ∀ leaf, leaf ∈ leaves ↔ leaf ∈ others)) := by
  refine ⟨fun leaves others => buildTree_eq_of_perm, ?_⟩
  intro leaves others tree otherTree made otherMade addressable otherAddressable binds built
    otherBuilt
  have distinct := nodup_of_buildTree built
  have otherDistinct := nodup_of_buildTree otherBuilt
  constructor
  · intro equal leaf
    have strings := mem_inputs_iff_of_root_eq made distinct otherMade otherDistinct binds built
      otherBuilt equal leaf.input
    constructor
    · intro member
      obtain ⟨other, otherMember, inputs⟩ :=
        List.mem_map.mp (strings.mp (List.mem_map_of_mem member))
      rwa [← eq_of_input_eq (otherMade other otherMember) (made leaf member)
        (otherAddressable other otherMember) (addressable leaf member) inputs]
    · intro otherMember
      obtain ⟨other, member, inputs⟩ :=
        List.mem_map.mp (strings.mpr (List.mem_map_of_mem otherMember))
      rwa [← eq_of_input_eq (made other member) (otherMade leaf otherMember)
        (addressable other member) (otherAddressable leaf otherMember) inputs]
  · intro same
    have permutation : leaves.Perm others :=
      (List.perm_ext_iff_of_nodup (distinct.of_map _) (otherDistinct.of_map _)).mpr same
    rw [buildTree_eq_of_perm permutation, otherBuilt] at built
    rw [Except.ok.inj built]

/-- Two leaves in either order. -/
theorem root_of_reversed_leaves :
    buildTree (numbering twoRecordInputs) twoLeaves.reverse = .ok twoLeafTree ∧
      ∀ leaf, leaf ∈ twoLeaves ↔ leaf ∈ twoLeaves.reverse := by
  obtain ⟨anyOrder, commits⟩ :=
    root_commits_to_leaves pairEncoding (numbering twoRecordInputs)
  have reversed := (anyOrder _ _ twoLeaves.reverse_perm).trans buildTree_twoLeaves
  refine ⟨reversed, (commits _ _ _ _ twoLeaves_allNew ?_ ?_ ?_ twoLeaves_binds
    buildTree_twoLeaves reversed).mp rfl⟩
  · exact fun leaf member => twoLeaves_allNew leaf (List.mem_reverse.mp member)
  · decide +kernel
  · decide +kernel

end Roots

end Trstctl.Reconcile.Digest
