import Trstctl.Translog.Proofs

/-!
# Inclusion proofs are exact

`VerifyInclusion` accepts, for an index of a log, the entry at that index with
the audit path the log hands out, and nothing else.  Both directions follow the
recursion of `rootFromInclusion`, which splits where the tree splits and reads
the sibling of the whole subtree after the path inside it.
-/

namespace Trstctl.Translog

open Go (Bytes)

variable {hash : Bytes → Bytes}

variable {leaf : Bytes} {proof : List Bytes}

variable {root : Bytes} {rest : List Bytes}

theorem beside_eq_some {part : Option (Bytes × List Bytes)} {combine : Bytes → Bytes → Bytes} :
    (match part with
      | some (subtree, sibling :: unread) => some (combine subtree sibling, unread)
      | _ => none) = some (root, rest) ↔
      ∃ subtree sibling, part = some (subtree, sibling :: rest) ∧
        combine subtree sibling = root := by
  rcases part with _ | ⟨subtree, _ | ⟨sibling, unread⟩⟩
  · simp
  · simp
  · constructor
    · intro equal
      simp only [Option.some.injEq, Prod.mk.injEq] at equal
      exact ⟨subtree, sibling, by rw [equal.2], equal.1⟩
    · rintro ⟨subtree', sibling', equal, root_eq⟩
      simp only [Option.some.injEq, Prod.mk.injEq, List.cons.injEq] at equal
      rw [← root_eq, equal.1, equal.2.1, equal.2.2]

theorem rootFromInclusion_eq_some_left {m n k : Nat}
    (large : 2 ≤ n) (point : largestPowerOfTwoLessThan n = k) (lower : m < k) :
    rootFromInclusion hash leaf m n proof = some (root, rest) ↔
      ∃ subtree sibling,
        rootFromInclusion hash leaf m k proof = some (subtree, sibling :: rest) ∧
          nodeHash hash subtree sibling = root := by
  rw [rootFromInclusion, if_neg (by omega)]
  simp only [point, if_pos lower]
  exact beside_eq_some

theorem rootFromInclusion_eq_some_right {m n k : Nat}
    (large : 2 ≤ n) (point : largestPowerOfTwoLessThan n = k) (upper : ¬m < k) :
    rootFromInclusion hash leaf m n proof = some (root, rest) ↔
      ∃ subtree sibling,
        rootFromInclusion hash leaf (m - k) (n - k) proof = some (subtree, sibling :: rest) ∧
          nodeHash hash sibling subtree = root := by
  rw [rootFromInclusion, if_neg (by omega)]
  simp only [point, if_neg upper]
  exact beside_eq_some

theorem length_rootFromInclusion (digests : ∀ text, (hash text).length = 32)
    {m n : Nat} (length : leaf.length = 32)
    (computed : rootFromInclusion hash leaf m n proof = some (root, rest)) :
    root.length = 32 := by
  by_cases small : n ≤ 1
  · rw [rootFromInclusion, if_pos small] at computed
    simp only [Option.some.injEq, Prod.mk.injEq] at computed
    rw [← computed.1, length]
  · by_cases lower : m < largestPowerOfTwoLessThan n
    · obtain ⟨subtree, sibling, -, root_eq⟩ :=
        (rootFromInclusion_eq_some_left (by omega) rfl lower).mp computed
      rw [← root_eq]
      exact digests _
    · obtain ⟨subtree, sibling, -, root_eq⟩ :=
        (rootFromInclusion_eq_some_right (by omega) rfl lower).mp computed
      rw [← root_eq]
      exact digests _

theorem Split.merkleRoot_eq {leaves left right : List Bytes} {exponent : Nat}
    (split : Split leaves left right exponent) :
    merkleRoot hash leaves = nodeHash hash (merkleRoot hash left) (merkleRoot hash right) ∧
      merkleInputs hash leaves =
        nodeInput (merkleRoot hash left) (merkleRoot hash right) ::
          (merkleInputs hash left ++ merkleInputs hash right) := by
  rw [split.parts]
  exact merkleRoot_append hash left right exponent split.full split.nonempty split.fits

theorem eq_singleton_of_small {leaves : List Bytes} {m : Nat} (small : leaves.length ≤ 1)
    (located : leaves[m]? = some leaf) :
    leaves = [leaf] := by
  obtain ⟨inside, entry_eq⟩ := List.getElem?_eq_some_iff.mp located
  obtain ⟨only, leaves_eq⟩ := List.length_eq_one_iff.mp (show leaves.length = 1 by omega)
  subst leaves_eq
  rw [List.length_singleton] at inside
  rw [← entry_eq, List.getElem_singleton]

/-- The audit path of a leaf leads to the root of the tree. -/
theorem rootFromInclusion_inclusionProof (leaves : List Bytes) (m : Nat) (leaf : Bytes)
    (rest : List Bytes) (located : leaves[m]? = some leaf) :
    rootFromInclusion hash leaf m leaves.length (inclusionProof hash leaves m ++ rest) =
      some (merkleRoot hash leaves, rest) := by
  induction size : leaves.length using Nat.strong_induction_on generalizing leaves m rest with
  | _ n ih =>
  by_cases small : leaves.length ≤ 1
  · rw [rootFromInclusion, if_pos (by omega), inclusionProof, if_pos small,
      eq_singleton_of_small small located, merkleRoot, List.nil_append]
  · obtain ⟨exponent, point, split⟩ := exists_split leaves (by omega)
    have sizes := congrArg List.length split.parts
    have full := split.full
    have nonempty := split.nonempty
    have positive := Nat.two_pow_pos exponent
    rw [List.length_append] at sizes
    rw [split.merkleRoot_eq.1, inclusionProof, if_neg small]
    simp only [point]
    by_cases lower : m < 2 ^ exponent
    · rw [if_pos lower, List.append_assoc,
        rootFromInclusion_eq_some_left (by omega) (by rw [← size]; exact point) lower]
      refine ⟨_, _, ?_, rfl⟩
      have below := ih (leaves.take (2 ^ exponent)).length (by omega)
        (leaves.take (2 ^ exponent)) m
        ([merkleRoot hash (leaves.drop (2 ^ exponent))] ++ rest)
        (by rw [List.getElem?_take, if_pos lower]; exact located) rfl
      rw [full] at below
      exact below
    · rw [if_neg lower, List.append_assoc,
        rootFromInclusion_eq_some_right (by omega) (by rw [← size]; exact point) lower]
      refine ⟨_, _, ?_, rfl⟩
      have below := ih (leaves.drop (2 ^ exponent)).length (by omega)
        (leaves.drop (2 ^ exponent)) (m - 2 ^ exponent)
        ([merkleRoot hash (leaves.take (2 ^ exponent))] ++ rest)
        (by rw [List.getElem?_drop, Nat.add_sub_cancel' (by omega)]; exact located) rfl
      rw [show (leaves.drop (2 ^ exponent)).length = n - 2 ^ exponent by omega] at below
      exact below

variable {inputs : Set Bytes}

/-- A path that leads to the root of the tree starts at the leaf with that
index and is its audit path. -/
theorem eq_of_rootFromInclusion (binds : Hash.Binds hash inputs)
    (leaves : List Bytes) (m : Nat) (leaf : Bytes) (proof rest : List Bytes)
    (inside : m < leaves.length) (length : leaf.length = 32)
    (lengths : ∀ other ∈ leaves, other.length = 32)
    (contained : ∀ text ∈ merkleInputs hash leaves, text ∈ inputs)
    (computed : rootFromInclusion hash leaf m leaves.length proof =
      some (merkleRoot hash leaves, rest)) :
    leaves[m]? = some leaf ∧ proof = inclusionProof hash leaves m ++ rest := by
  induction size : leaves.length using Nat.strong_induction_on generalizing leaves m rest with
  | _ n ih =>
  by_cases small : leaves.length ≤ 1
  · obtain ⟨only, leaves_eq⟩ := List.length_eq_one_iff.mp (show leaves.length = 1 by omega)
    subst leaves_eq
    rw [rootFromInclusion, if_pos small, merkleRoot] at computed
    simp only [Option.some.injEq, Prod.mk.injEq] at computed
    rw [List.length_singleton] at inside
    have first : m = 0 := by omega
    rw [inclusionProof, if_pos small, first, computed.1, computed.2]
    exact ⟨rfl, rfl⟩
  · obtain ⟨exponent, point, split⟩ := exists_split leaves (by omega)
    have sizes := congrArg List.length split.parts
    have full := split.full
    have nonempty := split.nonempty
    have positive := Nat.two_pow_pos exponent
    obtain ⟨root_eq, inputs_eq⟩ := @Split.merkleRoot_eq hash _ _ _ _ split
    rw [List.length_append] at sizes
    rw [root_eq] at computed
    rw [inputs_eq] at contained
    have member := contained _ List.mem_cons_self
    rw [inclusionProof, if_neg small]
    simp only [point]
    have leftLengths : ∀ other ∈ leaves.take (2 ^ exponent), other.length = 32 :=
      fun other found => lengths other (List.mem_of_mem_take found)
    have rightLengths : ∀ other ∈ leaves.drop (2 ^ exponent), other.length = 32 :=
      fun other found => lengths other (List.mem_of_mem_drop found)
    have leftRoot := length_merkleRoot hash binds.length_eq _ leftLengths
    have rightRoot := length_merkleRoot hash binds.length_eq _ rightLengths
    by_cases lower : m < 2 ^ exponent
    · obtain ⟨subtree, sibling, below, parent⟩ :=
        (rootFromInclusion_eq_some_left (by omega) point lower).mp computed
      obtain ⟨subtree_eq, sibling_eq⟩ := children_eq_of_nodeHash_eq binds member parent
        (Or.inl (by rw [leftRoot, length_rootFromInclusion binds.length_eq length below]))
      rw [subtree_eq, sibling_eq] at below
      obtain ⟨located, path_eq⟩ := ih _ (by omega) _ m _ (by omega)
        leftLengths
        (fun text found =>
          contained text (List.mem_cons_of_mem _ (List.mem_append_left _ found)))
        (by rw [full]; exact below) rfl
      rw [List.getElem?_take, if_pos lower] at located
      rw [if_pos lower, List.append_assoc, path_eq]
      exact ⟨located, rfl⟩
    · obtain ⟨subtree, sibling, below, parent⟩ :=
        (rootFromInclusion_eq_some_right (by omega) point lower).mp computed
      obtain ⟨sibling_eq, subtree_eq⟩ := children_eq_of_nodeHash_eq binds member parent
        (Or.inr (by rw [rightRoot, length_rootFromInclusion binds.length_eq length below]))
      rw [subtree_eq, sibling_eq, show leaves.length - 2 ^ exponent =
        (leaves.drop (2 ^ exponent)).length by omega] at below
      obtain ⟨located, path_eq⟩ := ih _ (by omega) _ (m - 2 ^ exponent) _
        (by omega) rightLengths
        (fun text found =>
          contained text (List.mem_cons_of_mem _ (List.mem_append_right _ found)))
        below rfl
      rw [List.getElem?_drop, Nat.add_sub_cancel' (by omega)] at located
      rw [if_neg lower, List.append_assoc, path_eq]
      exact ⟨located, rfl⟩

/-- The strings hashed for the log of the given entries. -/
def logInputs (hash : Bytes → Bytes) (entries : List Bytes) : Set Bytes :=
  {text | text ∈ merkleInputs hash (newTree hash entries).leafHashes ∨
    ∃ entry ∈ entries, text = 0x00 :: entry}

theorem length_leafHashes (digests : ∀ text, (hash text).length = 32) (entries : List Bytes) :
    ∀ leaf ∈ (newTree hash entries).leafHashes, leaf.length = 32 := by
  intro leaf member
  obtain ⟨entry, -, rfl⟩ := List.mem_map.mp member
  exact digests _

theorem eq_of_leafHash_eq (binds : Hash.Binds hash inputs) {entry : Bytes}
    (member : 0x00 :: entry ∈ inputs) (equal : leafHash hash leaf = leafHash hash entry) :
    leaf = entry := by
  have strings := binds.eq_of_hash_eq (0x00 :: entry) member _ equal
  exact (List.cons.inj strings).2

theorem eq_of_verifyInclusion {entries : List Bytes}
    (binds : Hash.Binds hash (logInputs hash entries)) {index : Int}
    (accepted : verifyInclusion hash leaf index entries.length proof
      ((newTree hash entries).root hash) = true) :
    ∃ m : Nat, index = m ∧ entries[m]? = some leaf ∧
      proof = inclusionProof hash (newTree hash entries).leafHashes m := by
  have size : (newTree hash entries).leafHashes.length = entries.length := List.length_map _
  unfold verifyInclusion at accepted
  split_ifs at accepted with outside large
  obtain ⟨m, rfl⟩ := Int.eq_ofNat_of_zero_le (show 0 ≤ index by omega)
  rw [Int.toNat_natCast, Int.toNat_natCast, beq_iff_eq, ← size, Tree.root] at accepted
  obtain ⟨leaf_eq, proof_eq⟩ := eq_of_rootFromInclusion binds
    (newTree hash entries).leafHashes m (leafHash hash leaf) proof [] (by omega)
    (binds.length_eq _) (length_leafHashes binds.length_eq entries)
    (fun _ member => Or.inl member) accepted
  rw [newTree, List.getElem?_map, Option.map_eq_some_iff] at leaf_eq
  obtain ⟨entry, entry_eq, hash_eq⟩ := leaf_eq
  rw [List.append_nil] at proof_eq
  refine ⟨m, rfl, ?_, proof_eq⟩
  rw [entry_eq, eq_of_leafHash_eq binds (Or.inr ⟨entry, List.mem_of_getElem? entry_eq, rfl⟩)
    hash_eq.symm]

/-- Inclusion proofs are exact: `VerifyInclusion` accepts an entry and a proof
for an index of the log if and only if the log has that entry there and hands
out that proof. -/
theorem verifyInclusion_iff
    (hash : Bytes → Bytes)
    (entries : List Bytes)
    (binds : Hash.Binds hash (logInputs hash entries))
    (fits : entries.length ≤ 2 ^ 62)
    (m : Nat)
    (inside : m < entries.length)
    (leaf : Bytes)
    (proof : List Bytes) :
    verifyInclusion hash leaf m entries.length proof ((newTree hash entries).root hash) = true ↔
      entries[m]? = some leaf ∧
        proof = inclusionProof hash (newTree hash entries).leafHashes m := by
  constructor
  · intro accepted
    obtain ⟨m', index_eq, entry_eq, proof_eq⟩ := eq_of_verifyInclusion binds accepted
    obtain rfl := Int.ofNat.inj index_eq
    exact ⟨entry_eq, proof_eq⟩
  · rintro ⟨entry_eq, rfl⟩
    have size : (newTree hash entries).leafHashes.length = entries.length := List.length_map _
    have complete := @rootFromInclusion_inclusionProof hash
      (newTree hash entries).leafHashes m (leafHash hash leaf) []
      (by rw [newTree, List.getElem?_map, entry_eq, Option.map_some])
    rw [List.append_nil] at complete
    rw [verifyInclusion, if_neg (by omega), if_neg (by exact_mod_cast Nat.not_lt_of_le fits),
      Int.toNat_natCast, Int.toNat_natCast, beq_iff_eq, ← size]
    exact complete

theorem eq_of_leafHashes_eq (binds : Hash.Binds hash inputs)
    {older newer : List Bytes} (contained : ∀ entry ∈ newer, 0x00 :: entry ∈ inputs)
    (equal : (newTree hash older).leafHashes = (newTree hash newer).leafHashes) :
    older = newer := by
  unfold newTree at equal
  apply List.ext_getElem?
  intro index
  have hashes := congrArg (fun leaves => leaves[index]?) equal
  simp only [List.getElem?_map] at hashes
  cases newerEntry : newer[index]? with
  | none =>
      rw [newerEntry, Option.map_none, Option.map_eq_none_iff] at hashes
      exact hashes
  | some entry =>
      rw [newerEntry, Option.map_some, Option.map_eq_some_iff] at hashes
      obtain ⟨other, located, hash_eq⟩ := hashes
      rw [located, eq_of_leafHash_eq binds (contained entry (List.mem_of_getElem? newerEntry))
        hash_eq]

theorem prefix_of_verifyConsistency {older newer : List Bytes}
    (binds : Hash.Binds hash (logInputs hash older ∪ logInputs hash newer))
    (nonempty : 1 ≤ older.length) (fits : older.length ≤ newer.length)
    (accepted : verifyConsistency hash older.length newer.length proof
      ((newTree hash older).root hash) ((newTree hash newer).root hash) = true) :
    older <+: newer := by
  have sizes : ∀ entries, (newTree hash entries).leafHashes.length = entries.length :=
    fun entries => List.length_map _
  rw [← sizes older, ← sizes newer] at accepted
  have leaves := eq_take_of_accepted binds
    (fun _ member => Or.inl (Or.inl member)) (fun _ member => Or.inr (Or.inl member))
    (length_leafHashes binds.length_eq older) (length_leafHashes binds.length_eq newer)
    (by rw [sizes]; exact nonempty) (by rw [sizes, sizes]; exact fits) accepted
  have taken : (newTree hash older).leafHashes =
      (newTree hash (newer.take older.length)).leafHashes := by
    rw [leaves, sizes]
    exact (List.map_take).symm
  have equal := eq_of_leafHashes_eq binds
    (fun entry member => Or.inr (Or.inr ⟨entry, List.mem_of_mem_take member, rfl⟩)) taken
  rw [equal]
  exact List.take_prefix _ _

theorem binds_twoEntryInputs :
    Hash.Binds (Hash.numbering twoEntryInputs)
      (logInputs (Hash.numbering twoEntryInputs) [[1], [2]]) := by
  refine (Hash.numbering_binds twoEntryInputs (by decide)).mono ?_
  rintro text (member | ⟨entry, member, rfl⟩)
  · rw [show (newTree (Hash.numbering twoEntryInputs) [[1], [2]]).leafHashes =
      [Hash.digestOf 0, Hash.digestOf 1] by decide, (merkleRoot_pair _ _ _).2] at member
    rw [List.eq_of_mem_singleton member]
    decide
  · simp only [List.mem_cons, List.not_mem_nil, or_false] at member
    rcases member with rfl | rfl
    · decide
    · decide

/-- The second entry of a log of two is accepted with its audit path. -/
theorem verifyInclusion_second :
    let hash := Hash.numbering twoEntryInputs
    verifyInclusion hash [2] 1 2
      (inclusionProof hash (newTree hash [[1], [2]]).leafHashes 1)
      ((newTree hash [[1], [2]]).root hash) = true :=
  (verifyInclusion_iff (Hash.numbering twoEntryInputs) [[1], [2]] binds_twoEntryInputs
    (by decide) 1 (by decide) [2] _).mpr ⟨rfl, rfl⟩

end Trstctl.Translog
