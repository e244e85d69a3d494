import Trstctl.Translog.Merkle

/-!
# Soundness of consistency proofs

The node of the tree over `leaves` at a given level and index commits to an
aligned block of `2 ^ level` leaves.  A run of `VerifyConsistency` that
succeeds is read backwards, from the two roots down to the node where the
running hashes start: at every level the hash of the old tree, the hash of the
new tree and the left siblings are forced to be the nodes of the trees
themselves.
-/

namespace Trstctl.Translog

open Go (Bytes)

theorem tdiv_two (node : Nat) : (node : Int).tdiv 2 = (node / 2 : Nat) :=
  (Int.ofNat_tdiv node 2).symm

theorem tmod_two (node : Nat) : (node : Int).tmod 2 = (node % 2 : Nat) :=
  (Int.ofNat_tmod node 2).symm

variable (hash : Bytes → Bytes)

/-- The leaves below the node of `level` with number `index`. -/
def block (leaves : List Bytes) (level index : Nat) : List Bytes :=
  (leaves.drop (index * 2 ^ level)).take (2 ^ level)

/-- The digest of the node of `level` with number `index`. -/
def blockRoot (leaves : List Bytes) (level index : Nat) : Bytes :=
  merkleRoot hash (block leaves level index)

variable (leaves : List Bytes) (level index : Nat)

theorem length_block :
    (block leaves level index).length =
      min (2 ^ level) (leaves.length - index * 2 ^ level) := by
  simp [block]

theorem mem_of_mem_block {leaves : List Bytes} {level index : Nat} {leaf : Bytes}
    (member : leaf ∈ block leaves level index) :
    leaf ∈ leaves :=
  List.mem_of_mem_drop (List.mem_of_mem_take member)

theorem block_succ :
    block leaves (level + 1) index =
      block leaves level (2 * index) ++ block leaves level (2 * index + 1) := by
  have doubled : 2 ^ (level + 1) = 2 ^ level + 2 ^ level := by
    rw [Nat.pow_succ]
    omega
  have start : index * 2 ^ (level + 1) = 2 * index * 2 ^ level := by
    rw [Nat.pow_succ, Nat.mul_comm 2 index, Nat.mul_assoc, Nat.mul_comm 2]
  have next : (2 * index + 1) * 2 ^ level = 2 * index * 2 ^ level + 2 ^ level := by
    rw [Nat.add_mul, Nat.one_mul]
  unfold block
  rw [start, next, doubled, List.take_add, List.drop_drop]

theorem block_eq_nil {leaves : List Bytes} {level index : Nat}
    (beyond : leaves.length ≤ index * 2 ^ level) :
    block leaves level index = [] := by
  rw [← List.length_eq_zero_iff, length_block, Nat.sub_eq_zero_of_le beyond, Nat.min_zero]

theorem block_zero {leaves : List Bytes} {level : Nat} (covered : leaves.length ≤ 2 ^ level) :
    block leaves level 0 = leaves := by
  simp [block, List.take_of_length_le covered]

theorem last_bounds {size level last : Nat} (last_eq : last = (size - 1) / 2 ^ level) :
    last * 2 ^ level ≤ size - 1 ∧ size ≤ (last + 1) * 2 ^ level := by
  have start := Nat.div_mul_le_self (size - 1) (2 ^ level)
  have beyond := Nat.lt_div_mul_add (a := size - 1) (Nat.two_pow_pos level)
  rw [← last_eq] at start beyond
  rw [Nat.add_mul, Nat.one_mul]
  omega

/-- The tree over a full left part and a non-empty right part that is not
longer splits between them. -/
theorem merkleRoot_append (left right : List Bytes) (exponent : Nat)
    (full : left.length = 2 ^ exponent) (nonempty : 0 < right.length)
    (fits : right.length ≤ 2 ^ exponent) :
    merkleRoot hash (left ++ right) =
        nodeHash hash (merkleRoot hash left) (merkleRoot hash right) ∧
      merkleInputs hash (left ++ right) =
        nodeInput (merkleRoot hash left) (merkleRoot hash right) ::
          (merkleInputs hash left ++ merkleInputs hash right) := by
  have positive : 0 < 2 ^ exponent := Nat.two_pow_pos exponent
  have split : largestPowerOfTwoLessThan (left ++ right).length = left.length := by
    rw [List.length_append, full]
    apply largestPowerOfTwoLessThan_eq
    · omega
    · rw [Nat.pow_succ]
      omega
  match shape : left ++ right with
  | [] =>
      have := congrArg List.length shape
      simp only [List.length_append, List.length_nil] at this
      omega
  | [leaf] =>
      have := congrArg List.length shape
      simp only [List.length_append, List.length_cons, List.length_nil] at this
      omega
  | first :: second :: rest =>
      have taken : (first :: second :: rest).take
          (largestPowerOfTwoLessThan (first :: second :: rest).length) = left := by
        rw [← shape, split, List.take_left]
      have dropped : (first :: second :: rest).drop
          (largestPowerOfTwoLessThan (first :: second :: rest).length) = right := by
        rw [← shape, split, List.drop_left]
      constructor
      · rw [merkleRoot]
        simp only [taken, dropped]
      · rw [merkleInputs]
        simp only [taken, dropped]

theorem merkleRoot_pair (first second : Bytes) :
    merkleRoot hash [first, second] = nodeHash hash first second ∧
      merkleInputs hash [first, second] = [nodeInput first second] := by
  have single : ∀ leaf, merkleRoot hash [leaf] = leaf := fun leaf => by rw [merkleRoot]
  have noInputs : ∀ leaf, merkleInputs hash [leaf] = [] := fun leaf => by rw [merkleInputs]
  have parts := merkleRoot_append hash [first] [second] 0 rfl Nat.one_pos (Nat.le_refl 1)
  rw [single, single, noInputs, noInputs] at parts
  exact parts

theorem length_merkleRoot (digests : ∀ text, (hash text).length = 32) (leaves : List Bytes)
    (lengths : ∀ leaf ∈ leaves, leaf.length = 32) :
    (merkleRoot hash leaves).length = 32 := by
  match leaves with
  | [] =>
      rw [merkleRoot]
      exact digests []
  | [leaf] =>
      rw [merkleRoot]
      exact lengths leaf List.mem_cons_self
  | first :: second :: rest =>
      rw [merkleRoot]
      exact digests _

theorem blockRoot_succ (right : (2 * index + 1) * 2 ^ level < leaves.length) :
    blockRoot hash leaves (level + 1) index =
        nodeHash hash (blockRoot hash leaves level (2 * index))
          (blockRoot hash leaves level (2 * index + 1)) ∧
      nodeInput (blockRoot hash leaves level (2 * index))
          (blockRoot hash leaves level (2 * index + 1)) ∈
        merkleInputs hash (block leaves (level + 1) index) := by
  have next : (2 * index + 1) * 2 ^ level = 2 * index * 2 ^ level + 2 ^ level := by
    rw [Nat.add_mul, Nat.one_mul]
  have parts := merkleRoot_append hash (block leaves level (2 * index))
    (block leaves level (2 * index + 1)) level
    (by rw [length_block]; omega) (by
      have := Nat.two_pow_pos level
      rw [length_block]
      omega) (by rw [length_block]; omega)
  unfold blockRoot
  rw [block_succ]
  refine ⟨parts.1, ?_⟩
  rw [parts.2]
  exact List.mem_cons_self

theorem blockRoot_succ_of_no_right (none : leaves.length ≤ (2 * index + 1) * 2 ^ level) :
    blockRoot hash leaves (level + 1) index = blockRoot hash leaves level (2 * index) := by
  unfold blockRoot
  rw [block_succ, block_eq_nil none, List.append_nil]

/-- The strings hashed below a node are among those hashed below its parent. -/
theorem merkleInputs_block_parent :
    merkleInputs hash (block leaves level index) ⊆
      merkleInputs hash (block leaves (level + 1) (index / 2)) := by
  rw [block_succ]
  by_cases right : (2 * (index / 2) + 1) * 2 ^ level < leaves.length
  · have next : (2 * (index / 2) + 1) * 2 ^ level =
        2 * (index / 2) * 2 ^ level + 2 ^ level := by
      rw [Nat.add_mul, Nat.one_mul]
    have parts := merkleRoot_append hash (block leaves level (2 * (index / 2)))
      (block leaves level (2 * (index / 2) + 1)) level
      (by rw [length_block]; omega) (by
        have := Nat.two_pow_pos level
        rw [length_block]
        omega) (by rw [length_block]; omega)
    rw [parts.2]
    rcases Nat.mod_two_eq_zero_or_one index with even | odd
    · rw [show index = 2 * (index / 2) by omega]
      simp only [Nat.mul_div_cancel_left _ (show 0 < 2 by omega)]
      exact fun text member =>
        List.mem_cons_of_mem _ (List.mem_append_left _ member)
    · have index_eq : index = 2 * (index / 2) + 1 := by omega
      intro text member
      rw [index_eq] at member
      exact List.mem_cons_of_mem _ (List.mem_append_right _ member)
  · rw [block_eq_nil (Nat.le_of_not_lt right), List.append_nil]
    rcases Nat.mod_two_eq_zero_or_one index with even | odd
    · intro text member
      rwa [show 2 * (index / 2) = index by omega]
    · rw [show index = 2 * (index / 2) + 1 by omega,
        block_eq_nil (Nat.le_of_not_lt right), merkleInputs]
      exact List.nil_subset _

theorem merkleInputs_block_subset :
    merkleInputs hash (block leaves level index) ⊆ merkleInputs hash leaves := by
  have climbs : ∀ height, merkleInputs hash (block leaves level index) ⊆
      merkleInputs hash (block leaves (level + height) (index / 2 ^ height)) := by
    intro height
    induction height with
    | zero => simp
    | succ height ih =>
        refine List.Subset.trans ih ?_
        rw [Nat.pow_succ, ← Nat.div_div_eq_div_mul]
        exact merkleInputs_block_parent hash leaves (level + height) (index / 2 ^ height)
  -- Above the whole tree only the block with number zero has leaves.
  have covered : leaves.length ≤ 2 ^ (level + leaves.length) :=
    (Nat.lt_two_pow_self).le.trans (Nat.pow_le_pow_right (by omega) (by omega))
  refine List.Subset.trans (climbs leaves.length) ?_
  rcases Nat.eq_zero_or_pos (index / 2 ^ leaves.length) with first | later
  · rw [first, block_zero covered]
    exact List.Subset.refl _
  · rw [block_eq_nil (covered.trans (Nat.le_mul_of_pos_left _ later)), merkleInputs]
    exact List.nil_subset _

section Binding

variable {hash}
variable {inputs : Set Bytes}

theorem children_eq_of_nodeHash_eq (binds : Hash.Binds hash inputs)
    {left right left' right' : Bytes} (member : nodeInput left right ∈ inputs)
    (equal : nodeHash hash left' right' = nodeHash hash left right)
    (lengths : left'.length = left.length ∨ right'.length = right.length) :
    left' = left ∧ right' = right := by
  have strings := binds.eq_of_hash_eq _ member _ equal
  have concatenation : left' ++ right' = left ++ right := by
    simpa [nodeInput] using strings
  rcases lengths with same | same
  · exact List.append_inj concatenation same
  · exact List.append_inj' concatenation same

/-- Trees of one size with one root have the same leaf hashes. -/
theorem eq_of_merkleRoot_eq (binds : Hash.Binds hash inputs) :
    ∀ (left right : List Bytes),
      left.length = right.length →
      left ≠ [] →
      (∀ leaf ∈ left, leaf.length = 32) →
      (∀ leaf ∈ right, leaf.length = 32) →
      (∀ text ∈ merkleInputs hash right, text ∈ inputs) →
      merkleRoot hash left = merkleRoot hash right →
      left = right := by
  intro left
  induction size : left.length using Nat.strong_induction_on generalizing left with
  | _ n ih =>
  intro right sizes nonempty leftLengths rightLengths contained roots
  match left, right with
  | [], _ => exact absurd rfl nonempty
  | [leaf], [other] =>
      rw [merkleRoot, merkleRoot] at roots
      rw [roots]
  | [_], [] => simp_all
  | [_], _ :: _ :: _ => simp_all
  | _ :: _ :: _, [] => simp_all
  | _ :: _ :: _, [_] => simp_all
  | first :: second :: rest, first' :: second' :: rest' =>
      have bounds := largestPowerOfTwoLessThan_bounds (rest.length + 1 + 1) (by omega)
      have restSizes : rest'.length = rest.length := by
        simp only [List.length_cons] at size sizes
        omega
      rw [merkleRoot, merkleRoot] at roots
      rw [merkleInputs] at contained
      simp only [List.length_cons, restSizes] at roots contained
      generalize splitEq : largestPowerOfTwoLessThan (rest.length + 1 + 1) = k
        at roots contained bounds
      generalize leftEq : first :: second :: rest = leftAll at *
      generalize rightEq : first' :: second' :: rest' = rightAll at *
      have leftSize : leftAll.length = rest.length + 1 + 1 := by rw [← leftEq]; rfl
      have rightSize : rightAll.length = rest.length + 1 + 1 := by
        rw [← rightEq, ← restSizes]; rfl
      have leftTake : ∀ leaf ∈ leftAll.take k, leaf.length = 32 :=
        fun leaf member => leftLengths leaf (List.mem_of_mem_take member)
      have leftDrop : ∀ leaf ∈ leftAll.drop k, leaf.length = 32 :=
        fun leaf member => leftLengths leaf (List.mem_of_mem_drop member)
      have rightTake : ∀ leaf ∈ rightAll.take k, leaf.length = 32 :=
        fun leaf member => rightLengths leaf (List.mem_of_mem_take member)
      have rightDrop : ∀ leaf ∈ rightAll.drop k, leaf.length = 32 :=
        fun leaf member => rightLengths leaf (List.mem_of_mem_drop member)
      obtain ⟨lower, upper⟩ := children_eq_of_nodeHash_eq binds
        (contained _ List.mem_cons_self) roots (Or.inl (by
          rw [length_merkleRoot hash binds.length_eq _ leftTake,
            length_merkleRoot hash binds.length_eq _ rightTake]))
      have takes : leftAll.take k = rightAll.take k := by
        apply ih (leftAll.take k).length _ _ rfl
        · simp only [List.length_take]; omega
        · intro empty
          have := congrArg List.length empty
          simp only [List.length_take, List.length_nil] at this
          omega
        · exact leftTake
        · exact rightTake
        · intro text member
          exact contained text (List.mem_cons_of_mem _ (List.mem_append_left _ member))
        · exact lower
        · simp only [List.length_take]; omega
      have drops : leftAll.drop k = rightAll.drop k := by
        apply ih (leftAll.drop k).length _ _ rfl
        · simp only [List.length_drop]; omega
        · intro empty
          have := congrArg List.length empty
          simp only [List.length_drop, List.length_nil] at this
          omega
        · exact leftDrop
        · exact rightDrop
        · intro text member
          exact contained text (List.mem_cons_of_mem _ (List.mem_append_right _ member))
        · exact upper
        · simp only [List.length_drop]; omega
      rw [← List.take_append_drop k leftAll, takes, drops, List.take_append_drop]

theorem length_blockRoot (binds : Hash.Binds hash inputs) {leaves : List Bytes}
    (lengths : ∀ leaf ∈ leaves, leaf.length = 32) (level index : Nat) :
    (blockRoot hash leaves level index).length = 32 :=
  length_merkleRoot hash binds.length_eq _ fun leaf member =>
    lengths leaf (mem_of_mem_block member)

theorem children_of_blockRoot (binds : Hash.Binds hash inputs) {leaves : List Bytes}
    (covered : ∀ text ∈ merkleInputs hash leaves, text ∈ inputs)
    (lengths : ∀ leaf ∈ leaves, leaf.length = 32) {level index : Nat} {left right : Bytes}
    (exists_right : (2 * index + 1) * 2 ^ level < leaves.length)
    (equal : nodeHash hash left right = blockRoot hash leaves (level + 1) index)
    (either : left.length = 32 ∨ right.length = 32) :
    left = blockRoot hash leaves level (2 * index) ∧
      right = blockRoot hash leaves level (2 * index + 1) := by
  obtain ⟨root_eq, member⟩ := blockRoot_succ hash leaves level index exists_right
  apply children_eq_of_nodeHash_eq binds
    (covered _ (merkleInputs_block_subset hash leaves _ _ member)) (equal.trans root_eq)
  simpa [length_blockRoot binds lengths] using either

end Binding

/-- A smaller and a larger tree of 32-byte leaf hashes, under a hash that
binds the strings hashed in both. -/
structure Growth (older newer : List Bytes) (inputs : Set Bytes) : Prop where
  binds : Hash.Binds hash inputs
  olderInputs : ∀ text ∈ merkleInputs hash older, text ∈ inputs
  newerInputs : ∀ text ∈ merkleInputs hash newer, text ∈ inputs
  olderLengths : ∀ leaf ∈ older, leaf.length = 32
  newerLengths : ∀ leaf ∈ newer, leaf.length = 32
  nonempty : 0 < older.length
  shorter : older.length < newer.length

namespace Growth

variable {hash}
variable {older newer : List Bytes}
variable {inputs : Set Bytes}

/-- Trees that agree before a block and have one digest for the block, full in
the older tree, agree up to the end of the block. -/
theorem take_succ_eq (growth : Growth hash older newer inputs) {level index : Nat}
    (full : (index + 1) * 2 ^ level ≤ older.length)
    (before : older.take (index * 2 ^ level) = newer.take (index * 2 ^ level))
    (roots : blockRoot hash older level index = blockRoot hash newer level index) :
    older.take ((index + 1) * 2 ^ level) = newer.take ((index + 1) * 2 ^ level) := by
  have next : (index + 1) * 2 ^ level = index * 2 ^ level + 2 ^ level := by
    rw [Nat.add_mul, Nat.one_mul]
  have positive := Nat.two_pow_pos level
  have shorter := growth.shorter
  have blocks : block older level index = block newer level index := by
    apply eq_of_merkleRoot_eq growth.binds _ _ _ _ _ _ _ roots
    · rw [length_block, length_block]
      omega
    · intro empty
      have := congrArg List.length empty
      rw [length_block, List.length_nil] at this
      omega
    · exact fun leaf member => growth.olderLengths leaf (mem_of_mem_block member)
    · exact fun leaf member => growth.newerLengths leaf (mem_of_mem_block member)
    · exact fun text member =>
        growth.newerInputs text (merkleInputs_block_subset hash newer _ _ member)
  rw [next, List.take_add, List.take_add, before]
  exact congrArg (newer.take (index * 2 ^ level) ++ ·) blocks

/-- The loop over `last` accepts only the leftmost node of the newer tree. -/
theorem climbRight_sound (growth : Growth hash older newer inputs) {fr oldRoot : Bytes} :
    ∀ (last level : Nat) (proof : List Bytes) (sr : Bytes),
      last = (newer.length - 1) / 2 ^ level →
      sr.length = 32 →
      climbRight hash last proof fr sr oldRoot (merkleRoot hash newer) = true →
      fr = oldRoot ∧ sr = blockRoot hash newer level 0 := by
  intro last
  induction last using Nat.strong_induction_on with
  | _ last ih =>
  intro level proof sr last_eq length accepted
  have shorter := growth.shorter
  have positive := Nat.two_pow_pos level
  rw [climbRight.eq_def] at accepted
  by_cases more : 0 < last
  · rw [if_pos (by exact_mod_cast more)] at accepted
    cases proof with
    | nil => simp at accepted
    | cons sibling rest =>
        simp only [tdiv_two] at accepted
        obtain ⟨old_eq, parent_eq⟩ := ih (last / 2) (by omega) (level + 1)
          rest (nodeHash hash sr sibling)
          (by rw [last_eq, Nat.pow_succ, Nat.div_div_eq_div_mul])
          (growth.binds.length_eq _) accepted
        have exists_right : (2 * 0 + 1) * 2 ^ level < newer.length := by
          have := (last_bounds last_eq).1
          have : 1 * 2 ^ level ≤ last * 2 ^ level := Nat.mul_le_mul_right _ more
          omega
        exact ⟨old_eq, (children_of_blockRoot growth.binds growth.newerInputs growth.newerLengths
          exists_right parent_eq (Or.inl length)).1⟩
  · rw [if_neg (by exact_mod_cast more)] at accepted
    simp only [Bool.and_eq_true, beq_iff_eq] at accepted
    refine ⟨accepted.1.2, ?_⟩
    have covered : newer.length ≤ 2 ^ level := by
      have quotient : (newer.length - 1) / 2 ^ level = 0 := by omega
      have := Nat.lt_of_div_eq_zero positive quotient
      omega
    rw [blockRoot, block_zero covered]
    exact accepted.2

/-- The loop over `node` accepts only the nodes of the two trees, and only
when the trees agree on all leaves to the left. -/
theorem climb_sound (growth : Growth hash older newer inputs) :
    ∀ (node last level : Nat) (proof : List Bytes) (fr sr : Bytes),
      node = (older.length - 1) / 2 ^ level →
      last = (newer.length - 1) / 2 ^ level →
      sr.length = 32 →
      climb hash node last proof fr sr (merkleRoot hash older) (merkleRoot hash newer) = true →
      fr = blockRoot hash older level node ∧
        sr = blockRoot hash newer level node ∧
        older.take (node * 2 ^ level) = newer.take (node * 2 ^ level) := by
  intro node
  induction node using Nat.strong_induction_on with
  | _ node ih =>
  intro last level proof fr sr node_eq last_eq length accepted
  have shorter := growth.shorter
  have nonempty := growth.nonempty
  have positive := Nat.two_pow_pos level
  have node_le_last : node ≤ last := by
    rw [node_eq, last_eq]
    exact Nat.div_le_div_right (by omega)
  obtain ⟨node_start, node_end⟩ := last_bounds node_eq
  obtain ⟨last_start, last_end⟩ := last_bounds last_eq
  have node_half : node / 2 = (older.length - 1) / 2 ^ (level + 1) := by
    rw [node_eq, Nat.pow_succ, Nat.div_div_eq_div_mul]
  have last_half : last / 2 = (newer.length - 1) / 2 ^ (level + 1) := by
    rw [last_eq, Nat.pow_succ, Nat.div_div_eq_div_mul]
  have aligned : node / 2 * 2 ^ (level + 1) = 2 * (node / 2) * 2 ^ level := by
    rw [Nat.pow_succ, Nat.mul_comm 2, Nat.mul_assoc, Nat.mul_comm 2]
  rw [climb.eq_def] at accepted
  rcases Nat.eq_zero_or_pos node with finished | running
  · subst finished
    rw [if_neg (by simp)] at accepted
    obtain ⟨old_eq, new_eq⟩ := growth.climbRight_sound last level proof sr last_eq length accepted
    refine ⟨?_, new_eq, by simp⟩
    rw [old_eq, blockRoot, block_zero (by omega)]
  · rw [if_pos (by exact_mod_cast running)] at accepted
    simp only [tdiv_two, tmod_two] at accepted
    have half_lt : node / 2 < node := by omega
    by_cases odd : node % 2 = 1
    · -- A left sibling is shared by the two trees.
      rw [if_pos (by exact_mod_cast odd)] at accepted
      have node_odd : 2 * (node / 2) + 1 = node := by omega
      cases proof with
      | nil => simp at accepted
      | cons sibling rest =>
          obtain ⟨older_eq, newer_eq, before⟩ := ih (node / 2) half_lt
            (last / 2) (level + 1) rest _ _ node_half last_half
            (growth.binds.length_eq _) accepted
          have newer_right : (2 * (node / 2) + 1) * 2 ^ level < newer.length := by
            rw [node_odd]
            have := Nat.mul_le_mul_right (2 ^ level) node_le_last
            omega
          have older_right : (2 * (node / 2) + 1) * 2 ^ level < older.length := by
            rw [node_odd]
            omega
          obtain ⟨sibling_newer, sr_eq⟩ :=
            children_of_blockRoot growth.binds growth.newerInputs growth.newerLengths
              newer_right newer_eq (Or.inr length)
          obtain ⟨sibling_older, fr_eq⟩ :=
            children_of_blockRoot growth.binds growth.olderInputs growth.olderLengths
              older_right older_eq (Or.inl (by
                rw [sibling_newer]
                exact length_blockRoot growth.binds growth.newerLengths _ _))
          rw [node_odd] at fr_eq sr_eq
          refine ⟨fr_eq, sr_eq, ?_⟩
          rw [aligned] at before
          have agreed := growth.take_succ_eq (by rw [node_odd]; omega) before
            (sibling_older.symm.trans sibling_newer)
          rwa [node_odd] at agreed
    · rw [if_neg (by exact_mod_cast odd)] at accepted
      have node_even : 2 * (node / 2) = node := by omega
      have older_none : older.length ≤ (2 * (node / 2) + 1) * 2 ^ level := by
        rw [node_even]
        exact node_end
      by_cases inner : node < last
      · -- Only the newer tree has a right sibling here.
        rw [if_pos (by exact_mod_cast inner)] at accepted
        cases proof with
        | nil => simp at accepted
        | cons sibling rest =>
            obtain ⟨older_eq, newer_eq, before⟩ := ih (node / 2) half_lt
              (last / 2) (level + 1) rest _ _ node_half last_half
              (growth.binds.length_eq _) accepted
            have newer_right : (2 * (node / 2) + 1) * 2 ^ level < newer.length := by
              rw [node_even]
              have := Nat.mul_le_mul_right (2 ^ level) (Nat.succ_le_of_lt inner)
              rw [Nat.succ_eq_add_one] at this
              omega
            have sr_eq := (children_of_blockRoot growth.binds growth.newerInputs
              growth.newerLengths newer_right newer_eq (Or.inl length)).1
            rw [blockRoot_succ_of_no_right hash older level _ older_none, node_even] at older_eq
            rw [node_even] at sr_eq
            rw [aligned, node_even] at before
            exact ⟨older_eq, sr_eq, before⟩
      · -- Neither tree has a right sibling: the node is promoted.
        rw [if_neg (by exact_mod_cast inner)] at accepted
        have same : node = last := by omega
        obtain ⟨older_eq, newer_eq, before⟩ := ih (node / 2) half_lt
          (last / 2) (level + 1) proof fr sr node_half last_half length accepted
        have newer_none : newer.length ≤ (2 * (node / 2) + 1) * 2 ^ level := by
          rw [node_even, same]
          exact last_end
        rw [blockRoot_succ_of_no_right hash older level _ older_none, node_even] at older_eq
        rw [blockRoot_succ_of_no_right hash newer level _ newer_none, node_even] at newer_eq
        rw [aligned, node_even] at before
        exact ⟨older_eq, newer_eq, before⟩

end Growth

theorem decrement_natCast (size : Nat) (nonempty : 1 ≤ size) :
    decrement (size : Int) = ((size - 1 : Nat) : Int) := by
  unfold decrement
  rw [if_neg (by omega)]
  omega

/-- The loop that strips trailing ones stops at the largest full subtree at
the right edge of the older tree. -/
theorem stripOnes_spec (node last : Nat) :
    ∃ level, stripOnes node last = (((node / 2 ^ level : Nat) : Int),
      ((last / 2 ^ level : Nat) : Int)) ∧
      node / 2 ^ level % 2 = 0 ∧
      (node / 2 ^ level + 1) * 2 ^ level = node + 1 := by
  induction node using Nat.strong_induction_on generalizing last with
  | _ node ih =>
  rw [stripOnes]
  simp only [tdiv_two, tmod_two]
  by_cases odd : node % 2 = 1
  · rw [if_pos (by exact_mod_cast odd)]
    obtain ⟨level, stripped, even, full⟩ := ih (node / 2) (by omega) (last / 2)
    refine ⟨level + 1, ?_, ?_, ?_⟩
    · rw [stripped, Nat.pow_succ, Nat.mul_comm (2 ^ level), ← Nat.div_div_eq_div_mul,
        ← Nat.div_div_eq_div_mul]
    · rw [Nat.pow_succ, Nat.mul_comm (2 ^ level), ← Nat.div_div_eq_div_mul]
      exact even
    · rw [Nat.pow_succ, Nat.mul_comm (2 ^ level), ← Nat.div_div_eq_div_mul,
        Nat.mul_comm 2, ← Nat.mul_assoc, full]
      omega
  · rw [if_neg (by exact_mod_cast odd)]
    exact ⟨0, by simp, by simpa using odd, by simp⟩

namespace Growth

variable {hash}
variable {older newer : List Bytes}
variable {inputs : Set Bytes}

/-- An accepted proof for a strictly smaller tree shows that it is the start
of the larger one. -/
theorem verifyConsistency_sound (growth : Growth hash older newer inputs) {proof : List Bytes}
    (accepted : verifyConsistency hash older.length newer.length proof
      (merkleRoot hash older) (merkleRoot hash newer) = true) :
    older = newer.take older.length := by
  have nonempty := growth.nonempty
  have shorter := growth.shorter
  obtain ⟨level, stripped, even, full⟩ := stripOnes_spec (older.length - 1) (newer.length - 1)
  have positive := Nat.two_pow_pos level
  rw [verifyConsistency, if_neg (by omega), if_neg (by omega)] at accepted
  rw [decrement_natCast older.length nonempty, decrement_natCast newer.length (by omega),
    stripped] at accepted
  rw [Nat.sub_add_cancel nonempty] at full
  simp only at accepted
  generalize node_eq : (older.length - 1) / 2 ^ level = node at *
  generalize last_eq : (newer.length - 1) / 2 ^ level = last at *
  -- The node of the older tree is full, so it is enough to compare its digests.
  suffices agreed : older.take (node * 2 ^ level) = newer.take (node * 2 ^ level) ∧
      blockRoot hash older level node = blockRoot hash newer level node by
    have whole := growth.take_succ_eq (by omega) agreed.1 agreed.2
    rwa [full, List.take_length] at whole
  by_cases inner : 0 < node
  · rw [if_pos (by exact_mod_cast inner)] at accepted
    cases proof with
    | nil => simp at accepted
    | cons first rest =>
        simp only at accepted
        -- A leaf beyond the full node exists, so the node has a right sibling.
        have node_lt_last : node < last := by
          have : (node + 1) * 2 ^ level ≤ newer.length - 1 := by omega
          have := Nat.div_le_div_right (c := 2 ^ level) this
          rw [Nat.mul_div_cancel _ positive, last_eq] at this
          omega
        rw [climb.eq_def, if_pos (by exact_mod_cast inner), tmod_two,
          if_neg (by rw [even]; decide), if_pos (by exact_mod_cast node_lt_last)] at accepted
        have node_even : 2 * (node / 2) = node := by omega
        cases rest with
        | nil => simp at accepted
        | cons sibling rest =>
            obtain ⟨older_eq, newer_eq, before⟩ := growth.climb_sound (node / 2) (last / 2)
              (level + 1) rest first (nodeHash hash first sibling)
              (by rw [← node_eq, Nat.pow_succ, Nat.div_div_eq_div_mul])
              (by rw [← last_eq, Nat.pow_succ, Nat.div_div_eq_div_mul])
              (growth.binds.length_eq _) accepted
            rw [blockRoot_succ_of_no_right hash older level _ (by rw [node_even, full]),
              node_even] at older_eq
            have newer_right : (2 * (node / 2) + 1) * 2 ^ level < newer.length := by
              rw [node_even, full]
              exact shorter
            have first_eq := (children_of_blockRoot growth.binds growth.newerInputs
              growth.newerLengths newer_right newer_eq (Or.inl (by
              rw [older_eq]
              exact length_blockRoot growth.binds growth.olderLengths _ _))).1
            rw [node_even] at first_eq
            rw [Nat.pow_succ, Nat.mul_comm (2 ^ level), ← Nat.mul_assoc, Nat.mul_comm _ 2,
              node_even] at before
            exact ⟨before, older_eq.symm.trans first_eq⟩
  · rw [if_neg (by exact_mod_cast inner)] at accepted
    obtain ⟨older_eq, newer_eq, before⟩ := growth.climb_sound node last level proof
      (merkleRoot hash older) (merkleRoot hash older) node_eq.symm last_eq.symm
      (length_merkleRoot hash growth.binds.length_eq older growth.olderLengths) accepted
    exact ⟨before, older_eq.symm.trans newer_eq⟩

end Growth

theorem eq_take_of_accepted {hash : Bytes → Bytes} {older newer : List Bytes} {inputs : Set Bytes}
    (binds : Hash.Binds hash inputs) (olderInputs : ∀ text ∈ merkleInputs hash older, text ∈ inputs)
    (newerInputs : ∀ text ∈ merkleInputs hash newer, text ∈ inputs)
    (olderLengths : ∀ leaf ∈ older, leaf.length = 32)
    (newerLengths : ∀ leaf ∈ newer, leaf.length = 32) (nonempty : 1 ≤ older.length)
    (fits : older.length ≤ newer.length) {proof : List Bytes}
    (accepted : verifyConsistency hash older.length newer.length proof
      (merkleRoot hash older) (merkleRoot hash newer) = true) :
    older = newer.take older.length := by
  rcases Nat.eq_or_lt_of_le fits with same | shorter
  · rw [verifyConsistency, if_neg (by omega), if_pos (by omega)] at accepted
    simp only [Bool.and_eq_true, beq_iff_eq] at accepted
    have equal := eq_of_merkleRoot_eq binds older newer same
      (List.ne_nil_of_length_pos nonempty) olderLengths newerLengths newerInputs accepted.2
    rw [← equal, List.take_length]
  · have growth : Growth hash older newer inputs :=
      { binds := binds
        olderInputs := olderInputs
        newerInputs := newerInputs
        olderLengths := olderLengths
        newerLengths := newerLengths
        nonempty := nonempty
        shorter := shorter }
    exact growth.verifyConsistency_sound accepted

/-- Consistency proofs are sound: a proof that `VerifyConsistency` accepts for
the roots of two trees shows that the smaller tree is the start of the larger
one. -/
theorem eq_take_of_verifyConsistency
    (hash : Bytes → Bytes)
    (older newer : List Bytes)
    (olderLengths : ∀ leaf ∈ older, leaf.length = 32)
    (newerLengths : ∀ leaf ∈ newer, leaf.length = 32)
    (binds : Hash.Binds hash
      {text | text ∈ merkleInputs hash older ∨ text ∈ merkleInputs hash newer})
    (nonempty : 1 ≤ older.length)
    (fits : older.length ≤ newer.length)
    (proof : List Bytes)
    (accepted : verifyConsistency hash older.length newer.length proof
      (merkleRoot hash older) (merkleRoot hash newer) = true) :
    older = newer.take older.length :=
  eq_take_of_accepted binds (fun _ member => Or.inl member) (fun _ member => Or.inr member)
    olderLengths newerLengths nonempty fits accepted

/-- The strings hashed for a log of the entries `[1]` and `[2]`. -/
def twoEntryInputs : List Bytes :=
  [[0x00, 1], [0x00, 2], nodeInput (Hash.digestOf 0) (Hash.digestOf 1)]

/-- The proof that the log of one entry is the start of the log of two. -/
theorem eq_take_of_verifyConsistency_one_two :
    let hash := Hash.numbering twoEntryInputs
    [leafHash hash [1]] = [leafHash hash [1], leafHash hash [2]].take 1 := by
  intro hash
  have first : leafHash hash [1] = Hash.digestOf 0 := by decide
  have second : leafHash hash [2] = Hash.digestOf 1 := by decide
  have pair := merkleRoot_pair hash (leafHash hash [1]) (leafHash hash [2])
  refine eq_take_of_verifyConsistency hash [leafHash hash [1]]
    [leafHash hash [1], leafHash hash [2]] (by decide) (by decide) ?_
    (by decide) (by decide) [leafHash hash [2]] ?_
  · refine (Hash.numbering_binds twoEntryInputs (by decide)).mono ?_
    rintro text (member | member)
    · rw [merkleInputs] at member
      exact absurd member List.not_mem_nil
    · rw [pair.2, first, second] at member
      rw [List.eq_of_mem_singleton member]
      decide
  · rw [pair.1, merkleRoot]
    simp [verifyConsistency, decrement, stripOnes, climb, climbRight]

end Trstctl.Translog
