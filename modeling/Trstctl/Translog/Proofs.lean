import Trstctl.Translog.Consistency

/-!
# The proofs the log hands out

`inclusionProof`, `consistencyProof` (`internal/translog/merkle.go`) and the
fixed tree of `internal/translog/tree.go` that serves them.  The provers descend
from the root and split at powers of two; the verifier climbs from a node to the
root.  Both are compared with `siblings`, the digests beside the way from one
node up to the root.
-/

namespace Trstctl.Translog

open Go (Bytes)

variable (hash : Bytes → Bytes)

/-- `inclusionProof`: the audit path of the leaf at index `m`, deepest sibling
first. -/
def inclusionProof (leafHashes : List Bytes) (m : Nat) : List Bytes :=
  if leafHashes.length ≤ 1 then []
  else
    let k := largestPowerOfTwoLessThan leafHashes.length
    if m < k then
      inclusionProof (leafHashes.take k) m ++ [merkleRoot hash (leafHashes.drop k)]
    else
      inclusionProof (leafHashes.drop k) (m - k) ++ [merkleRoot hash (leafHashes.take k)]
termination_by leafHashes.length
decreasing_by
  all_goals
    have bounds := largestPowerOfTwoLessThan_bounds leafHashes.length (by omega)
    simp only [List.length_take, List.length_drop]
    omega

/-- `subProof`.  Sizes from one to the number of leaves are asked for, and the
recursive calls keep that range, so that fewer than two leaves come with
`m = n`. -/
def subProof (m : Nat) (leafHashes : List Bytes) (b : Bool) : List Bytes :=
  if m = leafHashes.length then
    if b then [] else [merkleRoot hash leafHashes]
  else if leafHashes.length ≤ 1 then []
  else
    let k := largestPowerOfTwoLessThan leafHashes.length
    if m ≤ k then
      subProof m (leafHashes.take k) b ++ [merkleRoot hash (leafHashes.drop k)]
    else
      subProof (m - k) (leafHashes.drop k) false ++ [merkleRoot hash (leafHashes.take k)]
termination_by leafHashes.length
decreasing_by
  all_goals
    have bounds := largestPowerOfTwoLessThan_bounds leafHashes.length (by omega)
    simp only [List.length_take, List.length_drop]
    omega

/-- `consistencyProof`: the proof that the tree extends its first `m` leaves. -/
def consistencyProof (leafHashes : List Bytes) (m : Nat) : List Bytes :=
  subProof hash m leafHashes true

/-- A tree, by the hashes of its leaves. -/
structure Tree where
  leafHashes : List Bytes

/-- `NewTree`: the tree over entries, in order. -/
def newTree (entries : List Bytes) : Tree :=
  { leafHashes := entries.map (leafHash hash) }

namespace Tree

def root (tree : Tree) : Bytes :=
  merkleRoot hash tree.leafHashes

end Tree

theorem block_append_left {left right : List Bytes} {level index : Nat}
    (inside : (index + 1) * 2 ^ level ≤ left.length) :
    block (left ++ right) level index = block left level index := by
  have positive := Nat.two_pow_pos level
  rw [Nat.add_mul, Nat.one_mul] at inside
  unfold block
  rw [List.drop_append_of_le_length (by omega),
    List.take_append_of_le_length (by rw [List.length_drop]; omega)]

theorem block_append_right {left right : List Bytes} {level index height : Nat}
    (full : left.length = 2 ^ (level + height)) :
    block (left ++ right) level (2 ^ height + index) = block right level index := by
  have start : (2 ^ height + index) * 2 ^ level = left.length + index * 2 ^ level := by
    rw [full, Nat.add_mul, Nat.pow_add, Nat.mul_comm (2 ^ level)]
  unfold block
  rw [start, ← List.drop_drop, List.drop_left]

/-- The sibling the climb reads at one level, if the node has one. -/
def sibling (leaves : List Bytes) (level node last : Nat) : List Bytes :=
  if node % 2 = 1 then [blockRoot hash leaves level (node - 1)]
  else if node < last then [blockRoot hash leaves level (node + 1)]
  else []

/-- The siblings on the way from a node of `level` up to the root, in a tree
whose last node at that level is `last`. -/
def siblings (leaves : List Bytes) (level node last : Nat) : List Bytes :=
  if last = 0 then []
  else sibling hash leaves level node last ++ siblings leaves (level + 1) (node / 2) (last / 2)
termination_by last

variable (leaves : List Bytes)

theorem siblings_succ (level node last : Nat) (inside : node ≤ last) :
    siblings hash leaves level node last =
      sibling hash leaves level node last ++
        siblings hash leaves (level + 1) (node / 2) (last / 2) := by
  rw [siblings]
  by_cases top : last = 0
  · have bottom : node = 0 := by omega
    subst top bottom
    rw [if_pos rfl, siblings, if_pos rfl]
    rfl
  · rw [if_neg top]

theorem siblings_root (level node : Nat) :
    siblings hash leaves level node 0 = [] := by
  rw [siblings, if_pos rfl]

/-- The way up from a node of a full left part ends beside the right part. -/
theorem siblings_append_left (left right : List Bytes) (fits : right.length ≤ left.length) :
    ∀ (height level node rightLast : Nat),
      left.length = 2 ^ (level + height) →
      rightLast < 2 ^ height →
      node < 2 ^ height →
      siblings hash (left ++ right) level node (2 ^ height + rightLast) =
        siblings hash left level node (2 ^ height - 1) ++ [merkleRoot hash right] := by
  intro height
  induction height with
  | zero =>
      intro level node rightLast full lastBound nodeBound
      have node_eq : node = 0 := by omega
      have last_eq : rightLast = 0 := by omega
      subst node_eq last_eq
      have beside : blockRoot hash (left ++ right) level 1 = merkleRoot hash right := by
        unfold blockRoot
        rw [show (1 : Nat) = 2 ^ 0 + 0 from rfl, block_append_right full,
          block_zero (by rw [full] at fits; exact fits)]
      rw [siblings_succ hash _ _ _ _ (by omega), sibling, if_neg (by omega), if_pos (by omega),
        beside, show (2 ^ 0 + 0) / 2 = 0 from rfl, show 2 ^ 0 - 1 = 0 from rfl, siblings_root,
        siblings_root]
      rfl
  | succ height ih =>
      intro level node rightLast full lastBound nodeBound
      have doubled : 2 ^ (height + 1) = 2 * 2 ^ height := by rw [Nat.pow_succ, Nat.mul_comm]
      have positive := Nat.two_pow_pos height
      have same : sibling hash (left ++ right) level node (2 ^ (height + 1) + rightLast) =
          sibling hash left level node (2 ^ (height + 1) - 1) := by
        have inside : ∀ index, index < 2 ^ (height + 1) →
            blockRoot hash (left ++ right) level index = blockRoot hash left level index := by
          intro index bound
          unfold blockRoot
          rw [block_append_left]
          rw [full, Nat.pow_add, Nat.mul_comm (2 ^ level)]
          exact Nat.mul_le_mul_right _ bound
        unfold sibling
        by_cases odd : node % 2 = 1
        · rw [if_pos odd, if_pos odd, inside _ (by omega)]
        · rw [if_neg odd, if_neg odd, if_pos (by omega), if_pos (by omega), inside _ (by omega)]
      rw [siblings_succ hash (left ++ right) _ _ _ (by omega),
        siblings_succ hash left _ _ _ (by omega), same,
        show (2 ^ (height + 1) + rightLast) / 2 = 2 ^ height + rightLast / 2 by omega,
        show (2 ^ (height + 1) - 1) / 2 = 2 ^ height - 1 by omega,
        ih (level + 1) (node / 2) (rightLast / 2)
          (by rw [full]; congr 1; omega) (by omega) (by omega),
        List.append_assoc]

/-- The way up from a node of the right part ends beside the full left part. -/
theorem siblings_append_right (left right : List Bytes) :
    ∀ (height level node rightLast : Nat),
      left.length = 2 ^ (level + height) →
      rightLast < 2 ^ height →
      node ≤ rightLast →
      siblings hash (left ++ right) level (2 ^ height + node) (2 ^ height + rightLast) =
        siblings hash right level node rightLast ++ [merkleRoot hash left] := by
  intro height
  induction height with
  | zero =>
      intro level node rightLast full lastBound nodeBound
      have last_eq : rightLast = 0 := by omega
      have node_eq : node = 0 := by omega
      subst node_eq last_eq
      have beside : blockRoot hash (left ++ right) level 0 = merkleRoot hash left := by
        unfold blockRoot
        rw [Nat.add_zero] at full
        rw [block_append_left (by omega), block_zero (by omega)]
      rw [siblings_succ hash _ _ _ _ (by omega), sibling, if_pos (by omega),
        show 2 ^ 0 + 0 - 1 = 0 from rfl, beside, show (2 ^ 0 + 0) / 2 = 0 from rfl,
        siblings_root, siblings_root]
      rfl
  | succ height ih =>
      intro level node rightLast full lastBound nodeBound
      have doubled : 2 ^ (height + 1) = 2 * 2 ^ height := by rw [Nat.pow_succ, Nat.mul_comm]
      have same : sibling hash (left ++ right) level (2 ^ (height + 1) + node)
            (2 ^ (height + 1) + rightLast) =
          sibling hash right level node rightLast := by
        have behind : ∀ index,
            blockRoot hash (left ++ right) level (2 ^ (height + 1) + index) =
              blockRoot hash right level index := by
          intro index
          unfold blockRoot
          rw [block_append_right full]
        unfold sibling
        by_cases odd : node % 2 = 1
        · rw [if_pos (by omega), if_pos odd, Nat.add_sub_assoc (by omega), behind]
        · rw [if_neg (by omega), if_neg odd, Nat.add_assoc, behind]
          simp only [Nat.add_lt_add_iff_left]
      rw [siblings_succ hash (left ++ right) _ _ _ (by omega),
        siblings_succ hash right _ _ _ nodeBound, same,
        show (2 ^ (height + 1) + rightLast) / 2 = 2 ^ height + rightLast / 2 by omega,
        show (2 ^ (height + 1) + node) / 2 = 2 ^ height + node / 2 by omega,
        ih (level + 1) (node / 2) (rightLast / 2)
          (by rw [full]; congr 1; omega) (by omega) (by omega),
        List.append_assoc]

/-- A list longer than `2 ^ exponent` and at most twice that long, split where
the provers split it. -/
structure Split (leaves left right : List Bytes) (exponent : Nat) : Prop where
  parts : leaves = left ++ right
  full : left.length = 2 ^ exponent
  nonempty : 0 < right.length
  fits : right.length ≤ 2 ^ exponent

theorem exists_split (large : 2 ≤ leaves.length) :
    ∃ exponent, largestPowerOfTwoLessThan leaves.length = 2 ^ exponent ∧
      Split leaves (leaves.take (2 ^ exponent)) (leaves.drop (2 ^ exponent)) exponent := by
  obtain ⟨exponent, above, reached⟩ := exists_exponent leaves.length large
  rw [Nat.pow_succ] at reached
  exact ⟨exponent, largestPowerOfTwoLessThan_eq _ _ above (by rw [Nat.pow_succ]; exact reached),
    { parts := (List.take_append_drop _ leaves).symm
      full := by rw [List.length_take]; omega
      nonempty := by rw [List.length_drop]; omega
      fits := by rw [List.length_drop]; omega }⟩

namespace Split

variable {hash}
variable {leaves left right : List Bytes}
variable {exponent : Nat}
variable {height level : Nat}
variable (split : Split leaves left right exponent) (levels : level + height = exponent)

include split levels

theorem left_last :
    (left.length - 1) / 2 ^ level = 2 ^ height - 1 := by
  have positive := Nat.two_pow_pos level
  have more := Nat.two_pow_pos height
  have size : left.length = 2 ^ height * 2 ^ level := by
    rw [split.full, ← levels, Nat.pow_add, Nat.mul_comm]
  have shorter : (2 ^ height - 1) * 2 ^ level = left.length - 2 ^ level := by
    rw [Nat.sub_mul, Nat.one_mul, size]
  have enough : 1 * 2 ^ level ≤ 2 ^ height * 2 ^ level := Nat.mul_le_mul_right _ more
  apply Nat.div_eq_of_lt_le
  · omega
  · rw [Nat.sub_add_cancel more]
    omega

theorem last_eq :
    (leaves.length - 1) / 2 ^ level = 2 ^ height + (right.length - 1) / 2 ^ level := by
  have nonempty := split.nonempty
  have size : left.length = 2 ^ height * 2 ^ level := by
    rw [split.full, ← levels, Nat.pow_add, Nat.mul_comm]
  rw [split.parts, List.length_append, size, Nat.add_comm (2 ^ height * 2 ^ level),
    Nat.sub_add_comm nonempty, Nat.add_mul_div_right _ _ (Nat.two_pow_pos level), Nat.add_comm]

theorem right_last_lt :
    (right.length - 1) / 2 ^ level < 2 ^ height := by
  have nonempty := split.nonempty
  have fits := split.fits
  apply Nat.div_lt_of_lt_mul
  rw [← Nat.pow_add, levels]
  omega

theorem siblings_left {node : Nat} (inside : node < 2 ^ height) :
    siblings hash leaves level node ((leaves.length - 1) / 2 ^ level) =
      siblings hash left level node ((left.length - 1) / 2 ^ level) ++
        [merkleRoot hash right] := by
  rw [split.last_eq levels, split.left_last levels, split.parts]
  apply siblings_append_left hash left right (by rw [split.full]; exact split.fits)
  · rw [split.full, levels]
  · exact split.right_last_lt levels
  · exact inside

theorem siblings_right {node : Nat} (inside : node ≤ (right.length - 1) / 2 ^ level) :
    siblings hash leaves level (2 ^ height + node) ((leaves.length - 1) / 2 ^ level) =
      siblings hash right level node ((right.length - 1) / 2 ^ level) ++
        [merkleRoot hash left] := by
  rw [split.last_eq levels, split.parts]
  apply siblings_append_right hash left right
  · rw [split.full, levels]
  · exact split.right_last_lt levels
  · exact inside

end Split

/-- The digest the consistency proof starts from: none where the verifier
already holds it as the old root. -/
def startOfProof (leaves : List Bytes) (level node : Nat) (b : Bool) : List Bytes :=
  if node = 0 ∧ b = true then [] else [blockRoot hash leaves level node]

theorem subProof_full (level : Nat) (b : Bool) (full : leaves.length = 2 ^ level) :
    subProof hash leaves.length leaves b = startOfProof hash leaves level 0 b := by
  rw [subProof, if_pos rfl, startOfProof, blockRoot, block_zero (by omega)]
  cases b with
  | false => rfl
  | true => rfl

namespace Split

variable {hash}
variable {leaves left right : List Bytes}
variable {exponent : Nat}
variable (split : Split leaves left right exponent)

include split

theorem startOfProof_left {level node : Nat} (b : Bool)
    (inside : (node + 1) * 2 ^ level ≤ 2 ^ exponent) :
    startOfProof hash leaves level node b = startOfProof hash left level node b := by
  unfold startOfProof blockRoot
  rw [split.parts, block_append_left (by rw [split.full]; exact inside)]

theorem startOfProof_right {level height node : Nat}
    (b : Bool) (levels : level + height = exponent) :
    startOfProof hash leaves level (2 ^ height + node) b =
      startOfProof hash right level node false := by
  have positive := Nat.two_pow_pos height
  unfold startOfProof blockRoot
  rw [if_neg (by omega), if_neg (by simp), split.parts,
    block_append_right (by rw [split.full, levels])]

theorem exists_height {level node : Nat} (shorter : (node + 1) * 2 ^ level < leaves.length) :
    ∃ height, level + height = exponent := by
  have sizes := congrArg List.length split.parts
  have full := split.full
  have fits := split.fits
  have atLeast : 1 * 2 ^ level ≤ (node + 1) * 2 ^ level :=
    Nat.mul_le_mul_right _ (by omega)
  rw [List.length_append] at sizes
  have below : level < exponent + 1 := by
    rw [← Nat.pow_lt_pow_iff_right (show 1 < 2 by omega), Nat.pow_succ]
    omega
  exact ⟨exponent - level, by omega⟩

end Split

/-- The proof for the first `(node + 1) * 2 ^ level` leaves, the last of which
are the full node `node` of `level`, holds that node and its siblings. -/
theorem subProof_eq_siblings (level : Nat) (leaves : List Bytes) (node : Nat) (b : Bool)
    (even : node % 2 = 0) (shorter : (node + 1) * 2 ^ level < leaves.length) :
    subProof hash ((node + 1) * 2 ^ level) leaves b =
      startOfProof hash leaves level node b ++
        siblings hash leaves level node ((leaves.length - 1) / 2 ^ level) := by
  induction size : leaves.length using Nat.strong_induction_on generalizing leaves node b with
  | _ n ih =>
  have levelPositive := Nat.two_pow_pos level
  have atLeast : 1 * 2 ^ level ≤ (node + 1) * 2 ^ level :=
    Nat.mul_le_mul_right _ (by omega)
  obtain ⟨exponent, point, split⟩ := exists_split leaves (by omega)
  obtain ⟨height, levels⟩ := split.exists_height shorter
  have power : 2 ^ exponent = 2 ^ height * 2 ^ level := by
    rw [← levels, Nat.pow_add, Nat.mul_comm]
  have sizes := congrArg List.length split.parts
  have full := split.full
  have nonempty := split.nonempty
  have fits := split.fits
  have positive := Nat.two_pow_pos exponent
  rw [List.length_append] at sizes
  rw [subProof, if_neg (by omega), if_neg (by omega), ← size]
  simp only [point]
  generalize leaves.take (2 ^ exponent) = left at *
  generalize leaves.drop (2 ^ exponent) = right at *
  by_cases lower : (node + 1) * 2 ^ level ≤ 2 ^ exponent
  · have inside : node + 1 ≤ 2 ^ height := by
      rw [power] at lower
      exact Nat.le_of_mul_le_mul_right lower levelPositive
    rw [if_pos lower, split.siblings_left levels inside, split.startOfProof_left b lower,
      ← List.append_assoc]
    congr 1
    rcases Nat.eq_or_lt_of_le lower with whole | proper
    · -- An even number of nodes before it leaves room for the whole left part only.
      rw [power] at whole
      have count : node + 1 = 2 ^ height := Nat.eq_of_mul_eq_mul_right levelPositive whole
      have top : height = 0 := by
        rcases Nat.eq_zero_or_pos height with zero | more
        · exact zero
        · have := Nat.two_pow_mod_two_eq_zero.mpr more
          omega
      subst top
      have node_eq : node = 0 := by omega
      subst node_eq
      have size_left : (0 + 1) * 2 ^ level = left.length := by omega
      rw [split.left_last levels, show 2 ^ 0 - 1 = 0 from rfl, siblings_root, List.append_nil,
        size_left]
      exact subProof_full hash left level b (by omega)
    · exact ih left.length (by omega) left node b even (by omega) rfl
  · have beyond : 2 ^ height < node + 1 := by
      rw [power] at lower
      exact Nat.lt_of_mul_lt_mul_right (Nat.lt_of_not_le lower)
    obtain ⟨rest, node_eq⟩ := Nat.exists_eq_add_of_le (Nat.le_of_lt_succ beyond)
    subst node_eq
    have difference : (2 ^ height + rest + 1) * 2 ^ level - 2 ^ exponent =
        (rest + 1) * 2 ^ level := by
      rw [power, Nat.add_assoc, Nat.add_mul, Nat.add_sub_cancel_left]
    have restShorter : (rest + 1) * 2 ^ level < right.length := by omega
    have restEven : rest % 2 = 0 := by
      rcases Nat.eq_zero_or_pos height with zero | more
      · -- At the level of the split there is no room for a third node.
        subst zero
        rw [Nat.pow_zero, Nat.one_mul] at power
        rw [power] at fits
        have := Nat.mul_le_mul_right (2 ^ level) (show 1 ≤ rest + 1 by omega)
        omega
      · have := Nat.two_pow_mod_two_eq_zero.mpr more
        omega
    rw [if_neg lower, difference, split.startOfProof_right b levels,
      split.siblings_right levels, ← List.append_assoc,
      ih right.length (by omega) right rest false restEven restShorter rfl]
    rw [Nat.add_mul, Nat.one_mul] at restShorter
    rw [Nat.le_div_iff_mul_le levelPositive]
    omega

theorem blockRoot_take {newer : List Bytes} {m level index : Nat}
    (inside : (index + 1) * 2 ^ level ≤ m) (fits : m ≤ newer.length) :
    blockRoot hash (newer.take m) level index = blockRoot hash newer level index := by
  have parts : block (newer.take m ++ newer.drop m) level index =
      block (newer.take m) level index :=
    block_append_left (by rw [List.length_take]; omega)
  rw [List.take_append_drop] at parts
  unfold blockRoot
  rw [parts]

theorem climbRight_siblings (newer : List Bytes) (oldRoot : Bytes) :
    ∀ (last level : Nat),
      last = (newer.length - 1) / 2 ^ level →
      climbRight hash last (siblings hash newer level 0 last) oldRoot
        (blockRoot hash newer level 0) oldRoot (merkleRoot hash newer) = true := by
  intro last
  induction last using Nat.strong_induction_on with
  | _ last ih =>
  intro level last_eq
  rw [climbRight.eq_def]
  by_cases more : 0 < last
  · have exists_right : (2 * 0 + 1) * 2 ^ level < newer.length := by
      have := (last_bounds last_eq).1
      have : 1 * 2 ^ level ≤ last * 2 ^ level := Nat.mul_le_mul_right _ more
      have := Nat.two_pow_pos level
      omega
    rw [if_pos (by exact_mod_cast more), siblings_succ hash _ _ _ _ (by omega), sibling,
      if_neg (by omega), if_pos more]
    simp only [List.singleton_append, tdiv_two]
    rw [← (blockRoot_succ hash newer level 0 exists_right).1]
    exact ih (last / 2) (by omega) (level + 1)
      (by rw [last_eq, Nat.pow_succ, Nat.div_div_eq_div_mul])
  · have top : last = 0 := by omega
    subst top
    have covered : newer.length ≤ 2 ^ level := by
      have := (last_bounds last_eq).2
      omega
    rw [if_neg (by simp), siblings_root, blockRoot, block_zero covered]
    simp

/-- The loop over `node` accepts the siblings of the last node of a prefix. -/
theorem climb_siblings (newer : List Bytes) (m : Nat) (nonempty : 1 ≤ m) (fits : m ≤ newer.length) :
    ∀ (node last level : Nat),
      node = (m - 1) / 2 ^ level →
      last = (newer.length - 1) / 2 ^ level →
      climb hash node last (siblings hash newer level node last)
        (blockRoot hash (newer.take m) level node) (blockRoot hash newer level node)
        (merkleRoot hash (newer.take m)) (merkleRoot hash newer) = true := by
  intro node
  induction node using Nat.strong_induction_on with
  | _ node ih =>
  intro last level node_eq last_eq
  have size : (newer.take m).length = m := by rw [List.length_take]; omega
  have positive := Nat.two_pow_pos level
  obtain ⟨node_start, node_end⟩ := last_bounds node_eq
  obtain ⟨last_start, last_end⟩ := last_bounds last_eq
  have node_le_last : node ≤ last := by
    rw [node_eq, last_eq]
    exact Nat.div_le_div_right (by omega)
  rw [climb.eq_def]
  rcases Nat.eq_zero_or_pos node with finished | running
  · subst finished
    rw [if_neg (by simp), blockRoot, block_zero (by omega)]
    exact climbRight_siblings hash newer _ last level last_eq
  · have above := ih (node / 2) (by omega) (last / 2) (level + 1)
      (by rw [node_eq, Nat.pow_succ, Nat.div_div_eq_div_mul])
      (by rw [last_eq, Nat.pow_succ, Nat.div_div_eq_div_mul])
    rw [if_pos (by exact_mod_cast running), siblings_succ hash _ _ _ _ node_le_last, sibling]
    simp only [tdiv_two, tmod_two]
    by_cases odd : node % 2 = 1
    · -- The left sibling is full in the prefix, so it is a node of both trees.
      have node_odd : 2 * (node / 2) + 1 = node := by omega
      have left_eq : node - 1 = 2 * (node / 2) := by omega
      have shared : blockRoot hash (newer.take m) level (node - 1) =
          blockRoot hash newer level (node - 1) :=
        blockRoot_take hash (by rw [Nat.sub_add_cancel running]; omega) fits
      have older_parent := (blockRoot_succ hash (newer.take m) level (node / 2)
        (by rw [node_odd]; omega)).1
      have newer_parent := (blockRoot_succ hash newer level (node / 2)
        (by rw [node_odd]; omega)).1
      rw [node_odd, ← left_eq] at older_parent newer_parent
      rw [older_parent, newer_parent, shared] at above
      rw [if_pos (by exact_mod_cast odd), if_pos odd]
      exact above
    · have node_even : 2 * (node / 2) = node := by omega
      have older_parent := blockRoot_succ_of_no_right hash (newer.take m) level (node / 2)
        (by rw [node_even, size]; exact node_end)
      rw [node_even] at older_parent
      rw [if_neg (by exact_mod_cast odd), if_neg odd]
      by_cases inner : node < last
      · have newer_right : (node + 1) * 2 ^ level < newer.length := by
          have := Nat.mul_le_mul_right (2 ^ level) (Nat.succ_le_of_lt inner)
          rw [Nat.succ_eq_add_one] at this
          omega
        have newer_parent := (blockRoot_succ hash newer level (node / 2)
          (by rw [node_even]; exact newer_right)).1
        rw [node_even] at newer_parent
        rw [older_parent, newer_parent] at above
        rw [if_pos (by exact_mod_cast inner), if_pos inner]
        exact above
      · have newer_parent := blockRoot_succ_of_no_right hash newer level (node / 2)
          (by rw [node_even, show node = last by omega]; exact last_end)
        rw [node_even] at newer_parent
        rw [older_parent, newer_parent] at above
        rw [if_neg (by exact_mod_cast inner), if_neg inner, List.nil_append]
        exact above

/-- Consistency proofs are complete: `VerifyConsistency` accepts the proof the
log hands out for each of its earlier sizes. -/
theorem verifyConsistency_consistencyProof
    (hash : Bytes → Bytes)
    (leaves : List Bytes)
    (m : Nat)
    (nonempty : 1 ≤ m)
    (fits : m ≤ leaves.length) :
    verifyConsistency hash m leaves.length (consistencyProof hash leaves m)
      (merkleRoot hash (leaves.take m)) (merkleRoot hash leaves) = true := by
  rcases Nat.eq_or_lt_of_le fits with whole | shorter
  · subst whole
    rw [verifyConsistency, if_neg (by omega), if_pos rfl, consistencyProof, subProof, if_pos rfl,
      List.take_length]
    simp
  · obtain ⟨level, stripped, even, full⟩ := stripOnes_spec (m - 1) (leaves.length - 1)
    rw [Nat.sub_add_cancel nonempty] at full
    have proof_eq := subProof_eq_siblings hash level leaves ((m - 1) / 2 ^ level) true even
      (by rw [full]; exact shorter)
    have accepted := climb_siblings hash leaves m nonempty fits ((m - 1) / 2 ^ level)
      ((leaves.length - 1) / 2 ^ level) level rfl rfl
    have shared : blockRoot hash (leaves.take m) level ((m - 1) / 2 ^ level) =
        blockRoot hash leaves level ((m - 1) / 2 ^ level) :=
      blockRoot_take hash (by rw [full]) fits
    rw [full] at proof_eq
    rw [verifyConsistency, if_neg (by omega), if_neg (by omega),
      decrement_natCast m nonempty, decrement_natCast leaves.length (by omega), stripped,
      consistencyProof, proof_eq, startOfProof]
    simp only
    generalize (m - 1) / 2 ^ level = node at *
    rw [← shared] at accepted ⊢
    by_cases inner : 0 < node
    · rw [if_pos (by exact_mod_cast inner), if_neg (by omega)]
      exact accepted
    · have bottom : node = 0 := by omega
      subst bottom
      have older_eq : blockRoot hash (leaves.take m) level 0 = merkleRoot hash (leaves.take m) := by
        rw [blockRoot, block_zero (by rw [List.length_take]; omega)]
      rw [if_neg (by simp), if_pos (by simp), List.nil_append]
      rw [older_eq] at accepted
      exact accepted

/-- The proof that a log of three entries extends its first two. -/
theorem verifyConsistency_consistencyProof_two_three :
    let hash := Hash.numbering twoEntryInputs
    let leaves := [leafHash hash [1], leafHash hash [2], leafHash hash [1]]
    verifyConsistency hash 2 3 (consistencyProof hash leaves 2)
      (merkleRoot hash (leaves.take 2)) (merkleRoot hash leaves) = true := by
  intro hash leaves
  exact verifyConsistency_consistencyProof hash leaves 2 (by decide) (by decide)

end Trstctl.Translog
