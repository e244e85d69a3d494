import Trstctl.Library.HashTree
import Trstctl.Library.Result
import Trstctl.Translog.Membership

/-!
# The two inclusion verifiers

`VerifyInclusion` of `internal/crypto/ctlog/merkle.go` walks up a Certificate
Transparency log by shifting the index of the leaf and of the last leaf; that of
`internal/translog/merkle.go` splits the tree at powers of two.  Both read off the
index and the size on which side each sibling stands, and these sides are the
same.
-/

namespace Trstctl.Ctlog

open Go (Bytes)

variable (hash : Bytes → Bytes)

def merkleLeafHash (leaf : Bytes) : Bytes :=
  hash ([0] ++ leaf)

def merkleNodeHash (left right : Bytes) : Bytes :=
  hash ([1] ++ left ++ right)

/-- The errors of `VerifyInclusion`. -/
inductive InclusionError where
  | indexOutside
  | longerThanTree
  | notSignedRoot
deriving DecidableEq

/-- The loop `for fn&1 == 0 && fn != 0`. -/
def stripZeros (fn sn : Nat) : Nat × Nat :=
  if fn % 2 = 0 ∧ fn ≠ 0 then stripZeros (fn / 2) (sn / 2) else (fn, sn)
termination_by fn

/-- The loop over the audit path, and the comparison after it. -/
def walkUp (rootHash : Bytes) (fn sn : Nat) (r : Bytes) : List Bytes → Except InclusionError Unit
  | [] => if sn ≠ 0 ∨ r ≠ rootHash then .error .notSignedRoot else .ok ()
  | p :: auditPath =>
      if sn = 0 then .error .longerThanTree
      else if fn % 2 = 1 ∨ fn = sn then
        let stripped := if fn % 2 = 0 then stripZeros fn sn else (fn, sn)
        walkUp rootHash (stripped.1 / 2) (stripped.2 / 2) (merkleNodeHash hash p r) auditPath
      else walkUp rootHash (fn / 2) (sn / 2) (merkleNodeHash hash r p) auditPath

def verifyInclusion (leafHash : Bytes) (index treeSize : UInt64) (auditPath : List Bytes)
    (rootHash : Bytes) : Except InclusionError Unit :=
  if index ≥ treeSize then .error .indexOutside
  else walkUp hash rootHash index.toNat (treeSize.toNat - 1) leafHash auditPath

/-- On which sides the siblings stand on the way up from a node, in a tree with the
given last node: at the left (`true`) of an odd one, at the right of an even one,
and nowhere beside an even last one. -/
def sides (node last : Nat) : List Bool :=
  if last = 0 then []
  else if node % 2 = 1 then true :: sides (node / 2) (last / 2)
  else if node = last then sides (node / 2) (last / 2)
  else false :: sides (node / 2) (last / 2)
termination_by last

@[simp] theorem sides_zero (node : Nat) : sides node 0 = [] := by
  rw [sides, if_pos rfl]

theorem sides_ne_nil {node last : Nat} (inside : node ≤ last) (below : last ≠ 0) :
    sides node last ≠ [] := by
  induction last using Nat.strongRecOn generalizing node with
  | ind last ih =>
      rw [sides, if_neg below]
      split_ifs with odd edge
      · exact List.cons_ne_nil _ _
      · exact ih (last / 2) (by omega) (by omega) (by omega)
      · exact List.cons_ne_nil _ _

theorem sides_stripZeros {node : Nat} (below : node ≠ 0) :
    (stripZeros node node).1 = (stripZeros node node).2 ∧
      sides node node =
        true :: sides ((stripZeros node node).1 / 2) ((stripZeros node node).2 / 2) := by
  induction node using Nat.strongRecOn with
  | ind node ih =>
      rw [stripZeros]
      by_cases even : node % 2 = 0
      · rw [if_pos ⟨even, below⟩]
        have upper := ih (node / 2) (by omega) (by omega)
        refine ⟨upper.1, ?_⟩
        rw [sides, if_neg below, if_neg (by omega), if_pos rfl]
        exact upper.2
      · rw [if_neg (fun condition => even condition.1)]
        refine ⟨rfl, ?_⟩
        rw [sides, if_neg below, if_pos (by omega)]

/-- The walk accepts a path with a hash for each side that combines to the root. -/
theorem walkUp_eq_ok_iff (rootHash : Bytes) (auditPath : List Bytes) {fn sn : Nat} (r : Bytes)
    (inside : fn ≤ sn) :
    walkUp hash rootHash fn sn r auditPath = .ok () ↔
      auditPath.length = (sides fn sn).length ∧
        HashTree.climb hash [1] r (auditPath.zip (sides fn sn)) = rootHash := by
  induction auditPath generalizing fn sn r with
  | nil =>
      by_cases top : sn = 0
      · subst top
        by_cases same : r = rootHash <;> simp [walkUp, HashTree.climb, same]
      · have longer := List.length_pos_iff.mpr (sides_ne_nil inside top)
        rw [walkUp, if_pos (.inl top)]
        constructor
        · nofun
        · rintro ⟨lengths, -⟩
          rw [List.length_nil] at lengths
          omega
  | cons p auditPath ih =>
      by_cases top : sn = 0
      · subst top
        simp [walkUp]
      · rw [walkUp, if_neg top]
        by_cases odd : fn % 2 = 1
        · rw [if_pos (.inl odd), sides, if_neg top, if_pos odd]
          simp only [if_neg (show ¬fn % 2 = 0 by omega)]
          rw [ih _ (by omega)]
          simp only [List.length_cons, Nat.succ_inj, List.zip_cons_cons, HashTree.climb]
          exact Iff.rfl
        · by_cases edge : fn = sn
          · subst edge
            obtain ⟨same, skipped⟩ := sides_stripZeros top
            rw [if_pos (.inr rfl), skipped]
            simp only [if_pos (show fn % 2 = 0 by omega)]
            rw [ih _ (by rw [same])]
            simp only [List.length_cons, Nat.succ_inj, List.zip_cons_cons, HashTree.climb]
            exact Iff.rfl
          · rw [if_neg (by omega), sides, if_neg top, if_neg odd, if_neg edge,
              ih _ (by omega)]
            simp only [List.length_cons, Nat.succ_inj, List.zip_cons_cons, HashTree.climb]
            exact Iff.rfl

/-- Inside the left part the way up is that of a full tree, and then beside the
right part. -/
theorem sides_left (exponent : Nat) {node last : Nat} (inside : node < 2 ^ exponent)
    (above : 2 ^ exponent ≤ last) (below : last < 2 ^ (exponent + 1)) :
    sides node last = sides node (2 ^ exponent - 1) ++ [false] := by
  induction exponent generalizing node last with
  | zero =>
      obtain rfl : node = 0 := by omega
      obtain rfl : last = 1 := by omega
      simp [sides]
  | succ exponent ih =>
      have positive := Nat.two_pow_pos exponent
      simp only [Nat.pow_succ] at inside above below
      have upper := @ih (node / 2) (last / 2) (by omega) (by omega)
        (by rw [Nat.pow_succ]; omega)
      have half : (2 ^ (exponent + 1) - 1) / 2 = 2 ^ exponent - 1 := by
        rw [Nat.pow_succ]
        omega
      have lastBelow : last ≠ 0 := by omega
      have fullBelow : 2 ^ (exponent + 1) - 1 ≠ 0 := by
        rw [Nat.pow_succ]
        omega
      rw [sides.eq_def node last, sides.eq_def node (2 ^ (exponent + 1) - 1), if_neg lastBelow,
        if_neg fullBelow, half]
      by_cases odd : node % 2 = 1
      · rw [if_pos odd, if_pos odd, upper, List.cons_append]
      · have within : node ≠ last := by omega
        have fullWithin : node ≠ 2 ^ (exponent + 1) - 1 := by
          rw [Nat.pow_succ]
          omega
        rw [if_neg odd, if_neg odd, if_neg within, if_neg fullWithin, upper, List.cons_append]

/-- Inside the right part the way up is that in the part, and then beside the left
part. -/
theorem sides_right (exponent : Nat) {node last : Nat} (inside : node ≤ last)
    (below : last < 2 ^ exponent) :
    sides (2 ^ exponent + node) (2 ^ exponent + last) = sides node last ++ [true] := by
  induction exponent generalizing node last with
  | zero =>
      obtain rfl : last = 0 := by omega
      obtain rfl : node = 0 := by omega
      simp [sides]
  | succ exponent ih =>
      have positive := Nat.two_pow_pos exponent
      rw [Nat.pow_succ] at below
      have upper := @ih (node / 2) (last / 2) (by omega) (by omega)
      have nodeHalf : (2 ^ (exponent + 1) + node) / 2 = 2 ^ exponent + node / 2 := by
        rw [Nat.pow_succ]
        omega
      have lastHalf : (2 ^ (exponent + 1) + last) / 2 = 2 ^ exponent + last / 2 := by
        rw [Nat.pow_succ]
        omega
      have parity : (2 ^ (exponent + 1) + node) % 2 = node % 2 := by
        rw [Nat.pow_succ]
        omega
      rw [sides, if_neg (by rw [Nat.pow_succ]; omega), nodeHalf, lastHalf, parity, upper]
      by_cases top : last = 0
      · obtain rfl : node = 0 := by omega
        subst top
        simp
      · rw [sides.eq_def node last, if_neg top]
        by_cases odd : node % 2 = 1
        · rw [if_pos odd, if_pos odd, List.cons_append]
        · rw [if_neg odd, if_neg odd]
          by_cases edge : node = last
          · rw [if_pos (by omega), if_pos edge]
          · rw [if_neg (by omega), if_neg edge, List.cons_append]

theorem climb_concat_iff {leaf root : Bytes} {proof rest : List Bytes} (inner : List Bool)
    (side : Bool) :
    (∃ used, proof = used ++ rest ∧ used.length = (inner ++ [side]).length ∧
        HashTree.climb hash [1] leaf (used.zip (inner ++ [side])) = root) ↔
      ∃ subtree sibling,
        (∃ used, proof = used ++ sibling :: rest ∧ used.length = inner.length ∧
          HashTree.climb hash [1] leaf (used.zip inner) = subtree) ∧
        hash (if side then HashTree.nodeInput [1] sibling subtree
          else HashTree.nodeInput [1] subtree sibling) = root := by
  constructor
  · rintro ⟨used, split, lengths, climbed⟩
    rw [List.length_append, List.length_singleton] at lengths
    have proper : used ≠ [] := by
      rintro rfl
      cases lengths
    obtain ⟨front, sibling, rfl⟩ : ∃ front sibling, used = front ++ [sibling] :=
      ⟨_, _, (List.dropLast_append_getLast proper).symm⟩
    rw [List.length_append, List.length_singleton, Nat.add_right_cancel_iff] at lengths
    rw [List.zip_append lengths, List.zip_cons_cons, List.zip_nil_right,
      HashTree.climb_concat] at climbed
    refine ⟨_, sibling, ⟨front, ?_, lengths, rfl⟩, climbed⟩
    rw [split, List.append_assoc, List.singleton_append]
  · rintro ⟨subtree, sibling, ⟨used, split, lengths, climbed⟩, combined⟩
    refine ⟨used ++ [sibling], ?_, ?_, ?_⟩
    · rw [split, List.append_assoc, List.singleton_append]
    · rw [List.length_append, List.length_append, lengths, List.length_singleton,
        List.length_singleton]
    · rw [List.zip_append lengths, List.zip_cons_cons, List.zip_nil_right, HashTree.climb_concat,
        climbed]
      exact combined

/-- The recomputation of the other log reads a hash for each side as well. -/
theorem rootFromInclusion_eq_some_iff {leaf root : Bytes} {m n : Nat} {proof rest : List Bytes}
    (inside : m < n) :
    Translog.rootFromInclusion hash leaf m n proof = some (root, rest) ↔
      ∃ used, proof = used ++ rest ∧ used.length = (sides m (n - 1)).length ∧
        HashTree.climb hash [1] leaf (used.zip (sides m (n - 1))) = root := by
  induction n using Nat.strongRecOn generalizing m root rest with
  | ind n ih =>
      by_cases small : n ≤ 1
      · obtain rfl : n = 1 := by omega
        obtain rfl : m = 0 := by omega
        rw [Translog.rootFromInclusion, if_pos small]
        simp only [Option.some.injEq, Prod.mk.injEq, Nat.sub_self, sides_zero, List.length_nil,
          List.length_eq_zero_iff, List.zip_nil_right, HashTree.climb]
        constructor
        · rintro ⟨sameLeaf, sameRest⟩
          exact ⟨[], sameRest, rfl, sameLeaf⟩
        · rintro ⟨used, split, empty, sameLeaf⟩
          rw [split, empty, List.nil_append]
          exact ⟨sameLeaf, rfl⟩
      · obtain ⟨exponent, above, reached⟩ := Translog.exists_exponent n (by omega)
        have point := Translog.largestPowerOfTwoLessThan_eq n exponent above reached
        have positive := Nat.two_pow_pos exponent
        by_cases lower : m < 2 ^ exponent
        · rw [Translog.rootFromInclusion_eq_some_left (by omega) point lower,
            sides_left exponent lower (by omega) (by omega), climb_concat_iff]
          simp only [ih (2 ^ exponent) above lower]
          exact Iff.rfl
        · have right : sides m (n - 1) =
              sides (m - 2 ^ exponent) (n - 2 ^ exponent - 1) ++ [true] := by
            have split := sides_right exponent
              (show m - 2 ^ exponent ≤ n - 2 ^ exponent - 1 by omega)
              (by rw [Nat.pow_succ] at reached; omega)
            rw [← split]
            congr 1 <;> omega
          rw [Translog.rootFromInclusion_eq_some_right (by omega) point lower, right,
            climb_concat_iff]
          simp only [ih (n - 2 ^ exponent) (by omega)
            (show m - 2 ^ exponent < n - 2 ^ exponent by omega)]
          exact Iff.rfl

/-- Both verifiers accept the same proofs. -/
theorem verifyInclusion_iff_translog
    (leaf root : Bytes)
    (m n : Nat)
    (proof : List Bytes)
    (inside : m < n)
    (bounded : n ≤ 2 ^ 62) :
    verifyInclusion hash (merkleLeafHash hash leaf) (UInt64.ofNat m) (UInt64.ofNat n) proof root =
        .ok () ↔
      Translog.verifyInclusion hash leaf m n proof root = true := by
  have index : (UInt64.ofNat m).toNat = m := by
    rw [UInt64.toNat_ofNat']
    omega
  have size : (UInt64.ofNat n).toNat = n := by
    rw [UInt64.toNat_ofNat']
    omega
  have within : ¬UInt64.ofNat m ≥ UInt64.ofNat n := by
    rw [ge_iff_le, UInt64.le_iff_toNat_le, index, size]
    omega
  rw [verifyInclusion, if_neg within, index, size,
    walkUp_eq_ok_iff hash root proof _ (by omega), Translog.verifyInclusion, if_neg (by omega),
    if_neg (by omega), beq_iff_eq, Int.toNat_natCast, Int.toNat_natCast,
    rootFromInclusion_eq_some_iff hash inside]
  constructor
  · rintro ⟨lengths, climbed⟩
    exact ⟨proof, (List.append_nil proof).symm, lengths, climbed⟩
  · rintro ⟨used, split, lengths, climbed⟩
    rw [List.append_nil] at split
    subst split
    exact ⟨lengths, climbed⟩

/-- The root over three leaves of which the second is `[7]`, with a hash that is its
input. -/
def threeLeafRoot : Bytes :=
  [1] ++ ([1] ++ List.replicate 32 5 ++ [0, 7]) ++ List.replicate 32 6

/-- The second of three leaves. -/
theorem verifyInclusion_iff_translog_second :
    verifyInclusion id (merkleLeafHash id [7]) 1 3 [List.replicate 32 5, List.replicate 32 6]
        threeLeafRoot = .ok () ∧
      Translog.verifyInclusion id [7] 1 3 [List.replicate 32 5, List.replicate 32 6]
        threeLeafRoot = true := by
  have accepted : verifyInclusion id (merkleLeafHash id [7]) 1 3
      [List.replicate 32 5, List.replicate 32 6] threeLeafRoot = .ok () := by
    decide +kernel
  exact ⟨accepted, (verifyInclusion_iff_translog id [7] threeLeafRoot 1 3
    [List.replicate 32 5, List.replicate 32 6] (by decide) (by decide)).mp accepted⟩

end Trstctl.Ctlog
