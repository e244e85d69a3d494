import Mathlib.Algebra.Group.Int.Defs
import Mathlib.Data.Nat.Log
import Trstctl.Go.Encoding
import Trstctl.Go.Hash

/-!
# The RFC 6962 Merkle tree of the transparency log

The functions of `internal/translog/merkle.go` over an arbitrary digest
function.  Proof cursors `p` of the source are the part of the proof that is
still unread.  Tree sizes are the lengths of lists and therefore natural
numbers; the sizes handed to `VerifyConsistency` come from outside and are
signed 64-bit integers.
-/

namespace Trstctl.Translog

open Go (Bytes bytes bigEndian64)

variable (hash : Bytes → Bytes)

/-- The digest of one log entry, under the leaf tag 0x00. -/
def leafHash (leaf : Bytes) : Bytes :=
  hash (0x00 :: leaf)

/-- The string hashed for an interior node, under the node tag 0x01. -/
def nodeInput (left right : Bytes) : Bytes :=
  0x01 :: (left ++ right)

/-- The digest of an interior node. -/
def nodeHash (left right : Bytes) : Bytes :=
  hash (nodeInput left right)

/-- The loop `for k < n { k <<= 1 }`. -/
def doubleUntil (n k : Nat) : Nat :=
  if 0 < k ∧ k < n then doubleUntil n (k * 2) else k
termination_by n - k

/-- The largest power of two strictly less than `n`, for `n ≥ 2`. -/
def largestPowerOfTwoLessThan (n : Nat) : Nat :=
  doubleUntil n 1 / 2

theorem doubleUntil_eq (n exponent : Nat) (above : 2 ^ exponent < n)
    (reached : n ≤ 2 ^ (exponent + 1)) :
    ∀ steps start, start + steps = exponent + 1 →
      doubleUntil n (2 ^ start) = 2 ^ (exponent + 1) := by
  intro steps
  induction steps with
  | zero =>
      intro start total
      have start_eq : start = exponent + 1 := by omega
      subst start_eq
      rw [doubleUntil, if_neg (by omega)]
  | succ steps ih =>
      intro start total
      have below : 2 ^ start ≤ 2 ^ exponent :=
        Nat.pow_le_pow_right (by omega) (by omega)
      have positive : 0 < 2 ^ start := Nat.two_pow_pos start
      rw [doubleUntil, if_pos ⟨positive, by omega⟩, ← Nat.pow_succ]
      exact ih (start + 1) (by omega)

theorem largestPowerOfTwoLessThan_eq (n exponent : Nat) (above : 2 ^ exponent < n)
    (reached : n ≤ 2 ^ (exponent + 1)) :
    largestPowerOfTwoLessThan n = 2 ^ exponent := by
  have loop := doubleUntil_eq n exponent above reached (exponent + 1) 0 (by omega)
  rw [Nat.pow_zero] at loop
  rw [largestPowerOfTwoLessThan, loop, Nat.pow_succ, Nat.mul_div_cancel _ (by omega)]

theorem exists_exponent (n : Nat) (large : 2 ≤ n) :
    ∃ exponent, 2 ^ exponent < n ∧ n ≤ 2 ^ (exponent + 1) := by
  refine ⟨Nat.log 2 (n - 1), ?_, ?_⟩
  · have below := Nat.pow_log_le_self 2 (x := n - 1) (by omega)
    omega
  · have above := Nat.lt_pow_succ_log_self (b := 2) (by omega) (n - 1)
    omega

theorem largestPowerOfTwoLessThan_bounds (n : Nat) (large : 2 ≤ n) :
    0 < largestPowerOfTwoLessThan n ∧ largestPowerOfTwoLessThan n < n := by
  obtain ⟨exponent, above, reached⟩ := exists_exponent n large
  rw [largestPowerOfTwoLessThan_eq n exponent above reached]
  exact ⟨Nat.two_pow_pos exponent, above⟩

/-- The Merkle tree hash over leaf hashes. -/
def merkleRoot (leafHashes : List Bytes) : Bytes :=
  match leafHashes with
  | [] => hash []
  | [leaf] => leaf
  | first :: second :: rest =>
      let all := first :: second :: rest
      let k := largestPowerOfTwoLessThan all.length
      nodeHash hash (merkleRoot (all.take k)) (merkleRoot (all.drop k))
termination_by leafHashes.length
decreasing_by
  all_goals
    have bounds := largestPowerOfTwoLessThan_bounds (rest.length + 1 + 1) (by omega)
    simp only [List.length_take, List.length_drop, List.length_cons]
    omega

/-- The strings hashed for the interior nodes of the tree over leaf hashes. -/
def merkleInputs (leafHashes : List Bytes) : List Bytes :=
  match leafHashes with
  | [] => []
  | [_] => []
  | first :: second :: rest =>
      let all := first :: second :: rest
      let k := largestPowerOfTwoLessThan all.length
      nodeInput (merkleRoot hash (all.take k)) (merkleRoot hash (all.drop k)) ::
        (merkleInputs (all.take k) ++ merkleInputs (all.drop k))
termination_by leafHashes.length
decreasing_by
  all_goals
    have bounds := largestPowerOfTwoLessThan_bounds (rest.length + 1 + 1) (by omega)
    simp only [List.length_take, List.length_drop, List.length_cons]
    omega

/-- The value of `x - 1` on a signed 64-bit integer. -/
def decrement (x : Int) : Int :=
  if x = -2 ^ 63 then 2 ^ 63 - 1 else x - 1

/-- The loop `for node%2 == 1 { node /= 2; last /= 2 }`. -/
def stripOnes (node last : Int) : Int × Int :=
  if node.tmod 2 = 1 then stripOnes (node.tdiv 2) (last.tdiv 2) else (node, last)
termination_by node.toNat
decreasing_by
  rename_i odd
  have nonnegative : 0 ≤ node := by
    by_contra negative
    have opposite := Int.neg_tmod (-node) 2
    have positive := Int.tmod_nonneg (a := -node) 2 (by omega)
    rw [Int.neg_neg] at opposite
    omega
  have halved := Int.tdiv_eq_ediv_of_nonneg (b := 2) nonnegative
  have remainder := Int.tmod_eq_emod_of_nonneg (b := 2) nonnegative
  omega

/-- The loop `for last > 0` and the final comparison. -/
def climbRight (last : Int) (proof : List Bytes) (fr sr oldRoot newRoot : Bytes) : Bool :=
  if 0 < last then
    match proof with
    | [] => false
    | sibling :: rest =>
        climbRight (last.tdiv 2) rest fr (nodeHash hash sr sibling) oldRoot newRoot
  else proof.isEmpty && fr == oldRoot && sr == newRoot
termination_by last.toNat
decreasing_by
  have halved := Int.tdiv_eq_ediv_of_nonneg (a := last) (b := 2) (by omega)
  omega

/-- The loop `for node > 0`, with the rest of the function behind it. -/
def climb (node last : Int) (proof : List Bytes) (fr sr oldRoot newRoot : Bytes) : Bool :=
  if 0 < node then
    if node.tmod 2 = 1 then
      match proof with
      | [] => false
      | sibling :: rest =>
          climb (node.tdiv 2) (last.tdiv 2) rest (nodeHash hash sibling fr)
            (nodeHash hash sibling sr) oldRoot newRoot
    else if node < last then
      match proof with
      | [] => false
      | sibling :: rest =>
          climb (node.tdiv 2) (last.tdiv 2) rest fr (nodeHash hash sr sibling)
            oldRoot newRoot
    else climb (node.tdiv 2) (last.tdiv 2) proof fr sr oldRoot newRoot
  else climbRight hash last proof fr sr oldRoot newRoot
termination_by node.toNat
decreasing_by
  all_goals
    have halved := Int.tdiv_eq_ediv_of_nonneg (a := node) (b := 2) (by omega)
    omega

/-- `VerifyConsistency`: the proof between an old tree of size `m` and a new
tree of size `n`. -/
def verifyConsistency (m n : Int) (proof : List Bytes) (oldRoot newRoot : Bytes) : Bool :=
  if m = 0 ∨ n < m then false
  else if m = n then proof.isEmpty && oldRoot == newRoot
  else
    let (node, last) := stripOnes (decrement m) (decrement n)
    if 0 < node then
      match proof with
      | [] => false
      | first :: rest => climb hash node last rest first first oldRoot newRoot
    else climb hash node last proof oldRoot oldRoot oldRoot newRoot

/-!
## Signed tree heads and inclusion proofs

`VerifyInclusion` (`internal/translog/merkle.go`) with the tree heads it is used
under (`internal/translog/log.go`).  Sizes up to `2 ^ 62` are those of the
source; beyond them its doubling loop does not end, and nothing is accepted.
-/

/-- `rootFromInclusion`: the root over a leaf hash and its audit path, with what
is left of the path. -/
def rootFromInclusion (hash : Bytes → Bytes) (leaf : Bytes) (m n : Nat)
    (proof : List Bytes) : Option (Bytes × List Bytes) :=
  if n ≤ 1 then some (leaf, proof)
  else
    let k := largestPowerOfTwoLessThan n
    if m < k then
      match rootFromInclusion hash leaf m k proof with
      | some (subtree, sibling :: rest) => some (nodeHash hash subtree sibling, rest)
      | _ => none
    else
      match rootFromInclusion hash leaf (m - k) (n - k) proof with
      | some (subtree, sibling :: rest) => some (nodeHash hash sibling subtree, rest)
      | _ => none
termination_by n
decreasing_by
  all_goals
    have bounds := largestPowerOfTwoLessThan_bounds n (by omega)
    omega

/-- The path leads from the leaf to the root. -/
def verifyInclusion (hash : Bytes → Bytes) (leaf : Bytes) (m n : Int) (proof : List Bytes)
    (root : Bytes) : Bool :=
  if m < 0 ∨ n ≤ 0 ∨ m ≥ n then false
  else if 2 ^ 62 < n then false
  else rootFromInclusion hash (leafHash hash leaf) m.toNat n.toNat proof == some (root, [])

/-- `STH`.  The timestamp is in nanoseconds of the Unix epoch. -/
structure STH where
  treeSize : Int
  rootHash : Bytes
  timestamp : Int
  signature : Bytes

/-- The signed bytes of a tree head. -/
def encodeSTH (head : STH) : Bytes :=
  bytes "trstctl/pcas/translog/sth/v1" ++
    bigEndian64 (head.treeSize % 2 ^ 64).toNat ++
    bigEndian64 (head.timestamp % 2 ^ 64).toNat ++
    head.rootHash

def verifySTH (verifyMessage : Bytes → Bytes → Bytes → Bool) (key : Bytes) (head : STH) : Bool :=
  verifyMessage key (encodeSTH head) head.signature

/-- `Proof`: an inclusion proof with the tree head it is for. -/
structure Proof where
  sth : STH
  index : Int
  auditPath : List Bytes

/-- Why a proof is not accepted. -/
inductive ProofError where
  | malformed
  | untrusted
  | sth
  | inclusion
deriving DecidableEq

def verifyLeafInclusion (hash : Bytes → Bytes) (verifyMessage : Bytes → Bytes → Bytes → Bool)
    (leaf : Bytes) (proof : Proof) (sthVerifyKeyDER : Bytes) : Except ProofError Unit :=
  if sthVerifyKeyDER = [] then .error .untrusted
  else if !verifySTH verifyMessage sthVerifyKeyDER proof.sth then .error .sth
  else if !verifyInclusion hash leaf proof.index proof.sth.treeSize proof.auditPath
      proof.sth.rootHash then .error .inclusion
  else .ok ()

end Trstctl.Translog
