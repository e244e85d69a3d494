import Mathlib.Data.Nat.Size
import Trstctl.Translog.Merkle

/-!
# Tree sizes from outside

The verifiers of `internal/translog/merkle.go` take sizes that nobody has
checked: a relying party reads them from a proof.  `VerifyConsistency` leaves
out negative sizes only in part, and the doubling loop of
`largestPowerOfTwoLessThan` runs past the end of the machine's integers.
-/

namespace Trstctl.Translog

open Go (Bytes)

variable (hash : Bytes → Bytes)

/-- How many siblings are read when the size `m` of the older tree is
negative. -/
def rightSiblings (m n : Int) : Nat :=
  if m = -2 ^ 63 then 0 else (n - 1).toNat.size

theorem size_eq_size_half_add_one {number : Nat} (positive : 0 < number) :
    number.size = (number / 2).size + 1 := by
  have split := Nat.bit_bodd_div2 number
  have nonzero : Nat.bit number.bodd number.div2 ≠ 0 := by omega
  calc number.size
      = (Nat.bit number.bodd number.div2).size := by rw [split]
    _ = (number / 2).size + 1 := by rw [Nat.size_bit nonzero, Nat.div2_val]

theorem climbRight_eq (last : Int) (proof : List Bytes) (fr sr oldRoot newRoot : Bytes) :
    climbRight hash last proof fr sr oldRoot newRoot = true ↔
      proof.length = last.toNat.size ∧ fr = oldRoot ∧ proof.foldl (nodeHash hash) sr = newRoot := by
  fun_induction climbRight hash last proof fr sr oldRoot newRoot with
  | case1 last sr positive =>
      have digits := size_eq_size_half_add_one (show 0 < last.toNat by omega)
      simp [digits]
  | case2 last sr positive sibling rest ih =>
      have digits := size_eq_size_half_add_one (show 0 < last.toNat by omega)
      have halved : (last.tdiv 2).toNat = last.toNat / 2 := by
        rw [Int.tdiv_eq_ediv_of_nonneg (by omega)]
        omega
      rw [ih, halved, digits]
      simp
  | case3 last proof sr small =>
      have none : last.toNat = 0 := by omega
      simp only [Bool.and_eq_true, List.isEmpty_iff, beq_iff_eq, none, Nat.size_zero,
        List.length_eq_zero_iff, and_assoc]
      refine and_congr_right fun empty => ?_
      rw [empty, List.foldl_nil]

theorem stripOnes_of_neg {node : Int} (negative : node < 0) (last : Int) :
    stripOnes node last = (node, last) := by
  rw [stripOnes, if_neg]
  have opposite := Int.neg_tmod (-node) 2
  have positive := Int.tmod_nonneg (a := -node) 2 (by omega)
  rw [Int.neg_neg] at opposite
  omega

/-- A node of ones only is stripped to nothing, and with it a last node of no
more digits. -/
theorem stripOnes_ones (width : Nat) {last : Int} (below : last < 2 ^ width) :
    ∃ rest ≤ 0, stripOnes (2 ^ width - 1) last = (0, rest) := by
  induction width generalizing last with
  | zero =>
      refine ⟨last, by omega, ?_⟩
      rw [stripOnes, if_neg (by decide)]
      simp
  | succ width ih =>
      rw [pow_succ] at below
      have positive : (0 : Int) < 2 ^ width := Int.pow_pos (by omega)
      have odd : ((2 : Int) ^ (width + 1) - 1).tmod 2 = 1 := by
        rw [Int.tmod_eq_emod_of_nonneg (by rw [pow_succ]; omega), pow_succ]
        omega
      have half : ((2 : Int) ^ (width + 1) - 1).tdiv 2 = 2 ^ width - 1 := by
        rw [Int.tdiv_eq_ediv_of_nonneg (by rw [pow_succ]; omega), pow_succ]
        omega
      have smaller : last.tdiv 2 < 2 ^ width := by
        have upper := Int.tdiv_le_tdiv (a := last) (b := 2 ^ width * 2 - 1) (c := 2) (by omega)
          (by omega)
        rw [Int.tdiv_eq_ediv_of_nonneg (a := 2 ^ width * 2 - 1) (by omega)] at upper
        omega
      obtain ⟨rest, small, stripped⟩ := ih smaller
      exact ⟨rest, small, by rw [stripOnes, if_pos odd, half, stripped]⟩

/-- A negative size of the older tree is taken for an empty start: the proof is
hashed onto the older root. -/
theorem verifyConsistency_of_neg {m n : Int} (lowest : -2 ^ 63 ≤ m) (negative : m < 0)
    (ordered : m ≤ n) (bounded : n < 2 ^ 63) (proof : List Bytes) (oldRoot newRoot : Bytes) :
    verifyConsistency hash m n proof oldRoot newRoot = true ↔
      proof.length = rightSiblings m n ∧ proof.foldl (nodeHash hash) oldRoot = newRoot := by
  rw [verifyConsistency, if_neg (by omega)]
  by_cases same : m = n
  · have none : rightSiblings m n = 0 := by
      rw [rightSiblings, show (n - 1).toNat = 0 by omega, Nat.size_zero, ite_self]
    rw [if_pos same, none, Bool.and_eq_true, List.isEmpty_iff, beq_iff_eq,
      List.length_eq_zero_iff]
    refine and_congr_right fun empty => ?_
    rw [empty, List.foldl_nil]
  · rw [if_neg same]
    have last : decrement n = n - 1 := by rw [decrement, if_neg (by omega)]
    by_cases least : m = -2 ^ 63
    · -- `m - 1` wraps to the greatest integer, all of whose digits are stripped.
      obtain ⟨rest, small, stripped⟩ := stripOnes_ones 63 (show n - 1 < 2 ^ 63 by omega)
      have node : decrement m = 2 ^ 63 - 1 := by rw [decrement, if_pos least]
      rw [node, last, stripped]
      simp only [lt_irrefl, if_false]
      rw [climb.eq_def, if_neg (by omega), climbRight_eq, rightSiblings, if_pos least,
        show rest.toNat = 0 by omega, Nat.size_zero]
      simp
    · have node : decrement m = m - 1 := by rw [decrement, if_neg least]
      rw [node, last, stripOnes_of_neg (by omega)]
      simp only [show ¬ (0 < m - 1) by omega, if_false]
      rw [climb.eq_def, if_neg (by omega), climbRight_eq, rightSiblings, if_neg least]
      simp

/-- `VerifyConsistency` accepts only sizes with `1 ≤ m ≤ n`, but for negative `m`
and a proof that hashes the older root to the newer one. -/
theorem accepts_only_sizes_iff
    (m n : Int)
    (lowest : -2 ^ 63 ≤ m)
    (bounded : n < 2 ^ 63)
    (proof : List Bytes)
    (oldRoot newRoot : Bytes) :
    (verifyConsistency hash m n proof oldRoot newRoot = true → 1 ≤ m ∧ m ≤ n) ↔
      0 ≤ m ∨ n < m ∨ proof.length ≠ rightSiblings m n ∨
        proof.foldl (nodeHash hash) oldRoot ≠ newRoot := by
  by_cases guarded : m = 0 ∨ n < m
  · have refused : verifyConsistency hash m n proof oldRoot newRoot = false := by
      rw [verifyConsistency, if_pos guarded]
    rw [refused]
    refine ⟨fun _ => ?_, fun _ accepted => absurd accepted (by decide)⟩
    omega
  · by_cases negative : m < 0
    · rw [verifyConsistency_of_neg hash lowest negative (by omega) bounded]
      constructor
      · intro bound
        by_contra! denied
        have sizes := bound ⟨denied.2.2.1, denied.2.2.2⟩
        omega
      · rintro (nonnegative | larger | length | root) accepted
        · omega
        · omega
        · exact absurd accepted.1 length
        · exact absurd accepted.2 root
    · exact ⟨fun _ => Or.inl (by omega), fun _ _ => by omega⟩

/-- The root of a log of size `3` under its own size. -/
theorem accepts_only_sizes_iff_three :
    verifyConsistency id 3 3 [] [7] [7] = true ∧ (1 : Int) ≤ 3 ∧ (3 : Int) ≤ 3 :=
  have accepted : verifyConsistency id 3 3 [] [7] [7] = true := by decide +kernel
  ⟨accepted, (accepts_only_sizes_iff id 3 3 (by decide) (by decide) [] [7] [7]).mpr
    (Or.inl (by decide)) accepted⟩

/-- The empty proof from a tree of size `-1` to one of size `0` is accepted. -/
theorem accepts_negative_sizes :
    ¬ ∀ (hash : Bytes → Bytes) (m n : Int) (proof : List Bytes) (oldRoot newRoot : Bytes),
      verifyConsistency hash m n proof oldRoot newRoot = true → 1 ≤ m ∧ m ≤ n := by
  intro sizes
  have accepted : verifyConsistency id (-1) 0 [] [7] [7] = true := by decide +kernel
  have size := (sizes id (-1) 0 [] [7] [7] accepted).1
  omega

/-! ## The doubling loop on machine integers

Each function takes the number of steps it may run and returns nothing when
they do not suffice: it terminates if some number of steps does.  The
differences of the recursion are between a size and a smaller one and cannot
leave the machine's integers. -/

/-- `k << 1` on a signed 64-bit integer. -/
def shiftLeftOne (k : Int) : Int :=
  (k * 2 + 2 ^ 63) % 2 ^ 64 - 2 ^ 63

/-- The loop `for k < n { k <<= 1 }`. -/
def doubleRun (n : Int) : Nat → Int → Option Int
  | 0, _ => none
  | steps + 1, k => if k < n then doubleRun n steps (shiftLeftOne k) else some k

/-- `largestPowerOfTwoLessThan`. -/
def largestPowerOfTwoLessThanRun (steps : Nat) (n : Int) : Option Int :=
  (doubleRun n steps 1).map (· / 2)

/-- `rootFromInclusion`, which reports by `none` inside that the proof is too
short. -/
def rootFromInclusionRun :
    Nat → Bytes → Int → Int → List Bytes → Option (Option (Bytes × List Bytes))
  | 0, _, _, _, _ => none
  | steps + 1, leaf, m, n, proof =>
      if n = 1 then some (some (leaf, proof))
      else do
        let k ← largestPowerOfTwoLessThanRun steps n
        if m < k then
          match ← rootFromInclusionRun steps leaf m k proof with
          | some (subtree, sibling :: rest) =>
              pure (some (nodeHash hash subtree sibling, rest))
          | _ => pure none
        else
          match ← rootFromInclusionRun steps leaf (m - k) (n - k) proof with
          | some (subtree, sibling :: rest) =>
              pure (some (nodeHash hash sibling subtree, rest))
          | _ => pure none

/-- `VerifyInclusion`. -/
def verifyInclusionRun (steps : Nat) (leaf : Bytes) (m n : Int) (proof : List Bytes)
    (root : Bytes) : Option Bool :=
  if m < 0 ∨ n ≤ 0 ∨ m ≥ n then some false
  else
    (rootFromInclusionRun hash steps (leafHash hash leaf) m n proof).map
      (· == some (root, []))

/-- The greatest power of two below a size. -/
def IsLargestPower (n k : Int) : Prop :=
  (∃ exponent : Nat, k = 2 ^ exponent) ∧ k < n ∧ ∀ exponent : Nat, (2 : Int) ^ exponent < n →
    2 ^ exponent ≤ k

theorem shiftLeftOne_two_pow {exponent : Nat} (narrow : exponent < 62) :
    shiftLeftOne (2 ^ exponent) = 2 ^ (exponent + 1) := by
  have below : 2 ^ exponent ≤ 2 ^ 61 := Nat.pow_le_pow_right (by omega) (by omega)
  have positive : 0 < 2 ^ exponent := Nat.two_pow_pos exponent
  have cast : ((2 ^ exponent : Nat) : Int) = 2 ^ exponent := by simp
  rw [shiftLeftOne, pow_succ]
  omega

theorem doubleRun_eq {n exponent : Nat} (above : 2 ^ exponent < n)
    (reached : n ≤ 2 ^ (exponent + 1)) (small : n ≤ 2 ^ 62) :
    ∀ steps start, start ≤ exponent + 1 → exponent + 2 ≤ steps + start →
      doubleRun n steps (2 ^ start) = some (2 ^ (exponent + 1)) := by
  intro steps
  induction steps with
  | zero =>
      intro start inside enough
      omega
  | succ steps ih =>
      intro start inside enough
      rw [doubleRun]
      by_cases finished : start = exponent + 1
      · subst finished
        rw [if_neg]
        have cast : ((2 ^ (exponent + 1) : Nat) : Int) = 2 ^ (exponent + 1) := by simp
        omega
      · have below : 2 ^ start ≤ 2 ^ exponent := Nat.pow_le_pow_right (by omega) (by omega)
        have cast : ((2 ^ start : Nat) : Int) = 2 ^ start := by simp
        have narrow : start < 62 := (Nat.pow_lt_pow_iff_right (by omega : 1 < 2)).mp (by omega)
        rw [if_pos (by omega), shiftLeftOne_two_pow narrow]
        exact ih (start + 1) (by omega) (by omega)

theorem largestPowerOfTwoLessThanRun_eq {n steps : Nat} (large : 2 ≤ n) (small : n ≤ 2 ^ 62)
    (enough : 64 ≤ steps) :
    largestPowerOfTwoLessThanRun steps n = some (largestPowerOfTwoLessThan n : Int) := by
  obtain ⟨exponent, above, reached⟩ := exists_exponent n large
  have narrow : exponent < 62 := by
    by_contra! wide
    have power : 2 ^ 62 ≤ 2 ^ exponent := Nat.pow_le_pow_right (by omega) wide
    omega
  have loop := doubleRun_eq above reached small steps 0 (by omega) (by omega)
  rw [pow_zero] at loop
  rw [largestPowerOfTwoLessThanRun, loop, largestPowerOfTwoLessThan_eq n exponent above reached]
  simp [pow_succ]

/-- The values of the loop once the size is above `2 ^ 62`. -/
def Circling (k : Int) : Prop :=
  k = 0 ∨ k = -2 ^ 63 ∨ ∃ exponent ≤ 62, k = 2 ^ exponent

theorem Circling.shiftLeftOne {k : Int} (circling : Circling k) :
    Circling (shiftLeftOne k) := by
  rcases circling with rfl | rfl | ⟨exponent, inside, rfl⟩
  · exact Or.inl rfl
  · exact Or.inl rfl
  · by_cases last : exponent = 62
    · subst last
      exact Or.inr (Or.inl rfl)
    · refine Or.inr (Or.inr ⟨exponent + 1, by omega, ?_⟩)
      exact shiftLeftOne_two_pow (by omega)

theorem Circling.lt {k n : Int} (circling : Circling k) (large : 2 ^ 62 < n) :
    k < n := by
  rcases circling with rfl | rfl | ⟨exponent, inside, rfl⟩
  · omega
  · omega
  · have below : 2 ^ exponent ≤ 2 ^ 62 := Nat.pow_le_pow_right (by omega) inside
    have cast : ((2 ^ exponent : Nat) : Int) = 2 ^ exponent := by simp
    omega

theorem doubleRun_eq_none {n : Int} (large : 2 ^ 62 < n) (steps : Nat) :
    ∀ k, Circling k → doubleRun n steps k = none := by
  induction steps with
  | zero => exact fun k _ => rfl
  | succ steps ih =>
      intro k circling
      rw [doubleRun, if_pos (circling.lt large)]
      exact ih _ circling.shiftLeftOne

theorem largestPowerOfTwoLessThanRun_eq_none {n : Int} (large : 2 ^ 62 < n) (steps : Nat) :
    largestPowerOfTwoLessThanRun steps n = none := by
  rw [largestPowerOfTwoLessThanRun, doubleRun_eq_none large steps 1 (Or.inr (Or.inr ⟨0, by omega,
    rfl⟩)), Option.map_none]

/-- Up to `2 ^ 62` the machine recomputes the root, in no more steps than the
tree has leaves beside those of one loop. -/
theorem rootFromInclusionRun_eq (leaf : Bytes) (proof : List Bytes) (n : Nat) :
    1 ≤ n → n ≤ 2 ^ 62 → ∀ m steps : Nat, n + 64 ≤ steps →
      rootFromInclusionRun hash steps leaf m n proof =
        some (rootFromInclusion hash leaf m n proof) := by
  induction n using Nat.strong_induction_on with
  | _ n ih =>
  intro positive small m steps enough
  obtain ⟨steps, rfl⟩ := Nat.exists_eq_add_of_le' (show 1 ≤ steps by omega)
  rw [rootFromInclusionRun, rootFromInclusion]
  by_cases single : n = 1
  · rw [if_pos (by omega), if_pos (by omega)]
  · have bounds := largestPowerOfTwoLessThan_bounds n (by omega)
    rw [if_neg (by omega), if_neg (by omega),
      largestPowerOfTwoLessThanRun_eq (by omega) small (by omega)]
    generalize largestPowerOfTwoLessThan n = k at bounds
    simp only [Option.pure_def, Option.bind_eq_bind, Option.bind_some, Int.ofNat_lt]
    by_cases left : m < k
    · rw [if_pos left, if_pos left,
        ih k (by omega) (by omega) (by omega) m steps (by omega),
        Option.bind_some]
      rcases rootFromInclusion hash leaf m k proof with _ | ⟨subtree, _ | ⟨sibling, rest⟩⟩ <;> rfl
    · rw [if_neg left, if_neg left, ← Int.ofNat_sub (by omega), ← Int.ofNat_sub (by omega),
        ih (n - k) (by omega) (by omega) (by omega) (m - k) steps (by omega),
        Option.bind_some]
      rcases rootFromInclusion hash leaf (m - k) (n - k) proof
        with _ | ⟨subtree, _ | ⟨sibling, rest⟩⟩
        <;> rfl

theorem verifyInclusionRun_eq {m n : Int} (small : n ≤ 2 ^ 62) (leaf : Bytes) (proof : List Bytes)
    (root : Bytes) :
    verifyInclusionRun hash (n.toNat + 64) leaf m n proof root =
      some (verifyInclusion hash leaf m n proof root) := by
  rw [verifyInclusionRun, verifyInclusion]
  by_cases guarded : m < 0 ∨ n ≤ 0 ∨ m ≥ n
  · rw [if_pos guarded, if_pos guarded]
  · obtain ⟨index, rfl⟩ := Int.eq_ofNat_of_zero_le (show 0 ≤ m by omega)
    obtain ⟨size, rfl⟩ := Int.eq_ofNat_of_zero_le (show 0 ≤ n by omega)
    rw [if_neg guarded, if_neg guarded, if_neg (by omega), Int.toNat_natCast, Int.toNat_natCast,
      rootFromInclusionRun_eq hash (leafHash hash leaf) proof size (by omega) (by omega) index
        (size + 64) le_rfl, Option.map_some]

theorem rootFromInclusionRun_eq_none {n : Int} (large : 2 ^ 62 < n) (steps : Nat) (leaf : Bytes)
    (m : Int) (proof : List Bytes) :
    rootFromInclusionRun hash steps leaf m n proof = none := by
  cases steps with
  | zero => rfl
  | succ steps =>
      rw [rootFromInclusionRun, if_neg (by omega), largestPowerOfTwoLessThanRun_eq_none large]
      rfl

theorem isLargestPower {n : Nat} (large : 2 ≤ n) :
    IsLargestPower n (largestPowerOfTwoLessThan n) := by
  obtain ⟨exponent, above, reached⟩ := exists_exponent n large
  rw [largestPowerOfTwoLessThan_eq n exponent above reached]
  refine ⟨⟨exponent, by simp⟩, by exact_mod_cast above, fun other below => ?_⟩
  have smaller : 2 ^ other < 2 ^ (exponent + 1) := by
    have cast : ((2 ^ other : Nat) : Int) = 2 ^ other := by simp
    omega
  have exponents := (Nat.pow_lt_pow_iff_right (by omega : 1 < 2)).mp smaller
  exact_mod_cast Nat.pow_le_pow_right (show 0 < 2 by omega) (show other ≤ exponent by omega)

/-- `VerifyInclusion` terminates when its guard refuses or the tree has at most
`2 ^ 62` leaves, and from two leaves on the split point is found only then. -/
theorem verifyInclusion_terminates_iff
    (leaf : Bytes)
    (m n : Int)
    (proof : List Bytes)
    (root : Bytes) :
    ((∃ steps result, verifyInclusionRun hash steps leaf m n proof root = some result) ↔
        m < 0 ∨ n ≤ m ∨ n ≤ 2 ^ 62) ∧
      (2 ≤ n →
        ((∃ steps k, largestPowerOfTwoLessThanRun steps n = some k ∧ IsLargestPower n k) ↔
          n ≤ 2 ^ 62)) := by
  refine ⟨⟨?_, ?_⟩, fun large => ⟨?_, fun small => ?_⟩⟩
  · rintro ⟨steps, result, finished⟩
    by_contra! unguarded
    rw [verifyInclusionRun, if_neg (by omega), rootFromInclusionRun_eq_none hash unguarded.2.2]
      at finished
    cases finished
  · rintro guarded
    by_cases small : n ≤ 2 ^ 62
    · exact ⟨n.toNat + 64, _, verifyInclusionRun_eq hash small leaf proof root⟩
    · exact ⟨0, false, by rw [verifyInclusionRun, if_pos (by omega)]⟩
  · rintro ⟨steps, k, finished, -⟩
    by_contra! above
    rw [largestPowerOfTwoLessThanRun_eq_none above] at finished
    cases finished
  · obtain ⟨size, rfl⟩ := Int.eq_ofNat_of_zero_le (show 0 ≤ n by omega)
    exact ⟨64, _, largestPowerOfTwoLessThanRun_eq (by omega) (by omega) le_rfl,
      isLargestPower (by omega)⟩

/-- The split of five leaves is found. -/
theorem verifyInclusion_terminates_iff_five :
    ∃ steps k, largestPowerOfTwoLessThanRun steps 5 = some k ∧ IsLargestPower 5 k :=
  ((verifyInclusion_terminates_iff id [] 0 5 [] []).2 (by decide)).mpr (by decide)

/-- For the first of `2 ^ 62 + 1` leaves `VerifyInclusion` does not terminate. -/
theorem verifyInclusion_hangs :
    ¬ ∀ (hash : Bytes → Bytes) (leaf : Bytes) (m n : Int) (proof : List Bytes) (root : Bytes),
      -2 ^ 63 ≤ m → m < 2 ^ 63 → -2 ^ 63 ≤ n → n < 2 ^ 63 →
        ∃ steps result, verifyInclusionRun hash steps leaf m n proof root = some result := by
  intro terminates
  obtain ⟨steps, result, finished⟩ := terminates id [] 0 (2 ^ 62 + 1) [] [] (by decide) (by decide)
    (by decide) (by decide)
  rw [verifyInclusionRun, if_neg (by decide), rootFromInclusionRun_eq_none id (by decide)]
    at finished
  cases finished

end Trstctl.Translog
