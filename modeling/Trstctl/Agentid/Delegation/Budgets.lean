import Trstctl.Agentid.Delegation.Encoding
import Trstctl.Library.Result

/-!
# Effective budgets

`EffectiveBudgets` folds the minimum of the spend and rate budgets over a
chain.  What it computes is said of the members of the chain alone, so their
order does not matter; and where every authority is within the one before it,
the minimum is the budget of the last.
-/

namespace Trstctl.Agentid.Delegation

open Go (Bytes bytes)

/-- The errors of `EffectiveBudgets`. -/
inductive BudgetError where
  | emptyChain
  | incomparableBudget

def BudgetError.text : BudgetError → Bytes
  | .emptyChain => bytes "delegation: empty chain has no effective budget"
  | .incomparableBudget =>
      bytes "delegation: incomparable budgets in chain (mixed currency or period)"

/-- One iteration of the loop of `EffectiveBudgets`. -/
def foldBudgets (budgets : Budget × Rate) (authority : Authority) :
    Except BudgetError (Budget × Rate) :=
  let (spend, rate) := budgets
  if normToken authority.spend.currency ≠ spend.currency ∨
      normToken authority.rate.per ≠ rate.per then
    .error .incomparableBudget
  else
    .ok
      ({ spend with
          amount := if authority.spend.amount < spend.amount then authority.spend.amount
            else spend.amount },
        { rate with
          limit := if authority.rate.limit < rate.limit then authority.rate.limit
            else rate.limit })

/-- The spend budget of an authority, in its normal form. -/
def Authority.normSpend (authority : Authority) : Budget :=
  { amount := authority.spend.amount, currency := normToken authority.spend.currency }

/-- The rate of an authority, in its normal form. -/
def Authority.normRate (authority : Authority) : Rate :=
  { limit := authority.rate.limit, per := normToken authority.rate.per }

def effectiveBudgets : List Authority → Except BudgetError (Budget × Rate)
  | [] => .error .emptyChain
  | first :: rest => rest.foldlM foldBudgets (first.normSpend, first.normRate)

/-- Budgets that every authority of a chain is comparable with and has at least,
and some has no more than. -/
structure Effective (chain : List Authority) (spend : Budget) (rate : Rate) : Prop where
  comparable : ∀ authority ∈ chain,
    authority.normSpend.currency = spend.currency ∧ authority.normRate.per = rate.per
  least : ∀ authority ∈ chain,
    spend.amount ≤ authority.spend.amount ∧ rate.limit ≤ authority.rate.limit
  spend_attained : ∃ authority ∈ chain, authority.spend.amount = spend.amount
  rate_attained : ∃ authority ∈ chain, authority.rate.limit = rate.limit

namespace Effective

theorem unique {chain : List Authority} {spend otherSpend : Budget} {rate otherRate : Rate}
    (effective : Effective chain spend rate) (other : Effective chain otherSpend otherRate) :
    spend = otherSpend ∧ rate = otherRate := by
  obtain ⟨spender, spenderMember, spends⟩ := effective.spend_attained
  obtain ⟨otherSpender, otherSpenderMember, otherSpends⟩ := other.spend_attained
  obtain ⟨rater, raterMember, rates⟩ := effective.rate_attained
  obtain ⟨otherRater, otherRaterMember, otherRates⟩ := other.rate_attained
  have comparable := effective.comparable spender spenderMember
  have otherComparable := other.comparable spender spenderMember
  rw [Budget.mk.injEq, Rate.mk.injEq]
  refine ⟨⟨?_, comparable.1.symm.trans otherComparable.1⟩,
    ⟨?_, comparable.2.symm.trans otherComparable.2⟩⟩
  · apply UInt64.le_antisymm
    · exact otherSpends ▸ (effective.least otherSpender otherSpenderMember).1
    · exact spends ▸ (other.least spender spenderMember).1
  · apply UInt64.le_antisymm
    · exact otherRates ▸ (effective.least otherRater otherRaterMember).2
    · exact rates ▸ (other.least rater raterMember).2

theorem perm {chain others : List Authority} {spend : Budget} {rate : Rate}
    (effective : Effective chain spend rate) (permuted : chain.Perm others) :
    Effective others spend rate where
  comparable authority member := effective.comparable authority (permuted.mem_iff.mpr member)
  least authority member := effective.least authority (permuted.mem_iff.mpr member)
  spend_attained :=
    effective.spend_attained.imp fun _ attained => ⟨permuted.mem_iff.mp attained.1, attained.2⟩
  rate_attained :=
    effective.rate_attained.imp fun _ attained => ⟨permuted.mem_iff.mp attained.1, attained.2⟩

theorem singleton (authority : Authority) :
    Effective [authority] authority.normSpend authority.normRate where
  comparable other member := by
    rw [List.mem_singleton.mp member]
    exact ⟨rfl, rfl⟩
  least other member := by
    rw [List.mem_singleton.mp member]
    exact ⟨UInt64.le_refl _, UInt64.le_refl _⟩
  spend_attained := ⟨authority, List.mem_singleton_self authority, rfl⟩
  rate_attained := ⟨authority, List.mem_singleton_self authority, rfl⟩

end Effective

theorem ite_lt_le (first second : UInt64) :
    (if first < second then first else second) ≤ first ∧
      (if first < second then first else second) ≤ second ∧
      ((if first < second then first else second) = first ∨
        (if first < second then first else second) = second) := by
  split
  · rename_i less
    exact ⟨UInt64.le_refl _, UInt64.le_of_lt less, Or.inl rfl⟩
  · rename_i atLeast
    exact ⟨UInt64.not_lt.mp atLeast, UInt64.le_refl _, Or.inr rfl⟩

variable {spend : Budget} {rate : Rate}

/-- One iteration keeps the minimum of what it has seen. -/
theorem effective_of_foldBudgets
    {seen : List Authority} {authority : Authority} {spend' : Budget} {rate' : Rate}
    (effective : Effective seen spend rate)
    (folded : foldBudgets (spend, rate) authority = .ok (spend', rate')) :
    Effective (seen ++ [authority]) spend' rate' := by
  unfold foldBudgets at folded
  dsimp only at folded
  split at folded
  · cases folded
  · rename_i comparable
    simp only [not_or, ne_eq, not_not] at comparable
    simp only [Except.ok.injEq, Prod.mk.injEq] at folded
    obtain ⟨rfl, rfl⟩ := folded
    have spends := ite_lt_le authority.spend.amount spend.amount
    have rates := ite_lt_le authority.rate.limit rate.limit
    refine ⟨?_, ?_, ?_, ?_⟩
    · intro other member
      rcases List.mem_append.mp member with earlier | last
      · exact effective.comparable other earlier
      · rw [List.mem_singleton.mp last]
        exact comparable
    · intro other member
      rcases List.mem_append.mp member with earlier | last
      · have least := effective.least other earlier
        exact ⟨UInt64.le_trans spends.2.1 least.1, UInt64.le_trans rates.2.1 least.2⟩
      · rw [List.mem_singleton.mp last]
        exact ⟨spends.1, rates.1⟩
    · rcases spends.2.2 with own | earlier
      · exact ⟨authority, List.mem_append_right _ (List.mem_singleton_self _), own.symm⟩
      · obtain ⟨spender, member, attained⟩ := effective.spend_attained
        exact ⟨spender, List.mem_append_left _ member, attained.trans earlier.symm⟩
    · rcases rates.2.2 with own | earlier
      · exact ⟨authority, List.mem_append_right _ (List.mem_singleton_self _), own.symm⟩
      · obtain ⟨rater, member, attained⟩ := effective.rate_attained
        exact ⟨rater, List.mem_append_left _ member, attained.trans earlier.symm⟩

theorem effective_of_foldlM {seen rest : List Authority} {spend' : Budget} {rate' : Rate}
    (effective : Effective seen spend rate)
    (folded : rest.foldlM foldBudgets (spend, rate) = .ok (spend', rate')) :
    Effective (seen ++ rest) spend' rate' := by
  induction rest generalizing seen spend rate with
  | nil =>
      obtain ⟨rfl, rfl⟩ := Prod.mk.inj (Except.ok.inj folded)
      rwa [List.append_nil]
  | cons authority rest ih =>
      rw [List.foldlM_cons] at folded
      obtain ⟨⟨spendNext, rateNext⟩, step, later⟩ := Result.bind_eq_ok.mp folded
      have final := ih (effective_of_foldBudgets effective step) later
      rwa [List.append_assoc] at final

theorem foldlM_foldBudgets_succeeds {rest : List Authority}
    (comparable : ∀ authority ∈ rest,
      authority.normSpend.currency = spend.currency ∧ authority.normRate.per = rate.per) :
    ∃ budgets, rest.foldlM foldBudgets (spend, rate) = .ok budgets := by
  induction rest generalizing spend rate with
  | nil => exact ⟨(spend, rate), rfl⟩
  | cons authority rest ih =>
      obtain ⟨same, later⟩ := List.forall_mem_cons.mp comparable
      obtain ⟨amount, limit, folded⟩ : ∃ amount limit, foldBudgets (spend, rate) authority =
          .ok ({ spend with amount := amount }, { rate with limit := limit }) := by
        unfold foldBudgets
        dsimp only
        rw [if_neg (by simpa [Authority.normSpend, Authority.normRate] using same)]
        exact ⟨_, _, rfl⟩
      rw [List.foldlM_cons, folded]
      exact ih later

variable {chain : List Authority}

theorem effectiveBudgets_eq_ok_iff :
    effectiveBudgets chain = .ok (spend, rate) ↔ Effective chain spend rate := by
  cases chain with
  | nil =>
      refine ⟨fun folded => ?_, fun effective => ?_⟩
      · cases folded
      · obtain ⟨authority, member, -⟩ := effective.spend_attained
        cases member
  | cons first rest =>
      constructor
      · exact effective_of_foldlM (Effective.singleton first)
      · intro effective
        have own := effective.comparable first List.mem_cons_self
        have comparable : ∀ authority ∈ rest,
            authority.normSpend.currency = first.normSpend.currency ∧
              authority.normRate.per = first.normRate.per := by
          intro authority member
          have same := effective.comparable authority (List.mem_cons_of_mem _ member)
          exact ⟨same.1.trans own.1.symm, same.2.trans own.2.symm⟩
        obtain ⟨⟨spend', rate'⟩, folded⟩ := foldlM_foldBudgets_succeeds comparable
        have computed := effective_of_foldlM (Effective.singleton first) folded
        obtain ⟨rfl, rfl⟩ := effective.unique computed
        exact folded

/-- The last of a chain in which each is within the one before it is within all
of them. -/
theorem withinParent_getLast {registry : ToolRegistry}
    (narrows : chain.IsChain fun parent child => withinParent child parent registry = true)
    (nonempty : chain ≠ []) :
    ∀ authority ∈ chain, withinParent (chain.getLast nonempty) authority registry = true := by
  induction chain with
  | nil => exact absurd rfl nonempty
  | cons first rest ih =>
      cases rest with
      | nil =>
          intro authority member
          rw [List.mem_singleton.mp member]
          exact withinParent_refl first registry
      | cons second rest =>
          obtain ⟨within, later⟩ := List.isChain_cons_cons.mp narrows
          have below := ih later (List.cons_ne_nil _ _)
          rw [List.getLast_cons (List.cons_ne_nil _ _)]
          intro authority member
          rcases List.mem_cons.mp member with rfl | laterMember
          · exact withinParent_trans (below second List.mem_cons_self) within
          · exact below authority laterMember

theorem effective_getLast {registry : ToolRegistry}
    (narrows : chain.IsChain fun parent child => withinParent child parent registry = true)
    (nonempty : chain ≠ []) :
    Effective chain (chain.getLast nonempty).normSpend (chain.getLast nonempty).normRate := by
  have within := withinParent_getLast narrows nonempty
  refine ⟨fun authority member => ?_, fun authority member => ?_,
    ⟨chain.getLast nonempty, List.getLast_mem nonempty, rfl⟩,
    ⟨chain.getLast nonempty, List.getLast_mem nonempty, rfl⟩⟩
  · obtain ⟨-, -, -, -, ⟨currency, -⟩, ⟨per, -⟩, -⟩ := withinParent_iff.mp (within authority member)
    exact ⟨currency.symm, per.symm⟩
  · obtain ⟨-, -, -, -, ⟨-, amount⟩, ⟨-, limit⟩, -⟩ := withinParent_iff.mp (within authority member)
    exact ⟨amount, limit⟩

/-- A narrowing chain has the budgets of its last authority, and the order of a
chain does not matter. -/
theorem effectiveBudgets_of_narrowing :
    (∀ (chain : List Authority) (registry : ToolRegistry) (nonempty : chain ≠ []),
      chain.IsChain (fun parent child => withinParent child parent registry = true) →
      effectiveBudgets chain =
        .ok ((chain.getLast nonempty).normSpend, (chain.getLast nonempty).normRate)) ∧
    ∀ (chain others : List Authority) (budgets : Budget × Rate),
      effectiveBudgets chain = .ok budgets → chain.Perm others →
      effectiveBudgets others = .ok budgets := by
  refine ⟨fun chain registry nonempty narrows => ?_, fun chain others budgets folded permuted => ?_⟩
  · exact effectiveBudgets_eq_ok_iff.mpr (effective_getLast narrows nonempty)
  · exact effectiveBudgets_eq_ok_iff.mpr ((effectiveBudgets_eq_ok_iff.mp folded).perm permuted)

/-- The theorem at a chain of two authorities, and at the chain turned round. -/
theorem effectiveBudgets_of_narrowing_two :
    effectiveBudgets [pathAuthority "grep" "/data" 5, pathAuthority "grep" "/data/a" 3] =
        .ok ({ amount := 3, currency := bytes "usd" }, { limit := 1, per := bytes "hour" }) ∧
      effectiveBudgets [pathAuthority "grep" "/data/a" 3, pathAuthority "grep" "/data" 5] =
        .ok ({ amount := 3, currency := bytes "usd" }, { limit := 1, per := bytes "hour" }) := by
  have narrows : [pathAuthority "grep" "/data" 5, pathAuthority "grep" "/data/a" 3].IsChain
      fun parent child => withinParent child parent none = true := by
    rw [List.isChain_cons_cons]
    exact ⟨by decide +kernel, List.IsChain.singleton _⟩
  have last := effectiveBudgets_of_narrowing.1 _ none (List.cons_ne_nil _ _) narrows
  have spelled : (({ amount := 3, currency := bytes "usd" }, { limit := 1, per := bytes "hour" }) :
      Budget × Rate) = ((pathAuthority "grep" "/data/a" 3).normSpend,
        (pathAuthority "grep" "/data/a" 3).normRate) := by
    decide +kernel
  rw [spelled]
  exact ⟨last, effectiveBudgets_of_narrowing.2 _ _ _ last (List.Perm.swap _ _ _)⟩

end Trstctl.Agentid.Delegation
