import Mathlib.Algebra.GroupWithZero.Nat
import Mathlib.Algebra.BigOperators.Group.Finset.Basic
import Mathlib.Order.Interval.Finset.Nat

/-!
# Sets of numbers as lists of spans

A span is the set of the numbers between two bounds.  Lists of spans that
follow one another stand for sets too large to list, and the numbers of one set
outside another are counted span by span.
-/

namespace Trstctl

/-- The numbers from one bound to another, both included. -/
structure Span where
  lo : Nat
  hi : Nat
deriving DecidableEq

namespace Span

/-- The numbers of a span. -/
def numbers (span : Span) : Finset Nat :=
  Finset.Icc span.lo span.hi

variable {span : Span}

variable {number : Nat}

@[simp] theorem mem_numbers :
    number ∈ span.numbers ↔ span.lo ≤ number ∧ number ≤ span.hi :=
  Finset.mem_Icc

/-- The numbers of all spans of a list. -/
def union : List Span → Finset Nat
  | [] => ∅
  | span :: rest => span.numbers ∪ union rest

@[simp] theorem union_nil : union [] = ∅ := rfl

@[simp] theorem union_cons (span : Span) (rest : List Span) :
    union (span :: rest) = span.numbers ∪ union rest := rfl

theorem mem_union {spans : List Span} :
    number ∈ union spans ↔ ∃ span ∈ spans, span.lo ≤ number ∧ number ≤ span.hi := by
  induction spans with
  | nil => simp
  | cons span rest ih => simp [ih]

theorem union_append (first second : List Span) :
    union (first ++ second) = union first ∪ union second := by
  ext number
  simp only [mem_union, Finset.mem_union, List.mem_append, or_and_right, exists_or]

theorem union_perm {first second : List Span} (permuted : first.Perm second) :
    union first = union second := by
  ext number
  simp only [mem_union, permuted.mem_iff]

/-- Spans that are not empty and follow one another. -/
structure Ascending (spans : List Span) : Prop where
  nonempty : ∀ span ∈ spans, span.lo ≤ span.hi
  apart : spans.Pairwise fun earlier later => earlier.hi < later.lo

theorem Ascending.nil : Ascending [] where
  nonempty := by simp
  apart := .nil

variable {rest : List Span}

theorem Ascending.tail (ascending : Ascending (span :: rest)) :
    Ascending rest where
  nonempty := (List.forall_mem_cons.mp ascending.nonempty).2
  apart := ascending.apart.of_cons

theorem Ascending.suffix {spans : List Span} (ascending : Ascending spans)
    (suffix : rest <:+ spans) :
    Ascending rest where
  nonempty span member := ascending.nonempty span (suffix.subset member)
  apart := ascending.apart.sublist suffix.sublist

theorem Ascending.above (ascending : Ascending (span :: rest)) (member : number ∈ union rest) :
    span.hi < number := by
  obtain ⟨later, laterMember, fromLow, -⟩ := mem_union.mp member
  exact (List.rel_of_pairwise_cons ascending.apart laterMember).trans_le fromLow

/-- The numbers between two bounds that no span has. -/
def outside (lo hi : Nat) (covering : List Span) : Finset Nat :=
  Finset.Icc lo hi \ union covering

theorem mem_outside {lo hi : Nat} {covering : List Span} :
    number ∈ outside lo hi covering ↔
      (lo ≤ number ∧ number ≤ hi) ∧ number ∉ union covering := by
  rw [outside, Finset.mem_sdiff, Finset.mem_Icc]

theorem outside_of_below {lo hi : Nat} (below : span.hi < lo) :
    outside lo hi (span :: rest) = outside lo hi rest := by
  ext number
  rw [mem_outside, mem_outside, union_cons, Finset.mem_union, mem_numbers]
  constructor
  · rintro ⟨between, uncovered⟩
    exact ⟨between, fun covered => uncovered (.inr covered)⟩
  · rintro ⟨between, uncovered⟩
    refine ⟨between, ?_⟩
    rintro (⟨-, high⟩ | covered)
    · omega
    · exact uncovered covered

theorem card_outside_of_above {lo hi : Nat} {covering : List Span}
    (above : ∀ span ∈ covering, hi < span.lo) :
    (outside lo hi covering).card = hi + 1 - lo := by
  have all : outside lo hi covering = Finset.Icc lo hi := by
    ext number
    rw [mem_outside, Finset.mem_Icc, mem_union]
    refine and_iff_left_of_imp ?_
    rintro ⟨-, high⟩ ⟨span, member, low, -⟩
    have := above span member
    omega
  rw [all, Nat.card_Icc]

theorem card_outside_of_reaches {lo hi : Nat} (ascending : Ascending (span :: rest))
    (starts : span.lo ≤ hi) (reaches : hi ≤ span.hi) :
    (outside lo hi (span :: rest)).card = span.lo - lo := by
  have before : outside lo hi (span :: rest) = Finset.Ico lo span.lo := by
    ext number
    rw [mem_outside, Finset.mem_Ico, union_cons, Finset.mem_union, mem_numbers]
    constructor
    · rintro ⟨⟨low, high⟩, uncovered⟩
      refine ⟨low, ?_⟩
      by_contra later
      exact uncovered (.inl ⟨by omega, by omega⟩)
    · rintro ⟨low, early⟩
      refine ⟨⟨low, by omega⟩, ?_⟩
      rintro (⟨late, -⟩ | covered)
      · omega
      · have := ascending.above covered
        omega
  rw [before, Nat.card_Ico]

/-- A span inside the bounds leaves the numbers before it and those after it. -/
theorem card_outside_of_inside {lo hi : Nat} (ascending : Ascending (span :: rest))
    (reached : lo ≤ span.hi) (inside : span.hi < hi) :
    (outside lo hi (span :: rest)).card =
      (span.lo - lo) + (outside (span.hi + 1) hi rest).card := by
  have nonempty := ascending.nonempty span List.mem_cons_self
  have parts : outside lo hi (span :: rest) =
      Finset.Ico lo span.lo ∪ outside (span.hi + 1) hi rest := by
    ext number
    rw [Finset.mem_union, mem_outside, mem_outside, Finset.mem_Ico, union_cons,
      Finset.mem_union, mem_numbers]
    constructor
    · rintro ⟨⟨low, high⟩, uncovered⟩
      rcases Nat.lt_or_ge number span.lo with early | late
      · exact .inl ⟨low, early⟩
      · have after : span.hi < number := by
          by_contra within
          exact uncovered (.inl ⟨late, by omega⟩)
        exact .inr ⟨⟨after, high⟩, fun covered => uncovered (.inr covered)⟩
    · rintro (⟨low, early⟩ | ⟨⟨after, high⟩, uncovered⟩)
      · refine ⟨⟨low, by omega⟩, ?_⟩
        rintro (⟨late, -⟩ | covered)
        · omega
        · have := ascending.above covered
          omega
      · refine ⟨⟨by omega, high⟩, ?_⟩
        rintro (⟨-, within⟩ | covered)
        · omega
        · exact uncovered covered
  have apart : Disjoint (Finset.Ico lo span.lo) (outside (span.hi + 1) hi rest) := by
    rw [Finset.disjoint_left]
    intro number early late
    have := (Finset.mem_Ico.mp early).2
    have := (mem_outside.mp late).1.1
    omega
  rw [parts, Finset.card_union_of_disjoint apart, Nat.card_Ico]

theorem card_union_sdiff {wanted : List Span} (ascending : Ascending wanted)
    (covering : List Span) :
    (union wanted \ union covering).card =
      (wanted.map fun span => (outside span.lo span.hi covering).card).sum := by
  induction wanted with
  | nil => simp
  | cons span rest ih =>
      have apart : Disjoint (outside span.lo span.hi covering) (union rest \ union covering) := by
        rw [Finset.disjoint_left]
        intro number first later
        have := (mem_outside.mp first).1.2
        have := ascending.above (Finset.mem_sdiff.mp later).1
        omega
      rw [union_cons, Finset.union_sdiff_distrib, List.map_cons, List.sum_cons,
        ← ih ascending.tail]
      exact Finset.card_union_of_disjoint apart

end Span
end Trstctl
