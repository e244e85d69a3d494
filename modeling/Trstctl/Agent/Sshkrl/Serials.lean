import Mathlib.Data.List.Sort
import Trstctl.Library.Spans

/-!
# Ranges of certificate serials

The serials that a revocation list names are kept as merged ranges, and those
that another list leaves out are counted by a sweep over both.  The arithmetic
is that of 64-bit words: no range starts at zero, so that the length of the
widest one is still a word.
-/

namespace Trstctl.Sshkrl

open Trstctl.Span (Ascending union outside mem_union)

def maxUint64 : Nat :=
  2 ^ 64 - 1

/-- The ranges of a scope as parsing leaves them. -/
structure Merged (ranges : List Span) : Prop extends Ascending ranges where
  positive : ∀ range ∈ ranges, 0 < range.lo
  word : ∀ range ∈ ranges, range.hi < 2 ^ 64

/-- A range the parser accepts. -/
structure Accepted (range : Span) : Prop where
  positive : 0 < range.lo
  nonempty : range.lo ≤ range.hi
  word : range.hi < 2 ^ 64

/-- One step of merging, in order of the lower bounds; the last range of `out`
stands first. -/
def mergeRange (out : List Span) (next : Span) : List Span :=
  match out with
  | [] => [next]
  | last :: before =>
      if next.lo ≤ last.hi ∨ (last.hi ≠ maxUint64 ∧ next.lo = last.hi + 1) then
        (if last.hi < next.hi then { last with hi := next.hi } else last) :: before
      else next :: last :: before

/-- `mergeSerialRanges`.  Ranges with one lower bound may be sorted in any
order: they are merged. -/
def mergeSerialRanges (ranges : List Span) : List Span :=
  ((ranges.insertionSort fun first second => first.lo ≤ second.lo).foldl mergeRange []).reverse

/-- The ranges merged so far, the last one first, all of which start at or
before `bound`. -/
structure Merging (out : List Span) (bound : Nat) : Prop where
  accepted : ∀ range ∈ out, Accepted range
  apart : out.Pairwise fun later earlier => earlier.hi < later.lo
  started : ∀ range ∈ out, range.lo ≤ bound

variable {out : List Span} {bound : Nat} {next : Span}

theorem Merging.mergeRange
    (merging : Merging out bound) (ordered : bound ≤ next.lo) (accepted : Accepted next) :
    Merging (mergeRange out next) next.lo := by
  have started : ∀ range ∈ out, range.lo ≤ next.lo :=
    fun range member => (merging.started range member).trans ordered
  have nonempty := accepted.nonempty
  cases out with
  | nil =>
      refine ⟨?_, List.pairwise_singleton _ _, ?_⟩
      · simpa [Sshkrl.mergeRange] using accepted
      · simp [Sshkrl.mergeRange]
  | cons last before =>
      obtain ⟨lastAccepted, others⟩ := List.forall_mem_cons.mp merging.accepted
      obtain ⟨lastStarted, othersStarted⟩ := List.forall_mem_cons.mp started
      obtain ⟨afterOthers, othersApart⟩ := List.pairwise_cons.mp merging.apart
      have lastNonempty := lastAccepted.nonempty
      unfold Sshkrl.mergeRange
      dsimp only
      split_ifs with touches longer
      · refine ⟨?_, List.pairwise_cons.mpr ⟨afterOthers, othersApart⟩, ?_⟩
        · refine List.forall_mem_cons.mpr ⟨⟨lastAccepted.positive, ?_, accepted.word⟩, others⟩
          dsimp only
          omega
        · exact List.forall_mem_cons.mpr ⟨lastStarted, othersStarted⟩
      · exact ⟨merging.accepted, merging.apart, started⟩
      · refine ⟨List.forall_mem_cons.mpr ⟨accepted, merging.accepted⟩, ?_,
          List.forall_mem_cons.mpr ⟨le_rfl, started⟩⟩
        have afterLast : last.hi < next.lo := by omega
        refine List.pairwise_cons.mpr ⟨?_, merging.apart⟩
        refine List.forall_mem_cons.mpr ⟨afterLast, ?_⟩
        intro earlier member
        have := afterOthers earlier member
        omega

theorem union_mergeRange (merging : Merging out bound) (ordered : bound ≤ next.lo) :
    union (mergeRange out next) = union out ∪ next.numbers := by
  cases out with
  | nil => simp [mergeRange]
  | cons last before =>
      have started := merging.started last List.mem_cons_self
      unfold mergeRange
      dsimp only
      ext serial
      split_ifs with touches longer
      · simp only [Span.union_cons, Finset.mem_union, Span.mem_numbers]
        constructor
        · rintro (⟨low, high⟩ | covered)
          · rcases Nat.lt_or_ge last.hi serial with after | within
            · exact .inr ⟨by omega, high⟩
            · exact .inl (.inl ⟨low, within⟩)
          · exact .inl (.inr covered)
        · rintro ((⟨low, high⟩ | covered) | ⟨low, high⟩)
          · exact .inl ⟨low, by omega⟩
          · exact .inr covered
          · exact .inl ⟨by omega, high⟩
      · simp only [Span.union_cons, Finset.mem_union, Span.mem_numbers]
        constructor
        · exact .inl
        · rintro (covered | ⟨low, high⟩)
          · exact covered
          · exact .inl ⟨by omega, by omega⟩
      · simp only [Span.union_cons, Finset.mem_union]
        tauto

variable {ranges : List Span}

theorem foldl_mergeRange (merging : Merging out bound)
    (sorted : ranges.Pairwise fun first second => first.lo ≤ second.lo)
    (ordered : ∀ range ∈ ranges, bound ≤ range.lo) (accepted : ∀ range ∈ ranges, Accepted range) :
    (∃ last, Merging (ranges.foldl mergeRange out) last) ∧
      union (ranges.foldl mergeRange out) = union out ∪ union ranges := by
  induction ranges generalizing out bound with
  | nil => exact ⟨⟨bound, merging⟩, by simp⟩
  | cons next rest ih =>
      obtain ⟨nextOrdered, -⟩ := List.forall_mem_cons.mp ordered
      obtain ⟨nextAccepted, restAccepted⟩ := List.forall_mem_cons.mp accepted
      obtain ⟨restOrdered, restSorted⟩ := List.pairwise_cons.mp sorted
      obtain ⟨merged, kept⟩ := ih (merging.mergeRange nextOrdered nextAccepted)
        restSorted restOrdered restAccepted
      refine ⟨merged, ?_⟩
      rw [List.foldl_cons, kept, union_mergeRange merging nextOrdered, Span.union_cons,
        Finset.union_assoc]

/-- What merging accepted ranges gives, in one statement: merged ranges with the
same serials. -/
theorem mergeSerialRanges_spec (accepted : ∀ range ∈ ranges, Accepted range) :
    Merged (mergeSerialRanges ranges) ∧ union (mergeSerialRanges ranges) = union ranges := by
  have permuted := List.perm_insertionSort (fun first second : Span => first.lo ≤ second.lo) ranges
  have total : Std.Total fun first second : Span => first.lo ≤ second.lo :=
    ⟨fun first second => Nat.le_total first.lo second.lo⟩
  have transitive : IsTrans Span fun first second => first.lo ≤ second.lo :=
    ⟨fun _ _ _ => Nat.le_trans⟩
  have start : Merging [] 0 := ⟨by simp, .nil, by simp⟩
  obtain ⟨⟨last, merging⟩, kept⟩ := foldl_mergeRange start
    (List.pairwise_insertionSort (fun first second : Span => first.lo ≤ second.lo) ranges)
    (fun _ _ => Nat.zero_le _)
    (fun range member => accepted range (permuted.mem_iff.mp member))
  constructor
  · unfold mergeSerialRanges
    refine ⟨⟨?_, List.pairwise_reverse.mpr merging.apart⟩, ?_, ?_⟩
    · intro range member
      exact (merging.accepted range (List.mem_reverse.mp member)).nonempty
    · intro range member
      exact (merging.accepted range (List.mem_reverse.mp member)).positive
    · intro range member
      exact (merging.accepted range (List.mem_reverse.mp member)).word
  · rw [mergeSerialRanges, Span.union_perm (List.reverse_perm _), kept, Span.union_nil,
      Finset.empty_union, Span.union_perm permuted]

theorem Merging.gaps (merging : Merging out bound) (accepted : Accepted next)
    (gaps : out.Pairwise fun later earlier => earlier.hi + 1 < later.lo) :
    (Sshkrl.mergeRange out next).Pairwise fun later earlier => earlier.hi + 1 < later.lo := by
  cases out with
  | nil => exact List.pairwise_singleton _ _
  | cons last before =>
      obtain ⟨afterOthers, othersApart⟩ := List.pairwise_cons.mp gaps
      have lastAccepted := merging.accepted last List.mem_cons_self
      have lastNonempty := lastAccepted.nonempty
      have lastWord := lastAccepted.word
      have nonempty := accepted.nonempty
      have word := accepted.word
      unfold Sshkrl.mergeRange
      dsimp only
      split_ifs with touches longer
      · exact List.pairwise_cons.mpr ⟨afterOthers, othersApart⟩
      · exact gaps
      · -- a range that ends with the last word leaves no room for the next one
        unfold maxUint64 at touches
        have afterLast : last.hi + 1 < next.lo := by omega
        refine List.pairwise_cons.mpr ⟨?_, gaps⟩
        refine List.forall_mem_cons.mpr ⟨afterLast, ?_⟩
        intro earlier member
        have := afterOthers earlier member
        omega

theorem gaps_mergeSerialRanges (accepted : ∀ range ∈ ranges, Accepted range) :
    (mergeSerialRanges ranges).Pairwise fun earlier later => earlier.hi + 1 < later.lo := by
  have total : Std.Total fun first second : Span => first.lo ≤ second.lo :=
    ⟨fun first second => Nat.le_total first.lo second.lo⟩
  have transitive : IsTrans Span fun first second => first.lo ≤ second.lo :=
    ⟨fun _ _ _ => Nat.le_trans⟩
  have permuted := List.perm_insertionSort (fun first second : Span => first.lo ≤ second.lo) ranges
  have fold : ∀ (rest out : List Span) (bound : Nat), Merging out bound →
      (rest.Pairwise fun first second => first.lo ≤ second.lo) →
      (∀ range ∈ rest, bound ≤ range.lo) → (∀ range ∈ rest, Accepted range) →
      (out.Pairwise fun later earlier => earlier.hi + 1 < later.lo) →
        (rest.foldl mergeRange out).Pairwise fun later earlier => earlier.hi + 1 < later.lo := by
    intro rest
    induction rest with
    | nil => exact fun out bound _ _ _ _ gaps => gaps
    | cons next rest ih =>
        intro out bound merging sorted ordered accepted gaps
        obtain ⟨nextOrdered, -⟩ := List.forall_mem_cons.mp ordered
        obtain ⟨nextAccepted, restAccepted⟩ := List.forall_mem_cons.mp accepted
        obtain ⟨restOrdered, restSorted⟩ := List.pairwise_cons.mp sorted
        exact ih _ next.lo (merging.mergeRange nextOrdered nextAccepted) restSorted
          restOrdered restAccepted (merging.gaps nextAccepted gaps)
  refine List.pairwise_reverse.mpr (fold _ [] 0 ⟨by simp, .nil, by simp⟩
    (List.pairwise_insertionSort (fun first second : Span => first.lo ≤ second.lo) ranges)
    (fun _ _ => Nat.zero_le _) (fun range member => accepted range (permuted.mem_iff.mp member))
    .nil)

def saturatingAdd (first second : Nat) : Nat :=
  if 2 ^ 64 ≤ first + second then maxUint64 else first + second

theorem saturatingAdd_eq (first second : Nat) :
    saturatingAdd first second = min (first + second) maxUint64 := by
  unfold saturatingAdd maxUint64
  split_ifs with carries
  · omega
  · omega

/-- The sweep over one wanted range up to `hi`, from the serial `lo` on: the
total and the covering ranges that are left for the next one. -/
def uncoveredRange (hi : Nat) : Nat → Nat → List Span → Nat × List Span
  | lo, total, [] =>
      if lo ≤ hi then (saturatingAdd total ((hi - lo + 1) % 2 ^ 64), []) else (total, [])
  | lo, total, cover :: rest =>
      if lo ≤ hi then
        if cover.hi < lo then uncoveredRange hi lo total rest
        else if hi < cover.lo then
          (saturatingAdd total ((hi - lo + 1) % 2 ^ 64), cover :: rest)
        else
          let total := if lo < cover.lo then saturatingAdd total (cover.lo - lo) else total
          if hi ≤ cover.hi then (total, cover :: rest)
          -- The next round starts after this covering range and skips it.
          else uncoveredRange hi ((cover.hi + 1) % 2 ^ 64) total rest
      else (total, cover :: rest)

def uncoveredSerials (want covering : List Span) : Nat :=
  (want.foldl
    (fun (swept : Nat × List Span) range => uncoveredRange range.hi range.lo swept.1 swept.2)
    (0, covering)).1

/-- The covering ranges that are left cover all that comes later. -/
structure Left (hi : Nat) (covering rest : List Span) : Prop where
  suffix : rest <:+ covering
  covers : ∀ serial, hi < serial → (serial ∈ union rest ↔ serial ∈ union covering)

theorem Left.refl (hi : Nat) (covering : List Span) : Left hi covering covering where
  suffix := List.suffix_refl covering
  covers _ _ := Iff.rfl

variable {covering : List Span}

variable {rest : List Span}

theorem Left.pass {hi : Nat} {cover : Span} (left : Left hi covering rest) (below : cover.hi ≤ hi) :
    Left hi (cover :: covering) rest where
  suffix := left.suffix.trans (List.suffix_cons cover covering)
  covers serial later := by
    rw [left.covers serial later, Span.union_cons, Finset.mem_union, Span.mem_numbers]
    constructor
    · exact .inr
    · rintro (⟨-, high⟩ | covered)
      · omega
      · exact covered

theorem Left.trans {hi later : Nat} {last : List Span} (first : Left hi covering rest)
    (second : Left later rest last) (ordered : hi ≤ later) :
    Left later covering last where
  suffix := second.suffix.trans first.suffix
  covers serial above := by
    rw [second.covers serial above, first.covers serial (by omega)]

theorem Left.outside_eq {hi low high : Nat} (left : Left hi covering rest) (later : hi < low) :
    outside low high rest = outside low high covering := by
  ext serial
  rw [Span.mem_outside, Span.mem_outside]
  refine and_congr_right ?_
  rintro ⟨fromLow, -⟩
  rw [left.covers serial (by omega)]

theorem add_before {lo start total : Nat} (bounded : total ≤ maxUint64) :
    (if lo < start then saturatingAdd total (start - lo) else total) =
      min (total + (start - lo)) maxUint64 := by
  split_ifs with before
  · rw [saturatingAdd_eq]
  · omega

/-- The sweep counts the serials of the range outside the covering ranges. -/
theorem uncoveredRange_spec {hi lo total : Nat} (ascending : Ascending covering) (positive : 0 < lo)
    (nonempty : lo ≤ hi) (word : hi < 2 ^ 64) (bounded : total ≤ maxUint64) :
    (uncoveredRange hi lo total covering).1 =
        min (total + (outside lo hi covering).card) maxUint64 ∧
      Left hi covering (uncoveredRange hi lo total covering).2 := by
  induction covering generalizing lo total with
  | nil =>
      have length : (hi - lo + 1) % 2 ^ 64 = hi + 1 - lo := by
        rw [Nat.mod_eq_of_lt (by omega)]
        omega
      rw [uncoveredRange, if_pos nonempty, saturatingAdd_eq, length,
        Span.card_outside_of_above (by simp)]
      exact ⟨rfl, Left.refl hi []⟩
  | cons cover rest ih =>
      have coverNonempty := ascending.nonempty cover List.mem_cons_self
      rw [uncoveredRange, if_pos nonempty, add_before bounded]
      dsimp only
      split_ifs with below above reaches
      · obtain ⟨count, left⟩ := ih ascending.tail positive nonempty bounded
        rw [count, Span.outside_of_below below]
        exact ⟨rfl, left.pass (by omega)⟩
      · have length : (hi - lo + 1) % 2 ^ 64 = hi + 1 - lo := by
          rw [Nat.mod_eq_of_lt (by omega)]
          omega
        have laterAbove : ∀ span ∈ cover :: rest, hi < span.lo := by
          refine List.forall_mem_cons.mpr ⟨above, ?_⟩
          intro later member
          have := List.rel_of_pairwise_cons ascending.apart member
          omega
        rw [saturatingAdd_eq, length, Span.card_outside_of_above laterAbove]
        exact ⟨rfl, Left.refl hi _⟩
      · rw [Span.card_outside_of_reaches ascending (by omega) reaches]
        exact ⟨rfl, Left.refl hi _⟩
      · have next : (cover.hi + 1) % 2 ^ 64 = cover.hi + 1 := Nat.mod_eq_of_lt (by omega)
        rw [next]
        have afterCover : 0 < cover.hi + 1 := Nat.succ_pos _
        obtain ⟨count, left⟩ := ih ascending.tail afterCover (by omega)
          (Nat.min_le_right (total + (cover.lo - lo)) maxUint64)
        rw [count, Span.card_outside_of_inside ascending (by omega) (by omega)]
        exact ⟨by omega, left.pass (by omega)⟩

theorem foldl_uncoveredRange {want : List Span} {hi total : Nat} (merged : Merged want)
    (ascending : Ascending covering) (left : Left hi covering rest)
    (later : ∀ range ∈ want, hi < range.lo) (bounded : total ≤ maxUint64) :
    (want.foldl
        (fun (swept : Nat × List Span) range => uncoveredRange range.hi range.lo swept.1 swept.2)
        (total, rest)).1 =
      min (total + (want.map fun range => (outside range.lo range.hi covering).card).sum)
        maxUint64 := by
  induction want generalizing hi total rest with
  | nil => simpa using bounded
  | cons first others ih =>
      obtain ⟨positive, othersPositive⟩ := List.forall_mem_cons.mp merged.positive
      obtain ⟨word, othersWord⟩ := List.forall_mem_cons.mp merged.word
      have nonempty := merged.nonempty first List.mem_cons_self
      have firstLater := later first List.mem_cons_self
      obtain ⟨count, next⟩ := uncoveredRange_spec (ascending.suffix left.suffix) positive nonempty
        word bounded
      have othersLater : ∀ range ∈ others, first.hi < range.lo :=
        fun range member => List.rel_of_pairwise_cons merged.apart member
      rw [List.foldl_cons, ih ⟨merged.toAscending.tail, othersPositive, othersWord⟩
        (left.trans next (by omega)) othersLater (count ▸ Nat.min_le_right _ _), count,
        left.outside_eq firstLater, List.map_cons, List.sum_cons]
      omega

theorem uncoveredSerials_eq {want : List Span} (merged : Merged want)
    (ascending : Ascending covering) :
    uncoveredSerials want covering = min (union want \ union covering).card maxUint64 := by
  rw [uncoveredSerials, foldl_uncoveredRange merged ascending (Left.refl 0 covering)
    merged.positive (Nat.zero_le _), Nat.zero_add, Span.card_union_sdiff merged.toAscending]

end Trstctl.Sshkrl
