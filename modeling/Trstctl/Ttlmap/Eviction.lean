import Mathlib.Algebra.Order.Group.Int
import Mathlib.Data.List.Lex
import Mathlib.Data.List.Nodup
import Mathlib.Data.Prod.Lex
import Trstctl.Go.Time

/-!
# Bounded eviction

`MakeRoom` of `internal/ttlmap/ttlmap.go`.  The language leaves the order open
in which a map is ranged over, and each loop may have its own: the order of the
`n`-th loop is the `n`-th of a sequence.  Ranks are instants without a monotonic
reading.
-/

namespace Trstctl.Ttlmap

open Go (Bytes Map MapOrder Time MapOf)

structure Policy (Entry : Type) where
  capacity : Int
  expired : Entry → Time → Bool
  rank : Entry → Time
  sweepBelowCapacity : Bool

variable {Entry : Type}

/-- The bindings of a map in the order in which it is ranged over. -/
def ranged (order : MapOrder) (entries : Map Entry) : List (Bytes × Entry) :=
  (order.arrange entries.keys).filterMap fun key =>
    (entries.lookup key).map fun entry => (key, entry)

/-- The loop that deletes expired entries. -/
def sweep (order : MapOrder) (entries : Map Entry) (now : Time) (policy : Policy Entry) :
    Map Entry :=
  (ranged order entries).foldl
    (fun entries binding =>
      if policy.expired binding.2 now then MapOf.delete entries binding.1 else entries)
    entries

/-- One step of the search for a victim, which is `none` until one is found. -/
def compare (policy : Policy Entry) (victim : Option (Bytes × Time)) (binding : Bytes × Entry) :
    Option (Bytes × Time) :=
  let rank := policy.rank binding.2
  match victim with
  | none => some (binding.1, rank)
  | some (victimKey, victimRank) =>
      if rank.before victimRank ∨ (rank = victimRank ∧ binding.1 < victimKey) then
        some (binding.1, rank)
      else victim

/-- The loop that searches for a victim. -/
def findVictim (order : MapOrder) (policy : Policy Entry) (entries : Map Entry) :
    Option (Bytes × Time) :=
  (ranged order entries).foldl (compare policy) none

/-- What a victim is chosen by: rank, then key. -/
def standing (policy : Policy Entry) (binding : Bytes × Entry) : Int ×ₗ List Nat :=
  toLex ((policy.rank binding.2).nanoseconds, binding.1.map UInt8.toNat)

variable {entries : Map Entry}

theorem lookup_eq_some_of_mem (distinct : entries.keys.Nodup) {binding : Bytes × Entry}
    (member : binding ∈ entries) :
    entries.lookup binding.1 = some binding.2 :=
  (MapOf.lookup_eq_some_iff distinct).mpr member

theorem ranged_perm (order : MapOrder) (distinct : entries.keys.Nodup) :
    (ranged order entries).Perm entries := by
  have listed : entries.keys.filterMap (fun key =>
      (entries.lookup key).map fun entry => (key, entry)) = entries := by
    rw [Map.keys, List.filterMap_map]
    calc entries.filterMap _ = entries.filterMap some := by
          refine List.filterMap_congr fun binding member => ?_
          simp [lookup_eq_some_of_mem distinct member]
      _ = entries := List.filterMap_some
  exact ((order.perm entries.keys).filterMap _).trans (List.Perm.of_eq listed)

theorem eq_of_key_eq (distinct : entries.keys.Nodup) {binding other : Bytes × Entry}
    (member : binding ∈ entries) (otherMember : other ∈ entries) (same : binding.1 = other.1) :
    binding = other :=
  List.inj_on_of_nodup_map distinct member otherMember same

/-- The entries that have not expired. -/
def unexpired (entries : Map Entry) (now : Time) (policy : Policy Entry) : Map Entry :=
  entries.filter fun binding => !policy.expired binding.2 now

theorem foldl_delete (now : Time) (policy : Policy Entry) (visited : List (Bytes × Entry))
    (entries : Map Entry) :
    visited.foldl
        (fun entries binding =>
          if policy.expired binding.2 now then MapOf.delete entries binding.1 else entries)
        entries =
      entries.filter fun binding =>
        !visited.any fun seen => policy.expired seen.2 now && seen.1 == binding.1 := by
  induction visited generalizing entries with
  | nil => simp
  | cons seen visited ih =>
      rw [List.foldl_cons, ih]
      cases expired : policy.expired seen.2 now with
      | true =>
          rw [if_pos rfl, MapOf.delete, List.filter_filter]
          refine List.filter_congr fun binding _ => ?_
          simp only [List.any_cons, expired, Bool.true_and, Bool.not_or, bne, Bool.and_comm,
            BEq.comm (a := seen.1)]
      | false => simp [expired]

theorem sweep_eq (order : MapOrder) (distinct : entries.keys.Nodup) (now : Time)
    (policy : Policy Entry) :
    sweep order entries now policy = unexpired entries now policy := by
  rw [sweep, foldl_delete, unexpired]
  refine List.filter_congr fun binding member => ?_
  congr 1
  rw [Bool.eq_iff_iff, List.any_eq_true]
  constructor
  · rintro ⟨seen, visited, found⟩
    rw [Bool.and_eq_true, beq_iff_eq] at found
    rw [← eq_of_key_eq distinct ((ranged_perm order distinct).mem_iff.mp visited) member found.2]
    exact found.1
  · intro expired
    exact ⟨binding, (ranged_perm order distinct).mem_iff.mpr member, by simp [expired]⟩

variable (policy : Policy Entry)

theorem standing_injective (distinct : entries.keys.Nodup) {binding other : Bytes × Entry}
    (member : binding ∈ entries) (otherMember : other ∈ entries)
    (same : standing policy binding = standing policy other) :
    binding = other :=
  eq_of_key_eq distinct member otherMember
    (Go.map_toNat_injective (Prod.mk.inj (toLex_inj.mp same)).2)

theorem compare_some (victim binding : Bytes × Entry) :
    compare policy (some (victim.1, policy.rank victim.2)) binding =
      if standing policy binding < standing policy victim then
        some (binding.1, policy.rank binding.2)
      else some (victim.1, policy.rank victim.2) := by
  rw [compare]
  refine if_congr ?_ rfl rfl
  rw [standing, standing, Prod.Lex.toLex_lt_toLex, Time.before, decide_eq_true_iff,
    Go.map_toNat_lt_iff]
  refine or_congr_right (and_congr_left fun _ => ?_)
  exact ⟨congrArg Time.nanoseconds, fun same => congrArg Time.mk same⟩

theorem foldl_compare (visited : List (Bytes × Entry)) (first : Bytes × Entry) :
    ∃ victim ∈ first :: visited,
      visited.foldl (compare policy) (some (first.1, policy.rank first.2)) =
        some (victim.1, policy.rank victim.2) ∧
      ∀ other ∈ first :: visited, standing policy victim ≤ standing policy other := by
  induction visited generalizing first with
  | nil => exact ⟨first, List.mem_singleton_self first, rfl, fun other member =>
      (List.mem_singleton.mp member) ▸ le_rfl⟩
  | cons binding visited ih =>
      rw [List.foldl_cons, compare_some]
      by_cases lower : standing policy binding < standing policy first
      · rw [if_pos lower]
        obtain ⟨victim, member, found, least⟩ := ih binding
        refine ⟨victim, List.mem_cons_of_mem _ member, found, List.forall_mem_cons.mpr ⟨?_, least⟩⟩
        exact (least binding List.mem_cons_self).trans lower.le
      · rw [if_neg lower]
        obtain ⟨victim, member, found, least⟩ := ih first
        have parts := List.forall_mem_cons.mp least
        refine ⟨victim, ?_, found, List.forall_mem_cons.mpr ⟨parts.1,
          List.forall_mem_cons.mpr ⟨parts.1.trans (not_lt.mp lower), parts.2⟩⟩⟩
        rcases List.mem_cons.mp member with rfl | later
        · exact List.mem_cons_self
        · exact List.mem_cons_of_mem _ (List.mem_cons_of_mem _ later)

theorem findVictim_spec (order : MapOrder) (policy : Policy Entry) (distinct : entries.keys.Nodup)
    (nonempty : entries ≠ []) :
    ∃ victim ∈ entries, findVictim order policy entries = some (victim.1, policy.rank victim.2) ∧
      ∀ other ∈ entries, standing policy victim ≤ standing policy other := by
  have visited := ranged_perm order distinct
  rw [findVictim]
  rcases listed : ranged order entries with _ | ⟨first, rest⟩
  · rw [listed] at visited
    exact absurd visited.nil_eq.symm nonempty
  · rw [listed] at visited
    obtain ⟨victim, member, found, least⟩ := foldl_compare policy rest first
    exact ⟨victim, visited.mem_iff.mp member, found,
      fun other otherMember => least other (visited.mem_iff.mpr otherMember)⟩

theorem findVictim_mem_keys {order : MapOrder} {policy : Policy Entry} {key : Bytes} {rank : Time}
    (found : findVictim order policy entries = some (key, rank)) :
    key ∈ entries.keys := by
  rw [findVictim] at found
  rcases listed : ranged order entries with _ | ⟨first, rest⟩
  · rw [listed] at found
    cases found
  · rw [listed] at found
    obtain ⟨victim, member, same, -⟩ := foldl_compare policy rest first
    have visited : victim ∈ ranged order entries := listed ▸ member
    obtain ⟨visitedKey, arranged, bound⟩ := List.mem_filterMap.mp visited
    obtain ⟨entry, -, rfl⟩ := Option.map_eq_some_iff.mp bound
    rw [List.foldl_cons] at found
    obtain ⟨rfl, -⟩ := Prod.mk.inj (Option.some.inj (same.symm.trans found))
    exact (order.perm entries.keys).mem_iff.mp arranged

/-- The loop that deletes victims while the map is full. -/
def evict (orders : Nat → MapOrder) (policy : Policy Entry) (entries : Map Entry) : Map Entry :=
  if entries.length < policy.capacity then entries
  else
    match found : findVictim (orders 0) policy entries with
    | none => entries
    | some (victimKey, _) =>
        evict (fun loop => orders (loop + 1)) policy (MapOf.delete entries victimKey)
termination_by entries.length
decreasing_by
  obtain ⟨binding, member, rfl⟩ := List.mem_map.mp (findVictim_mem_keys found)
  exact List.length_filter_lt_length_iff_exists.mpr ⟨binding, member, by simp⟩

/-- Room for one more entry. -/
def makeRoom (orders : Nat → MapOrder) (entries : Map Entry) (now : Time) (policy : Policy Entry) :
    Map Entry :=
  if entries.length < policy.capacity ∧ policy.sweepBelowCapacity = false then entries
  else evict (fun loop => orders (loop + 1)) policy (sweep (orders 0) entries now policy)

/-- The bindings of the greatest standing, so many of them. -/
structure Greatest (policy : Policy Entry) (count : Nat) (entries kept : Map Entry) : Prop where
  sublist : kept.Sublist entries
  length_eq : kept.length = count
  above : ∀ binding ∈ kept, ∀ other ∈ entries, other ∉ kept →
    standing policy other < standing policy binding

theorem nodup_delete (distinct : entries.keys.Nodup) (key : Bytes) :
    Map.keys (MapOf.delete entries key) |>.Nodup :=
  distinct.sublist (List.filter_sublist.map Prod.fst)

theorem length_delete (distinct : entries.keys.Nodup) {victim : Bytes × Entry}
    (member : victim ∈ entries) :
    (MapOf.delete entries victim.1).length + 1 = entries.length := by
  have single : (entries.filter fun binding => binding.1 == victim.1).Perm [victim] := by
    refine (List.perm_ext_iff_of_nodup (distinct.of_map.filter _) (List.nodup_singleton _)).mpr
      fun binding => ?_
    rw [List.mem_filter, List.mem_singleton, beq_iff_eq]
    constructor
    · exact fun found => eq_of_key_eq distinct found.1 member found.2
    · rintro rfl
      exact ⟨member, rfl⟩
  have parts := entries.length_eq_length_filter_add fun binding => binding.1 == victim.1
  rw [single.length_eq, List.length_singleton] at parts
  rw [MapOf.delete]
  simp only [bne]
  omega

/-- A full map loses the lowest standing until it has room for one more. -/
theorem evict_spec {policy : Policy Entry} (positive : 1 ≤ policy.capacity)
    (orders : Nat → MapOrder) (distinct : entries.keys.Nodup)
    (full : policy.capacity ≤ entries.length) :
    Greatest policy (policy.capacity - 1).toNat entries (evict orders policy entries) := by
  induction count : entries.length generalizing orders entries with
  | zero => omega
  | succ count ih =>
      obtain ⟨victim, member, found, least⟩ := findVictim_spec (orders 0) policy distinct
        (List.ne_nil_of_length_pos (by omega))
      have shorter := length_delete distinct member
      have distinctRest := nodup_delete distinct victim.1
      have below : ∀ other ∈ MapOf.delete entries victim.1,
          standing policy victim < standing policy other := by
        intro other kept
        obtain ⟨inside, different⟩ := List.mem_filter.mp kept
        refine lt_of_le_of_ne (least other inside) fun same => ?_
        have equal := standing_injective policy distinct member inside same
        exact bne_iff_ne.mp different (congrArg Prod.fst equal).symm
      rw [evict, if_neg (by omega)]
      split
      · rename_i missing
        rw [found] at missing
        cases missing
      · rename_i victimKey rank chosen
        obtain ⟨rfl, -⟩ := Prod.mk.inj (Option.some.inj (found.symm.trans chosen))
        have spared : ∀ other ∈ entries, other ∉ MapOf.delete entries victim.1 →
            other = victim := by
          intro other inside gone
          refine eq_of_key_eq distinct inside member ?_
          by_contra different
          exact gone (List.mem_filter.mpr ⟨inside, bne_iff_ne.mpr different⟩)
        by_cases still : policy.capacity ≤ (MapOf.delete entries victim.1).length
        · have rest := ih (fun loop => orders (loop + 1)) distinctRest still
            (by omega)
          refine ⟨rest.sublist.trans List.filter_sublist, rest.length_eq, ?_⟩
          intro binding kept other inside gone
          by_cases spare : other ∈ MapOf.delete entries victim.1
          · exact rest.above binding kept other spare gone
          · rw [spared other inside spare]
            exact below binding (rest.sublist.subset kept)
        · rw [evict, if_pos (by omega)]
          refine ⟨List.filter_sublist, by omega, ?_⟩
          intro binding kept other inside gone
          rw [spared other inside gone]
          exact below binding kept

theorem findVictim_eq (order other : MapOrder) (policy : Policy Entry)
    (distinct : entries.keys.Nodup) :
    findVictim order policy entries = findVictim other policy entries := by
  by_cases empty : entries = []
  · have none (order : MapOrder) : findVictim order policy ([] : Map Entry) = none := by
      have visited : (ranged order ([] : Map Entry)).Perm [] := ranged_perm order List.nodup_nil
      rw [findVictim, visited.eq_nil]
      rfl
    rw [empty, none, none]
  · obtain ⟨victim, member, found, least⟩ := findVictim_spec order policy distinct empty
    obtain ⟨second, secondMember, secondFound, secondLeast⟩ :=
      findVictim_spec other policy distinct empty
    have same := standing_injective policy distinct member secondMember
      (le_antisymm (least second secondMember) (secondLeast victim member))
    rw [found, secondFound, same]

theorem evict_eq (orders others : Nat → MapOrder) (distinct : entries.keys.Nodup) :
    evict orders policy entries = evict others policy entries := by
  fun_induction evict orders policy entries generalizing others with
  | case1 orders entries room => rw [evict, if_pos room]
  | case2 orders entries full found =>
      rw [evict, if_neg full]
      split
      · rfl
      · rename_i chosen
        rw [← findVictim_eq (orders 0) (others 0) policy distinct, found] at chosen
        cases chosen
  | case3 orders entries full victimKey rank found ih =>
      rw [evict.eq_def others, if_neg full]
      split
      · rename_i chosen
        rw [← findVictim_eq (orders 0) (others 0) policy distinct, found] at chosen
        cases chosen
      · rename_i otherKey otherRank chosen
        rw [← findVictim_eq (orders 0) (others 0) policy distinct, found] at chosen
        obtain ⟨rfl, -⟩ := Prod.mk.inj (Option.some.inj chosen)
        exact ih _ (nodup_delete distinct victimKey)

/-- `MakeRoom` leaves a map below capacity alone unless a sweep is asked for,
and else leaves the entries that have not expired, or one fewer than the
capacity of them, those of the greatest rank and then key; the order in which
the map is ranged over changes nothing. -/
theorem makeRoom_exact
    (orders : Nat → MapOrder)
    (entries : Map Entry)
    (distinct : entries.keys.Nodup)
    (now : Time)
    (policy : Policy Entry)
    (positive : 1 ≤ policy.capacity) :
    (entries.length < policy.capacity → policy.sweepBelowCapacity = false →
        makeRoom orders entries now policy = entries) ∧
      (policy.capacity ≤ entries.length ∨ policy.sweepBelowCapacity = true →
        ((unexpired entries now policy).length < policy.capacity →
          makeRoom orders entries now policy = unexpired entries now policy) ∧
        (policy.capacity ≤ (unexpired entries now policy).length →
          Greatest policy (policy.capacity - 1).toNat (unexpired entries now policy)
            (makeRoom orders entries now policy))) ∧
      ∀ others, makeRoom others entries now policy = makeRoom orders entries now policy := by
  have distinctLive : (unexpired entries now policy).keys.Nodup :=
    distinct.sublist (List.filter_sublist.map Prod.fst)
  refine ⟨fun room calm => by rw [makeRoom, if_pos ⟨room, calm⟩], fun asked => ?_, fun others => ?_⟩
  · have swept : makeRoom orders entries now policy =
        evict (fun loop => orders (loop + 1)) policy (unexpired entries now policy) := by
      rw [makeRoom, if_neg, sweep_eq (orders 0) distinct]
      rintro ⟨room, calm⟩
      rcases asked with full | sweeping
      · omega
      · rw [calm] at sweeping
        cases sweeping
    rw [swept]
    refine ⟨fun room => ?_, fun full => evict_spec positive _ distinctLive full⟩
    rw [evict, if_pos room]
  · rw [makeRoom, makeRoom]
    split
    · rfl
    · rw [sweep_eq (others 0) distinct, sweep_eq (orders 0) distinct]
      exact evict_eq policy _ _ distinctLive

/-- A policy for three entries that rank by themselves and never expire. -/
def threePolicy : Policy Time where
  capacity := 3
  expired _ _ := false
  rank entry := entry
  sweepBelowCapacity := false

/-- Three entries, two of them of one rank. -/
def threeEntries : Map Time :=
  [([1], ⟨5⟩), ([2], ⟨4⟩), ([3], ⟨4⟩)]

/-- The two greatest of the three entries stay. -/
theorem makeRoom_exact_three :
    Greatest threePolicy 2 threeEntries
      (makeRoom (fun _ => MapOrder.listed) threeEntries ⟨0⟩ threePolicy) :=
  ((makeRoom_exact (fun _ => MapOrder.listed) threeEntries (by decide) ⟨0⟩ threePolicy
    (by decide)).2.1 (Or.inl (by decide))).2 (by decide)

end Trstctl.Ttlmap
