import Mathlib.Data.List.Sort
import Trstctl.Go.Encoding
import Trstctl.Library.Ascent

/-!
# Trees of scopes

The delegation trees of `internal/succession/delegation/delegation.go`: scopes
with a parent and an epoch floor.  The effective floor of a scope is the
greatest on its path to the root, so it does not fall when scopes are added and
floors are raised.  `RaiseConstraint` writes the new floor of a scope without
comparing it with the old one, and before the walk over the identities that may
fail.  A floor that is lowered loosens the tree unless an ancestor holds the old
floor up, and an error leaves the written floor behind.
-/

namespace Trstctl.Succession.Delegation

open Go (Bytes bytes)

/-- `Scope`, with the epoch floor of its constraint.  The parent is empty for a
root. -/
structure Scope where
  id : Bytes
  parent : Bytes
  epochFloor : UInt64
deriving DecidableEq

/-- The scopes by identifier. -/
abbrev Tree := Go.Map Scope

def Tree.addScope (tree : Tree) (scope : Scope) : Tree :=
  tree.set scope.id scope

/-- The parent of a known scope. -/
def Tree.above (tree : Tree) (id : Bytes) : Option (Option Bytes) :=
  (tree.lookup id).map fun scope => if scope.parent = [] then none else some scope.parent

/-- `Tree.Path`, root first.  The loop visits no scope twice, so it ends after
as many steps as there are scopes. -/
def Tree.path (tree : Tree) (id : Bytes) : Except (ClimbError Bytes) (List Bytes) :=
  if id = [] then .ok [] else climb tree.above (tree.length + 1) [] id

/-- The floor of one scope. -/
def Tree.floor (tree : Tree) (id : Bytes) : UInt64 :=
  ((tree.lookup id).map Scope.epochFloor).getD 0

/-- The greatest floor of the scopes on a path, as the loop of `EffectiveFloor`
computes it. -/
def Tree.greatestFloor (tree : Tree) (path : List Bytes) : UInt64 :=
  path.foldl (fun floor id => if floor < tree.floor id then tree.floor id else floor) 0

/-- The highest floor on the way to the root. -/
def Tree.effectiveFloor (tree : Tree) (id : Bytes) : Except (ClimbError Bytes) UInt64 := do
  let path ← tree.path id
  return tree.greatestFloor path

theorem mem_keys_of_above {tree : Tree} {id : Bytes} (known : tree.above id ≠ none) :
    id ∈ tree.keys := by
  rw [Go.Map.mem_keys]
  unfold Tree.above at known
  cases found : tree.lookup id with
  | none =>
      rw [found] at known
      exact absurd rfl known
  | some scope => exact ⟨scope, rfl⟩

theorem length_keys (tree : Tree) : tree.keys.length = tree.length :=
  List.length_map ..

variable {path : List Bytes}

theorem path_eq_ok_iff {tree : Tree} {id : Bytes} (named : id ≠ []) :
    tree.path id = .ok path ↔ Ascends tree.above id path.reverse := by
  unfold Tree.path
  rw [if_neg named]
  constructor
  · intro climbed
    obtain ⟨ascent, ascends, -, rfl⟩ := ascends_of_climb climbed
    rwa [List.append_nil, List.reverse_reverse]
  · intro ascends
    have short := ascends.length_le fun _ => mem_keys_of_above
    rw [length_keys] at short
    rw [climb_of_ascends ascends (List.disjoint_nil_right _) (Nat.le_succ_of_le short),
      List.reverse_reverse, List.append_nil]

theorem foldl_floor_mono {tree later : Tree} {floor laterFloor : UInt64}
    (start : floor ≤ laterFloor) (raised : ∀ id ∈ path, tree.floor id ≤ later.floor id) :
    path.foldl (fun floor id => if floor < tree.floor id then tree.floor id else floor) floor ≤
      path.foldl (fun floor id => if floor < later.floor id then later.floor id else floor)
        laterFloor := by
  induction path generalizing floor laterFloor with
  | nil => exact start
  | cons id rest ih =>
      obtain ⟨first, others⟩ := List.forall_mem_cons.mp raised
      rw [List.foldl_cons, List.foldl_cons]
      apply ih _ others
      simp only [UInt64.le_iff_toNat_le, UInt64.lt_iff_toNat_lt] at *
      split <;> split <;> omega

/-- A tree that keeps the scopes of another with their parents, and floors that
are not lower. -/
def Tree.Tightens (tree later : Tree) : Prop :=
  ∀ id scope, tree.lookup id = some scope →
    ∃ laterScope, later.lookup id = some laterScope ∧ laterScope.parent = scope.parent ∧
      scope.epochFloor ≤ laterScope.epochFloor

namespace Tree.Tightens

variable {tree later : Tree}

theorem above_eq (tightens : tree.Tightens later) {id : Bytes} (known : tree.above id ≠ none) :
    later.above id = tree.above id := by
  unfold Tree.above at known ⊢
  cases found : tree.lookup id with
  | none =>
      rw [found] at known
      exact absurd rfl known
  | some scope =>
      obtain ⟨laterScope, laterFound, parent, -⟩ := tightens id scope found
      rw [laterFound, Option.map_some, Option.map_some, parent]

theorem floor_le (tightens : tree.Tightens later) (id : Bytes) :
    tree.floor id ≤ later.floor id := by
  unfold Tree.floor
  cases found : tree.lookup id with
  | none => exact UInt64.zero_le
  | some scope =>
      obtain ⟨laterScope, laterFound, -, raised⟩ := tightens id scope found
      rw [laterFound]
      exact raised

theorem path_eq (tightens : tree.Tightens later) {id : Bytes} {path : List Bytes}
    (resolves : tree.path id = .ok path) :
    later.path id = .ok path := by
  by_cases named : id = []
  · rw [named] at resolves ⊢
    exact resolves
  · rw [path_eq_ok_iff named] at resolves ⊢
    exact resolves.mono fun _ => tightens.above_eq

theorem effectiveFloor_le (tightens : tree.Tightens later) {id : Bytes} {floor : UInt64}
    (effective : tree.effectiveFloor id = .ok floor) :
    ∃ laterFloor, later.effectiveFloor id = .ok laterFloor ∧ floor ≤ laterFloor := by
  obtain ⟨path, resolves, returned⟩ := Result.bind_eq_ok.mp effective
  obtain rfl := Except.ok.inj returned
  refine ⟨later.greatestFloor path, ?_, ?_⟩
  · unfold Tree.effectiveFloor
    rw [tightens.path_eq resolves]
    rfl
  · exact foldl_floor_mono (UInt64.le_refl 0) fun id _ => tightens.floor_le id

end Tree.Tightens

/-- The scope and the epoch of an identity. -/
structure IdentityState where
  scope : Bytes
  epoch : UInt64

/-- `Tree.isDescendant`.  The loop visits no scope twice, so it ends after as
many steps as there are scopes. -/
def Tree.isDescendant (tree : Tree) (scope ancestor : Bytes) : Bool :=
  if scope = [] then false
  else meets tree.above ancestor (tree.length + 1) [] scope

/-- The loop of `RaiseConstraint` over the identities: those of the scope and
its descendants whose epoch is below the effective floor. -/
def Tree.forcedMigrations (tree : Tree) (id : Bytes) (identities : Go.Map IdentityState) :
    Except (ClimbError Bytes) (List Bytes) :=
  identities.foldlM (fun jobs (identityID, identity) =>
    if tree.isDescendant identity.scope id then do
      let floor ← tree.effectiveFloor identity.scope
      return if identity.epoch < floor then jobs ++ [identityID] else jobs
    else return jobs) []

/-- `Tree.RaiseConstraint`, with the tree it leaves. -/
def Tree.raiseConstraint (tree : Tree) (id : Bytes) (newFloor : UInt64)
    (identities : Go.Map IdentityState) :
    Tree × Except (ClimbError Bytes) (List Bytes) :=
  match tree.lookup id with
  | none => (tree, .error (.unknown id))
  | some scope =>
      let raised : Tree := tree.set id { scope with epochFloor := newFloor }
      (raised, do
        let jobs ← raised.forcedMigrations id identities
        return jobs.insertionSort (· ≤ ·))

variable {tree : Tree} {id : Bytes} {newFloor : UInt64}

theorem parent_ne_nil {child parent : Bytes} (up : tree.above child = some (some parent)) :
    parent ≠ [] := by
  obtain ⟨scope, -, isParent⟩ := Option.map_eq_some_iff.mp up
  split at isParent
  next => cases isParent
  next named => exact Option.some.inj isParent ▸ named

theorem ne_nil_of_isDescendant {scope ancestor : Bytes}
    (descends : tree.isDescendant scope ancestor = true) :
    scope ≠ [] ∧ ancestor ≠ [] := by
  unfold Tree.isDescendant at descends
  split at descends
  next => cases descends
  next named =>
    refine ⟨named, ?_⟩
    exact of_meets (fun node => node ≠ []) descends named fun _ _ => parent_ne_nil

theorem exists_path_iff (named : id ≠ []) :
    (∃ path, tree.path id = .ok path) ↔ ∃ path, Ascends tree.above id path := by
  constructor
  · rintro ⟨path, resolves⟩
    exact ⟨_, (path_eq_ok_iff named).mp resolves⟩
  · rintro ⟨path, ascends⟩
    refine ⟨path.reverse, (path_eq_ok_iff named).mpr ?_⟩
    rwa [List.reverse_reverse]

theorem exists_path_iff_of_isDescendant {scope ancestor : Bytes}
    (descends : tree.isDescendant scope ancestor = true) :
    (∃ path, tree.path scope = .ok path) ↔ ∃ path, tree.path ancestor = .ok path := by
  obtain ⟨named, ancestorNamed⟩ := ne_nil_of_isDescendant descends
  rw [exists_path_iff named, exists_path_iff ancestorNamed]
  rw [Tree.isDescendant, if_neg named] at descends
  exact exists_ascends_iff_of_meets descends

theorem foldl_floor_le_iff (path : List Bytes) (floor bound : UInt64) :
    path.foldl (fun floor id => if floor < tree.floor id then tree.floor id else floor) floor ≤
        bound ↔
      floor ≤ bound ∧ ∀ id ∈ path, tree.floor id ≤ bound := by
  induction path generalizing floor with
  | nil => simp
  | cons first rest ih =>
      rw [List.foldl_cons, ih, List.forall_mem_cons, ← and_assoc]
      refine and_congr_left fun _ => ?_
      simp only [UInt64.le_iff_toNat_le, UInt64.lt_iff_toNat_lt]
      split <;> omega

theorem greatestFloor_le_iff {bound : UInt64} :
    tree.greatestFloor path ≤ bound ↔ ∀ id ∈ path, tree.floor id ≤ bound := by
  rw [Tree.greatestFloor, foldl_floor_le_iff]
  exact and_iff_right UInt64.zero_le

theorem floor_le_greatestFloor (tree : Tree) (member : id ∈ path) :
    tree.floor id ≤ tree.greatestFloor path :=
  greatestFloor_le_iff.mp (UInt64.le_refl _) id member

theorem effectiveFloor_eq_ok_iff {floor : UInt64} :
    tree.effectiveFloor id = .ok floor ↔
      ∃ path, tree.path id = .ok path ∧ tree.greatestFloor path = floor := by
  unfold Tree.effectiveFloor
  rw [Result.bind_eq_ok]
  refine exists_congr fun path => and_congr_right fun _ => ?_
  exact ⟨Except.ok.inj, congrArg Except.ok⟩

section Raised

variable {scope : Scope} (known : tree.lookup id = some scope)

def Tree.raised (tree : Tree) (id : Bytes) (scope : Scope) (newFloor : UInt64) : Tree :=
  tree.set id { scope with epochFloor := newFloor }

include known

theorem above_raised : (tree.raised id scope newFloor).above = tree.above := by
  funext node
  unfold Tree.above Tree.raised
  rw [Go.MapOf.lookup_set]
  split
  next same =>
    rw [same, known]
    rfl
  next => rfl

theorem path_raised (node : Bytes) (path : List Bytes) :
    (tree.raised id scope newFloor).path node = .ok path ↔ tree.path node = .ok path := by
  by_cases named : node = []
  · rw [named]
    rfl
  · rw [path_eq_ok_iff named, path_eq_ok_iff named, above_raised known]

omit known in
theorem floor_raised (node : Bytes) :
    (tree.raised id scope newFloor).floor node =
      if node = id then newFloor else tree.floor node := by
  unfold Tree.floor Tree.raised
  rw [Go.MapOf.lookup_set]
  split
  next => rfl
  next => rfl

theorem length_raised_le : (tree.raised id scope newFloor).length ≤ tree.length := by
  have fewer : (tree.filter fun binding => binding.1 != id).length < tree.length := by
    rw [List.length_filter_lt_length_iff_exists]
    obtain ⟨before, after, split, -⟩ := List.lookup_eq_some_iff.mp known
    refine ⟨(id, scope), ?_, ?_⟩
    · rw [split]
      exact List.mem_append_right before List.mem_cons_self
    · simp
  exact fewer

theorem isDescendant_raised (node ancestor : Bytes) :
    (tree.raised id scope newFloor).isDescendant node ancestor =
      tree.isDescendant node ancestor := by
  have all : ∀ node, tree.above node ≠ none → node ∈ (tree.raised id scope newFloor).keys :=
    above_raised known ▸ fun _ => mem_keys_of_above
  have enough : (tree.raised id scope newFloor).keys.length <
      (tree.raised id scope newFloor).length + 1 := by
    rw [length_keys]
    exact Nat.lt_succ_self _
  rw [Tree.isDescendant, Tree.isDescendant, above_raised known,
    meets_of_le all enough (Nat.succ_le_succ (length_raised_le known))]

/-- The walk over the identities fails when one descends from a scope without a
path. -/
theorem exists_forcedMigrations_iff (identities : Go.Map IdentityState) :
    (∃ jobs, (tree.raised id scope newFloor).forcedMigrations id identities = .ok jobs) ↔
      ∀ binding ∈ identities, tree.isDescendant binding.2.scope id = true →
        ∃ path, tree.path id = .ok path := by
  refine Result.exists_foldlM_eq_ok_iff ?_ []
  rintro jobs ⟨identityID, identity⟩
  dsimp only
  rw [isDescendant_raised known]
  by_cases descends : tree.isDescendant identity.scope id = true
  · rw [if_pos descends]
    simp only [descends, forall_const]
    rw [← exists_path_iff_of_isDescendant descends]
    simp only [Result.bind_eq_ok, effectiveFloor_eq_ok_iff, path_raised known]
    constructor
    · rintro ⟨_, _, ⟨path, resolves, -⟩, -⟩
      exact ⟨path, resolves⟩
    · rintro ⟨path, resolves⟩
      exact ⟨_, _, ⟨path, resolves, rfl⟩, rfl⟩
  · rw [if_neg descends]
    exact ⟨fun _ isDescendant => absurd isDescendant descends, fun _ => ⟨jobs, rfl⟩⟩

theorem effectiveFloor_raised_le
    (held : ∀ node path, tree.path node = .ok path → id ∈ path →
      scope.epochFloor ≤ (tree.raised id scope newFloor).greatestFloor path)
    {node : Bytes} {floor : UInt64}
    (effective : tree.effectiveFloor node = .ok floor) :
    ∃ later, (tree.raised id scope newFloor).effectiveFloor node = .ok later ∧ floor ≤ later := by
  obtain ⟨path, resolves, rfl⟩ := effectiveFloor_eq_ok_iff.mp effective
  refine ⟨_, effectiveFloor_eq_ok_iff.mpr ⟨path, (path_raised known _ _).mpr resolves, rfl⟩, ?_⟩
  rw [greatestFloor_le_iff]
  intro member isMember
  by_cases same : member = id
  · subst same
    rw [Tree.floor, known]
    exact held node path resolves isMember
  · have kept := floor_le_greatestFloor (tree.raised id scope newFloor) isMember
    rwa [floor_raised, if_neg same] at kept

theorem path_parent (named : id ≠ []) {path : List Bytes} (resolves : tree.path id = .ok path) :
    ∃ front, path = front ++ [id] ∧ tree.path scope.parent = .ok front ∧ id ∉ front := by
  have ascends := (path_eq_ok_iff named).mp resolves
  have up : tree.above id = some (if scope.parent = [] then none else some scope.parent) := by
    rw [Tree.above, known]
    rfl
  by_cases root : scope.parent = []
  · rw [if_pos root] at up
    refine ⟨[], ?_, ?_, List.not_mem_nil⟩
    · rw [← List.reverse_reverse path, ascends.unique (.root up)]
      rfl
    · rw [root]
      rfl
  · rw [if_neg root] at up
    obtain ⟨rest, isPath, further⟩ := ascends.tail up
    have distinct := ascends.nodup
    rw [isPath, List.nodup_cons] at distinct
    refine ⟨rest.reverse, ?_, ?_, ?_⟩
    · rw [← List.reverse_reverse path, isPath, List.reverse_cons]
    · rw [path_eq_ok_iff root, List.reverse_reverse]
      exact further
    · rw [List.mem_reverse]
      exact distinct.1

theorem floor_known : tree.floor id = scope.epochFloor := by
  rw [Tree.floor, known]
  rfl

omit known in
theorem greatestFloor_raised_le_iff {front : List Bytes} (apart : id ∉ front) {bound : UInt64} :
    (tree.raised id scope newFloor).greatestFloor (front ++ [id]) ≤ bound ↔
      tree.greatestFloor front ≤ bound ∧ newFloor ≤ bound := by
  simp only [greatestFloor_le_iff, List.forall_mem_append, List.forall_mem_singleton,
    floor_raised, if_true]
  refine and_congr_left fun _ => forall_congr' fun member => forall_congr' fun isMember => ?_
  have other : member ≠ id := fun same => apart (same ▸ isMember)
  rw [if_neg other]

end Raised

/-- What raising a constraint is for: no effective floor falls, and an error
leaves the tree as it was. -/
def Tree.RaisesSafely (tree : Tree) (id : Bytes) (newFloor : UInt64)
    (identities : Go.Map IdentityState) : Prop :=
  (∀ scope floor, tree.effectiveFloor scope = .ok floor →
    ∃ later, (tree.raiseConstraint id newFloor identities).1.effectiveFloor scope = .ok later ∧
      floor ≤ later) ∧
  (∀ error, (tree.raiseConstraint id newFloor identities).2 = .error error →
    ∀ scope, (tree.raiseConstraint id newFloor identities).1.lookup scope = tree.lookup scope)

/-- The new floor is not below the old one, or not below an ancestor's; where
the scope has no path to a root, it is the old one, or no identity belongs to
the scope or a descendant. -/
def Tree.MayRaise (tree : Tree) (id : Bytes) (newFloor : UInt64)
    (identities : Go.Map IdentityState) : Prop :=
  ∀ scope, tree.lookup id = some scope → id ≠ [] →
    ((∃ path, tree.path id = .ok path) →
      scope.epochFloor ≤ newFloor ∨
        ∃ floor, tree.effectiveFloor scope.parent = .ok floor ∧ scope.epochFloor ≤ floor) ∧
    ((¬∃ path, tree.path id = .ok path) →
      scope.epochFloor = newFloor ∨
        ∀ binding ∈ identities, tree.isDescendant binding.2.scope id = false)

section

variable {scope : Scope}

theorem raiseConstraint_of_known (known : tree.lookup id = some scope)
    (identities : Go.Map IdentityState) :
    tree.raiseConstraint id newFloor identities =
      (tree.raised id scope newFloor,
        (tree.raised id scope newFloor).forcedMigrations id identities >>= fun jobs =>
          return jobs.insertionSort (· ≤ ·)) := by
  rw [Tree.raiseConstraint, known]
  rfl

theorem nil_not_mem_path {node : Bytes} {path : List Bytes} (resolves : tree.path node = .ok path) :
    [] ∉ path := by
  by_cases named : node = []
  · rw [named] at resolves
    cases Except.ok.inj resolves
    exact List.not_mem_nil
  · intro member
    have ascends := (path_eq_ok_iff named).mp resolves
    exact ascends.forall_mem named (fun _ _ => parent_ne_nil) [] (List.mem_reverse.mpr member) rfl

theorem path_of_mem {node : Bytes} {path : List Bytes} (resolves : tree.path node = .ok path)
    (member : id ∈ path) :
    ∃ front, tree.path id = .ok front ∧ front ⊆ path := by
  have idNamed : id ≠ [] := fun empty => nil_not_mem_path resolves (empty ▸ member)
  have named : node ≠ [] := by
    rintro rfl
    cases Except.ok.inj resolves
    exact List.not_mem_nil member
  have ascends := (path_eq_ok_iff named).mp resolves
  obtain ⟨rest, further, suffix⟩ := ascends.of_mem (List.mem_reverse.mpr member)
  refine ⟨rest.reverse, ?_, ?_⟩
  · rw [path_eq_ok_iff idNamed, List.reverse_reverse]
    exact further
  · intro other isOther
    exact List.mem_reverse.mp (suffix.subset (List.mem_reverse.mp isOther))

/-- No effective floor falls exactly when the scope's own does not. -/
theorem floors_kept_iff (known : tree.lookup id = some scope) (named : id ≠ []) :
    (∀ node floor, tree.effectiveFloor node = .ok floor →
      ∃ later, (tree.raised id scope newFloor).effectiveFloor node = .ok later ∧ floor ≤ later) ↔
    ((∃ path, tree.path id = .ok path) →
      scope.epochFloor ≤ newFloor ∨
        ∃ floor, tree.effectiveFloor scope.parent = .ok floor ∧ scope.epochFloor ≤ floor) := by
  constructor
  · rintro kept ⟨path, resolves⟩
    obtain ⟨front, rfl, parentResolves, apart⟩ := path_parent known named resolves
    obtain ⟨later, laterEffective, notBelow⟩ := kept id _
      (effectiveFloor_eq_ok_iff.mpr ⟨_, resolves, rfl⟩)
    obtain ⟨laterPath, laterResolves, rfl⟩ := effectiveFloor_eq_ok_iff.mp laterEffective
    rw [path_raised known, resolves] at laterResolves
    cases Except.ok.inj laterResolves
    have own : scope.epochFloor ≤ tree.greatestFloor (front ++ [id]) := by
      rw [← floor_known known]
      exact floor_le_greatestFloor tree (List.mem_append_right front List.mem_cons_self)
    -- Were both the new floor and the parent's below the old one, so were the greatest.
    by_contra lowered
    rw [not_or] at lowered
    have parentBelow : tree.greatestFloor front < scope.epochFloor := by
      rw [← UInt64.not_le]
      exact fun held =>
        lowered.2 ⟨_, effectiveFloor_eq_ok_iff.mpr ⟨front, parentResolves, rfl⟩, held⟩
    have fallen : ∀ bound, bound < scope.epochFloor → ¬(tree.greatestFloor front ≤ bound ∧
        newFloor ≤ bound) := by
      intro bound below within
      exact UInt64.not_le.mpr below
        (UInt64.le_trans own
          (UInt64.le_trans notBelow ((greatestFloor_raised_le_iff apart).mpr within)))
    rcases UInt64.le_total newFloor (tree.greatestFloor front) with under | above
    · exact fallen _ parentBelow ⟨UInt64.le_refl _, under⟩
    · exact fallen _ (UInt64.not_le.mp lowered.1) ⟨above, UInt64.le_refl _⟩
  · intro allowed node floor effective
    refine effectiveFloor_raised_le known ?_ effective
    intro node path resolves member
    obtain ⟨ownPath, ownResolves, through⟩ := path_of_mem resolves member
    obtain ⟨front, rfl, parentResolves, apart⟩ := path_parent known named ownResolves
    rcases allowed ⟨_, ownResolves⟩ with raised | ⟨floor, parentFloor, held⟩
    · have written := floor_le_greatestFloor (tree.raised id scope newFloor) member
      rw [floor_raised, if_pos rfl] at written
      exact UInt64.le_trans raised written
    · obtain ⟨parentPath, parentPathResolves, rfl⟩ := effectiveFloor_eq_ok_iff.mp parentFloor
      rw [parentResolves] at parentPathResolves
      cases Except.ok.inj parentPathResolves
      refine UInt64.le_trans held (greatestFloor_le_iff.mpr fun ancestor isAncestor => ?_)
      have other : ancestor ≠ id := fun same => apart (same ▸ isAncestor)
      have kept := floor_le_greatestFloor (tree.raised id scope newFloor)
        (through (List.mem_append_left _ isAncestor))
      rwa [floor_raised, if_neg other] at kept

theorem raiseConstraint_fails_iff (known : tree.lookup id = some scope)
    (identities : Go.Map IdentityState) :
    (∃ error, (tree.raiseConstraint id newFloor identities).2 = .error error) ↔
      ¬∀ binding ∈ identities, tree.isDescendant binding.2.scope id = true →
        ∃ path, tree.path id = .ok path := by
  rw [← exists_forcedMigrations_iff known, raiseConstraint_of_known known]
  dsimp only
  cases (tree.raised id scope newFloor).forcedMigrations id identities with
  | error error => simp [bind, Except.bind]
  | ok jobs => simp [bind, Except.bind, pure, Except.pure]

/-- An error leaves the tree as it was exactly when the scope has a path, the
floor is the old one or no identity descends from the scope. -/
theorem tree_kept_iff (known : tree.lookup id = some scope) (identities : Go.Map IdentityState) :
    (∀ error, (tree.raiseConstraint id newFloor identities).2 = .error error →
      ∀ node, (tree.raised id scope newFloor).lookup node = tree.lookup node) ↔
    ((¬∃ path, tree.path id = .ok path) →
      scope.epochFloor = newFloor ∨
        ∀ binding ∈ identities, tree.isDescendant binding.2.scope id = false) := by
  have same : (∀ node, (tree.raised id scope newFloor).lookup node = tree.lookup node) ↔
      scope.epochFloor = newFloor := by
    simp only [Tree.raised, Go.MapOf.lookup_set]
    constructor
    · intro unchanged
      have own := unchanged id
      rw [if_pos rfl, known] at own
      exact congrArg Scope.epochFloor (Option.some.inj own).symm
    · rintro rfl node
      split
      next isID =>
        rw [isID, known]
      next => rfl
  rw [same, ← exists_imp, raiseConstraint_fails_iff known]
  by_cases resolves : ∃ path, tree.path id = .ok path
  · simp only [resolves, implies_true, not_true, false_implies]
  · simp only [resolves, imp_false, not_false_eq_true, forall_const, Bool.not_eq_true]
    exact ⟨fun kept => or_iff_not_imp_right.mpr kept, fun kept => or_iff_not_imp_right.mp kept⟩

end

/-- Raising a constraint is safe in exactly these cases. -/
theorem raiseConstraint_safe_iff
    (tree : Tree)
    (id : Bytes)
    (newFloor : UInt64)
    (identities : Go.Map IdentityState) :
    tree.RaisesSafely id newFloor identities ↔ tree.MayRaise id newFloor identities := by
  unfold Tree.RaisesSafely Tree.MayRaise
  cases known : tree.lookup id with
  | none =>
      refine ⟨fun _ scope => nofun, fun _ => ?_⟩
      rw [Tree.raiseConstraint, known]
      exact ⟨fun scope floor effective => ⟨floor, effective, UInt64.le_refl _⟩, fun _ _ _ => rfl⟩
  | some scope =>
      simp only [Option.some.injEq, forall_eq']
      rw [show (tree.raiseConstraint id newFloor identities).1 = tree.raised id scope newFloor by
        rw [raiseConstraint_of_known known]]
      by_cases named : id = []
      · subst named
        refine ⟨fun _ empty => absurd rfl empty, fun _ => ⟨?_, ?_⟩⟩
        · intro node floor effective
          refine effectiveFloor_raised_le known ?_ effective
          exact fun _ _ resolves member => absurd member (nil_not_mem_path resolves)
        · intro error failed
          refine absurd ?_ ((raiseConstraint_fails_iff known identities).mp ⟨error, failed⟩)
          exact fun _ _ descends => absurd rfl (ne_nil_of_isDescendant descends).2
      · rw [floors_kept_iff known named, tree_kept_iff known]
        exact ⟨fun safe _ => safe, fun safe => safe named⟩

/-- A scope whose floor is the fifth epoch. -/
def flooredTree : Tree :=
  Tree.addScope [] ⟨bytes "root", [], 5⟩

/-- A new floor below the old one lowers the effective floor of the scope. -/
theorem effectiveFloor_lowered :
    ¬∀ (tree : Tree) (id : Bytes) (newFloor : UInt64) (identities : Go.Map IdentityState),
      tree.RaisesSafely id newFloor identities := by
  intro safe
  obtain ⟨later, effective, notBelow⟩ := (safe flooredTree (bytes "root") 3 []).1 (bytes "root") 5
    (by decide +kernel)
  have fallen : (flooredTree.raiseConstraint (bytes "root") 3 []).1.effectiveFloor (bytes "root") =
      .ok 3 := by decide +kernel
  rw [fallen] at effective
  cases Except.ok.inj effective
  exact absurd notBelow (by decide)

end Trstctl.Succession.Delegation
