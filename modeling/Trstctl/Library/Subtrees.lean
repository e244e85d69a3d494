import Mathlib.Data.List.Basic
import Mathlib.Data.List.Infix
import Mathlib.Tactic.ByContra

/-!
# Names under zones

A name is a list of symbols in which a separator stands between labels, the
broadest label last.  A zone holds the names that are equal to it or end in the
separator followed by it; the empty zone is the root and holds every name.
-/

namespace Trstctl
namespace Zones

variable {α : Type*} {separator : α} {name zone outer : List α}

/-- The name is the zone or one of its subdomains. -/
def Under (separator : α) (name zone : List α) : Prop :=
  zone = [] ∨ name = zone ∨ separator :: zone <:+ name

instance [DecidableEq α] (separator : α) (name zone : List α) :
    Decidable (Under separator name zone) :=
  inferInstanceAs (Decidable (_ ∨ _ ∨ _))

theorem Under.refl (separator : α) (name : List α) : Under separator name name :=
  .inr (.inl rfl)

theorem Under.append (front zone : List α) :
    Under separator (front ++ separator :: zone) zone :=
  .inr (.inr (List.suffix_append front (separator :: zone)))

theorem Under.trans (inner : Under separator name zone) (within : Under separator zone outer) :
    Under separator name outer := by
  rcases within with root | equal | suffix
  · exact .inl root
  · exact equal ▸ inner
  · rcases inner with root | equal | innerSuffix
    · subst root
      exact absurd (List.suffix_nil.mp suffix) (List.cons_ne_nil separator outer)
    · exact .inr (.inr (equal ▸ suffix))
    · have inZone : separator :: outer <:+ separator :: zone :=
        suffix.trans (List.suffix_cons separator zone)
      exact .inr (.inr (inZone.trans innerSuffix))

theorem Under.eq_of_single (under : Under separator name zone) (single : separator ∉ name)
    (proper : zone ≠ []) :
    name = zone := by
  rcases under with root | equal | suffix
  · exact absurd root proper
  · exact equal
  · exact absurd (suffix.subset List.mem_cons_self) single

end Zones

/-!
## Permitted and excluded subtrees

Constraints on names of one kind: a list of permitted subtrees, which restricts
nothing when it is empty, and a list of excluded ones, which take precedence.
When two subtrees are nested or disjoint and no finite number of smaller ones
fills a subtree, it can be read off the lists whether one pair of lists permits
no more than another.
-/

namespace Subtrees

variable {ν κ : Type*}

/-- The permitted and the excluded subtrees. -/
structure Lists (κ : Type*) where
  permitted : List κ
  excluded : List κ

/-- A name is in a region: a subtree, or the whole space. -/
def InRegion (holds : ν → κ → Prop) (name : ν) : Option κ → Prop
  | none => True
  | some subtree => holds name subtree

/-- The regions a name may lie in. -/
def Lists.regions (lists : Lists κ) : List (Option κ) :=
  match lists.permitted with
  | [] => [none]
  | first :: rest => (first :: rest).map some

/-- A name is permitted and not excluded. -/
def Permits (holds : ν → κ → Prop) (lists : Lists κ) (name : ν) : Prop :=
  (lists.permitted = [] ∨ ∃ subtree ∈ lists.permitted, holds name subtree) ∧
    ∀ subtree ∈ lists.excluded, ¬ holds name subtree

/-- The inner lists permit no more than the outer ones. -/
def NoWider (holds : ν → κ → Prop) (inner outer : Lists κ) : Prop :=
  ∀ name, Permits holds inner name → Permits holds outer name

/-- Every name with a property is in one of the subtrees. -/
def Covered (holds : ν → κ → Prop) (subtrees : List κ) (among : ν → Prop) : Prop :=
  ∀ name, among name → ∃ subtree ∈ subtrees, holds name subtree

variable {holds : ν → κ → Prop} {inner outer : Lists κ} {name : ν} {region : Option κ}

theorem exists_region (lists : Lists κ) (name : ν) :
    (lists.permitted = [] ∨ ∃ subtree ∈ lists.permitted, holds name subtree) ↔
      ∃ region ∈ lists.regions, InRegion holds name region := by
  cases permitted : lists.permitted with
  | nil => simp [Lists.regions, permitted, InRegion]
  | cons first rest => simp [Lists.regions, permitted, InRegion]

/-- The permitted regions of the inner lists are permitted by the outer ones, as
far as they are not excluded. -/
def PermitsRegions (holds : ν → κ → Prop) (inner outer : Lists κ) : Prop :=
  outer.permitted = [] ∨ ∀ region ∈ inner.regions,
    Covered holds (outer.permitted ++ inner.excluded) fun name => InRegion holds name region

/-- What the outer lists exclude of a permitted region, the inner ones exclude. -/
def ExcludesRegions (holds : ν → κ → Prop) (inner outer : Lists κ) : Prop :=
  ∀ region ∈ inner.regions, ∀ subtree ∈ outer.excluded,
    Covered holds inner.excluded fun name => InRegion holds name region ∧ holds name subtree

/-- Lists permit no more than others when both halves agree region by region. -/
theorem noWider_iff :
    NoWider holds inner outer ↔
      PermitsRegions holds inner outer ∧ ExcludesRegions holds inner outer := by
  constructor
  · intro noWider
    refine ⟨?_, ?_⟩
    · by_cases unrestricted : outer.permitted = []
      · exact .inl unrestricted
      · refine .inr fun region member name inRegion => ?_
        by_contra uncovered
        simp only [List.mem_append, or_and_right, exists_or, not_or, not_exists, not_and]
          at uncovered
        have allowed := (exists_region inner name).mpr ⟨region, member, inRegion⟩
        rcases (noWider name ⟨allowed, uncovered.2⟩).1 with empty | ⟨subtree, listed, held⟩
        · exact unrestricted empty
        · exact uncovered.1 subtree listed held
    · rintro region member subtree listed name ⟨inRegion, held⟩
      by_contra uncovered
      simp only [not_exists, not_and] at uncovered
      have allowed := (exists_region inner name).mpr ⟨region, member, inRegion⟩
      exact (noWider name ⟨allowed, uncovered⟩).2 subtree listed held
  · rintro ⟨permits, excludes⟩ name ⟨allowed, unexcluded⟩
    obtain ⟨region, member, inRegion⟩ := (exists_region inner name).mp allowed
    refine ⟨?_, fun subtree listed held => ?_⟩
    · rcases permits with unrestricted | covered
      · exact .inl unrestricted
      · obtain ⟨subtree, listed, held⟩ := covered region member name inRegion
        rcases List.mem_append.mp listed with permitted | excluded
        · exact .inr ⟨subtree, permitted, held⟩
        · exact absurd held (unexcluded subtree excluded)
    · obtain ⟨other, otherListed, otherHeld⟩ := excludes region member subtree listed name
        ⟨inRegion, held⟩
      exact unexcluded other otherListed otherHeld

def SubRegion (within : Option κ → κ → Prop) (subtree : κ) : Option κ → Prop
  | none => True
  | some outer => within (some subtree) outer

/-- Subtrees that are nested or disjoint and that no finite number of others
fills, with the order that says which region lies in which subtree. -/
structure Nested (holds : ν → κ → Prop) (within : Option κ → κ → Prop) (valid : κ → Prop) :
    Prop where
  holds_of_within : ∀ {name region subtree}, InRegion holds name region → within region subtree →
    holds name subtree
  nested : ∀ {name region subtree}, InRegion holds name region → holds name subtree →
    within region subtree ∨ SubRegion within subtree region
  outside : ∀ (region : Option κ) (subtrees : List κ), (∀ subtree ∈ region, valid subtree) →
    (∀ subtree ∈ subtrees, ¬ within region subtree) →
    ∃ name, InRegion holds name region ∧ ∀ subtree ∈ subtrees, ¬ holds name subtree

variable {within : Option κ → κ → Prop} {valid : κ → Prop} {subtrees : List κ}

theorem Nested.covered_iff (system : Nested holds within valid)
    (proper : ∀ subtree ∈ region, valid subtree) :
    Covered holds subtrees (fun name => InRegion holds name region) ↔
      ∃ subtree ∈ subtrees, within region subtree := by
  constructor
  · intro covered
    by_contra none
    simp only [not_exists, not_and] at none
    obtain ⟨name, inRegion, escapes⟩ := system.outside region subtrees proper none
    obtain ⟨subtree, listed, held⟩ := covered name inRegion
    exact escapes subtree listed held
  · rintro ⟨subtree, listed, lies⟩ name inRegion
    exact ⟨subtree, listed, system.holds_of_within inRegion lies⟩

theorem Nested.covered_meet_iff (system : Nested holds within valid) {other : κ}
    (proper : ∀ subtree ∈ region, valid subtree) (otherValid : valid other) :
    Covered holds subtrees (fun name => InRegion holds name region ∧ holds name other) ↔
      (within region other → ∃ subtree ∈ subtrees, within region subtree) ∧
        (SubRegion within other region → ∃ subtree ∈ subtrees, within (some other) subtree) := by
  constructor
  · intro covered
    refine ⟨fun smaller => ?_, fun smaller => ?_⟩
    · refine (system.covered_iff proper).mp fun name inRegion => ?_
      exact covered name ⟨inRegion, system.holds_of_within inRegion smaller⟩
    · have single : ∀ subtree ∈ some other, valid subtree := by
        intro subtree equal
        rw [Option.mem_some.mp equal] at otherValid
        exact otherValid
      refine (system.covered_iff single).mp fun name held => ?_
      refine covered name ⟨?_, held⟩
      cases region with
      | none => trivial
      | some outer => exact system.holds_of_within held smaller
  · rintro ⟨region_smaller, other_smaller⟩ name ⟨inRegion, held⟩
    rcases system.nested inRegion held with smaller | smaller
    · obtain ⟨subtree, listed, lies⟩ := region_smaller smaller
      exact ⟨subtree, listed, system.holds_of_within inRegion lies⟩
    · obtain ⟨subtree, listed, lies⟩ := other_smaller smaller
      have inOther : InRegion holds name (some other) := held
      exact ⟨subtree, listed, system.holds_of_within inOther lies⟩

/-- Every permitted region lies in a subtree the outer lists permit or in one the
inner lists exclude. -/
def CarriesPermitted (within : Option κ → κ → Prop) (inner outer : Lists κ) : Prop :=
  outer.permitted = [] ∨ ∀ region ∈ inner.regions,
    ∃ subtree ∈ outer.permitted ++ inner.excluded, within region subtree

/-- Where a permitted region and a subtree the outer lists exclude overlap, the
smaller one lies in a subtree the inner lists exclude. -/
def CarriesExcluded (within : Option κ → κ → Prop) (inner outer : Lists κ) : Prop :=
  ∀ region ∈ inner.regions, ∀ other ∈ outer.excluded,
    (within region other → ∃ subtree ∈ inner.excluded, within region subtree) ∧
      (SubRegion within other region → ∃ subtree ∈ inner.excluded, within (some other) subtree)

theorem valid_of_mem_regions {lists : Lists κ} (proper : ∀ subtree ∈ lists.permitted, valid subtree)
    (member : region ∈ lists.regions) :
    ∀ subtree ∈ region, valid subtree := by
  cases permitted : lists.permitted with
  | nil =>
      simp only [Lists.regions, permitted, List.mem_singleton] at member
      subst member
      nofun
  | cons first rest =>
      simp only [Lists.regions, permitted] at member
      obtain ⟨entry, entryMember, rfl⟩ := List.mem_map.mp member
      intro subtree equal
      rw [← Option.mem_some.mp equal]
      exact proper entry (permitted ▸ entryMember)

theorem Nested.permitsRegions_iff (system : Nested holds within valid)
    (proper : ∀ subtree ∈ inner.permitted, valid subtree) :
    PermitsRegions holds inner outer ↔ CarriesPermitted within inner outer := by
  refine or_congr_right (forall₂_congr fun region member => ?_)
  exact system.covered_iff (valid_of_mem_regions proper member)

theorem Nested.excludesRegions_iff (system : Nested holds within valid)
    (proper : ∀ subtree ∈ inner.permitted, valid subtree)
    (excludedProper : ∀ subtree ∈ outer.excluded, valid subtree) :
    ExcludesRegions holds inner outer ↔ CarriesExcluded within inner outer := by
  refine forall₂_congr fun region member => forall₂_congr fun other listed => ?_
  exact system.covered_meet_iff (valid_of_mem_regions proper member) (excludedProper other listed)

end Subtrees
end Trstctl
