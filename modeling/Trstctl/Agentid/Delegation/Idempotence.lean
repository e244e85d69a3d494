import Mathlib.Algebra.Order.BigOperators.Group.List
import Mathlib.Algebra.Order.Group.Nat
import Mathlib.Data.Finset.Card
import Trstctl.Agentid.Delegation.Authority
import Trstctl.Go.Case
import Trstctl.Library.Sorting

/-!
# Normalizing twice

Normalization trims and lowers texts, resolves tools, cleans paths and sorts
what is left without duplicates.  Most of it has nothing left to do the second
time.  Two parts have: resolving a tool gives what the registry says, which the
registry may resolve further, and removing the slashes at the end of a path can
leave white space there.
-/

namespace Trstctl.Agentid.Delegation

open Go (Bytes bytes trimSpace)

/-- `NewToolRegistry`, from the bindings of the alias map in the order in which
the loop visits them. -/
def newToolRegistry (aliases : Go.Map Bytes) : ToolRegistry :=
  some (aliases.foldl (fun registered binding => registered.set (normToken binding.1) binding.2) [])

section Sets

variable {α : Type} [DecidableEq α]

@[simp] theorem mem_firstOccurrences {items : List α} {item : α} :
    item ∈ firstOccurrences items ↔ item ∈ items := by
  induction items with
  | nil => rfl
  | cons first rest ih =>
      by_cases same : item = first
      · simp [firstOccurrences, same]
      · simp [firstOccurrences, same, ih]

theorem nodup_firstOccurrences (items : List α) : (firstOccurrences items).Nodup := by
  induction items with
  | nil => exact List.nodup_nil
  | cons first rest ih =>
      rw [firstOccurrences, List.nodup_cons]
      exact ⟨by simp, ih.filter _⟩

variable {le : α → α → Prop} [DecidableRel le] [Std.Total le] [IsTrans α le] [Std.Antisymm le]

theorem insertionSort_firstOccurrences_eq_iff {items others : List α} :
    (firstOccurrences items).insertionSort le = (firstOccurrences others).insertionSort le ↔
      ∀ item, item ∈ items ↔ item ∈ others := by
  constructor
  · intro equal item
    rw [← mem_firstOccurrences, ← List.mem_insertionSort le, equal, List.mem_insertionSort,
      mem_firstOccurrences]
  · intro members
    have permuted : (firstOccurrences items).Perm (firstOccurrences others) := by
      rw [List.perm_ext_iff_of_nodup (nodup_firstOccurrences items) (nodup_firstOccurrences others)]
      simpa using members
    exact Sorting.insertionSort_eq_of_perm permuted fun _ _ _ _ => Std.Antisymm.antisymm _ _

/-- Normalizing the members of a sorted set changes nothing exactly when every
member is the normal form of a member. -/
theorem insertionSort_map_eq_iff (normal : α → α) (items : List α) :
    (firstOccurrences (((firstOccurrences (items.map normal)).insertionSort le).map
        normal)).insertionSort le =
        (firstOccurrences (items.map normal)).insertionSort le ↔
      ∀ item ∈ items, ∃ other ∈ items, normal (normal other) = normal item := by
  rw [insertionSort_firstOccurrences_eq_iff]
  simp only [List.mem_map, List.mem_insertionSort, mem_firstOccurrences,
    exists_exists_and_eq_and]
  constructor
  · intro members item member
    exact (members (normal item)).mpr ⟨item, member, rfl⟩
  · intro surjective
    -- a finite set that its own image covers is its image
    let forms := (items.map normal).toFinset
    have covered : forms ⊆ forms.image normal := by
      intro form formMember
      obtain ⟨item, member, rfl⟩ := List.mem_map.mp (List.mem_toFinset.mp formMember)
      obtain ⟨other, otherMember, same⟩ := surjective item member
      exact Finset.mem_image.mpr
        ⟨normal other, List.mem_toFinset.mpr (List.mem_map_of_mem otherMember), same⟩
    have same := Finset.eq_of_subset_of_card_le covered Finset.card_image_le
    intro item
    have members := Finset.ext_iff.mp same item
    simp only [forms, Finset.mem_image, List.mem_toFinset, List.mem_map,
      exists_exists_and_eq_and] at members
    exact members.symm

omit [DecidableEq α] in
/-- Where normal forms only get smaller, a finite set covered by its normal forms
is normal. -/
theorem normal_of_covered {normal : α → α} {weight : α → Nat} {items : List α}
    (shrinks : ∀ item ∈ items, normal item ≠ item → weight (normal item) < weight item)
    (covered : ∀ item ∈ items, ∃ other ∈ items, normal other = item) :
    ∀ item ∈ items, normal item = item := by
  -- above every item that is not normal there is another one
  have ascends : ∀ bound : Nat, ∀ item ∈ items, normal item ≠ item →
      ∃ larger ∈ items, normal larger ≠ larger ∧ weight item + bound ≤ weight larger := by
    intro bound
    induction bound with
    | zero => exact fun item member moves => ⟨item, member, moves, Nat.le_refl _⟩
    | succ bound ih =>
        intro item member moves
        obtain ⟨larger, largerMember, largerMoves, above⟩ := ih item member moves
        obtain ⟨other, otherMember, same⟩ := covered larger largerMember
        have otherMoves : normal other ≠ other := by
          intro fixed
          rw [fixed] at same
          exact largerMoves (same ▸ fixed)
        have less := shrinks other otherMember otherMoves
        rw [same] at less
        exact ⟨other, otherMember, otherMoves, by omega⟩
  intro item member
  by_contra moves
  obtain ⟨larger, largerMember, -, above⟩ :=
    ascends ((items.map weight).sum + 1) item member moves
  have bounded : weight larger ≤ (items.map weight).sum :=
    List.le_sum_of_mem (List.mem_map_of_mem largerMember)
  omega

end Sets

theorem normToken_normToken (text : Bytes) : normToken (normToken text) = normToken text := by
  unfold normToken
  rw [Go.trimSpace_toLower, Go.trimSpace_trimSpace, Go.toLower_toLower]

theorem normStrings_normStrings (texts : List Bytes) :
    normStrings (normStrings texts) = normStrings texts := by
  apply (insertionSort_map_eq_iff normToken texts).mpr
  exact fun text member => ⟨text, member, normToken_normToken text⟩

/-- What the tools of an authority resolve to is all that its members resolve
to. -/
def ResolvesToItself (registry : ToolRegistry) (tools : List Bytes) : Prop :=
  ∀ tool ∈ tools, ∃ other ∈ tools,
    resolve registry (resolve registry other) = resolve registry tool

theorem normTools_normTools_iff (tools : List Bytes) (registry : ToolRegistry) :
    normTools (normTools tools registry) registry = normTools tools registry ↔
      ResolvesToItself registry tools :=
  insertionSort_map_eq_iff (resolve registry) tools

variable (path : Bytes)

theorem trimRightSlashes_prefix : trimRightSlashes path <+: path :=
  List.rdropWhile_prefix _ path

theorem cleanPath_initial : cleanPath path <+: path := by
  unfold cleanPath
  split
  · exact trimRightSlashes_prefix path
  · exact List.prefix_refl path

theorem cleanPath_trimRightSlashes :
    cleanPath (trimRightSlashes path) = trimRightSlashes path := by
  unfold cleanPath
  split
  · exact List.rdropWhile_idempotent _ path
  · rfl

theorem cleanPath_cleanPath : cleanPath (cleanPath path) = cleanPath path := by
  by_cases cut : (1 < path.length && Go.hasSuffix path (bytes "/")) = true
  · have cleaned : cleanPath path = trimRightSlashes path := if_pos cut
    rw [cleaned, cleanPath_trimRightSlashes]
  · have cleaned : cleanPath path = path := if_neg cut
    rw [cleaned, cleaned]

theorem trimRightSlashes_of_not_cut {path : Bytes}
    (kept : ¬(1 < path.length && Go.hasSuffix path (bytes "/")) = true) :
    trimRightSlashes path = path ∨ trimRightSlashes path = [] := by
  rcases List.eq_nil_or_concat path with rfl | ⟨start, last, rfl⟩
  · exact Or.inl rfl
  · by_cases slash : last = 0x2F
    · subst slash
      have single : start = [] := by
        have ends : Go.hasSuffix (start ++ [0x2F]) (bytes "/") = true :=
          Go.hasSuffix_iff.mpr (List.suffix_append start _)
        rw [List.concat_eq_append, ends, Bool.and_true, decide_eq_true_eq, List.length_append,
          List.length_singleton] at kept
        exact List.eq_nil_of_length_eq_zero (by omega)
      subst single
      exact Or.inr rfl
    · left
      rw [trimRightSlashes, List.concat_eq_append, List.rdropWhile_concat_neg]
      simpa using slash

/-- White space stands in front of the slashes at the end of a trimmed path. -/
def SpaceBeforeSlashes (value : Bytes) : Prop :=
  trimSpace (trimRightSlashes (trimSpace value)) ≠ trimRightSlashes (trimSpace value)

theorem trimSpace_cleanPath_iff (value : Bytes) :
    trimSpace (cleanPath (trimSpace value)) = cleanPath (trimSpace value) ↔
      ¬SpaceBeforeSlashes value := by
  unfold SpaceBeforeSlashes
  rw [not_not]
  by_cases cut : (1 < (trimSpace value).length &&
      Go.hasSuffix (trimSpace value) (bytes "/")) = true
  · have cleaned : cleanPath (trimSpace value) = trimRightSlashes (trimSpace value) :=
      if_pos cut
    rw [cleaned]
  · have cleaned : cleanPath (trimSpace value) = trimSpace value := if_neg cut
    rw [cleaned]
    refine iff_of_true (Go.trimSpace_trimSpace value) ?_
    rcases trimRightSlashes_of_not_cut cut with same | none
    · rw [same, Go.trimSpace_trimSpace]
    · rw [none]
      rfl

theorem cleanPath_trimSpace_eq_iff :
    cleanPath (trimSpace (cleanPath path)) = cleanPath path ↔
      trimSpace (cleanPath path) = cleanPath path := by
  constructor
  · intro same
    have shorter := (cleanPath_initial (trimSpace (cleanPath path))).length_le
    rw [same] at shorter
    exact (Go.trimSpace_infix (cleanPath path)).eq_of_length_le shorter
  · intro same
    rw [same, cleanPath_cleanPath]

theorem normResource_normResource_iff (selector : ResourceSelector) :
    normResource (normResource selector) = normResource selector ↔
      (normToken selector.kind = bytes "path" → ¬SpaceBeforeSlashes selector.value) := by
  simp only [normResource, normToken_normToken, ResourceSelector.mk.injEq, true_and]
  by_cases path : normToken selector.kind = bytes "path"
  · simp only [path, forall_const, if_true]
    rw [cleanPath_trimSpace_eq_iff, trimSpace_cleanPath_iff]
  · simp only [path, false_imp_iff, iff_true, if_false]
    exact Go.trimSpace_trimSpace selector.value

theorem length_normResource_lt {selector : ResourceSelector}
    (kind : normToken selector.kind = selector.kind) (moves : normResource selector ≠ selector) :
    (normResource selector).value.length < selector.value.length := by
  have contained : (normResource selector).value <:+: selector.value := by
    unfold normResource
    dsimp only
    split
    · exact (cleanPath_initial _).isInfix.trans (Go.trimSpace_infix selector.value)
    · exact Go.trimSpace_infix selector.value
  by_contra atLeast
  apply moves
  rw [ResourceSelector.mk.injEq]
  exact ⟨kind, contained.eq_of_length_le (Nat.not_lt.mp atLeast)⟩

instance : Std.Total selectorLE where
  total left right := by
    unfold selectorLE
    by_cases kinds : left.kind = right.kind
    · simpa [kinds] using List.le_total left.value right.value
    · simpa [kinds, Ne.symm kinds] using List.le_total left.kind right.kind

instance : Std.Antisymm selectorLE where
  antisymm left right := by
    unfold selectorLE
    intro forwards backwards
    by_cases kinds : left.kind = right.kind
    · simp only [kinds, ne_eq, not_true_eq_false, if_false] at forwards backwards
      rw [ResourceSelector.mk.injEq]
      exact ⟨kinds, List.le_antisymm forwards backwards⟩
    · simp only [ne_eq, kinds, Ne.symm kinds, not_false_eq_true, if_true] at forwards backwards
      exact absurd (List.le_antisymm forwards backwards) kinds

instance : IsTrans ResourceSelector selectorLE where
  trans left middle right := by
    unfold selectorLE
    intro forwards onwards
    by_cases first : left.kind = middle.kind
    · by_cases second : middle.kind = right.kind
      · simp only [first, second, ne_eq, not_true_eq_false, if_false] at forwards onwards ⊢
        exact List.le_trans forwards onwards
      · simpa [first, second] using onwards
    · by_cases second : middle.kind = right.kind
      · simpa [← second, first] using forwards
      · simp only [ne_eq, first, second, not_false_eq_true, if_true] at forwards onwards
        have ordered := List.le_trans forwards onwards
        have different : left.kind ≠ right.kind := by
          intro same
          rw [same] at forwards
          exact second (List.le_antisymm onwards forwards)
        simpa [different] using ordered

theorem normResources_normResources_iff (selectors : List ResourceSelector) :
    normResources (normResources selectors) = normResources selectors ↔
      ∀ selector ∈ selectors, normToken selector.kind = bytes "path" →
        ¬SpaceBeforeSlashes selector.value := by
  unfold normResources
  rw [insertionSort_map_eq_iff]
  simp only [← normResource_normResource_iff]
  constructor
  · intro covered selector member
    have shrinks : ∀ form ∈ selectors.map normResource, normResource form ≠ form →
        (normResource form).value.length < form.value.length := by
      intro form formMember moves
      obtain ⟨source, sourceMember, rfl⟩ := List.mem_map.mp formMember
      exact length_normResource_lt (normToken_normToken source.kind) moves
    have formsCovered : ∀ form ∈ selectors.map normResource,
        ∃ other ∈ selectors.map normResource, normResource other = form := by
      intro form formMember
      obtain ⟨source, sourceMember, rfl⟩ := List.mem_map.mp formMember
      obtain ⟨other, otherMember, same⟩ := covered source sourceMember
      exact ⟨normResource other, List.mem_map_of_mem otherMember, same⟩
    exact @normal_of_covered _ normResource (fun form => form.value.length) _ shrinks formsCovered
      (normResource selector) (List.mem_map_of_mem member)
  · exact fun fixed selector member => ⟨selector, member, fixed selector member⟩

/-- Normalizing twice is normalizing once exactly when the tools resolve to what
they resolve to and no path has white space in front of the slashes at its end. -/
theorem normalize_normalize_iff (authority : Authority) (aliases : Go.Map Bytes) :
    normalize (normalize authority (newToolRegistry aliases)) (newToolRegistry aliases) =
        normalize authority (newToolRegistry aliases) ↔
      ResolvesToItself (newToolRegistry aliases) authority.tools ∧
        ∀ selector ∈ authority.resources, normToken selector.kind = bytes "path" →
          ¬SpaceBeforeSlashes selector.value := by
  rw [← normTools_normTools_iff, ← normResources_normResources_iff]
  simp only [normalize, Authority.mk.injEq, normStrings_normStrings, normToken_normToken,
    true_and, and_true]

def toolAuthority (tool path : String) : Authority where
  scopes := []
  tools := [bytes tool]
  resources := [{ kind := bytes "path", value := bytes path }]
  classes := []
  spend := { amount := 0, currency := [] }
  rate := { limit := 0, per := [] }
  depth := 0
  validity := { notBefore := 0, notAfter := 0 }

/-- An alias of an alias, and a space in front of a slash: each is found by the
second normalization. -/
theorem normalize_normalize_alias_of_alias :
    let registry := newToolRegistry [(bytes "rg", bytes "grep"), (bytes "grep", bytes "search")]
    normalize (normalize (toolAuthority "rg" "/data") registry) registry ≠
        normalize (toolAuthority "rg" "/data") registry ∧
      normalize (normalize (toolAuthority "ls" "/data /") registry) registry ≠
        normalize (toolAuthority "ls" "/data /") registry := by
  decide +kernel

end Trstctl.Agentid.Delegation
