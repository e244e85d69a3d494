import Mathlib.Data.List.Sort
import Trstctl.Go.Ascii
import Trstctl.Go.Encoding

/-!
# Authorities and their comparison

The authority model of `internal/agentid/delegation/authority.go`: sets of
scopes, tools, resources and data classes, budgets, a depth and a validity
window, their normalization and canonical bytes, and the comparison
`WithinParent`.  The comparison is a preorder; a chain whose neighbours
narrow therefore narrows between any two of its hops.
-/

namespace Trstctl.Agentid.Delegation

open Go (Bytes bytes bigEndian64)

structure ResourceSelector where
  kind : Bytes
  value : Bytes
deriving DecidableEq

structure Budget where
  amount : UInt64
  currency : Bytes
deriving DecidableEq

structure Rate where
  limit : UInt64
  per : Bytes
deriving DecidableEq

/-- `Window`: bounds in Unix seconds. -/
structure Window where
  notBefore : Int64
  notAfter : Int64
deriving DecidableEq

/-- What a delegate may do. -/
structure Authority where
  scopes : List Bytes
  tools : List Bytes
  resources : List ResourceSelector
  classes : List Bytes
  spend : Budget
  rate : Rate
  depth : UInt32
  validity : Window
deriving DecidableEq

/-- `ToolRegistry`: an alias map, or no registry. -/
abbrev ToolRegistry := Option (Go.Map Bytes)

def normToken (text : Bytes) : Bytes :=
  Go.toLower (Go.trimSpace text)

def resolve (registry : ToolRegistry) (id : Bytes) : Bytes :=
  let normalized := normToken id
  match registry with
  | none => normalized
  | some aliases => (aliases.lookup normalized).getD normalized

/-- The first occurrences of the elements of a list, as a loop with a set of
seen elements collects them. -/
def firstOccurrences {α : Type} [DecidableEq α] : List α → List α
  | [] => []
  | first :: rest => first :: (firstOccurrences rest).filter (fun item => item ≠ first)

def normStrings (texts : List Bytes) : List Bytes :=
  (firstOccurrences (texts.map normToken)).insertionSort (fun left right => left ≤ right)

def normTools (tools : List Bytes) (registry : ToolRegistry) : List Bytes :=
  (firstOccurrences (tools.map (resolve registry))).insertionSort
    (fun left right => left ≤ right)

/-- `strings.TrimRight` with the cutset of a slash. -/
def trimRightSlashes (path : Bytes) : Bytes :=
  path.rdropWhile (fun byte => byte == 0x2F)

def cleanPath (path : Bytes) : Bytes :=
  if 1 < path.length && Go.hasSuffix path (bytes "/") then trimRightSlashes path else path

/-- The normal form of one selector. -/
def normResource (selector : ResourceSelector) : ResourceSelector :=
  let kind := normToken selector.kind
  let value := Go.trimSpace selector.value
  { kind := kind, value := if kind = bytes "path" then cleanPath value else value }

/-- The order of selectors by kind, then by value. -/
def selectorLE (left right : ResourceSelector) : Prop :=
  if left.kind ≠ right.kind then left.kind ≤ right.kind else left.value ≤ right.value

instance : DecidableRel selectorLE := fun left right =>
  inferInstanceAs (Decidable
    (if left.kind ≠ right.kind then left.kind ≤ right.kind else left.value ≤ right.value))

def normResources (selectors : List ResourceSelector) : List ResourceSelector :=
  (firstOccurrences (selectors.map normResource)).insertionSort selectorLE

/-- The canonical form of an authority. -/
def normalize (authority : Authority) (registry : ToolRegistry) : Authority where
  scopes := normStrings authority.scopes
  tools := normTools authority.tools registry
  resources := normResources authority.resources
  classes := normStrings authority.classes
  spend := { amount := authority.spend.amount, currency := normToken authority.spend.currency }
  rate := { limit := authority.rate.limit, per := normToken authority.rate.per }
  depth := authority.depth
  validity := authority.validity

/-- `writeStr` and `writeBytes`: a length and the bytes. -/
def writeStr (text : Bytes) : Bytes :=
  bigEndian64 text.length ++ text

def writeField (name : String) : Bytes :=
  writeStr (bytes name)

def writeStrSet (name : String) (texts : List Bytes) : Bytes :=
  writeField name ++ bigEndian64 texts.length ++ texts.flatMap writeStr

/-- `writeI64`: two's complement. -/
def writeI64 (value : Int64) : Bytes :=
  bigEndian64 value.toUInt64.toNat

/-- `CanonicalBytes` of an authority. -/
def Authority.canonicalBytes (authority : Authority) (registry : ToolRegistry) : Bytes :=
  let normal := normalize authority registry
  bytes "agid/authority/v1" ++
    writeStrSet "scopes" normal.scopes ++
    writeStrSet "tools" normal.tools ++
    writeField "resources" ++ bigEndian64 normal.resources.length ++
    normal.resources.flatMap (fun selector => writeStr selector.kind ++ writeStr selector.value) ++
    writeStrSet "classes" normal.classes ++
    writeField "spend" ++ writeStr normal.spend.currency ++
    bigEndian64 normal.spend.amount.toNat ++
    writeField "rate" ++ writeStr normal.rate.per ++ bigEndian64 normal.rate.limit.toNat ++
    writeField "depth" ++ bigEndian64 normal.depth.toNat ++
    writeField "validity" ++ writeI64 normal.validity.notBefore ++
    writeI64 normal.validity.notAfter

def subset (smaller larger : List Bytes) : Bool :=
  smaller.all fun item => larger.contains item

def pathContains (outer inner : Bytes) : Bool :=
  if outer = inner then true
  else if outer = bytes "/" then Go.hasPrefix inner (bytes "/")
  else Go.hasPrefix inner (outer ++ bytes "/")

/-- Containment of one selector in another. -/
def selectorContains (parent child : ResourceSelector) : Bool :=
  if parent.kind ≠ child.kind then false
  else if parent.kind = bytes "path" then pathContains parent.value child.value
  else parent.value == child.value

def oneContained (child : ResourceSelector) (parents : List ResourceSelector) : Bool :=
  parents.any fun parent => selectorContains parent child

def resourcesContained (children parents : List ResourceSelector) : Bool :=
  children.all fun child => oneContained child parents

def budgetLEQ (child parent : Budget) : Bool :=
  child.currency == parent.currency && decide (child.amount ≤ parent.amount)

def rateLEQ (child parent : Rate) : Bool :=
  child.per == parent.per && decide (child.limit ≤ parent.limit)

def windowNested (child parent : Window) : Bool :=
  decide (parent.notBefore ≤ child.notBefore) && decide (child.notAfter ≤ parent.notAfter)

/-- The child has no more than the parent, in each part. -/
def withinParent (child parent : Authority) (registry : ToolRegistry) : Bool :=
  let c := normalize child registry
  let p := normalize parent registry
  subset c.scopes p.scopes && subset c.tools p.tools && subset c.classes p.classes &&
    resourcesContained c.resources p.resources && budgetLEQ c.spend p.spend &&
    rateLEQ c.rate p.rate && decide (c.depth ≤ p.depth) && windowNested c.validity p.validity

theorem subset_iff {smaller larger : List Bytes} :
    subset smaller larger = true ↔ smaller ⊆ larger := by
  simp [subset, List.subset_def]

theorem pathContains_iff {outer inner : Bytes} :
    pathContains outer inner = true ↔
      outer = inner ∨ (outer = bytes "/" ∧ bytes "/" <+: inner) ∨
        (outer ≠ bytes "/" ∧ outer ++ bytes "/" <+: inner) := by
  unfold pathContains
  by_cases same : outer = inner
  · simp [same]
  · by_cases root : outer = bytes "/"
    · subst root
      simp [Go.hasPrefix_iff]
    · simp [same, root, Go.hasPrefix_iff]

theorem pathContains_refl (path : Bytes) : pathContains path path = true := by
  simp [pathContains]

theorem pathContains_trans {outer middle inner : Bytes} (upper : pathContains outer middle = true)
    (lower : pathContains middle inner = true) :
    pathContains outer inner = true := by
  rw [pathContains_iff] at *
  rcases lower with rfl | ⟨rfl, start⟩ | ⟨notRoot, start⟩
  · exact upper
  · -- The middle path is the root, so the outer path is the root or empty.
    rcases upper with rfl | ⟨rfl, -⟩ | ⟨outerNotRoot, before⟩
    · exact Or.inr (Or.inl ⟨rfl, start⟩)
    · exact Or.inr (Or.inl ⟨rfl, start⟩)
    · exact Or.inr (Or.inr ⟨outerNotRoot, before.trans start⟩)
  · have middleStart : middle <+: inner :=
      (List.prefix_append middle (bytes "/")).trans start
    rcases upper with rfl | ⟨rfl, before⟩ | ⟨outerNotRoot, before⟩
    · exact Or.inr (Or.inr ⟨notRoot, start⟩)
    · exact Or.inr (Or.inl ⟨rfl, before.trans middleStart⟩)
    · exact Or.inr (Or.inr ⟨outerNotRoot, before.trans middleStart⟩)

theorem selectorContains_refl (selector : ResourceSelector) :
    selectorContains selector selector = true := by
  simp [selectorContains, pathContains_refl]

theorem selectorContains_trans {outer middle inner : ResourceSelector}
    (upper : selectorContains outer middle = true) (lower : selectorContains middle inner = true) :
    selectorContains outer inner = true := by
  unfold selectorContains at *
  by_cases sameUpper : outer.kind = middle.kind
  · by_cases sameLower : middle.kind = inner.kind
    · rw [if_neg (by simpa using sameUpper)] at upper
      rw [if_neg (by simpa using sameLower)] at lower
      rw [if_neg (by simpa using sameUpper.trans sameLower)]
      by_cases path : outer.kind = bytes "path"
      · rw [if_pos path] at upper ⊢
        rw [if_pos (sameUpper ▸ path)] at lower
        exact pathContains_trans upper lower
      · rw [if_neg path] at upper ⊢
        rw [if_neg (sameUpper ▸ path)] at lower
        rw [beq_iff_eq] at *
        exact upper.trans lower
    · simp [sameLower] at lower
  · simp [sameUpper] at upper

theorem resourcesContained_iff {children parents : List ResourceSelector} :
    resourcesContained children parents = true ↔
      ∀ child ∈ children, ∃ parent ∈ parents, selectorContains parent child = true := by
  simp [resourcesContained, oneContained]

theorem budgetLEQ_iff {child parent : Budget} :
    budgetLEQ child parent = true ↔
      child.currency = parent.currency ∧ child.amount ≤ parent.amount := by
  simp [budgetLEQ]

theorem rateLEQ_iff {child parent : Rate} :
    rateLEQ child parent = true ↔ child.per = parent.per ∧ child.limit ≤ parent.limit := by
  simp [rateLEQ]

theorem windowNested_iff {child parent : Window} :
    windowNested child parent = true ↔
      parent.notBefore ≤ child.notBefore ∧ child.notAfter ≤ parent.notAfter := by
  simp [windowNested]

theorem withinParent_iff {child parent : Authority} {registry : ToolRegistry} :
    withinParent child parent registry = true ↔
      normStrings child.scopes ⊆ normStrings parent.scopes ∧
        normTools child.tools registry ⊆ normTools parent.tools registry ∧
        normStrings child.classes ⊆ normStrings parent.classes ∧
        (∀ selector ∈ normResources child.resources,
          ∃ container ∈ normResources parent.resources,
            selectorContains container selector = true) ∧
        (normToken child.spend.currency = normToken parent.spend.currency ∧
          child.spend.amount ≤ parent.spend.amount) ∧
        (normToken child.rate.per = normToken parent.rate.per ∧
          child.rate.limit ≤ parent.rate.limit) ∧
        child.depth ≤ parent.depth ∧
        parent.validity.notBefore ≤ child.validity.notBefore ∧
        child.validity.notAfter ≤ parent.validity.notAfter := by
  simp only [withinParent, Bool.and_eq_true, subset_iff, resourcesContained_iff, budgetLEQ_iff,
    rateLEQ_iff, windowNested_iff, decide_eq_true_iff, and_assoc]
  rfl

theorem withinParent_refl (authority : Authority) (registry : ToolRegistry) :
    withinParent authority authority registry = true := by
  rw [withinParent_iff]
  refine ⟨List.Subset.refl _, List.Subset.refl _, List.Subset.refl _, ?_,
    ⟨rfl, UInt64.le_refl _⟩, ⟨rfl, UInt64.le_refl _⟩, UInt32.le_refl _, Int64.le_refl _,
    Int64.le_refl _⟩
  exact fun selector member => ⟨selector, member, selectorContains_refl selector⟩

theorem withinParent_trans {child middle parent : Authority} {registry : ToolRegistry}
    (lower : withinParent child middle registry = true)
    (upper : withinParent middle parent registry = true) :
    withinParent child parent registry = true := by
  rw [withinParent_iff] at *
  obtain ⟨scopes, tools, classes, resources, ⟨currency, amount⟩, ⟨per, limit⟩, depth,
    notBefore, notAfter⟩ := lower
  obtain ⟨scopes', tools', classes', resources', ⟨currency', amount'⟩, ⟨per', limit'⟩, depth',
    notBefore', notAfter'⟩ := upper
  refine ⟨List.Subset.trans scopes scopes', List.Subset.trans tools tools',
    List.Subset.trans classes classes', ?_,
    ⟨currency.trans currency', UInt64.le_trans amount amount'⟩,
    ⟨per.trans per', UInt64.le_trans limit limit'⟩, UInt32.le_trans depth depth',
    Int64.le_trans notBefore' notBefore, Int64.le_trans notAfter notAfter'⟩
  intro selector member
  obtain ⟨container, containerMember, contained⟩ := resources selector member
  obtain ⟨outermost, outermostMember, outer⟩ := resources' container containerMember
  exact ⟨outermost, outermostMember, selectorContains_trans outer contained⟩

end Trstctl.Agentid.Delegation
