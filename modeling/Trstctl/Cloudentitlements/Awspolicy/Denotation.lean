import Mathlib.Data.Multiset.Fold
import Trstctl.Cloudentitlements.Awspolicy.Stability

/-!
# What an evaluation within its budget finds

Within the budget, what a category finds is the disjunction of what its
statements find alone, and this does not depend on the state of the evaluation.
A category is thus a set of statements, and a hierarchy a collection of layers.
-/

namespace Trstctl.Cloudentitlements.Awspolicy

open Go (Bytes bytes)
open Budgeted Truth

theorem Env.Extends.refl (env : Env) : env.Extends env where
  principal := rfl
  action := rfl
  resource := rfl
  reader := rfl
  boundaryCoverage := .inl rfl
  contextKey _ := .inr rfl

theorem Matched.Refines.antisymm {first second : Matched} (forward : first.Refines second)
    (backward : second.Refines first) :
    first = second := by
  cases first
  cases second
  rw [Matched.mk.injEq]
  exact ⟨forward.direct.antisymm backward.direct, forward.restricted.antisymm backward.restricted,
    forward.account.antisymm backward.account⟩

theorem exists_verdict (env : Env) (resource : Bool) (rule : Statement) :
    ∃ verdict, Determines (applies env resource rule) verdict := by
  have : Nonempty (Truth × Matched) := ⟨(no, ⟨no, no, no⟩)⟩
  refine Agrees.exists_determines ?_
  intro state state' unspent unspent'
  have forward := applies_agrees (Env.Extends.refl env) resource rule state state' unspent unspent'
  have backward := applies_agrees (Env.Extends.refl env) resource rule state' state unspent' unspent
  exact Prod.ext (forward.applied.antisymm backward.applied)
    (forward.matched.antisymm backward.matched)

/-- Whether a statement applies within the budget, and to whom. -/
noncomputable def verdict (env : Env) (resource : Bool) (rule : Statement) : Truth × Matched :=
  Classical.choose (exists_verdict env resource rule)

theorem applies_determines (env : Env) (resource : Bool) (rule : Statement) :
    Determines (applies env resource rule) (verdict env resource rule) :=
  Classical.choose_spec (exists_verdict env resource rule)

theorem applyStatement_determines (env : Env) (source sid : Bytes) (resource : Bool)
    (rule : Statement) (out : Grants) :
    Determines (applyStatement env source sid resource rule out)
      (out.add resource rule (verdict env resource rule).1 (verdict env resource rule).2) := by
  intro state unspent
  obtain ⟨value, exhausted⟩ := applyStatement_run env source sid resource rule out state
  rw [exhausted] at unspent
  rw [value, applies_determines env resource rule state unspent]

theorem countStatement_determines : Determines countStatement true := by
  intro state unspent
  exact (countStatement_agrees state state unspent unspent).1

namespace Grants

/-- The disjunction of grants. -/
def or (first second : Grants) : Grants where
  allow := first.allow.or second.allow
  deny := first.deny.or second.deny
  direct := first.direct.or second.direct
  restricted := first.restricted.or second.restricted
  account := first.account.or second.account

instance : Std.Commutative or where
  comm first second := by
    simp only [or, Truth.or_comm]

instance : Std.Associative or where
  assoc first second third := by
    simp only [or, Truth.or_assoc]

instance : Std.IdempotentOp or where
  idempotent grants := by
    simp only [or, Truth.or_self]

@[simp] theorem or_noGrants (grants : Grants) : grants.or noGrants = grants := by
  simp [or, noGrants]

theorem add_eq_or (out : Grants) (resource : Bool) (rule : Statement) (applied : Truth)
    (matched : Matched) :
    out.add resource rule applied matched =
      out.or (noGrants.add resource rule applied matched) := by
  unfold add
  split_ifs
  · simp [or, noGrants]
  · simp [or, noGrants]
  · simp [or, noGrants]

/-- What a statement of unsupported syntax grants. -/
def unsupported : Grants :=
  { noGrants with allow := unknown, deny := unknown }

theorem orUnknown_eq_or (out : Grants) : out.orUnknown = out.or unsupported := by
  simp [orUnknown, or, unsupported, noGrants]

def all (grants : List Grants) : Grants :=
  grants.foldl or noGrants

theorem all_eq_of_same_members {first second : List Grants}
    (same : ∀ grants, grants ∈ first ↔ grants ∈ second) :
    all first = all second := by
  have members : (first : Multiset Grants).dedup = (second : Multiset Grants).dedup := by
    rw [Multiset.dedup_ext]
    exact same
  calc all first = (first : Multiset Grants).fold or noGrants := (Multiset.coe_fold_l ..).symm
    _ = (second : Multiset Grants).fold or noGrants := by
        rw [← Multiset.fold_dedup_idem, members, Multiset.fold_dedup_idem]
    _ = all second := Multiset.coe_fold_l ..

theorem all_eq_foldl_of_subset {first second : List Grants}
    (contained : ∀ grants ∈ first, grants ∈ second) :
    all second = (second.filter fun grants => grants ∉ first).foldl or (all first) := by
  have joined : (second.filter fun grants => grants ∉ first).foldl or (all first) =
      all (first ++ second.filter fun grants => grants ∉ first) :=
    List.foldl_append.symm
  rw [joined]
  apply all_eq_of_same_members
  intro grants
  by_cases member : grants ∈ first
  · simp [member, contained grants member]
  · simp [member]

variable {grants : List Grants} {out : Grants}

theorem foldl_deny_yes (denied : out.deny = yes) :
    (grants.foldl or out).deny = yes := by
  induction grants generalizing out with
  | nil => exact denied
  | cons first rest ih =>
      refine ih ?_
      change out.deny.or first.deny = yes
      rw [denied, Truth.yes_or]

theorem deny_no_of_foldl (absent : (grants.foldl or out).deny = no) :
    out.deny = no := by
  induction grants generalizing out with
  | nil => exact absent
  | cons first rest ih =>
      exact (Truth.or_eq_no_iff.mp (ih absent)).1

theorem foldl_eq_of_deny_no (denials : ∀ added ∈ grants, added.deny = no → added = noGrants)
    (absent : (grants.foldl or out).deny = no) :
    grants.foldl or out = out := by
  induction grants generalizing out with
  | nil => rfl
  | cons first rest ih =>
      obtain ⟨firstDenial, others⟩ := List.forall_mem_cons.mp denials
      rw [List.foldl_cons] at absent ⊢
      have bothAbsent : out.deny.or first.deny = no := deny_no_of_foldl absent
      have unchanged : out.or first = out := by
        rw [firstDenial (Truth.or_eq_no_iff.mp bothAbsent).2, or_noGrants]
      rw [ih others absent, unchanged]

end Grants

/-- What the evaluation of a category depends on besides its policies. -/
structure Kind where
  rcp : Bool
  resource : Bool
  optional : Bool

def kindOf (name : Bytes) (resource : Bool) : Kind where
  rcp := Go.hasPrefix name (bytes "rcp[")
  resource := resource
  optional := decide (name = bytes "boundary" ∨ name = bytes "session")

noncomputable def ruleGrants (env : Env) (kind : Kind) (rule : Statement) : Grants :=
  if kind.rcp && !supportedRCP rule then .unsupported
  else noGrants.add kind.resource rule (verdict env kind.resource rule).1
    (verdict env kind.resource rule).2

def allStatements (documents : List Document) : List Statement :=
  documents.flatMap Document.statements

noncomputable def categoryValue (env : Env) (kind : Kind) (set : PolicySet) : Grants :=
  if set.coverage = .absent ∧ set.documents = [] then
    if kind.optional then { noGrants with allow := yes } else noGrants
  else if set.coverage ≠ .complete ∨ 64 < set.documents.length then unknownGrants
  else .all ((allStatements set.documents).map (ruleGrants env kind))

/-- A document as parsing returns it, for its evaluation. -/
structure Document.Whole (document : Document) : Prop where
  id : document.id ≠ []
  statements : document.statements ≠ []
  effect : ∀ rule ∈ document.statements, rule.effect = bytes "Allow" ∨ rule.effect = bytes "Deny"

section

variable {env : Env} {name : Bytes} {resource : Bool}

theorem evaluateStatements_determines (document : Bytes) (rules : List Statement) :
    ∀ (index : Nat) (out : Grants),
      Determines (evaluateStatements env name document resource index rules out)
        ⟨(rules.map (ruleGrants env (kindOf name resource))).foldl Grants.or out, false⟩ := by
  induction rules with
  | nil => exact fun index out => determines_pure _
  | cons rule rest ih =>
      intro index out
      rw [evaluateStatements, List.map_cons, List.foldl_cons]
      split_ifs with unsupported
      · have grants : ruleGrants env (kindOf name resource) rule = .unsupported :=
            if_pos unsupported
        rw [grants, ← Grants.orUnknown_eq_or]
        exact (ih (index + 1) out.orUnknown).after
      · have grants : ruleGrants env (kindOf name resource) rule =
            noGrants.add resource rule (verdict env resource rule).1
              (verdict env resource rule).2 := if_neg unsupported
        rw [grants, ← Grants.add_eq_or]
        refine (countStatement_determines.bind ?_).unlessSpent
        rw [if_pos rfl]
        exact (applyStatement_determines env _ _ resource rule out).bind
          (ih (index + 1) _)

theorem evaluateDocuments_determines (documents : List Document)
    (whole : ∀ document ∈ documents, document.Whole) :
    ∀ out : Grants,
      Determines (evaluateDocuments env name resource documents out)
        (((allStatements documents).map (ruleGrants env (kindOf name resource))).foldl
          Grants.or out) := by
  induction documents with
  | nil => exact fun out => determines_pure out
  | cons document rest ih =>
      obtain ⟨first, others⟩ := List.forall_mem_cons.mp whole
      intro out
      have evaluated : (document.id.isEmpty || document.statements.isEmpty) = false := by
        simp [first.id, first.statements]
      rw [evaluateDocuments, if_neg (by rw [evaluated]; exact Bool.false_ne_true), allStatements,
        List.flatMap_cons, List.map_append, List.foldl_append]
      refine (evaluateStatements_determines document.id document.statements 0 out).bind ?_
      rw [if_neg Bool.false_ne_true]
      exact ih others _

theorem category_determines {set : PolicySet} (whole : ∀ document ∈ set.documents, document.Whole) :
    Determines (category env name set resource)
      (categoryValue env (kindOf name resource) set) := by
  unfold category categoryValue
  simp only [kindOf, decide_eq_true_eq]
  split_ifs with absent optional unavailable
  · exact determines_pure _
  · exact determines_pure _
  · exact (determines_pure _).after
  · exact evaluateDocuments_determines set.documents whole noGrants

def layerKind (name : Bytes) : Kind where
  rcp := name == bytes "rcp"
  resource := name == bytes "rcp"
  optional := false

def layerName (name : Bytes) (index : Nat) : Bytes :=
  name ++ bytes "[" ++ Go.decimal index ++ bytes "]"

theorem kindOf_layerName (hierarchy : name = bytes "scp" ∨ name = bytes "rcp") (index : Nat) :
    kindOf (layerName name index) (name == bytes "rcp") = layerKind name := by
  -- Every layer starts with the name of its hierarchy and a bracket.
  obtain ⟨rest, starts⟩ : ∃ rest, layerName name index = name ++ bytes "[" ++ rest :=
    ⟨_, List.append_assoc _ _ _⟩
  have scp : bytes "scp" ++ bytes "[" = [0x73, 0x63, 0x70, 0x5B] := by decide
  have rcp : bytes "rcp" ++ bytes "[" = [0x72, 0x63, 0x70, 0x5B] := by decide
  have wanted : bytes "rcp[" = [0x72, 0x63, 0x70, 0x5B] := by decide
  have boundary : bytes "boundary" = 0x62 :: bytes "oundary" := by decide
  have session : bytes "session" = 0x73 :: 0x65 :: bytes "ssion" := by decide
  rw [kindOf, layerKind, starts, wanted, boundary, session]
  rcases hierarchy with rfl | rfl
  · rw [scp]
    have other : (bytes "scp" == bytes "rcp") = false := by decide
    simp [Go.hasPrefix, List.isPrefixOf, other]
  · rw [rcp]
    simp [Go.hasPrefix]

/-- What the layers grant, with what was found before them. -/
noncomputable def layersFrom (env : Env) (kind : Kind) (found : Truth × Truth)
    (layers : List PolicySet) : Truth × Truth :=
  layers.foldl
    (fun found layer =>
      (found.1.and (categoryValue env kind layer).allow,
        found.2.or (categoryValue env kind layer).deny))
    found

/-- What a hierarchy grants. -/
noncomputable def hierarchyValue (env : Env) (kind : Kind) (coverage : Coverage)
    (layers : List PolicySet) : Truth × Truth :=
  if coverage = .absent ∧ layers = [] then (yes, no)
  else if coverage = .complete then
    if layers = [] ∨ 16 < layers.length then (unknown, unknown)
    else layersFrom env kind (yes, no) layers
  else (unknown, unknown)

theorem evaluateLayers_determines (hierarchy : name = bytes "scp" ∨ name = bytes "rcp")
    (layers : List PolicySet)
    (whole : ∀ layer ∈ layers, ∀ document ∈ layer.documents, document.Whole) :
    ∀ (index : Nat) (allow deny : Truth),
      Determines (evaluateLayers env name index layers allow deny)
        (layersFrom env (layerKind name) (allow, deny) layers) := by
  induction layers with
  | nil => exact fun index allow deny => determines_pure _
  | cons layer rest ih =>
      obtain ⟨first, others⟩ := List.forall_mem_cons.mp whole
      intro index allow deny
      have found := @category_determines env (layerName name index) (name == bytes "rcp") _ first
      rw [kindOf_layerName hierarchy] at found
      exact found.bind (ih others (index + 1) _ _)

theorem hierarchy_determines (hierarchy : name = bytes "scp" ∨ name = bytes "rcp")
    {coverage : Coverage} {layers : List PolicySet}
    (whole : ∀ layer ∈ layers, ∀ document ∈ layer.documents, document.Whole) :
    Determines (Awspolicy.hierarchy env name coverage layers)
      (hierarchyValue env (layerKind name) coverage layers) := by
  unfold Awspolicy.hierarchy hierarchyValue
  split_ifs with absent complete bounds
  · exact determines_pure _
  · exact determines_pure _
  · exact evaluateLayers_determines hierarchy layers whole 0 yes no
  · exact (determines_pure _).after

end

/-- Every document of every category and layer is whole. -/
structure Evidence.Whole (evidence : Evidence) : Prop where
  identity : ∀ document ∈ evidence.identity.documents, document.Whole
  resource : ∀ document ∈ evidence.resource.documents, document.Whole
  boundary : ∀ document ∈ evidence.boundary.documents, document.Whole
  session : ∀ document ∈ evidence.session.documents, document.Whole
  scp : ∀ layer ∈ evidence.scp, ∀ document ∈ layer.documents, document.Whole
  rcp : ∀ layer ∈ evidence.rcp, ∀ document ∈ layer.documents, document.Whole

/-- What an evaluation within its budget finds. -/
noncomputable def findingsValue (env : Env) (evidence : Evidence) : Findings :=
  combine
    (categoryValue env (kindOf (bytes "identity") false) evidence.identity)
    (categoryValue env (kindOf (bytes "resource") true) evidence.resource)
    (categoryValue env (kindOf (bytes "boundary") false) evidence.boundary)
    (categoryValue env (kindOf (bytes "session") false) evidence.session)
    (hierarchyValue env (layerKind (bytes "scp")) evidence.scpCoverage evidence.scp)
    (hierarchyValue env (layerKind (bytes "rcp")) evidence.rcpCoverage evidence.rcp)

theorem findings_determines (env : Env) {evidence : Evidence} (whole : evidence.Whole) :
    Determines (findings env evidence) (findingsValue env evidence) := by
  refine (category_determines whole.identity).bind ?_
  refine (category_determines whole.resource).bind ?_
  refine (category_determines whole.boundary).bind ?_
  refine (category_determines whole.session).bind ?_
  refine (hierarchy_determines (.inl rfl) whole.scp).bind ?_
  refine (hierarchy_determines (.inr rfl) whole.rcp).bind ?_
  exact determines_pure _

theorem decision_eq_of_completes {reader : Reader} {request : Request} {evidence : Evidence}
    (whole : evidence.Whole) (completed : completes reader request evidence = true) :
    ∃ facts, validate request = .ok facts ∧
      (evaluate reader request evidence).decision =
        (conclude request false
          (findingsValue (environment reader request evidence facts) evidence)).1 := by
  obtain ⟨facts, valid, lasting, decided⟩ := decision_of_completes completed
  refine ⟨facts, valid, ?_⟩
  rw [decided, findings_determines _ whole initialState lasting]

end Trstctl.Cloudentitlements.Awspolicy
