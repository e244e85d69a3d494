import Trstctl.Library.Result
import Trstctl.Cloudentitlements.Awspolicy.Evaluate

/-!
# More evidence for a request

Evidence and contexts that decide what another leaves open, and what an
evaluation reads of them once the requests are validated.
-/

namespace Trstctl.Cloudentitlements.Awspolicy

open Go (Bytes bytes toLower)

/-- The context has values for a key. -/
def Context.Present (context : Context) (key : Bytes) : Prop :=
  ∃ binding ∈ context.values, toLower binding.1 = toLower key

/-- A context key is declared absent, by name or because the context is
complete. -/
def Context.DeclaredAbsent (context : Context) (key : Bytes) : Prop :=
  context.complete = true ∨ toLower key ∈ context.absentKeys.map toLower

/-- The second context decides keys that are open in the first: it gives values
only to keys that are neither present nor declared absent. -/
structure Context.Extends (more less : Context) : Prop where
  values : ∀ binding ∈ less.values, binding ∈ more.values
  absentKeys : ∀ key ∈ less.absentKeys, key ∈ more.absentKeys
  complete : less.complete = true → more.complete = true
  fresh : ∀ binding ∈ more.values, binding ∈ less.values ∨
    ¬ less.Present binding.1 ∧ ¬ less.DeclaredAbsent binding.1

/-- Requests that differ in a context that is extended. -/
structure Request.Extends (more less : Request) : Prop where
  principal : more.principal = less.principal
  action : more.action = less.action
  resource : more.resource = less.resource
  resourceAccountID : more.resourceAccountID = less.resourceAccountID
  context : more.context.Extends less.context

/-- A category that is the same, or any available one for an unavailable one. -/
def PolicySet.Extends (more less : PolicySet) : Prop :=
  more = less ∨ less.coverage = .unavailable ∧
    (more.coverage = .absent ∨ more.coverage = .complete)

/-- A hierarchy whose layers are extended, or any available one for an
unavailable one. -/
def HierarchyExtends (coverage : Coverage) (layers : List PolicySet) (coverage' : Coverage)
    (layers' : List PolicySet) : Prop :=
  coverage = coverage' ∧ List.Forall₂ PolicySet.Extends layers layers' ∨
    coverage' = .unavailable ∧ (coverage = .absent ∨ coverage = .complete)

/-- Evidence in which unavailable categories and hierarchies are replaced. -/
structure Evidence.Extends (more less : Evidence) : Prop where
  identity : more.identity.Extends less.identity
  resource : more.resource.Extends less.resource
  boundary : more.boundary.Extends less.boundary
  session : more.session.Extends less.session
  scp : HierarchyExtends more.scpCoverage more.scp less.scpCoverage less.scp
  rcp : HierarchyExtends more.rcpCoverage more.rcp less.rcpCoverage less.rcp

/-- What an evaluation reads when more is known. -/
structure Env.Extends (more less : Env) : Prop where
  principal : more.request.principal = less.request.principal
  action : more.request.action = less.request.action
  resource : more.request.resource = less.request.resource
  reader : more.reader = less.reader
  boundaryCoverage : more.boundaryCoverage = less.boundaryCoverage ∨
    less.boundaryCoverage = .unavailable
  contextKey : ∀ key, contextKey less key = none ∨ contextKey more key = contextKey less key

theorem lookup_foldValues {values context folded : Go.Map (List Bytes)}
    (success : foldValues values context = .ok folded) (key : Bytes) (bound : List Bytes) :
    folded.lookup key = some bound ↔
      context.lookup key = some bound ∨
        ∃ binding ∈ values, toLower binding.1 = key ∧ binding.2 = bound := by
  induction values generalizing context with
  | nil =>
      obtain rfl := Except.ok.inj success
      simp
  | cons binding rest ih =>
      obtain ⟨name, first⟩ := binding
      simp only [foldValues, Result.guard_eq_ok] at success
      obtain ⟨-, unused, -, success⟩ := success
      rw [ih success, Go.MapOf.lookup_set]
      have unbound : context.lookup (toLower name) = none :=
        Option.not_isSome_iff_eq_none.mp unused
      by_cases same : key = toLower name
      · subst same
        simp [unbound]
      · simp [same, Ne.symm same]

theorem foldAbsent_eq {context : Go.Map (List Bytes)} {keys absent : List Bytes}
    (success : foldAbsent context keys = .ok absent) :
    absent = keys.map toLower := by
  induction keys generalizing absent with
  | nil => exact (Except.ok.inj success).symm
  | cons key rest ih =>
      simp only [foldAbsent, Result.guard_eq_ok, Result.bind_eq_ok] at success
      obtain ⟨-, -, others, success, result⟩ := success
      rw [← Except.ok.inj result, ih success, List.map_cons]

variable {facts : Facts} {key : Bytes}

theorem bindFact_eq {bound : Facts} {value : Bytes}
    (success : bindFact facts key value = .ok bound) :
    bound = { facts with context := facts.context.set key [value] } := by
  cases held : facts.context.lookup key with
  | some values =>
      simp only [bindFact, held, Result.guard_eq_ok] at success
      exact (Except.ok.inj success.2.2).symm
  | none =>
      simp only [bindFact, held, Result.guard_eq_ok] at success
      exact (Except.ok.inj success.2).symm

/-- The facts on the principal that every context has. -/
def principalFact (principal : Principal) (key : Bytes) : Option (List Bytes) :=
  if key = bytes "aws:principalaccount" then some [principal.accountID]
  else if key = bytes "aws:principalarn" then some [principalARN principal]
  else none

theorem lookup_validate {request : Request} (success : validate request = .ok facts) (key : Bytes)
    (bound : List Bytes) :
    facts.context.lookup key = some bound ↔
      principalFact request.principal key = some bound ∨
        principalFact request.principal key = none ∧
          ∃ binding ∈ request.context.values, toLower binding.1 = key ∧ binding.2 = bound := by
  simp only [validate, validateContext, Result.bind_eq_ok, Result.guard_eq_ok] at success
  obtain ⟨_, -, -, context, folds, absent, -, withARN, bindsARN, bindsAccount⟩ := success
  rw [bindFact_eq bindsAccount, bindFact_eq bindsARN, Go.MapOf.lookup_set, Go.MapOf.lookup_set,
    principalFact]
  split_ifs
  · simp
  · simp
  · simp [lookup_foldValues folds]

theorem absent_validate {request : Request} (success : validate request = .ok facts) :
    facts.absent = request.context.absentKeys.map toLower := by
  simp only [validate, validateContext, Result.bind_eq_ok, Result.guard_eq_ok] at success
  obtain ⟨_, -, -, context, -, absent, folds, withARN, bindsARN, bindsAccount⟩ := success
  rw [bindFact_eq bindsAccount, bindFact_eq bindsARN]
  exact foldAbsent_eq folds

variable {facts' : Facts}

theorem lookup_extends {less more : Request} (requests : more.Extends less)
    (valid : validate less = .ok facts) (valid' : validate more = .ok facts') {bound : List Bytes}
    (binds : facts.context.lookup key = some bound) :
    facts'.context.lookup key = some bound := by
  rw [lookup_validate valid', requests.principal]
  rcases (lookup_validate valid key bound).mp binds with fact | ⟨noFact, binding, member, folds⟩
  · exact Or.inl fact
  · exact Or.inr ⟨noFact, binding, requests.context.values binding member, folds⟩

theorem lookup_none_extends {less more : Request} (requests : more.Extends less)
    (valid : validate less = .ok facts) (valid' : validate more = .ok facts')
    (unbound : facts.context.lookup key = none)
    (absent : less.context.complete = true ∨ key ∈ less.context.absentKeys.map toLower) :
    facts'.context.lookup key = none := by
  by_contra bound
  obtain ⟨values, bound⟩ := Option.ne_none_iff_exists'.mp bound
  have nothing : ∀ values, ¬ facts.context.lookup key = some values := by simp [unbound]
  rw [lookup_validate valid', requests.principal] at bound
  rcases bound with fact | ⟨noFact, binding, member, folds, same⟩
  · exact nothing values ((lookup_validate valid key values).mpr (Or.inl fact))
  · rcases requests.context.fresh binding member with old | ⟨-, undeclared⟩
    · exact nothing values ((lookup_validate valid key values).mpr
        (Or.inr ⟨noFact, binding, old, folds, same⟩))
    · rw [← folds] at absent
      exact undeclared absent

variable {env : Env}

theorem contextKey_of_bound {values : List Bytes}
    (bound : env.context.lookup (toLower key) = some values) :
    contextKey env key = some (some values) := by
  simp only [contextKey, bound]

theorem contextKey_of_absent (unbound : env.context.lookup (toLower key) = none)
    (absent : env.request.context.complete = true ∨ toLower key ∈ env.absent) :
    contextKey env key = some none := by
  simp [contextKey, unbound, absent]

theorem contextKey_of_open (unbound : env.context.lookup (toLower key) = none)
    (notAbsent : ¬ (env.request.context.complete = true ∨ toLower key ∈ env.absent)) :
    contextKey env key = none := by
  simp [contextKey, unbound, notAbsent]

theorem environment_extends (reader : Reader)
    {less more : Request} {evidence evidence' : Evidence}
    (requests : more.Extends less) (evidences : evidence'.Extends evidence)
    (valid : validate less = .ok facts) (valid' : validate more = .ok facts') :
    (environment reader more evidence' facts').Extends
      (environment reader less evidence facts) where
  principal := requests.principal
  action := requests.action
  resource := requests.resource
  reader := rfl
  boundaryCoverage := by
    rcases evidences.boundary with same | ⟨unavailable, -⟩
    · exact Or.inl (congrArg PolicySet.coverage same)
    · exact Or.inr unavailable
  contextKey := by
    intro key
    cases bound : facts.context.lookup (toLower key) with
    | some values =>
        have bound' := lookup_extends requests valid valid' bound
        exact Or.inr ((contextKey_of_bound bound').trans (contextKey_of_bound bound).symm)
    | none =>
        by_cases absent : less.context.complete = true ∨ toLower key ∈ facts.absent
        · have known := absent
          rw [absent_validate valid] at known
          have absent' : more.context.complete = true ∨ toLower key ∈ facts'.absent := by
            rw [absent_validate valid']
            refine known.imp requests.context.complete fun member => ?_
            exact List.map_subset _ requests.context.absentKeys member
          have bound' := lookup_none_extends requests valid valid' bound known
          exact Or.inr
            ((contextKey_of_absent bound' absent').trans (contextKey_of_absent bound absent).symm)
        · exact Or.inl (contextKey_of_open bound absent)

end Trstctl.Cloudentitlements.Awspolicy
