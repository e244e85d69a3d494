import Trstctl.Cloudentitlements.Awspolicy.Glob
import Trstctl.Cloudentitlements.Awspolicy.Extension

/-!
# Stability of definite decisions

A definite decision stays when unavailable evidence becomes available and open
context keys are decided.  Every part of the evaluation is monotone in the
order of information, as long as the budget lasts.
-/

namespace Trstctl.Cloudentitlements.Awspolicy

open Go (Bytes bytes Rune)
open Truth Budgeted

/-- More steps do not change the result of the wildcard loop. -/
theorem globLoop_add (extra : Nat) (steps : Nat) :
    ∀ {pattern value : List Rune} {star : Option (List Rune × List Rune)} {result : Truth}
      {left : Nat}, globLoop steps pattern value star = some (result, left) →
        globLoop (steps + extra) pattern value star = some (result, left + extra) := by
  induction steps with
  | zero =>
      intro pattern value star result left run
      cases value with
      | nil =>
          obtain ⟨rfl, rfl⟩ := Prod.mk.inj (Option.some.inj run)
          simp only [globLoop]
      | cons rune rest => cases run
  | succ steps ih =>
      intro pattern value star result left run
      rw [Nat.add_right_comm]
      cases value with
      | nil =>
          obtain ⟨rfl, rfl⟩ := Prod.mk.inj (Option.some.inj run)
          simp only [globLoop, Nat.add_right_comm]
      | cons rune rest =>
          -- the loop takes the same branch with more steps
          cases pattern with
          | nil =>
              cases star with
              | none =>
                  obtain ⟨rfl, rfl⟩ := Prod.mk.inj (Option.some.inj run)
                  rfl
              | some lastStar => exact ih run
          | cons first later =>
              simp only [globLoop] at run ⊢
              split_ifs at run ⊢ with takes isStar
              · exact ih run
              · exact ih run
              · cases star with
                | none =>
                    obtain ⟨rfl, rfl⟩ := Prod.mk.inj (Option.some.inj run)
                    rfl
                | some lastStar => exact ih run

theorem glob_agrees (pattern value : Bytes) (fold : Bool) :
    Agrees Eq (glob pattern value fold) (glob pattern value fold) := by
  intro state state' unspent unspent'
  cases hasVariable : Go.contains pattern [0x24, 0x7B] with
  | true => simp [glob, hasVariable]
  | false =>
      obtain ⟨left, run⟩ := glob_eq_of_not_exhausted hasVariable unspent
      obtain ⟨left', run'⟩ := glob_eq_of_not_exhausted hasVariable unspent'
      have first := globLoop_add state'.steps state.steps run
      have second := globLoop_add state.steps state'.steps run'
      rw [Nat.add_comm, first] at second
      exact (Prod.mk.inj (Option.some.inj second)).1

theorem spend_agrees (count count' : Nat) :
    Agrees (fun paid paid' => paid = true ∧ paid' = true) (spend count) (spend count') := by
  intro state state' unspent unspent'
  simp only [spend] at unspent unspent' ⊢
  split_ifs at unspent unspent' ⊢
  exact ⟨rfl, rfl⟩

theorem anyGlob_agrees (value : Bytes) (fold : Bool) (patterns : List Bytes) (result : Truth) :
    Agrees Eq (anyGlob value fold patterns result) (anyGlob value fold patterns result) := by
  induction patterns generalizing result with
  | nil => exact agrees_pure rfl
  | cons pattern rest ih =>
      refine (glob_agrees pattern value fold).bind ?_
      rintro one _ rfl
      exact ih _

theorem selectors_agrees (positive negative : List Bytes) (value : Bytes) (fold : Bool) :
    Agrees Eq (selectors positive negative value fold)
      (selectors positive negative value fold) := by
  refine .ite (agrees_pure rfl) ((anyGlob_agrees _ _ _ _).bind ?_)
  rintro result _ rfl
  exact agrees_pure rfl

theorem matchNames_agrees (principal : Principal) (names : List Bytes) (matched : Matched) :
    Agrees Eq (matchNames principal names matched) (matchNames principal names matched) := by
  induction names generalizing matched with
  | nil => exact agrees_pure rfl
  | cons name rest ih =>
      refine (spend_agrees _ _).bind ?_
      rintro _ _ ⟨rfl, rfl⟩
      exact ih _

variable {less more : Env}

theorem compareCondition_agrees (sameReader : more.reader = less.reader)
    (operator actual wanted : Bytes) :
    Agrees Eq (compareCondition less operator actual wanted)
      (compareCondition more operator actual wanted) := by
  simp only [compareCondition, sameReader]
  refine (spend_agrees _ _).bind ?_
  rintro _ _ ⟨rfl, rfl⟩
  simp only [Bool.not_true, Bool.false_eq_true, if_false]
  refine .ite (agrees_pure rfl) (.ite (agrees_pure rfl) (.ite (agrees_pure rfl)
    (.ite (glob_agrees _ _ _) (.ite (.ite (agrees_pure rfl) (.ite (agrees_pure rfl)
      (glob_agrees _ _ _))) (.ite ?_ (.ite (agrees_pure rfl) (.ite (agrees_pure rfl)
        (.ite (agrees_pure rfl) (agrees_pure rfl)))))))))
  split
  all_goals exact agrees_pure rfl

theorem anyExpected_agrees (sameReader : more.reader = less.reader) (operator actual : Bytes)
    (expected : List Bytes) (one : Truth) :
    Agrees Eq (anyExpected less operator actual expected one)
      (anyExpected more operator actual expected one) := by
  induction expected generalizing one with
  | nil => exact agrees_pure rfl
  | cons wanted rest ih =>
      refine ((compareCondition_agrees sameReader operator actual wanted).bind ?_).unlessSpent
      rintro next _ rfl
      exact ih _

theorem conditionValues_agrees (sameReader : more.reader = less.reader) (operator : Operator)
    (expected values : List Bytes) (result : Truth) :
    Agrees Eq (conditionValues less operator expected values result)
      (conditionValues more operator expected values result) := by
  induction values generalizing result with
  | nil => exact agrees_pure rfl
  | cons actual rest ih =>
      refine Agrees.unlessSpent (.ite (agrees_pure rfl) ?_)
      refine (anyExpected_agrees sameReader operator.base actual expected no).bind ?_
      rintro one _ rfl
      cases one with
      | none => exact agrees_pure rfl
      | some one => exact ih _

theorem condition_agrees (sameReader : more.reader = less.reader) (text : Bytes)
    (values : Option (List Bytes)) (expected : List Bytes) :
    Agrees Eq (condition less text values expected) (condition more text values expected) := by
  refine .ite ?_ (.ite (agrees_pure rfl) ?_)
  · split
    · refine .ite (agrees_pure rfl) ?_
      split
      all_goals exact agrees_pure rfl
    · exact agrees_pure rfl
  · cases values with
    | none =>
        exact .ite (agrees_pure rfl) (.ite (agrees_pure rfl) (agrees_pure rfl))
    | some values =>
        exact .ite (agrees_pure rfl) (conditionValues_agrees sameReader _ _ _ _)

/-- Refinement of a result that a lasting budget always gives. -/
def OptionRefines (less more : Option Truth) : Prop :=
  ∃ value value', less = some value ∧ more = some value' ∧ Refines value value'

theorem conditionKeys_agrees (envs : more.Extends less) (operator : Bytes)
    (keys : Go.Map (List Bytes)) :
    ∀ {result result' : Truth}, Refines result result' →
      Agrees OptionRefines (conditionKeys less operator keys result)
        (conditionKeys more operator keys result') := by
  induction keys with
  | nil => exact fun refines => agrees_pure ⟨_, _, rfl, rfl, refines⟩
  | cons binding rest ih =>
      intro result result' refines
      obtain ⟨key, expected⟩ := binding
      refine Agrees.unlessSpent ?_
      rcases envs.contextKey key with openKey | same
      · rw [openKey]
        cases contextKey more key with
        | none => exact ih (refines.and (Refines.refl unknown))
        | some values =>
            exact agrees_bind_right fun one =>
              ih (refines.and (unknown_refines one))
      · rw [same]
        cases contextKey less key with
        | none => exact ih (refines.and (Refines.refl unknown))
        | some values =>
            refine (condition_agrees envs.reader operator values expected).bind ?_
            rintro one _ rfl
            exact ih (refines.and (Refines.refl one))

theorem conditionOperators_agrees (envs : more.Extends less)
    (operators : Go.Map (Go.Map (List Bytes))) :
    ∀ {result result' : Truth}, Refines result result' →
      Agrees Refines (conditionOperators less operators result)
        (conditionOperators more operators result') := by
  induction operators with
  | nil => exact fun refines => agrees_pure refines
  | cons binding rest ih =>
      intro result result' refines
      obtain ⟨operator, keys⟩ := binding
      refine Agrees.unlessSpent ((conditionKeys_agrees envs operator _ refines).bind ?_)
      rintro _ _ ⟨value, value', rfl, rfl, valueRefines⟩
      exact ih valueRefines

theorem conditions_agrees (envs : more.Extends less) (condition : Go.Map (Go.Map (List Bytes))) :
    Agrees Refines (conditions less condition) (conditions more condition) :=
  conditionOperators_agrees envs _ (Refines.refl yes)

/-- Refinement of every way a principal matches. -/
structure Matched.Refines (less more : Matched) : Prop where
  direct : Truth.Refines less.direct more.direct
  restricted : Truth.Refines less.restricted more.restricted
  account : Truth.Refines less.account more.account

theorem Matched.Refines.refl (matched : Matched) : matched.Refines matched :=
  ⟨.refl _, .refl _, .refl _⟩

theorem agrees_negated {coverage coverage' : Coverage}
    (extended : coverage' = coverage ∨ coverage = .unavailable) (deny : Prop) [Decidable deny]
    (negation : Truth) :
    Agrees Matched.Refines
      (if deny ∧ coverage = .complete then pure ⟨yes, no, no⟩
        else if deny ∧ coverage ≠ .absent then pure ⟨unknown, no, no⟩
        else pure ⟨negation, no, no⟩ : Eval Matched)
      (if deny ∧ coverage' = .complete then pure ⟨yes, no, no⟩
        else if deny ∧ coverage' ≠ .absent then pure ⟨unknown, no, no⟩
        else pure ⟨negation, no, no⟩) := by
  rcases extended with rfl | rfl
  · exact .ite (agrees_pure (.refl _)) (.ite (agrees_pure (.refl _)) (agrees_pure (.refl _)))
  · by_cases isDeny : deny
    · have open' : ∀ truth, Matched.Refines ⟨unknown, no, no⟩ ⟨truth, no, no⟩ := fun truth =>
        ⟨unknown_refines truth, .refl no, .refl no⟩
      simp only [isDeny, true_and, reduceCtorEq, if_false, ne_eq, not_false_eq_true, if_true]
      split_ifs
      all_goals exact agrees_pure (open' _)
    · simp only [isDeny, false_and, if_false]
      exact agrees_pure (.refl _)

theorem principal_agrees (envs : more.Extends less) (rule : Statement) :
    Agrees Matched.Refines (principal less rule) (principal more rule) := by
  simp only [principal, envs.principal, envs.reader]
  refine .ite (agrees_pure (.refl _)) ?_
  split
  · exact agrees_pure (.refl _)
  · refine (matchNames_agrees _ _ _).bind ?_
    rintro matched _ rfl
    cases matched with
    | none => exact agrees_pure (.refl _)
    | some matched =>
        exact .ite (agrees_negated envs.boundaryCoverage _ _) (agrees_pure (.refl _))

/-- Refinement of whether a statement applies, and for whom. -/
structure AppliedRefines (less more : Truth × Matched) : Prop where
  applied : Refines less.1 more.1
  matched : less.2.Refines more.2

theorem applies_agrees (envs : more.Extends less) (resource : Bool) (rule : Statement) :
    Agrees AppliedRefines (applies less resource rule) (applies more resource rule) := by
  simp only [applies, envs.action, envs.resource]
  refine (selectors_agrees _ _ _ _).bind ?_
  rintro action _ rfl
  refine (selectors_agrees _ _ _ _).bind ?_
  rintro target _ rfl
  refine .ite (agrees_pure ⟨.refl no, .refl _⟩) ?_
  cases resource with
  | true =>
      refine (principal_agrees envs rule).bind fun matched matched' refines => ?_
      refine (conditions_agrees envs rule.condition).bind fun held held' heldRefines => ?_
      have someone := refines.direct.or (refines.restricted.or refines.account)
      exact agrees_pure ⟨((Refines.refl _).and someone).and heldRefines, refines⟩
  | false =>
      simp only [Bool.false_eq_true, if_false]
      refine (agrees_pure (Matched.Refines.refl _)).bind fun matched matched' refines => ?_
      refine (conditions_agrees envs rule.condition).bind fun held held' heldRefines => ?_
      exact agrees_pure ⟨(Refines.refl _).and heldRefines, refines⟩

/-- Refinement of every grant. -/
structure Grants.Refines (less more : Grants) : Prop where
  allow : Truth.Refines less.allow more.allow
  deny : Truth.Refines less.deny more.deny
  direct : Truth.Refines less.direct more.direct
  restricted : Truth.Refines less.restricted more.restricted
  account : Truth.Refines less.account more.account

theorem Grants.Refines.refl (grants : Grants) : grants.Refines grants :=
  ⟨.refl _, .refl _, .refl _, .refl _, .refl _⟩

theorem unknownGrants_refines (grants : Grants) : unknownGrants.Refines grants :=
  ⟨unknown_refines _, unknown_refines _, unknown_refines _, unknown_refines _, unknown_refines _⟩

theorem Grants.Refines.orUnknown {less more : Grants} (refines : less.Refines more) :
    less.orUnknown.Refines more.orUnknown :=
  { refines with
    allow := refines.allow.or (.refl unknown)
    deny := refines.deny.or (.refl unknown) }

theorem Grants.Refines.setUnknown {less more : Grants} (refines : less.Refines more) :
    less.setUnknown.Refines more.setUnknown :=
  { refines with
    allow := .refl unknown
    deny := .refl unknown }

theorem Grants.add_no (out : Grants) (resource : Bool) (rule : Statement) (matched : Matched) :
    out.add resource rule no matched = out := by
  simp [Grants.add]

theorem Grants.Refines.add {less more : Grants} {applied applied' : Truth × Matched}
    (refines : less.Refines more) (appliedRefines : AppliedRefines applied applied')
    (resource : Bool) (rule : Statement) :
    (less.add resource rule applied.1 applied.2).Refines
      (more.add resource rule applied'.1 applied'.2) := by
  obtain ⟨applies, matched⟩ := appliedRefines
  simp only [Grants.add]
  split_ifs
  · exact { refines with deny := refines.deny.or applies }
  · exact {
      allow := refines.allow.or applies
      deny := refines.deny
      direct := refines.direct.or (applies.and matched.direct)
      restricted := refines.restricted.or (applies.and matched.restricted)
      account := refines.account.or (applies.and matched.account) }
  · exact { refines with allow := refines.allow.or applies }

theorem applyStatement_run (env : Env) (source sid : Bytes) (resource : Bool) (rule : Statement)
    (out : Grants) (state : State) :
    ((applyStatement env source sid resource rule out).run state).1 =
        out.add resource rule ((applies env resource rule).run state).1.1
          ((applies env resource rule).run state).1.2 ∧
      ((applyStatement env source sid resource rule out).run state).2.exhausted =
        ((applies env resource rule).run state).2.exhausted := by
  simp only [applyStatement, run_bind]
  by_cases refused : ((applies env resource rule).run state).1.1 = no
  · rw [if_pos refused, refused, Grants.add_no]
    exact ⟨rfl, rfl⟩
  · rw [if_neg refused]
    exact ⟨rfl, rfl⟩

theorem applyStatement_agrees (envs : more.Extends less) (source sid : Bytes) (resource : Bool)
    (rule : Statement) {out out' : Grants} (refines : out.Refines out') :
    Agrees Grants.Refines (applyStatement less source sid resource rule out)
      (applyStatement more source sid resource rule out') := by
  intro state state' unspent unspent'
  rw [(applyStatement_run _ _ _ _ _ _ _).2] at unspent unspent'
  rw [(applyStatement_run _ _ _ _ _ _ _).1, (applyStatement_run _ _ _ _ _ _ _).1]
  exact refines.add (applies_agrees envs resource rule state state' unspent unspent') resource rule

theorem countStatement_agrees :
    Agrees (fun counted counted' => counted = true ∧ counted' = true) countStatement
      countStatement := by
  intro state state' unspent unspent'
  simp only [countStatement] at unspent unspent' ⊢
  split_ifs at unspent unspent' ⊢
  exact ⟨rfl, rfl⟩

/-- Refinement of the grants of statements that were all evaluated. -/
structure Progress.Refines (less more : Progress) : Prop where
  out : less.out.Refines more.out
  stopped : less.stopped = false
  stopped' : more.stopped = false

theorem evaluateStatements_agrees (envs : more.Extends less) (name document : Bytes)
    (resource : Bool) (rules : List Statement) :
    ∀ (index : Nat) {out out' : Grants}, out.Refines out' →
      Agrees Progress.Refines (evaluateStatements less name document resource index rules out)
        (evaluateStatements more name document resource index rules out') := by
  induction rules with
  | nil => exact fun _ _ _ refines => agrees_pure ⟨refines, rfl, rfl⟩
  | cons rule rest ih =>
      intro index out out' refines
      refine .ite ?_ (Agrees.unlessSpent (countStatement_agrees.bind ?_))
      · exact agrees_bind_left fun _ => agrees_bind_right fun _ =>
          ih (index + 1) refines.orUnknown
      · rintro _ _ ⟨rfl, rfl⟩
        refine (applyStatement_agrees envs _ _ resource rule refines).bind ?_
        exact fun next next' nextRefines => ih (index + 1) nextRefines

theorem evaluateDocuments_agrees (envs : more.Extends less) (name : Bytes) (resource : Bool)
    (documents : List Document) :
    ∀ {out out' : Grants}, out.Refines out' →
      Agrees Grants.Refines (evaluateDocuments less name resource documents out)
        (evaluateDocuments more name resource documents out') := by
  induction documents with
  | nil => exact fun refines => agrees_pure refines
  | cons document rest ih =>
      intro out out' refines
      refine .ite (ih refines.setUnknown) ?_
      refine (evaluateStatements_agrees envs name document.id resource _ 0 refines).bind ?_
      rintro progress progress' ⟨outRefines, stopped, stopped'⟩
      rw [stopped, stopped']
      exact ih outRefines

theorem category_agrees (envs : more.Extends less) (name : Bytes) {set set' : PolicySet}
    (extended : set'.Extends set) (resource : Bool) :
    Agrees Grants.Refines (category less name set resource) (category more name set' resource) := by
  rcases extended with rfl | ⟨unavailable, -⟩
  · refine .ite (.ite (agrees_pure (.refl _)) (agrees_pure (.refl _))) (.ite ?_ ?_)
    · exact agrees_bind_left fun _ => agrees_bind_right fun _ => agrees_pure (.refl _)
    · exact evaluateDocuments_agrees envs name resource _ (.refl _)
  · simp only [category, unavailable, reduceCtorEq, false_and, if_false, ne_eq, not_false_eq_true,
      true_or, if_true]
    exact agrees_bind_left fun _ => agrees_of_forall unknownGrants_refines

/-- Refinement of the permission and denial of a hierarchy. -/
structure LayersRefine (less more : Truth × Truth) : Prop where
  allow : Refines less.1 more.1
  deny : Refines less.2 more.2

theorem evaluateLayers_agrees (envs : more.Extends less) (name : Bytes)
    {layers layers' : List PolicySet} (extended : List.Forall₂ PolicySet.Extends layers' layers) :
    ∀ (index : Nat) {allow allow' deny deny' : Truth}, Refines allow allow' → Refines deny deny' →
      Agrees LayersRefine (evaluateLayers less name index layers allow deny)
        (evaluateLayers more name index layers' allow' deny') := by
  induction extended with
  | nil => exact fun _ _ _ _ _ allows denies => agrees_pure ⟨allows, denies⟩
  | cons first rest ih =>
      intro index allow allow' deny deny' allows denies
      refine (category_agrees envs _ first _).bind fun grants grants' refines => ?_
      exact ih (index + 1) (allows.and refines.allow) (denies.or refines.deny)

theorem hierarchy_agrees (envs : more.Extends less) (name : Bytes)
    {coverage coverage' : Coverage} {layers layers' : List PolicySet}
    (extended : HierarchyExtends coverage' layers' coverage layers) :
    Agrees LayersRefine (hierarchy less name coverage layers)
      (hierarchy more name coverage' layers') := by
  rcases extended with ⟨rfl, extended⟩ | ⟨rfl, -⟩
  · have lengths := extended.length_eq
    have empty : layers = [] ↔ layers' = [] := by
      rw [← List.length_eq_zero_iff, ← List.length_eq_zero_iff, lengths]
    simp only [hierarchy, empty, ← lengths]
    refine .ite (agrees_pure ⟨.refl _, .refl _⟩)
      (.ite (.ite (agrees_pure ⟨.refl _, .refl _⟩) ?_) ?_)
    · exact evaluateLayers_agrees envs name extended 0 (.refl _) (.refl _)
    · exact agrees_bind_left fun _ => agrees_bind_right fun _ => agrees_pure ⟨.refl _, .refl _⟩
  · simp only [hierarchy, reduceCtorEq, false_and, if_false]
    exact agrees_bind_left fun _ => agrees_of_forall fun _ =>
      ⟨unknown_refines _, unknown_refines _⟩

/-- Refinement of what decides a request. -/
structure Findings.Refines (less more : Findings) : Prop where
  deny : Truth.Refines less.deny more.deny
  permitted : Truth.Refines less.permitted more.permitted

theorem combine_refines
    {identity identity' resource resource' boundary boundary' session session' : Grants}
    {scp scp' rcp rcp' : Truth × Truth} (identities : identity.Refines identity')
    (resources : resource.Refines resource') (boundaries : boundary.Refines boundary')
    (sessions : session.Refines session') (scps : LayersRefine scp scp')
    (rcps : LayersRefine rcp rcp') :
    (combine identity resource boundary session scp rcp).Refines
      (combine identity' resource' boundary' session' scp' rcp') := by
  have bounds := boundaries.allow.and sessions.allow
  have identityPath := identities.allow.and bounds
  have resourcePath := (resources.direct.or (resources.restricted.and bounds)).or
    (resources.account.and identityPath)
  exact {
    deny := ((identities.deny.or resources.deny).or (boundaries.deny.or sessions.deny)).or
      (scps.deny.or rcps.deny)
    permitted := (identityPath.or resourcePath).and (scps.allow.and rcps.allow) }

theorem findings_agrees {evidence evidence' : Evidence} (envs : more.Extends less)
    (evidences : evidence'.Extends evidence) :
    Agrees Findings.Refines (findings less evidence) (findings more evidence') := by
  refine (category_agrees envs _ evidences.identity _).bind fun _ _ identities => ?_
  refine (category_agrees envs _ evidences.resource _).bind fun _ _ resources => ?_
  refine (category_agrees envs _ evidences.boundary _).bind fun _ _ boundaries => ?_
  refine (category_agrees envs _ evidences.session _).bind fun _ _ sessions => ?_
  refine (hierarchy_agrees envs _ evidences.scp).bind fun _ _ scps => ?_
  refine (hierarchy_agrees envs _ evidences.rcp).bind fun _ _ rcps => ?_
  exact agrees_pure (combine_refines identities resources boundaries sessions scps rcps)

theorem conclude_eq_of_refines {request request' : Request} {found found' : Findings}
    (outside : outsideModel request' = outsideModel request) (refines : found.Refines found')
    (definite : (conclude request false found).1 ≠ .indeterminate) :
    (conclude request' false found').1 = (conclude request false found).1 := by
  have denyKnown : found.deny ≠ unknown := by
    intro open'
    apply definite
    simp only [conclude, open', reduceCtorEq, if_false, if_true, Bool.false_eq_true]
    split <;> rfl
  have denies : found'.deny = found.deny := refines.deny.eq denyKnown
  by_cases denied : found.deny = yes
  · simp only [conclude, denies, denied, if_true]
  · have permittedKnown : found.permitted ≠ unknown := by
      intro open'
      apply definite
      simp only [conclude, denied, denyKnown, open', reduceCtorEq, if_false, if_true,
        Bool.false_eq_true]
      split <;> rfl
    have permits : found'.permitted = found.permitted := refines.permitted.eq permittedKnown
    simp only [conclude, denies, permits, outside]

/-- The request is valid and its evaluation stays within the work budget and
the statement bound. -/
def completes (reader : Reader) (request : Request) (evidence : Evidence) : Bool :=
  match validate request with
  | .error _ => false
  | .ok facts =>
      !((findings (environment reader request evidence facts) evidence).run
        initialState).2.exhausted

theorem decision_of_completes {reader : Reader} {request : Request} {evidence : Evidence}
    (completed : completes reader request evidence = true) :
    ∃ facts, validate request = .ok facts ∧
      ((findings (environment reader request evidence facts) evidence).run
        initialState).2.exhausted = false ∧
      (evaluate reader request evidence).decision =
        (conclude request false ((findings (environment reader request evidence facts)
          evidence).run initialState).1).1 := by
  unfold completes at completed
  cases valid : validate request with
  | error detail => simp [valid] at completed
  | ok facts =>
      rw [valid] at completed
      have lasting := Bool.not_eq_true' _ ▸ completed
      refine ⟨facts, rfl, lasting, ?_⟩
      delta evaluate
      rw [valid]
      dsimp only
      rw [lasting]

/-- A definite decision stays when unavailable categories and hierarchies are
replaced by available ones and open context keys are decided, as long as both
requests are valid and both evaluations stay within their budgets. -/
theorem decision_stable
    (reader : Reader)
    {less more : Request} {evidence evidence' : Evidence}
    (requests : more.Extends less)
    (evidences : evidence'.Extends evidence)
    (completed : completes reader less evidence = true)
    (completed' : completes reader more evidence' = true)
    (definite : (evaluate reader less evidence).decision ≠ .indeterminate) :
    (evaluate reader more evidence').decision = (evaluate reader less evidence).decision := by
  obtain ⟨facts, valid, lasting, decided⟩ := decision_of_completes completed
  obtain ⟨facts', valid', lasting', decided'⟩ := decision_of_completes completed'
  have envs := environment_extends reader requests evidences valid valid'
  have refines := findings_agrees envs evidences _ _ lasting lasting'
  have outside : outsideModel more = outsideModel less := by
    simp only [outsideModel, requests.principal, requests.action, requests.resourceAccountID]
  rw [decided] at definite
  rw [decided, decided']
  exact conclude_eq_of_refines outside refines definite

/-- A reader that reads nothing, for policies without principals and
conditions. -/
def noReader : Reader where
  jsonString _ := none
  jsonObject _ := none
  jsonStrings _ := none
  equalFold left right := left == right
  parseFloat _ := none
  parseTime _ := none
  parseInt _ := none
  parseAddr _ := none
  parsePrefix _ := none

/-- A user reads an object, in a given context. -/
def readRequest (context : Context) : Request where
  principal := ⟨.iamUser, bytes "arn:aws:iam::123456789012:user/alice", [], bytes "123456789012"⟩
  action := bytes "s3:GetObject"
  resource := bytes "arn:aws:s3:::box/key"
  resourceAccountID := bytes "123456789012"
  context := context

def boxStatement (effect : Bytes) : Statement where
  sid := []
  effect := effect
  action := [bytes "s3:*"]
  notAction := []
  resource := [bytes "arn:aws:s3:::box/*"]
  notResource := []
  principal := []
  notPrincipal := []
  condition := []

/-- An identity policy that denies the box, with a session policy. -/
def boxEvidence (session : PolicySet) : Evidence where
  identity := ⟨.complete, [⟨bytes "base", [boxStatement (bytes "Deny")]⟩]⟩
  resource := ⟨.absent, []⟩
  boundary := ⟨.absent, []⟩
  session := session
  scp := []
  rcp := []
  scpCoverage := .unavailable
  rcpCoverage := .absent

/-- The box stays denied when the context and the session policies are unknown. -/
theorem decision_stable_denied_box :
    (evaluate noReader (readRequest ⟨[(bytes "aws:SourceVpc", [bytes "vpc-1"])], [], false⟩)
      (boxEvidence ⟨.absent, []⟩)).decision =
    (evaluate noReader (readRequest ⟨[], [], false⟩)
      (boxEvidence ⟨.unavailable, []⟩)).decision := by
  refine decision_stable noReader ?_ ?_ (by decide +kernel) (by decide +kernel) (by decide +kernel)
  · refine ⟨rfl, rfl, rfl, rfl, ⟨?_, ?_, ?_, ?_⟩⟩
    · exact fun binding member => absurd member List.not_mem_nil
    · exact fun key member => absurd member List.not_mem_nil
    · exact id
    · intro binding member
      refine Or.inr ⟨?_, ?_⟩
      · rintro ⟨other, otherMember, -⟩
        exact absurd otherMember List.not_mem_nil
      · rintro (complete | absent)
        · exact Bool.noConfusion complete
        · exact absurd absent List.not_mem_nil
  · exact {
      identity := Or.inl rfl
      resource := Or.inl rfl
      boundary := Or.inl rfl
      session := Or.inr ⟨rfl, Or.inl rfl⟩
      scp := Or.inl ⟨rfl, List.Forall₂.nil⟩
      rcp := Or.inl ⟨rfl, List.Forall₂.nil⟩ }

end Trstctl.Cloudentitlements.Awspolicy
