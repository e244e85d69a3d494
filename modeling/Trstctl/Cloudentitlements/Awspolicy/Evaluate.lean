import Trstctl.Cloudentitlements.Awspolicy.Conditions

/-!
# The AWS policy evaluator

`Evaluate` of `internal/cloudentitlements/awspolicy/evaluate.go`: the request
is validated, every policy category and organization hierarchy is evaluated,
and the decision is taken from their grants.
-/

namespace Trstctl.Cloudentitlements.Awspolicy

open Go (Bytes bytes)
open Truth

/-- The folded context and absent keys of a request. -/
structure Facts where
  context : Go.Map (List Bytes)
  absent : List Bytes

/-- The bounds on the action, the resource and the accounts. -/
def validBounds (request : Request) : Bool :=
  !(request.action.length == 0 || decide (256 < request.action.length) ||
    !Go.contains request.action (bytes ":") ||
    containsAny request.action (bytes "*?$\x7b\x7d\x00\r\n ") ||
    request.resource.length == 0 || decide (2048 < request.resource.length) ||
    containsAny request.resource (bytes "\x00\r\n") ||
    !accountID request.principal.accountID || !accountID request.resourceAccountID)

/-- The check of a user or role principal. -/
def validNamed (kind : Bytes) (service name : Bytes) : Bool :=
  !(service != bytes "iam" || !Go.hasPrefix name (kind ++ bytes "/") ||
    decide (name.length ≤ 5) || Go.hasSuffix name (bytes "/"))

/-- The check of the resource, as its parts. -/
def validateResource (request : Request) (resource : List Bytes) : Except Bytes Unit := do
  if request.resource ≠ bytes "*" then
    if resource.length ≠ 6 ∨ resource.getD 0 [] ≠ bytes "arn" ∨
        isPartition (resource.getD 1 []) = false ∨ resource.getD 2 [] = [] ∨
        resource.getD 5 [] = [] then
      throw (bytes "resource must be an exact ARN or the AWS global resource marker")
    if resource.getD 4 [] ≠ [] ∧ resource.getD 4 [] ≠ request.resourceAccountID then
      throw (bytes "resource ARN and declared owner account disagree")

/-- The check of a role session against its issuer. -/
def validateSession (request : Request) (principal : List Bytes) : Except Bytes Unit := do
  let role := splitN 0x3A 6 request.principal.roleARN
  let parts := Go.split 0x2F (principal.getD 5 [])
  if principal.getD 2 [] ≠ bytes "sts" ∨ parts.length ≠ 3 ∨
      parts.getD 0 [] ≠ bytes "assumed-role" ∨ parts.getD 1 [] = [] ∨ parts.getD 2 [] = [] ∨
      role.length ≠ 6 ∨ role.getD 0 [] ≠ bytes "arn" ∨ role.getD 1 [] ≠ principal.getD 1 [] ∨
      role.getD 2 [] ≠ bytes "iam" ∨ role.getD 3 [] ≠ [] ∨
      role.getD 4 [] ≠ principal.getD 4 [] ∨
      Go.hasPrefix (role.getD 5 []) (bytes "role/") = false then
    throw (bytes "role session needs its exact same-account issuer ARN")
  if (Go.split 0x2F (role.getD 5 [])).getLastD [] ≠ parts.getD 1 [] then
    throw (bytes "role session and issuer names disagree")

/-- The checks of `validate` before the context. -/
def validateIdentity (request : Request) : Except Bytes Unit := do
  if validBounds request = false then
    throw (bytes "invalid bounded AWS action, resource or account identity")
  if 2048 < request.principal.arn.length ∨ 2048 < request.principal.roleARN.length ∨
      validAction request.action = false then
    throw (bytes "invalid bounded AWS action or principal ARN")
  let resource := splitN 0x3A 6 request.resource
  validateResource request resource
  if containsAny request.principal.roleARN (bytes "*?\x00\r\n") = true ∨
      (request.principal.kind ≠ .roleSession ∧ request.principal.roleARN ≠ []) then
    throw (bytes "invalid or unexpected role-session issuer")
  let principal := splitN 0x3A 6 request.principal.arn
  if principal.length ≠ 6 ∨ principal.getD 0 [] ≠ bytes "arn" ∨
      isPartition (principal.getD 1 []) = false ∨ principal.getD 3 [] ≠ [] ∨
      principal.getD 4 [] ≠ request.principal.accountID ∨
      containsAny (principal.getD 5 []) (bytes "*?\x00\r\n") = true then
    throw (bytes "principal ARN is not bound to its account")
  if request.resource ≠ bytes "*" ∧ resource.getD 1 [] ≠ principal.getD 1 [] then
    throw (bytes "principal and resource partitions disagree")
  match request.principal.kind with
  | .iamUser =>
      if validNamed (bytes "user") (principal.getD 2 []) (principal.getD 5 []) = false then
        throw (bytes "invalid IAM user principal")
  | .iamRole =>
      if validNamed (bytes "role") (principal.getD 2 []) (principal.getD 5 []) = false then
        throw (bytes "invalid IAM role principal")
  | .roleSession => validateSession request principal
  | .other _ => throw (bytes "principal class is outside the captured AWS model")
  if Go.contains request.principal.arn (bytes ":role/aws-service-role/") = true ∨
      Go.contains request.principal.roleARN (bytes ":role/aws-service-role/") = true then
    throw (bytes "service-linked-role organization exceptions are not modeled")

/-- The loop of `validate` over the values of the context. -/
def foldValues : Go.Map (List Bytes) → Go.Map (List Bytes) → Except Bytes (Go.Map (List Bytes))
  | [], context => pure context
  | (key, values) :: rest, context => do
      if key.length = 0 ∨ 256 < key.length ∨ values.length = 0 ∨ 32 < values.length then
        throw (bytes "invalid context key or values")
      if (context.lookup (Go.toLower key)).isSome = true then
        throw (bytes "context keys collide after case folding")
      if (values.any fun value => decide (2048 < value.length)) = true then
        throw (bytes "context value exceeds its byte bound")
      foldValues rest (context.set (Go.toLower key) values)

/-- The loop of `validate` over the absent keys. -/
def foldAbsent (context : Go.Map (List Bytes)) : List Bytes → Except Bytes (List Bytes)
  | [] => pure []
  | key :: rest => do
      if key.length = 0 ∨ 256 < key.length then
        throw (bytes "invalid absent context key")
      if (context.lookup (Go.toLower key)).isSome = true then
        throw (bytes "context key is both present and absent")
      let absent ← foldAbsent context rest
      return Go.toLower key :: absent

/-- The check of a fact on the principal, which then joins the context. -/
def bindFact (facts : Facts) (key value : Bytes) : Except Bytes Facts := do
  match facts.context.lookup key with
  | some values =>
      if values ≠ [value] then
        throw (bytes "context attempts to replace a verified principal fact")
  | none => pure ()
  if facts.absent.contains key = true then
    throw (bytes "context removes a verified principal fact")
  return { facts with context := facts.context.set key [value] }

/-- The ARN of the principal in its context: the issuer of a role session. -/
def principalARN (principal : Principal) : Bytes :=
  if principal.kind = .roleSession then principal.roleARN else principal.arn

/-- The checks of `validate` on the context. -/
def validateContext (request : Request) : Except Bytes Facts := do
  if 128 < request.context.values.length ∨ 128 < request.context.absentKeys.length then
    throw (bytes "request context exceeds its key bound")
  let context ← foldValues request.context.values []
  let absent ← foldAbsent context request.context.absentKeys
  let facts ← bindFact ⟨context, absent⟩ (bytes "aws:principalarn") (principalARN request.principal)
  bindFact facts (bytes "aws:principalaccount") request.principal.accountID

/-- `evaluation.validate`: the folded context, or the reason for refusal. -/
def validate (request : Request) : Except Bytes Facts := do
  validateIdentity request
  validateContext request

structure Grants where
  allow : Truth
  deny : Truth
  direct : Truth
  restricted : Truth
  account : Truth
deriving DecidableEq

def noGrants : Grants :=
  ⟨no, no, no, no, no⟩

/-- Nothing is known of the grants. -/
def unknownGrants : Grants :=
  ⟨unknown, unknown, unknown, unknown, unknown⟩

def supportedRCP (rule : Statement) : Bool :=
  if Go.trimSpace rule.principal != bytes "\"*\"" || !rule.notPrincipal.isEmpty ||
      !rule.notAction.isEmpty then false
  else if rule.effect = bytes "Allow" then
    rule.action == [bytes "*"] && rule.resource == [bytes "*"] && rule.notResource.isEmpty &&
      rule.condition.isEmpty
  else true

/-- Whether a statement applies by its selectors, then by its principal and its
conditions, and how its principal matches. -/
def applies (env : Env) (resource : Bool) (rule : Statement) : Eval (Truth × Matched) := do
  let action ← selectors rule.action rule.notAction env.request.action true
  let target ← selectors rule.resource rule.notResource env.request.resource false
  let selected := action.and target
  if selected = no then return (no, ⟨no, no, no⟩)
  let matched ← if resource then principal env rule else pure ⟨no, no, no⟩
  let held ← conditions env rule.condition
  let selected :=
    if resource then selected.and (matched.direct.or (matched.restricted.or matched.account))
    else if rule.principal.isEmpty && rule.notPrincipal.isEmpty then selected
    else selected.and unknown
  return (selected.and held, matched)

/-- The grants with those of an applicable statement. -/
def Grants.add (out : Grants) (resource : Bool) (rule : Statement) (applied : Truth)
    (matched : Matched) : Grants :=
  if rule.effect = bytes "Deny" then { out with deny := out.deny.or applied }
  else if resource then
    { out with
      allow := out.allow.or applied
      direct := out.direct.or (applied.and matched.direct)
      restricted := out.restricted.or (applied.and matched.restricted)
      account := out.account.or (applied.and matched.account) }
  else { out with allow := out.allow.or applied }

/-- The reason given for an applicable statement. -/
def applicableDetail (rule : Statement) : Bytes :=
  if rule.effect = bytes "Deny" then
    bytes "Deny statement matches or needs unavailable context"
  else bytes "Allow statement matches or needs unavailable context"

/-- The effect of a statement on the grants of its category. -/
def applyStatement (env : Env) (source sid : Bytes) (resource : Bool) (rule : Statement)
    (out : Grants) : Eval Grants := do
  let (applied, matched) ← applies env resource rule
  if applied = no then return out
  addReason source sid (applicableDetail rule)
  return out.add resource rule applied matched

/-- A statement is counted; more than 2048 exhaust the evaluation. -/
def countStatement : Eval Bool where
  run state :=
    if 2048 < state.statements + 1 then
      (false, { state with statements := state.statements + 1, exhausted := true })
    else (true, { state with statements := state.statements + 1 })
  lasting state isSpent := by
    split
    · rfl
    · exact isSpent

/-- The grants with an unknown statement among them. -/
def Grants.orUnknown (out : Grants) : Grants :=
  { out with allow := out.allow.or unknown, deny := out.deny.or unknown }

/-- The grants with the allowances and denials unknown. -/
def Grants.setUnknown (out : Grants) : Grants :=
  { out with allow := unknown, deny := unknown }

/-- The grants of a category so far, and whether they are returned early. -/
structure Progress where
  out : Grants
  stopped : Bool

/-- The loop of `category` over the statements of a document. -/
def evaluateStatements (env : Env) (name document : Bytes) (resource : Bool) :
    Nat → List Statement → Grants → Eval Progress
  | _, [], out => pure ⟨out, false⟩
  | index, rule :: rest, out =>
      let source := name ++ bytes ":" ++ document
      let sid := statementName rule index
      if Go.hasPrefix name (bytes "rcp[") && !supportedRCP rule then do
        addReason source sid (bytes "unsupported resource control policy syntax")
        evaluateStatements env name document resource (index + 1) rest out.orUnknown
      else Budgeted.unlessSpent ⟨out.orUnknown, true⟩ do
        let counted ← countStatement
        if counted then
          let out ← applyStatement env source sid resource rule out
          evaluateStatements env name document resource (index + 1) rest out
        else return ⟨out.setUnknown, true⟩

/-- The loop of `category` over its documents. -/
def evaluateDocuments (env : Env) (name : Bytes) (resource : Bool) :
    List Document → Grants → Eval Grants
  | [], out => pure out
  | document :: rest, out =>
      if document.id.isEmpty || document.statements.isEmpty then
        evaluateDocuments env name resource rest out.setUnknown
      else do
        let progress ←
          evaluateStatements env name document.id resource 0 document.statements out
        if progress.stopped then return progress.out
        else evaluateDocuments env name resource rest progress.out

def category (env : Env) (name : Bytes) (set : PolicySet) (resource : Bool) : Eval Grants :=
  if set.coverage = .absent ∧ set.documents = [] then
    if name = bytes "boundary" ∨ name = bytes "session" then
      pure { noGrants with allow := yes }
    else pure noGrants
  else if set.coverage ≠ .complete ∨ 64 < set.documents.length then do
    addReason name [] (bytes "policy evidence is unavailable or inconsistent")
    return unknownGrants
  else evaluateDocuments env name resource set.documents noGrants

/-- The loop of `hierarchy` over its layers. -/
def evaluateLayers (env : Env) (name : Bytes) :
    Nat → List PolicySet → Truth → Truth → Eval (Truth × Truth)
  | _, [], allow, deny => pure (allow, deny)
  | index, layer :: rest, allow, deny => do
      let grants ← category env (name ++ bytes "[" ++ Go.decimal index ++ bytes "]") layer
        (name == bytes "rcp")
      evaluateLayers env name (index + 1) rest (allow.and grants.allow) (deny.or grants.deny)

def hierarchy (env : Env) (name : Bytes) (coverage : Coverage) (layers : List PolicySet) :
    Eval (Truth × Truth) :=
  if coverage = .absent ∧ layers = [] then pure (yes, no)
  else if coverage = .complete then
    if layers = [] ∨ 16 < layers.length then pure (unknown, unknown)
    else evaluateLayers env name 0 layers yes no
  else do
    addReason name [] (bytes "organization evidence is unavailable or inconsistent")
    return (unknown, unknown)

/-- The truth of every denial, and of every allowance as far as it is used. -/
structure Findings where
  deny : Truth
  permitted : Truth

/-- The denial and permission that follow from the categories and hierarchies. -/
def combine (identity resource boundary session : Grants) (scp rcp : Truth × Truth) : Findings :=
  let bounds := boundary.allow.and session.allow
  let identityPath := identity.allow.and bounds
  let resourcePath := resource.direct.or (resource.restricted.and bounds)
  let resourcePath := resourcePath.or (resource.account.and identityPath)
  { deny := ((identity.deny.or resource.deny).or (boundary.deny.or session.deny)).or
      (scp.2.or rcp.2)
    permitted := (identityPath.or resourcePath).and (scp.1.and rcp.1) }

/-- The evaluation of every category and hierarchy. -/
def findings (env : Env) (evidence : Evidence) : Eval Findings := do
  let identity ← category env (bytes "identity") evidence.identity false
  let resource ← category env (bytes "resource") evidence.resource true
  let boundary ← category env (bytes "boundary") evidence.boundary false
  let session ← category env (bytes "session") evidence.session false
  let scp ← hierarchy env (bytes "scp") evidence.scpCoverage evidence.scp
  let rcp ← hierarchy env (bytes "rcp") evidence.rcpCoverage evidence.rcp
  return combine identity resource boundary session scp rcp

/-- Requests that the captured evidence cannot authorize. -/
def outsideModel (request : Request) : Bool :=
  request.principal.accountID != request.resourceAccountID ||
    Go.hasPrefix (Go.toLower request.action) (bytes "kms:") ||
    Go.hasPrefix (Go.toLower request.action) (bytes "sts:assumerole")

/-- The decision and its reason, in the precedence of `Evaluate`. -/
def conclude (request : Request) (exhausted : Bool) (found : Findings) : Decision × Bytes :=
  if found.deny = yes then
    (.explicitDeny, bytes "an applicable policy explicitly denies this request")
  else if exhausted then
    (.indeterminate, bytes "AWS policy evaluation exceeded its bounded work budget")
  else if outsideModel request then
    (.indeterminate,
      bytes "cross-account, KMS grant or role trust authorization is outside this captured model")
  else if found.deny = unknown then
    (.indeterminate,
      bytes "unread policy evidence or an unresolved Deny can change the final decision")
  else if found.permitted = no then
    (.implicitDeny, bytes "the complete applicable policy sets do not grant this request")
  else if found.permitted = unknown then
    (.indeterminate,
      bytes "unread policy evidence or unknown matching context can change this request")
  else (.allowed, bytes "the captured policy sets grant this request in the stated context")

/-- The state an evaluation starts in. -/
def initialState : State :=
  { steps := 1000000, exhausted := false, reasons := [], statements := 0 }

/-- What the evaluation of a valid request reads. -/
def environment (reader : Reader) (request : Request) (evidence : Evidence) (facts : Facts) : Env :=
  { request := request
    context := facts.context
    absent := facts.absent
    boundaryCoverage := evidence.boundary.coverage
    reader := reader }

/-- The decision on a request, with its reasons. -/
def evaluate (reader : Reader) (request : Request) (evidence : Evidence) : Result :=
  match validate request with
  | .error detail => ⟨.indeterminate, [⟨[], [], detail⟩]⟩
  | .ok facts =>
      let (found, state) :=
        (findings (environment reader request evidence facts) evidence).run initialState
      let (decision, detail) := conclude request state.exhausted found
      ⟨decision, state.reasons ++ [⟨[], [], detail⟩]⟩

end Trstctl.Cloudentitlements.Awspolicy
