import Trstctl.Go.Encoding
import Trstctl.Library.Budget
import Trstctl.Library.Kleene

/-!
# AWS policy evidence

The requests, policies and results of
`internal/cloudentitlements/awspolicy/model.go` and `parser.go`, and the
string functions of the standard library that the evaluator uses.
-/

namespace Trstctl.Cloudentitlements.Awspolicy

open Go (Bytes bytes Rune)
open Truth

/-- `Coverage`; the source's type is a string. -/
inductive Coverage where
  | complete
  | absent
  | unavailable
  | other (text : Bytes)
deriving DecidableEq

/-- What the policies say of a request. -/
inductive Decision where
  | allowed
  | explicitDeny
  | implicitDeny
  | indeterminate
deriving DecidableEq

/-- `PrincipalKind`; the source's type is a string. -/
inductive PrincipalKind where
  | iamUser
  | iamRole
  | roleSession
  | other (text : Bytes)
deriving DecidableEq

structure Principal where
  kind : PrincipalKind
  arn : Bytes
  roleARN : Bytes
  accountID : Bytes

/-- `Context`: keys with values, keys known to be absent, and whether every
other key is known to be absent. -/
structure Context where
  values : Go.Map (List Bytes)
  absentKeys : List Bytes
  complete : Bool

structure Request where
  principal : Principal
  action : Bytes
  resource : Bytes
  resourceAccountID : Bytes
  context : Context

/-- `statement`.  A condition maps operators to keys to values. -/
structure Statement where
  sid : Bytes
  effect : Bytes
  action : List Bytes
  notAction : List Bytes
  resource : List Bytes
  notResource : List Bytes
  principal : Bytes
  notPrincipal : Bytes
  condition : Go.Map (Go.Map (List Bytes))
deriving DecidableEq

/-- `Document`, as far as the evaluation reads it. -/
structure Document where
  id : Bytes
  statements : List Statement
deriving DecidableEq

structure PolicySet where
  coverage : Coverage
  documents : List Document

structure Evidence where
  identity : PolicySet
  resource : PolicySet
  boundary : PolicySet
  session : PolicySet
  scp : List PolicySet
  rcp : List PolicySet
  scpCoverage : Coverage
  rcpCoverage : Coverage

structure Reason where
  source : Bytes
  statement : Bytes
  detail : Bytes

structure Result where
  decision : Decision
  reasons : List Reason

structure PrincipalSelector where
  all : Bool
  aws : List Bytes
  unsupported : Bool

/-- An IP address of `net/netip`. -/
structure Address where
  bitLen : Nat
  value : Nat
  zone : Bytes
  is4In6 : Bool

/-- A network of `net/netip`. -/
structure Network where
  address : Address
  bits : Nat

/-- `Prefix.Contains`: an address with a zone or of the other family is in no
network. -/
def Network.contains (network : Network) (address : Address) : Bool :=
  address.zone.isEmpty && network.address.bitLen == address.bitLen &&
    network.address.value >>> (address.bitLen - network.bits) ==
      address.value >>> (address.bitLen - network.bits)

/-- Functions of the standard library that read text: `encoding/json` into a
string, an object or strings, `strings.EqualFold`, `strconv.ParseFloat` with a
finite result, `time.Parse` in nanoseconds, `strconv.ParseInt` and `net/netip`.
`none` is an unreadable text. -/
structure Reader where
  jsonString : Bytes → Option Bytes
  jsonObject : Bytes → Option (Go.Map Bytes)
  jsonStrings : Bytes → Option (List Bytes)
  equalFold : Bytes → Bytes → Bool
  parseFloat : Bytes → Option Rat
  parseTime : Bytes → Option Int
  parseInt : Bytes → Option Int
  parseAddr : Bytes → Option Address
  parsePrefix : Bytes → Option Network

/-- `strings.ContainsAny` with ASCII characters. -/
def containsAny (text characters : Bytes) : Bool :=
  text.any fun byte => characters.contains byte

/-- `strings.SplitN` with a one-byte separator; the count is at least one. -/
def splitN (separator : UInt8) : Nat → Bytes → List Bytes
  | _, [] => [[]]
  | count, byte :: rest =>
      if byte = separator ∧ 1 < count then [] :: splitN separator (count - 1) rest
      else
        match splitN separator count rest with
        | [] => [[byte]]
        | first :: others => (byte :: first) :: others

/-- The digits of an account. -/
def accountID (text : Bytes) : Bool :=
  text.length == 12 && text.all fun byte => 0x30 ≤ byte && byte ≤ 0x39

/-- `partition`. -/
def isPartition (text : Bytes) : Bool :=
  text == bytes "aws" || text == bytes "aws-us-gov" || text == bytes "aws-cn"

/-- A letter, a digit or a hyphen. -/
def actionByte (byte : UInt8) : Bool :=
  (0x61 ≤ byte && byte ≤ 0x7A) || (0x41 ≤ byte && byte ≤ 0x5A) ||
    (0x30 ≤ byte && byte ≤ 0x39) || byte == 0x2D

def validAction (action : Bytes) : Bool :=
  match Go.split 0x3A action with
  | [service, name] =>
      !service.isEmpty && !name.isEmpty && service.all actionByte && name.all actionByte
  | _ => false

/-- `stringsValue.UnmarshalJSON`. -/
def unmarshalStrings (reader : Reader) (raw : Bytes) : Option (List Bytes) :=
  match reader.jsonString raw with
  | some one => some [one]
  | none =>
      match reader.jsonStrings raw with
      | some many => if many.length = 0 ∨ 128 < many.length then none else some many
      | none => none

/-- The loop of `parsePrincipal` over the kinds of principals. -/
def parseKinds (reader : Reader) : Go.Map Bytes → PrincipalSelector → Option PrincipalSelector
  | [], selector => some selector
  | (kind, value) :: rest, selector =>
      match unmarshalStrings reader value with
      | none => none
      | some names =>
          if names.any fun name => name.isEmpty || decide (2048 < name.length) then none
          else if kind = bytes "AWS" then
            parseKinds reader rest { selector with aws := selector.aws ++ names }
          else parseKinds reader rest { selector with unsupported := true }

def parsePrincipal (reader : Reader) (raw : Bytes) : Option PrincipalSelector :=
  match reader.jsonString raw with
  | some wildcard => if wildcard = bytes "*" then some ⟨true, [], false⟩ else none
  | none =>
      match reader.jsonObject raw with
      | some categories =>
          if categories.length = 0 ∨ 4 < categories.length then none
          else parseKinds reader categories ⟨false, [], false⟩
      | none => none

def statementName (rule : Statement) (index : Nat) : Bytes :=
  if rule.sid.isEmpty then bytes "statement[" ++ Go.decimal index ++ bytes "]" else rule.sid

/-!
## Matching statements of AWS policies

The selectors and principals of
`internal/cloudentitlements/awspolicy/evaluate.go`.  An evaluation spends a
budget of steps and statements and collects reasons.  The steps of the source are
an integer that stops the evaluation below zero; they are a natural number here,
since an exhausted evaluation never spends again.
-/

/-- What an evaluation changes. -/
structure State where
  steps : Nat
  exhausted : Bool
  reasons : List Reason
  statements : Nat

/-- What an evaluation reads: the request, its folded context, the coverage of
the boundary and the readers. -/
structure Env where
  request : Request
  context : Go.Map (List Bytes)
  absent : List Bytes
  boundaryCoverage : Coverage
  reader : Reader

/-- A step of an evaluation; an exhausted evaluation stays exhausted. -/
abbrev Eval := Budgeted State State.exhausted

/-- `evaluation.reason`: at most 128 reasons are kept. -/
def addReason (source statement detail : Bytes) : Eval Unit where
  run state :=
    ((), { state with
      reasons :=
        if state.reasons.length < 128 then state.reasons ++ [⟨source, statement, detail⟩]
        else state.reasons })
  lasting _ isSpent := isSpent

def spend (count : Nat) : Eval Bool where
  run state :=
    if state.exhausted || decide (state.steps < count) then
      (false, { state with exhausted := true })
    else (true, { state with steps := state.steps - count })
  lasting state isSpent := by simp [isSpent]

/-- The rune `*`. -/
def starRune : Rune := 0x2A

/-- The rune `?`. -/
def anyRune : Rune := 0x3F

/-- The loop of `glob` over what is left of the pattern and the value.  The
last star is kept as the pattern after it and the value from its mark.  The
result is `none` when the steps run out. -/
def globLoop : Nat → List Rune → List Rune → Option (List Rune × List Rune) →
    Option (Truth × Nat)
  | steps, pattern, [], _ =>
      some (ofBool (pattern.all fun rune => rune == starRune), steps)
  | 0, _, _ :: _, _ => none
  | steps + 1, pattern, rune :: rest, star =>
      let backtrack :=
        match star with
        | some (afterStar, marked) =>
            globLoop steps afterStar marked.tail (some (afterStar, marked.tail))
        | none => some (no, steps)
      match pattern with
      | first :: later =>
          if first = anyRune ∨ first = rune then globLoop steps later rest star
          else if first = starRune then
            globLoop steps later (rune :: rest) (some (later, rune :: rest))
          else backtrack
      | [] => backtrack

/-- A text as it is compared. -/
def folded (fold : Bool) (text : Bytes) : Bytes :=
  if fold then Go.toLower text else text

def glob (pattern value : Bytes) (fold : Bool) : Eval Truth where
  run state :=
    if Go.contains pattern [0x24, 0x7B] then (unknown, state)
    else
      match globLoop state.steps (Go.runes (folded fold pattern)) (Go.runes (folded fold value))
          none with
      | some (result, steps) => (result, { state with steps := steps })
      | none => (unknown, { state with steps := 0, exhausted := true })
  lasting state isSpent := by
    split
    · exact isSpent
    · split
      · exact isSpent
      · rfl

/-- The loop of `selectors` over its patterns. -/
def anyGlob (value : Bytes) (fold : Bool) : List Bytes → Truth → Eval Truth
  | [], result => pure result
  | pattern :: rest, result => do
      let one ← glob pattern value fold
      anyGlob value fold rest (result.or one)

def selectors (positive negative : List Bytes) (value : Bytes) (fold : Bool) : Eval Truth := do
  let values := if negative.isEmpty then positive else negative
  if values.isEmpty then return unknown
  let result ← anyGlob value fold values no
  return if negative.isEmpty then result else result.not

/-- The truth of a match by a direct name, a restricted name or the account. -/
structure Matched where
  direct : Truth
  restricted : Truth
  account : Truth

/-- The root ARN of the principal's account. -/
def rootARN (principal : Principal) : Bytes :=
  bytes "arn:" ++ (Go.split 0x3A principal.arn).getD 1 [] ++ bytes ":iam::" ++
    principal.accountID ++ bytes ":root"

/-- The effect of one name of a principal selector. -/
def matchName (principal : Principal) (name : Bytes) (matched : Matched) : Matched :=
  if name = bytes "*" then { matched with direct := yes }
  else if name = principal.arn then
    if principal.kind = .iamRole then { matched with restricted := yes }
    else { matched with direct := yes }
  else if name = principal.roleARN ∧ principal.kind = .roleSession then
    { matched with restricted := yes }
  else if name = principal.accountID ∨ name = rootARN principal then
    { matched with account := yes }
  else if containsAny name (bytes "*?") then { matched with direct := matched.direct.or unknown }
  else if !Go.hasPrefix name (bytes "arn:") && !accountID name then
    { matched with direct := matched.direct.or unknown }
  else matched

/-- Nothing is known of a match. -/
def unknownMatch : Matched :=
  ⟨unknown, unknown, unknown⟩

/-- The loop over the names of a selector; `none` when the budget runs out. -/
def matchNames (principal : Principal) : List Bytes → Matched → Eval (Option Matched)
  | [], matched => pure (some matched)
  | name :: rest, matched => do
      let paid ← spend (1 + name.length + principal.arn.length + principal.roleARN.length)
      if paid then matchNames principal rest (matchName principal name matched)
      else return none

def principal (env : Env) (rule : Statement) : Eval Matched := do
  let negated := !rule.notPrincipal.isEmpty
  let raw := if negated then rule.notPrincipal else rule.principal
  if raw.isEmpty then return unknownMatch
  match parsePrincipal env.reader raw with
  | none => return unknownMatch
  | some selector =>
      let start : Matched := ⟨if selector.all then yes else no, no, no⟩
      match ← matchNames env.request.principal selector.aws start with
      | none => return unknownMatch
      | some matched =>
          let direct := if selector.unsupported then matched.direct.or unknown
            else matched.direct
          if negated then
            if rule.effect = bytes "Deny" ∧ env.boundaryCoverage = .complete then
              return ⟨yes, no, no⟩
            else if rule.effect = bytes "Deny" ∧ env.boundaryCoverage ≠ .absent then
              return ⟨unknown, no, no⟩
            else return ⟨(direct.or (matched.restricted.or matched.account)).not, no, no⟩
          else return { matched with direct := direct }

end Trstctl.Cloudentitlements.Awspolicy
