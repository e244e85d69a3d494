import Trstctl.Cloudentitlements.Awspolicy.Match
import Trstctl.Go.Case
import Trstctl.Go.JsonDecode

/-!
# Parsing AWS policies

`Parse` of `internal/cloudentitlements/awspolicy/parser.go`.  A first pass over
the text refuses objects with two equal names; the decoder that follows matches
names to fields without regard to case, and the last match wins.
-/

namespace Trstctl.Cloudentitlements.Awspolicy

open Go (Bytes bytes)

/-- Why a policy is refused. -/
inductive PolicyError where
  | identityOrBodyBounds
  | complexity
  | invalidJSON
  | duplicateKey
  | invalidPolicyObject
  | unsupportedVersion
  | needsStatements
  | statementCount
  | invalidStatement
  | emptyCondition
  | invalidEffect
  | selectorKinds
  | mixedPrincipals
  | invalidSid
  | invalidSelector
  | conditionOperators
  | conditionKeys
  | conditionKey
  | invalidPrincipal
deriving DecidableEq

def maxPolicyBytes : Nat := 64 * 2 ^ 10

def maxStatements : Nat := 256

def maxSelectors : Nat := 128

/-- A container that is being read, with the names of an object so far. -/
inductive Container where
  | array
  | object (seen : List Bytes)

/-- What may come next: a value, a name, the first of either or the end of the
container, the colon, or a comma or the end. -/
inductive Expected where
  | value
  | firstValue
  | name
  | firstName
  | colon
  | next
deriving DecidableEq

/-- Where the first pass stands. -/
structure Pass where
  containers : List Container
  expected : Expected
  tokens : Nat

/-- A value starts, at a depth and after a number of values within the
bounds. -/
def Pass.startValue (pass : Pass) : Except PolicyError Pass := do
  if pass.expected ≠ .value ∧ pass.expected ≠ .firstValue then throw .invalidJSON
  if 24 < pass.containers.length ∨ 16000 < pass.tokens then throw .complexity
  return { pass with tokens := pass.tokens + 1, expected := .next }

/-- A string is the name of a member or a value. -/
def Pass.string (pass : Pass) (lexeme : Bytes) : Except PolicyError Pass :=
  if pass.expected = .name ∨ pass.expected = .firstName then
    match pass.containers with
    | .object seen :: outer =>
        if seen.contains (Go.Json.unquote lexeme) then throw .duplicateKey
        else return { pass with
          containers := .object (Go.Json.unquote lexeme :: seen) :: outer
          expected := .colon }
    | _ => throw .invalidJSON
  else pass.startValue

/-- A container ends. -/
def Pass.close (pass : Pass) (brace : Bool) : Except PolicyError Pass :=
  match pass.containers with
  | .object _ :: outer =>
      if brace ∧ (pass.expected = .firstName ∨ pass.expected = .next) then
        return { pass with containers := outer, expected := .next }
      else throw .invalidJSON
  | .array :: outer =>
      if ¬ brace ∧ (pass.expected = .firstValue ∨ pass.expected = .next) then
        return { pass with containers := outer, expected := .next }
      else throw .invalidJSON
  | [] => throw .invalidJSON

/-- A comma goes on to the next member or item. -/
def Pass.comma (pass : Pass) : Except PolicyError Pass :=
  if pass.expected = .next then
    match pass.containers with
    | .object _ :: _ => return { pass with expected := .name }
    | .array :: _ => return { pass with expected := .value }
    | [] => throw .invalidJSON
  else throw .invalidJSON

def Pass.read (pass : Pass) (lexeme : Bytes) : Except PolicyError Pass :=
  if Go.Json.isSpaceLexeme lexeme then return pass
  else if lexeme = [0x7B] then do
    let inner ← pass.startValue
    return { inner with containers := .object [] :: inner.containers, expected := .firstName }
  else if lexeme = [0x5B] then do
    let inner ← pass.startValue
    return { inner with containers := .array :: inner.containers, expected := .firstValue }
  else if lexeme = [0x7D] then pass.close true
  else if lexeme = [0x5D] then pass.close false
  else if lexeme = [0x2C] then pass.comma
  else if lexeme = [0x3A] then
    if pass.expected = .colon then return { pass with expected := .value }
    else throw .invalidJSON
  else if lexeme.head? = some 0x22 then pass.string lexeme
  else pass.startValue

/-- `strictJSON`.  What is not JSON is refused with one error. -/
def strictJSON (raw : Bytes) : Except PolicyError Unit := do
  match Go.Json.lexemes raw with
  | none => throw .invalidJSON
  | some lexemes =>
      let pass ← lexemes.foldlM Pass.read ⟨[], .value, 0⟩
      if pass.containers ≠ [] ∨ pass.expected ≠ .next then throw .invalidJSON

/-- The members of an object; `null` is decoded as an object without any. -/
def objectMembers (raw : Bytes) : Option (List (Bytes × Bytes)) :=
  if (Go.Json.lexemes raw).map Go.Json.rawText = some Go.Json.null then some []
  else Go.Json.members raw

/-- A string field: `null` leaves what is there. -/
def decodeString (old raw : Bytes) : Option Bytes :=
  if raw = Go.Json.null then some old else Go.Json.stringOf raw

/-- `stringsValue.UnmarshalJSON`. -/
def decodeStrings (raw : Bytes) : Option (List Bytes) :=
  if raw = Go.Json.null then some [[]]
  else
    match Go.Json.stringOf raw with
    | some one => some [one]
    | none => do
        let texts ← Go.Json.items raw
        let many ← texts.mapM (decodeString [])
        if many.length = 0 ∨ maxSelectors < many.length then none else return many

/-- A scalar as a condition value. -/
def scalarText (raw : Bytes) : Option Bytes :=
  if raw.head? = some 0x7B ∨ raw.head? = some 0x5B ∨ raw = Go.Json.null then none
  else
    let text := (Go.Json.stringOf raw).getD raw
    if 2048 < text.length then none else some text

/-- `conditionValues.UnmarshalJSON`. -/
def decodeConditionValues (raw : Bytes) : Option (List Bytes) :=
  let values := (Go.Json.items raw).getD [raw]
  if values.length = 0 ∨ 32 < values.length then none else values.mapM scalarText

def decodeConditionKeys (raw : Bytes) : Option (Go.Map (List Bytes)) := do
  let members ← objectMembers raw
  members.foldlM
    (fun keys member => do
      let values ← decodeConditionValues member.2
      return Go.MapOf.set keys member.1 values)
    []

/-- A condition is decoded into the map that is there; `null` clears it. -/
def decodeCondition (old : Go.Map (Go.Map (List Bytes))) (raw : Bytes) :
    Option (Go.Map (Go.Map (List Bytes))) :=
  if raw = Go.Json.null then some []
  else do
    let members ← Go.Json.members raw
    members.foldlM
      (fun operators member => do
        let keys ← decodeConditionKeys member.2
        return Go.MapOf.set operators member.1 keys)
      old

/-- The field that `encoding/json` decodes a member into: the one with its name,
else the first one with its name but for case. -/
def fieldOf (fields : List Bytes) (name : Bytes) : Option Bytes :=
  if name ∈ fields then some name else fields.find? (Go.equalFold name)

def rootFields : List Bytes :=
  [bytes "Version", bytes "Id", bytes "Statement"]

/-- The root object. -/
structure Root where
  version : Bytes
  id : Bytes
  statement : Bytes

/-- One member of the root object; an unknown one is refused. -/
def Root.decodeMember (root : Root) (member : Bytes × Bytes) : Option Root := do
  let field ← fieldOf rootFields member.1
  if field = bytes "Version" then
    let version ← decodeString root.version member.2
    return { root with version := version }
  else if field = bytes "Id" then
    let id ← decodeString root.id member.2
    return { root with id := id }
  else return { root with statement := member.2 }

/-- `strictDecode` of the root object. -/
def decodeRoot (raw : Bytes) : Option Root := do
  let members ← objectMembers raw
  members.foldlM Root.decodeMember ⟨[], [], []⟩

def statementFields : List Bytes :=
  [bytes "Sid", bytes "Effect", bytes "Action", bytes "NotAction", bytes "Resource",
    bytes "NotResource", bytes "Principal", bytes "NotPrincipal", bytes "Condition"]

def Statement.decodeField (rule : Statement) (field raw : Bytes) : Option Statement :=
  if field = bytes "Sid" then
    (decodeString rule.sid raw).map fun sid => { rule with sid := sid }
  else if field = bytes "Effect" then
    (decodeString rule.effect raw).map fun effect => { rule with effect := effect }
  else if field = bytes "Action" then
    (decodeStrings raw).map fun action => { rule with action := action }
  else if field = bytes "NotAction" then
    (decodeStrings raw).map fun action => { rule with notAction := action }
  else if field = bytes "Resource" then
    (decodeStrings raw).map fun resource => { rule with resource := resource }
  else if field = bytes "NotResource" then
    (decodeStrings raw).map fun resource => { rule with notResource := resource }
  else if field = bytes "Principal" then some { rule with principal := raw }
  else if field = bytes "NotPrincipal" then some { rule with notPrincipal := raw }
  else (decodeCondition rule.condition raw).map fun condition =>
    { rule with condition := condition }

/-- One member of a statement; an unknown one is refused. -/
def Statement.decodeMember (rule : Statement) (member : Bytes × Bytes) : Option Statement := do
  let field ← fieldOf statementFields member.1
  rule.decodeField field member.2

/-- A statement without members. -/
def emptyStatement : Statement where
  sid := []
  effect := []
  action := []
  notAction := []
  resource := []
  notResource := []
  principal := []
  notPrincipal := []
  condition := []

/-- `strictDecode` of a statement. -/
def decodeStatement (raw : Bytes) : Option Statement := do
  let members ← objectMembers raw
  members.foldlM Statement.decodeMember emptyStatement

/-- The raw texts of the statements: a lone object, or the items of an array. -/
def entries (statement : Bytes) : Option (List Bytes) :=
  if statement.head? = some 0x7B then some [statement]
  else if statement = Go.Json.null then some []
  else Go.Json.items statement

/-- A selector that is refused. -/
def invalidSelector (selector : Bytes) : Bool :=
  selector.isEmpty || decide (2048 < selector.length) || containsAny selector (bytes "\x00\r\n")

/-- The keys of a condition operator that are refused. -/
def ambiguousKeys (keys : Go.Map (List Bytes)) : Bool :=
  keys.any (fun key => key.1.isEmpty || decide (256 < key.1.length)) ||
    !decide (keys.map fun key => Go.toLower key.1).Nodup

/-- The checks of the conditions of a statement. -/
def checkConditions (condition : Go.Map (Go.Map (List Bytes))) : Except PolicyError Unit := do
  if 32 < condition.length then throw .conditionOperators
  condition.forM fun operator => do
    if operator.1.length = 0 ∨ 128 < operator.1.length ∨ operator.2.length = 0 ∨
        64 < operator.2.length then
      throw .conditionKeys
    if ambiguousKeys operator.2 = true then throw .conditionKey

def checkStatement (reader : Reader) (raw : Bytes) (rule : Statement) :
    Except PolicyError Unit := do
  if ((objectMembers raw).getD []).any (fun member => member.1 == bytes "Condition") = true ∧
      rule.condition.length = 0 then
    throw .emptyCondition
  if rule.effect ≠ bytes "Allow" ∧ rule.effect ≠ bytes "Deny" then throw .invalidEffect
  if rule.action.isEmpty = rule.notAction.isEmpty ∨
      rule.resource.isEmpty = rule.notResource.isEmpty then
    throw .selectorKinds
  if 0 < rule.principal.length ∧ 0 < rule.notPrincipal.length then throw .mixedPrincipals
  if 256 < rule.sid.length ∨ containsAny rule.sid (bytes "\x00\r\n") = true then throw .invalidSid
  if (rule.action ++ rule.notAction ++ rule.resource ++ rule.notResource).any invalidSelector =
      true then
    throw .invalidSelector
  checkConditions rule.condition
  if [rule.principal, rule.notPrincipal].any (fun raw =>
      !raw.isEmpty && (parsePrincipal reader raw).isNone) = true then
    throw .invalidPrincipal

def parseStatement (reader : Reader) (raw : Bytes) : Except PolicyError Statement :=
  match decodeStatement raw with
  | none => throw .invalidStatement
  | some rule => do
      checkStatement reader raw rule
      return rule

def parseStatements (reader : Reader) (root : Root) : Except PolicyError (List Statement) := do
  if root.version ≠ bytes "2012-10-17" ∧ root.version ≠ bytes "2008-10-17" then
    throw .unsupportedVersion
  match entries root.statement with
  | none => throw .needsStatements
  | some raws =>
      if raws.length = 0 ∨ maxStatements < raws.length then throw .statementCount
      raws.mapM (parseStatement reader)

def parse (reader : Reader) (id raw : Bytes) : Except PolicyError Document := do
  if id = [] ∨ 256 < id.length ∨ containsAny id (bytes "\x00\r\n") = true ∨ raw.length = 0 ∨
      maxPolicyBytes < raw.length ∨ Go.utf8Valid raw = false then
    throw .identityOrBodyBounds
  strictJSON raw
  match decodeRoot raw with
  | none => throw .invalidPolicyObject
  | some root => do
      let statements ← parseStatements reader root
      return ⟨id, statements⟩

end Trstctl.Cloudentitlements.Awspolicy
