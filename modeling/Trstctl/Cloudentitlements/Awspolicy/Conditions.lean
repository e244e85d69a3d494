import Mathlib.Algebra.Ring.Rat
import Mathlib.Data.List.Sort
import Trstctl.Cloudentitlements.Awspolicy.Match

/-!
# Conditions of AWS policies

The condition operators of
`internal/cloudentitlements/awspolicy/conditions.go`.
-/

namespace Trstctl.Cloudentitlements.Awspolicy

open Go (Bytes bytes)
open Truth

def conditionBool (text : Bytes) : Option Bool :=
  if Go.toLower text = bytes "true" then some true
  else if Go.toLower text = bytes "false" then some false
  else none

def orderedCondition (operator : Bytes) (comparison : Ordering) : Truth :=
  if operator = bytes "Equals" then ofBool (comparison == .eq)
  else if operator = bytes "LessThan" then ofBool (comparison == .lt)
  else if operator = bytes "LessThanEquals" then ofBool (comparison != .gt)
  else if operator = bytes "GreaterThan" then ofBool (comparison == .gt)
  else if operator = bytes "GreaterThanEquals" then ofBool (comparison != .lt)
  else unknown

/-- The comparison of two texts that are read first. -/
def compareRead {Value : Type} [LT Value] [DecidableLT Value] (read : Bytes → Option Value)
    (operator actual wanted : Bytes) : Truth :=
  match read actual, read wanted with
  | some left, some right =>
      orderedCondition operator
        (if left < right then .lt else if right < left then .gt else .eq)
  | _, _ => unknown

/-- The part of a number before its exponent. -/
def mantissa (text : Bytes) : Bytes :=
  (splitN 0x65 2 (Go.toLower text)).headD []

/-- The 64-bit floating-point number `1e-200`. -/
def smallestNumber : Rat :=
  6894565328877484 / 2 ^ 717

/-- The 64-bit floating-point number `1e200`. -/
def largestNumber : Rat :=
  5883593420661338 * 2 ^ 612

/-- `math.Abs`. -/
def magnitude (number : Rat) : Rat :=
  if number < 0 then -number else number

def conditionNumber (reader : Reader) (text : Bytes) : Option Rat :=
  if text.length = 0 ∨ 96 < text.length then none
  else if !text.all fun byte => (bytes "0123456789+-.eE").contains byte then none
  else if 15 < ((mantissa text).filter fun byte => 0x30 ≤ byte && byte ≤ 0x39).length then none
  else
    match reader.parseFloat text with
    | none => none
    | some number =>
        if number ≠ 0 ∧ (magnitude number < smallestNumber ∨ largestNumber < magnitude number)
          then none
        else if number = 0 ∧ containsAny (mantissa text) (bytes "123456789") = true then none
        else some number

/-- `conditionDate`, in nanoseconds. -/
def conditionDate (reader : Reader) (text : Bytes) : Option Int :=
  if 64 < text.length then none
  else
    match reader.parseTime text with
    | some time => some time
    | none =>
        match reader.parseInt text with
        | none => none
        | some seconds =>
            if seconds < -62135596800 ∨ 253402300799 < seconds then none
            else some (seconds * 1000000000)

/-- An address without a zone that is not an IPv4 address in IPv6 form. -/
def plainAddress (reader : Reader) (text : Bytes) : Option Address :=
  match reader.parseAddr text with
  | some address => if !address.zone.isEmpty || address.is4In6 then none else some address
  | none => none

/-- The `IpAddress` comparison: a network or a single address. -/
def ipAddress (reader : Reader) (actual wanted : Bytes) : Truth :=
  match plainAddress reader actual with
  | none => unknown
  | some address =>
      match reader.parsePrefix wanted with
      | some network => ofBool (network.contains address)
      | none =>
          match plainAddress reader wanted with
          | none => unknown
          | some single => ofBool (Network.contains ⟨single, single.bitLen⟩ address)

/-- An ARN of six parts. -/
def isARN (text : Bytes) : Bool :=
  Go.hasPrefix text (bytes "arn:") && (splitN 0x3A 6 text).length == 6

def compareCondition (env : Env) (operator actual wanted : Bytes) : Eval Truth := do
  let paid ← spend (1 + actual.length + wanted.length)
  if !paid then return unknown
  if Go.contains wanted [0x24, 0x7B] then return unknown
  if operator = bytes "StringEquals" then return ofBool (actual == wanted)
  if operator = bytes "StringEqualsIgnoreCase" then
    return ofBool (env.reader.equalFold actual wanted)
  if operator = bytes "StringLike" then glob wanted actual false
  else if operator = bytes "ArnEquals" ∨ operator = bytes "ArnLike" then
    if !isARN actual then return unknown
    else if wanted ≠ bytes "*" ∧ isARN wanted = false then return unknown
    else glob wanted actual false
  else if operator = bytes "Bool" then
    match conditionBool actual, conditionBool wanted with
    | some left, some right => return ofBool (left == right)
    | _, _ => return unknown
  else if operator = bytes "IpAddress" then
    return ipAddress env.reader actual wanted
  else if Go.hasPrefix operator (bytes "Numeric") then
    return compareRead (conditionNumber env.reader) (operator.drop 7) actual wanted
  else if Go.hasPrefix operator (bytes "Date") then
    return compareRead (conditionDate env.reader) (operator.drop 4) actual wanted
  else return unknown

/-- The quantifier of a condition operator. -/
inductive Quantifier where
  | forAllValues
  | forAnyValue
deriving DecidableEq

/-- The parts of a condition operator. -/
structure Operator where
  quantifier : Option Quantifier
  ifExists : Bool
  negative : Bool
  base : Bytes

def negatedOperators : Go.Map Bytes :=
  [(bytes "StringNotEquals", bytes "StringEquals"),
    (bytes "StringNotEqualsIgnoreCase", bytes "StringEqualsIgnoreCase"),
    (bytes "StringNotLike", bytes "StringLike"), (bytes "ArnNotEquals", bytes "ArnEquals"),
    (bytes "ArnNotLike", bytes "ArnLike"), (bytes "NumericNotEquals", bytes "NumericEquals"),
    (bytes "DateNotEquals", bytes "DateEquals"), (bytes "NotIpAddress", bytes "IpAddress")]

/-- The operators that compare values. -/
def comparisonOperators : List Bytes :=
  [bytes "StringEquals", bytes "StringEqualsIgnoreCase", bytes "StringLike", bytes "ArnEquals",
    bytes "ArnLike", bytes "Bool", bytes "IpAddress", bytes "NumericEquals",
    bytes "NumericLessThan", bytes "NumericLessThanEquals", bytes "NumericGreaterThan",
    bytes "NumericGreaterThanEquals", bytes "DateEquals", bytes "DateLessThan",
    bytes "DateLessThanEquals", bytes "DateGreaterThan", bytes "DateGreaterThanEquals"]

/-- The reading of a condition operator, from its prefix, suffix and name. -/
def readOperator (text : Bytes) : Operator :=
  let (quantifier, unquantified) :=
    if Go.hasPrefix text (bytes "ForAllValues:") then
      (some Quantifier.forAllValues, text.drop 13)
    else if Go.hasPrefix text (bytes "ForAnyValue:") then
      (some Quantifier.forAnyValue, text.drop 12)
    else (none, text)
  let ifExists := Go.hasSuffix unquantified (bytes "IfExists")
  let name := if ifExists then unquantified.take (unquantified.length - 8) else unquantified
  match negatedOperators.lookup name with
  | some base => ⟨quantifier, ifExists, true, base⟩
  | none => ⟨quantifier, ifExists, false, name⟩

/-- The loop over the expected values of a condition; `none` when the budget
has run out. -/
def anyExpected (env : Env) (operator actual : Bytes) :
    List Bytes → Truth → Eval (Option Truth)
  | [], one => pure (some one)
  | wanted :: rest, one => Budgeted.unlessSpent none do
      let next ← compareCondition env operator actual wanted
      anyExpected env operator actual rest (one.or next)

/-- The loop over the values of a context key. -/
def conditionValues (env : Env) (operator : Operator) (expected : List Bytes) :
    List Bytes → Truth → Eval Truth
  | [], result => pure result
  | actual :: rest, result => Budgeted.unlessSpent unknown do
      if operator.quantifier.isSome && actual.isEmpty then return unknown
      else
        match ← anyExpected env operator.base actual expected no with
        | none => return unknown
        | some one =>
            let one := if operator.negative then one.not else one
            conditionValues env operator expected rest
              (if operator.quantifier = some .forAllValues then result.and one
                else result.or one)

def condition (env : Env) (text : Bytes) (values : Option (List Bytes)) (expected : List Bytes) :
    Eval Truth :=
  let operator := readOperator text
  if operator.base = bytes "Null" then
    match expected with
    | [wanted] =>
        if operator.ifExists || operator.quantifier.isSome then pure unknown
        else
          match conditionBool wanted with
          | none => pure unknown
          | some wanted => pure (ofBool (wanted == values.isNone))
    | _ => pure unknown
  else if !comparisonOperators.contains operator.base then pure unknown
  else
    match values with
    | none =>
        if operator.ifExists || operator.quantifier == some .forAllValues then pure yes
        else if operator.quantifier = some .forAnyValue then pure no
        else pure (ofBool operator.negative)
    | some values =>
        if 1 < values.length ∧ operator.quantifier = none then pure unknown
        else
          conditionValues env operator expected values
            (ofBool (operator.quantifier == some .forAllValues))

/-- The bindings of a map in the order of their keys. -/
def sortedBindings {Value : Type} (map : Go.Map Value) : Go.Map Value :=
  map.insertionSort (fun left right => left.1 ≤ right.1)

/-- What an evaluation knows of a context key: its values, its absence, or
nothing. -/
def contextKey (env : Env) (key : Bytes) : Option (Option (List Bytes)) :=
  match env.context.lookup (Go.toLower key) with
  | some values => some (some values)
  | none =>
      if env.request.context.complete || env.absent.contains (Go.toLower key) then some none
      else none

/-- The loop over the keys of one operator; `none` when the budget has run
out. -/
def conditionKeys (env : Env) (operator : Bytes) :
    Go.Map (List Bytes) → Truth → Eval (Option Truth)
  | [], result => pure (some result)
  | (key, expected) :: rest, result => Budgeted.unlessSpent none do
      match contextKey env key with
      | none => conditionKeys env operator rest (result.and unknown)
      | some values =>
          let one ← condition env operator values expected
          conditionKeys env operator rest (result.and one)

/-- The loop over the operators of a condition. -/
def conditionOperators (env : Env) : Go.Map (Go.Map (List Bytes)) → Truth → Eval Truth
  | [], result => pure result
  | (operator, keys) :: rest, result => Budgeted.unlessSpent unknown do
      match ← conditionKeys env operator (sortedBindings keys) result with
      | none => return unknown
      | some result => conditionOperators env rest result

def conditions (env : Env) (condition : Go.Map (Go.Map (List Bytes))) : Eval Truth :=
  conditionOperators env (sortedBindings condition) yes

end Trstctl.Cloudentitlements.Awspolicy
