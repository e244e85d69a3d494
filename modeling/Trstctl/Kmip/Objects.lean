import Trstctl.Go.Time
import Trstctl.Kmip.Ttlv

/-!
# KMIP managed objects and their attributes

The managed objects of `internal/kmip/kmip.go`, and `changeAttribute` of
`internal/kmip/attributes.go`, by which a client sets names, contact information
and custom attributes, and may make a key unextractable.
-/

namespace Trstctl.Kmip

open Go (Bytes Time bytes)
open Ttlv (TTLV ttlvStructure ttlvBoolean ttlvTextString)

inductive ObjectState where
  | active
  | revoked
  | destroyed
  | preActive
  | compromised
deriving DecidableEq

def ObjectState.text : ObjectState → Bytes
  | .active => bytes "active"
  | .revoked => bytes "revoked"
  | .destroyed => bytes "destroyed"
  | .preActive => bytes "pre-active"
  | .compromised => bytes "compromised"

/-- The state check of `Sign`. -/
def ObjectState.canSign (state : ObjectState) : Bool :=
  state == .active

/-- The state check of `SignatureVerify`. -/
def ObjectState.canVerify (state : ObjectState) : Bool :=
  state == .active || state == .revoked

/-- The state check of `GetObject`. -/
def ObjectState.canGet (state : ObjectState) : Bool :=
  state == .active

/-- The state check of `ReKey`. -/
def ObjectState.canReKey (state : ObjectState) : Bool :=
  state == .active

inductive ObjectType where
  | symmetricKey
  | publicKey
  | privateKey
deriving DecidableEq

structure CustomAttribute where
  name : Bytes
  value : Bytes
deriving DecidableEq

/-- A key under management. -/
structure ManagedObject where
  id : Bytes
  algorithm : Bytes
  state : ObjectState
  version : Nat
  sealedKey : Bytes
  type : ObjectType
  length : Int
  usageMask : UInt32
  link : Bytes
  publicDER : Bytes
  extractable : Bool
  neverExtractable : Bool
  initial : Time
  activated : Time
  lastChange : Time
  names : List Bytes
  contact : Bytes
  custom : List CustomAttribute

/-- The result reasons of a refused request. -/
inductive ResultReason where
  | itemNotFound
  | invalidField
  | featureNotSupported
  | cryptographicFailure
  | illegalOperation
  | permissionDenied
  | indexOutOfBounds
  | notExtractable

/-- Why an operation fails. -/
inductive KmipError where
  | unauthenticated
  | tenantService (cause : Bytes)
  | object (id : Bytes) (problem : String)
  | unsupportedMaterial
  | generate (cause : Bytes)
  | sealing (cause : Bytes)
  | append (cause : Bytes)
  | wire (reason : ResultReason) (message : Bytes)
  | malformedReplay
  | unknownReplay (id : Bytes)

/-- `firstChild` of a decoded item. -/
def firstChild (item : TTLV) (tag : UInt32) : Option TTLV :=
  item.children.find? fun child => child.tag == tag

def tagNameValue : UInt32 := 0x420055

inductive AttributeOperation where
  | add
  | modify
  | delete
deriving DecidableEq

structure RequestedAttribute where
  name : Bytes
  index : Int
  value : TTLV

/-- The value of an attribute before its encoding. -/
inductive AttributeValue where
  | name (value : Bytes)
  | text (value : Bytes)
  | boolean (value : Bool)

structure AttributeInstance where
  name : Bytes
  index : Int
  value : AttributeValue

def maxObjectNames : Nat := 16

def maxCustomAttributes : Nat := 32

def maxAttributeText : Nat := 1024

def maxCustomNameLength : Nat := 128

def normalizedAttributeName (name : Bytes) : Bytes :=
  Go.toLower (name.map fun byte => if byte ∈ bytes " .-" then 0x5F else byte)

def sameAttribute (first second : Bytes) : Bool :=
  if Go.hasPrefix first (bytes "x-") || Go.hasPrefix second (bytes "x-") then first == second
  else normalizedAttributeName first == normalizedAttributeName second

def readOnlyAttribute (name : Bytes) : Bool :=
  (["Unique Identifier", "Object Type", "Cryptographic Algorithm", "Cryptographic Length",
      "Cryptographic Usage Mask", "State", "Initial Date", "Activation Date",
      "Last Change Date", "Link", "Always Sensitive", "Never Extractable"].any
    fun server => sameAttribute name (bytes server)) || Go.hasPrefix name (bytes "y-")

def textValue (requested : RequestedAttribute) : Except KmipError Bytes :=
  if requested.value.type ≠ ttlvTextString then
    .error (.wire .invalidField (requested.name ++ bytes " takes a text value"))
  else if Go.trimSpace requested.value.value = [] ∨
      maxAttributeText < requested.value.value.length then
    .error (.wire .invalidField
      (requested.name ++ bytes " must be 1 to " ++ Go.decimal maxAttributeText ++ bytes " bytes"))
  else .ok requested.value.value

def nameValue (requested : RequestedAttribute) : Except KmipError Bytes :=
  if requested.value.type ≠ ttlvStructure then
    .error (.wire .invalidField (bytes "Name takes a Name Value and Name Type structure"))
  else
    match firstChild requested.value tagNameValue with
    | none => .error (.wire .invalidField (bytes "Name Value is required"))
    | some node => textValue ⟨bytes "Name", 0, node⟩

def booleanValue (requested : RequestedAttribute) : Except KmipError Bool :=
  if requested.value.type ≠ ttlvBoolean ∨ requested.value.value.length ≠ 8 then
    .error (.wire .invalidField (requested.name ++ bytes " takes a boolean"))
  else .ok (requested.value.value.any (· != 0))

/-- What a change of an attribute returns: the object, and the instance that the
response carries. -/
abbrev Changed := Except KmipError (ManagedObject × AttributeInstance)

def changeName (object : ManagedObject) (operation : AttributeOperation)
    (requested : RequestedAttribute) : Changed :=
  if operation ≠ .add ∧ (requested.index < 0 ∨ object.names.length ≤ requested.index) then
    .error (.wire .indexOutOfBounds
      (bytes "the object has no Name at index " ++ Go.decimal requested.index))
  else
    match operation with
    | .add =>
        if maxObjectNames ≤ object.names.length then
          .error (.wire .permissionDenied
            (bytes "an object holds at most " ++ Go.decimal maxObjectNames ++ bytes " names"))
        else do
          let value ← nameValue requested
          return ({ object with names := object.names ++ [value] },
            ⟨bytes "Name", object.names.length, .name value⟩)
    | .modify => do
        let value ← nameValue requested
        return ({ object with names := object.names.set requested.index.toNat value },
          ⟨bytes "Name", requested.index, .name value⟩)
    | .delete =>
        .ok ({ object with names := object.names.eraseIdx requested.index.toNat },
          ⟨bytes "Name", requested.index,
            .name (object.names.getD requested.index.toNat [])⟩)

def changeContact (object : ManagedObject) (operation : AttributeOperation)
    (requested : RequestedAttribute) : Changed :=
  if operation = .add ∧ object.contact ≠ [] then
    .error (.wire .illegalOperation
      (bytes "Contact Information has a value; use Modify Attribute"))
  else if operation ≠ .add ∧ object.contact = [] then
    .error (.wire .itemNotFound (bytes "the object has no Contact Information"))
  else if operation = .delete then
    .ok ({ object with contact := [] }, ⟨bytes "Contact Information", 0, .text object.contact⟩)
  else do
    let value ← textValue requested
    return ({ object with contact := value }, ⟨bytes "Contact Information", 0, .text value⟩)

def changeExtractable (object : ManagedObject) (operation : AttributeOperation)
    (requested : RequestedAttribute) : Changed :=
  if operation ≠ .modify then
    .error (.wire .permissionDenied
      (bytes "Extractable always has a value; use Modify Attribute"))
  else
    match booleanValue requested with
    | .error error => .error error
    | .ok value =>
        if value && !object.extractable then
          .error (.wire .permissionDenied (bytes "an unextractable key stays unextractable"))
        else
          .ok ({ object with extractable := value }, ⟨bytes "Extractable", 0, .boolean value⟩)

def customIndex (object : ManagedObject) (name : Bytes) : Option Nat :=
  object.custom.findIdx? fun custom => custom.name == name

def changeCustom (object : ManagedObject) (operation : AttributeOperation)
    (requested : RequestedAttribute) : Changed :=
  let position := customIndex object requested.name
  if maxCustomNameLength < requested.name.length then
    .error (.wire .invalidField (bytes "custom attribute names are at most " ++
      Go.decimal maxCustomNameLength ++ bytes " bytes"))
  else if operation = .add ∧ position.isSome then
    .error (.wire .illegalOperation
      (requested.name ++ bytes " has a value; use Modify Attribute"))
  else if operation = .add ∧ maxCustomAttributes ≤ object.custom.length then
    .error (.wire .permissionDenied (bytes "an object holds at most " ++
      Go.decimal maxCustomAttributes ++ bytes " custom attributes"))
  else if operation ≠ .add ∧ (position.isNone ∨ requested.index ≠ 0) then
    .error (.wire .itemNotFound
      (bytes "the object has no " ++ requested.name ++ bytes " at that index"))
  else if operation = .delete then
    .ok ({ object with custom := object.custom.eraseIdx (position.getD 0) },
      ⟨requested.name, 0,
        .text ((object.custom[position.getD 0]?).elim [] CustomAttribute.value)⟩)
  else
    match textValue requested with
    | .error _ =>
        .error (.wire .featureNotSupported
          (bytes "custom attributes are served with text values of up to 1024 bytes"))
    | .ok value =>
        let custom :=
          match position with
          | none => object.custom ++ [⟨requested.name, value⟩]
          | some index => object.custom.set index ⟨requested.name, value⟩
        .ok ({ object with custom := custom }, ⟨requested.name, 0, .text value⟩)

def changeAttribute (object : ManagedObject) (operation : AttributeOperation)
    (requested : RequestedAttribute) : Changed :=
  if readOnlyAttribute requested.name then
    .error (.wire .permissionDenied (requested.name ++ bytes " is set by the server"))
  else if sameAttribute requested.name (bytes "Name") then
    changeName object operation requested
  else if sameAttribute requested.name (bytes "Contact Information") then
    changeContact object operation requested
  else if sameAttribute requested.name (bytes "Extractable") then
    changeExtractable object operation requested
  else if sameAttribute requested.name (bytes "Sensitive") then
    .error (.wire .featureNotSupported
      (bytes "Sensitive objects are not served; Sensitive stays false"))
  else if Go.hasPrefix requested.name (bytes "x-") then
    changeCustom object operation requested
  else
    .error (.wire .featureNotSupported
      (bytes "attribute " ++ requested.name ++ bytes " is not served"))

end Trstctl.Kmip
