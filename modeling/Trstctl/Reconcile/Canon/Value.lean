import Trstctl.Go.JsonText
import Mathlib.Data.List.Sort

/-!
# Canonical attribute values

`internal/reconcile/canon/value.go` and `json.go`: the normalization of
attribute values and their restricted JSON.  A `canonicalJSON` value is the text
that `writeCanonical` writes of it.  The NFC form of `golang.org/x/text` and
the URLs of `net/url` are parameters.
-/

namespace Trstctl.Reconcile.Canon

open Go (Bytes bytes trimSpace toLower)

/-- A parsed `url.URL`; `opaqueData` is its field `Opaque`. -/
structure URL where
  scheme : Bytes
  opaqueData : Bytes
  user : Option (Bytes × Option Bytes)
  host : Bytes
  path : Bytes
  rawPath : Bytes
  omitHost : Bool
  forceQuery : Bool
  rawQuery : Bytes
  fragment : Bytes
  rawFragment : Bytes

/-- What the package takes from others: the NFC form, the hash, and `url.Parse`
with `URL.EscapedPath` and `URL.String`. -/
structure Primitives where
  nfc : Bytes → Bytes
  sha256Sum : Bytes → Bytes
  parseURL : Bytes → Option URL
  escapedPath : URL → Bytes
  urlString : URL → Bytes

/-- A member of an attribute object, or an attribute itself. -/
inductive MemberSite where
  | attribute
  | member
deriving DecidableEq

/-- The errors of the package. -/
inductive CanonError where
  | tenantScope
  | emptyTenantID
  | invalidValue
  | invalidURI
  | invalidSPIFFE
  | secretMaterial
  | emptyName (site : MemberSite)
  | duplicateName (site : MemberSite) (name : Bytes)
  | duplicateKey (key : Bytes)
  | missingIdentity (recordType : Bytes)
  | emptySerial
  | serialHex
  | missingKeyIdentity
deriving DecidableEq

section Primitives

variable (primitives : Primitives)

def normalizeText (text : Bytes) : Bytes :=
  primitives.nfc text

def normalizeToken (text : Bytes) : Bytes :=
  toLower (trimSpace (normalizeText primitives text))

/-- One part of a distinguished name; none for an empty one. -/
def normalizeDNPart (part : Bytes) : Option Bytes :=
  let part := trimSpace part
  if part = [] then none
  else
    match Go.index (bytes "=") part with
    | some position =>
        some (toLower (trimSpace (part.take position)) ++ bytes "=" ++
          trimSpace (part.drop (position + 1)))
    | none => some part

def normalizeDN (text : Bytes) : Bytes :=
  let parts := Go.split 0x2C (normalizeText primitives (trimSpace text))
  ((parts.filterMap normalizeDNPart).intersperse (bytes ",")).flatten

def normalizeURI (text : Bytes) : Except CanonError Bytes :=
  match primitives.parseURL (trimSpace (normalizeText primitives text)) with
  | none => .error .invalidURI
  | some url =>
      let lowered := { url with scheme := toLower url.scheme, host := toLower url.host }
      if lowered.path = [] then .ok (primitives.urlString lowered)
      else
        let cleaned := Go.Path.clean (primitives.escapedPath lowered)
        let path :=
          if Go.hasSuffix lowered.path (bytes "/") ∧ cleaned ≠ bytes "/" then
            cleaned ++ bytes "/"
          else cleaned
        .ok (primitives.urlString { lowered with path := path, rawPath := [] })

def normalizeSPIFFEID (text : Bytes) : Except CanonError Bytes :=
  match primitives.parseURL (trimSpace (normalizeText primitives text)) with
  | none => .error .invalidSPIFFE
  | some url =>
      if toLower url.scheme ≠ bytes "spiffe" ∨ url.host = [] then .error .invalidSPIFFE
      else
        .ok (primitives.urlString
          { url with
            scheme := bytes "spiffe"
            host := toLower url.host
            rawQuery := []
            fragment := []
            rawPath := []
            path := Go.Path.clean (bytes "/" ++ Go.trimPrefix url.path (bytes "/")) })

def normalizePath (text : Bytes) : Bytes :=
  let path := trimSpace (normalizeText primitives text)
  if path = [] then bytes "/"
  else
    let path := Go.Path.clean (bytes "/" ++ Go.trimPrefix path (bytes "/"))
    if path ≠ bytes "/" then path.rdropWhile (· == 0x2F) else path

def normalizeSecretRef (space path : Bytes) : Bytes :=
  let space := normalizeToken primitives space
  let clean := normalizePath primitives path
  if space = [] then clean else space ++ bytes ":" ++ clean

/-- The names of secrets, without separators. -/
def secretFieldNames : List Bytes :=
  [bytes "privatekey", bytes "secretvalue", bytes "tokenvalue", bytes "password", bytes "passwd",
    bytes "apikey", bytes "accesstoken", bytes "refreshtoken", bytes "clientsecret"]

def hasSecretFieldName (name : Bytes) : Bool :=
  let lowered := toLower (normalizeText primitives name)
  let joined := lowered.filter fun byte => !(bytes "-_. /").contains byte
  secretFieldNames.any fun secret => Go.contains joined secret

def secretValueMarkers : List Bytes :=
  [bytes "-----begin private key-----", bytes "-----begin rsa private key-----",
    bytes "-----begin ec private key-----", bytes "-----begin openssh private key-----",
    bytes "super-secret-password", bytes "token-value-sentinel", bytes "password-value-sentinel",
    bytes "secret-value-sentinel", bytes "private-key-value-sentinel"]

/-- `hasSecretValue` and `hasSecretBytes`. -/
def hasSecretValue (value : Bytes) : Bool :=
  let lowered := toLower (normalizeText primitives value)
  secretValueMarkers.any fun marker => Go.contains lowered marker

def writeJSONString (text : Bytes) : Bytes :=
  Go.jsonStringPlain (normalizeText primitives text)

/-- The members of an object in the order of their names. -/
def sortMembers (members : Go.Map Bytes) : Go.Map Bytes :=
  members.insertionSort fun left right => left.1 ≤ right.1

/-- The text of a `jsonObject`. -/
def writeObject (members : Go.Map Bytes) : Bytes :=
  Go.jsonObject ((sortMembers members).map fun member =>
    writeJSONString primitives member.1 ++ bytes ":" ++ member.2)

inductive StringKind where
  | plain
  | dn
  | uri
  | path

inductive Value where
  | invalid
  | bool (value : Bool)
  | int (value : Int)
  | string (kind : StringKind) (text : Bytes)
  | bytes (value : Bytes)
  | array (items : List Value)
  | object (members : List (Bytes × Value))

def normalizeAttributeString (text : Bytes) : StringKind → Except CanonError Bytes
  | .plain => .ok (normalizeText primitives text)
  | .dn => .ok (normalizeDN primitives text)
  | .uri => normalizeURI primitives text
  | .path => .ok (normalizePath primitives text)

mutual

/-- `Value.jsonValue`, written. -/
def Value.json : Value → Except CanonError Bytes
  | .invalid => .error .invalidValue
  | .bool value => .ok (Go.jsonBool value)
  | .int value => .ok (Go.decimal value)
  | .string kind text => do
      let normalized ← normalizeAttributeString primitives text kind
      if hasSecretValue primitives normalized then .error .secretMaterial
      else .ok (writeJSONString primitives normalized)
  | .bytes value =>
      if hasSecretValue primitives value then .error .secretMaterial
      else .ok (writeJSONString primitives (Go.hexEncode value))
  | .array items => do
      let texts ← jsonItems items
      .ok (Go.jsonArray texts)
  | .object members => do
      let texts ← jsonMembers .member [] members
      .ok (writeObject primitives texts)

/-- The items of an array, written. -/
def jsonItems : List Value → Except CanonError (List Bytes)
  | [] => .ok []
  | item :: rest => do
      let text ← item.json
      let texts ← jsonItems rest
      .ok (text :: texts)

/-- The loop over the members of an object, or over attributes, written. -/
def jsonMembers (site : MemberSite) (written : Go.Map Bytes) :
    List (Bytes × Value) → Except CanonError (Go.Map Bytes)
  | [] => .ok written
  | (raw, value) :: rest =>
      let name := normalizeText primitives (trimSpace raw)
      if name = [] then .error (.emptyName site)
      else if hasSecretFieldName primitives name then .error .secretMaterial
      else if (written.lookup name).isSome then .error (.duplicateName site name)
      else do
        let text ← value.json
        jsonMembers site (written.set name text) rest

end

def canonicalizeAttributes (attributes : List (Bytes × Value)) :
    Except CanonError (Go.Map Bytes) :=
  jsonMembers primitives .attribute [] attributes

end Primitives

end Trstctl.Reconcile.Canon
