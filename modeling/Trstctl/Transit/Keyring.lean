import Trstctl.Go.Encoding
import Trstctl.Library.Interaction

/-!
# Transit keys and their checkpoints

`Service.CreateKey` and `Service.Rotate` of `internal/transit/transit.go` where
the keyrings are not shared between replicas and a checkpoint is installed.  A
call changes the ring, has the whole state saved, and takes its change back when
that fails; between these steps other calls may run.  The lifecycle facts that
are recorded after a save, which change no key, are left out.
-/

namespace Trstctl.Transit

open Go (Bytes bytes)
open Interaction (perform)

inductive Kind where
  | aead
  | hmac
  | sign
deriving DecidableEq

/-- The name of a kind. -/
def Kind.text : Kind → Bytes
  | .aead => bytes "aead"
  | .hmac => bytes "hmac"
  | .sign => bytes "sign"

/-- The kind that a request names. -/
def kindOf (text : Bytes) : Option Kind :=
  [Kind.aead, .hmac, .sign].find? fun kind => text == kind.text

/-- The material of one version, and the identity of its lifecycle fact. -/
structure KeyVersion where
  material : Bytes
  fact : Bytes
deriving DecidableEq

/-- `namedKey`: the versions from the first on.  A key has at least one. -/
structure NamedKey where
  kind : Kind
  versions : List KeyVersion
  created : versions ≠ []

/-- The number of the version that new operations use. -/
def NamedKey.latest (key : NamedKey) : Nat :=
  key.versions.length

theorem NamedKey.latest_pos (key : NamedKey) : 0 < key.latest :=
  List.length_pos_of_ne_nil key.created

/-- The version with a number, which counts from one. -/
def NamedKey.version (key : NamedKey) (number : Nat) : Option KeyVersion :=
  if number = 0 then none else key.versions[number - 1]?

def NamedKey.push (key : NamedKey) (version : KeyVersion) : NamedKey where
  kind := key.kind
  versions := key.versions ++ [version]
  created := List.append_ne_nil_of_right_ne_nil key.versions (List.cons_ne_nil version [])

/-- The key without its last version, where it has an earlier one. -/
def NamedKey.pop (key : NamedKey) (several : 1 < key.latest) : NamedKey where
  kind := key.kind
  versions := key.versions.dropLast
  created := by
    intro empty
    have length_eq := congrArg List.length empty
    rw [List.length_dropLast, List.length_nil] at length_eq
    unfold NamedKey.latest at several
    omega

/-- A tenant and the name of one of its keys. -/
abbrev KeyName := Bytes × Bytes

/-- The keys of every tenant. -/
abbrev Rings := Go.MapOf KeyName NamedKey

/-- What a caller learns of a key. -/
structure KeyInfo where
  name : Bytes
  kind : Bytes
  version : Nat

/-- Why a call fails. -/
inductive TransitError where
  | keyExists (name : Bytes)
  | unknownKey (name : Bytes)
  | unknownKind (kind : Bytes)
  | random (cause : Bytes)
  | persistAfterCreate (cause : Bytes)
  | persistAfterRotate (cause : Bytes)

/-- What the random source yields, and why a checkpoint fails, if it does. -/
structure Fate where
  factID : Except Bytes Bytes := .error []
  material : Except Bytes Bytes := .error []
  failure : Option Bytes := none

def createKey (rings : Rings) (name : KeyName) (kind : Bytes) (fate : Fate) :
    Except TransitError Rings :=
  match rings.lookup name with
  | some _ => .error (.keyExists name.2)
  | none => do
      let factID ← fate.factID.mapError .random
      match kindOf kind with
      | none => .error (.unknownKind kind)
      | some known =>
          let material ← fate.material.mapError .random
          return rings.set name ⟨known, [⟨material, factID⟩], List.cons_ne_nil _ []⟩

def rotate (rings : Rings) (name : KeyName) (fate : Fate) : Except TransitError (Rings × Nat) :=
  match rings.lookup name with
  | none => .error (.unknownKey name.2)
  | some key => do
      let factID ← fate.factID.mapError .random
      let material ← fate.material.mapError .random
      let key := key.push ⟨material, factID⟩
      return (rings.set name key, key.latest)

def discardUnpersistedKey (rings : Rings) (name : KeyName) : Rings :=
  match rings.lookup name with
  | none => rings
  | some key => if key.latest ≠ 1 then rings else rings.delete name

def discardUnpersistedVersion (rings : Rings) (name : KeyName) (version : Nat) : Rings :=
  match rings.lookup name with
  | none => rings
  | some key =>
      if several : key.latest ≠ version ∨ version ≤ 1 then rings
      else rings.set name (key.pop (by omega))

/-- The keys in memory, and those that the last successful checkpoint wrote. -/
structure Memory where
  rings : Rings
  saved : Rings

/-- A service that has restored a checkpoint. -/
def restored (saved : Rings) : Memory where
  rings := saved
  saved := saved

/-- The steps that run without interruption. -/
inductive Op where
  | create (name : KeyName) (kind : Bytes)
  | rotate (name : KeyName)
  | kind (name : KeyName)
  | checkpoint
  | discardKey (name : KeyName)
  | discardVersion (name : KeyName) (version : Nat)

/-- What a step returns. -/
@[reducible] def Answer : Op → Type
  | .create _ _ => Except TransitError Unit
  | .rotate _ => Except TransitError Nat
  | .kind _ => Except TransitError Kind
  | .checkpoint => Except Bytes Unit
  | .discardKey _ => Unit
  | .discardVersion _ _ => Unit

def kind (rings : Rings) (name : KeyName) : Except TransitError Kind :=
  match rings.lookup name with
  | none => .error (.unknownKey name.2)
  | some key => .ok key.kind

/-- The keyrings under the steps of the calls.  `Store.Save` writes the whole
state or nothing. -/
def environment : Interaction.Environment Op Answer Memory Fate where
  answer memory op fate :=
    match op with
    | .create name kind => (createKey memory.rings name kind fate).map fun _ => ()
    | .rotate name => (rotate memory.rings name fate).map Prod.snd
    | .kind name => kind memory.rings name
    | .checkpoint =>
        match fate.failure with
        | some cause => .error cause
        | none => .ok ()
    | .discardKey _ => ()
    | .discardVersion _ _ => ()
  after memory op fate :=
    match op with
    | .create name kind =>
        match createKey memory.rings name kind fate with
        | .error _ => memory
        | .ok rings => { memory with rings := rings }
    | .rotate name =>
        match rotate memory.rings name fate with
        | .error _ => memory
        | .ok changed => { memory with rings := changed.1 }
    | .kind _ => memory
    | .checkpoint =>
        match fate.failure with
        | some _ => memory
        | none => { memory with saved := memory.rings }
    | .discardKey name => { memory with rings := discardUnpersistedKey memory.rings name }
    | .discardVersion name version =>
        { memory with rings := discardUnpersistedVersion memory.rings name version }

/-- A program of these steps. -/
abbrev Steps (α : Type) := Interaction Op Answer α

/-- `Keyring.CreateKey` as a step. -/
abbrev performCreate (name : KeyName) (kind : Bytes) : Steps (Except TransitError Unit) :=
  perform (Op.create name kind)

/-- `Keyring.Rotate` as a step. -/
abbrev performRotate (name : KeyName) : Steps (Except TransitError Nat) :=
  perform (Op.rotate name)

/-- `Keyring.Kind` as a step. -/
abbrev readKind (name : KeyName) : Steps (Except TransitError Kind) :=
  perform (Op.kind name)

abbrev checkpoint : Steps (Except Bytes Unit) :=
  perform Op.checkpoint

/-- The rollback of a creation. -/
abbrev discardKey (name : KeyName) : Steps Unit :=
  perform (Op.discardKey name)

/-- The rollback of a rotation. -/
abbrev discardVersion (name : KeyName) (version : Nat) : Steps Unit :=
  perform (Op.discardVersion name version)

/-- A call of the service. -/
abbrev Method := Steps (Except TransitError KeyInfo)

def Service.createKey (name : KeyName) (kind : Bytes) : Method := do
  match ← performCreate name kind with
  | .error error => return .error error
  | .ok () =>
      match ← checkpoint with
      | .error cause =>
          discardKey name
          return .error (.persistAfterCreate cause)
      | .ok () => return .ok ⟨name.2, kind, 1⟩

def Service.rotate (name : KeyName) : Method := do
  match ← performRotate name with
  | .error error => return .error error
  | .ok version =>
      match ← readKind name with
      | .error error => return .error error
      | .ok kind =>
          match ← checkpoint with
          | .error cause =>
              discardVersion name version
              return .error (.persistAfterRotate cause)
          | .ok () => return .ok ⟨name.2, kind.text, version⟩

/-- A call that some client makes. -/
inductive Call where
  | createKey (name : KeyName) (kind : Bytes)
  | rotate (name : KeyName)

/-- The program of a call. -/
def Call.method : Call → Method
  | .createKey name kind => Service.createKey name kind
  | .rotate name => Service.rotate name

end Trstctl.Transit
