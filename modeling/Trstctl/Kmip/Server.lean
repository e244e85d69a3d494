import Trstctl.Kmip.Objects

/-!
# The KMIP server and its event log

The operations of `internal/kmip/kmip.go` and `internal/kmip/asymmetric.go` that
change a managed object, on a server that is rebuilt from its event log.  The
server appends an event before it changes an object; an append that reports a
failure may have stored the event or not.  The counter of the identifiers is not
bounded here.  Events of other tenants and audit records, which the replay does
not read, are left out.
-/

namespace Trstctl.Kmip

open Go (Bytes Time bytes)

/-- The event types with the key material of an object. -/
inductive KeyEvent where
  | created
  | registered
  | rekeyed
deriving DecidableEq

inductive LifecycleEvent where
  | revoked
  | destroyed
  | activated

/-- `kmipStateEvent`. -/
structure StateEvent where
  id : Bytes
  algorithm : Bytes
  state : ObjectState
  version : Nat
  sealedKey : Bytes
  objectType : ObjectType
  length : Int
  usageMask : UInt32
  link : Bytes
  publicKey : Bytes
  extractable : Option Bool

/-- `kmipAttributesEvent`. -/
structure AttributesEvent where
  id : Bytes
  names : List Bytes
  contact : Bytes
  custom : List CustomAttribute
  extractable : Option Bool

/-- The payload of an event, by its type.  A lifecycle event has the identifier,
the state and the version only. -/
inductive Payload where
  | key (type : KeyEvent) (payload : StateEvent)
  | lifecycle (type : LifecycleEvent) (id : Bytes) (state : ObjectState) (version : Nat)
  | attributes (payload : AttributesEvent)

/-- An event of the log. -/
structure Event where
  payload : Payload
  time : Time

/-- What is read back of a payload that was written as JSON.  The identifiers and
the links are ASCII text of the server's own. -/
def Payload.throughJson : Payload → Payload
  | .key type payload => .key type { payload with algorithm := Go.throughJson payload.algorithm }
  | .lifecycle type id state version => .lifecycle type id state version
  | .attributes payload =>
      .attributes { payload with
        names := payload.names.map Go.throughJson
        contact := Go.throughJson payload.contact
        custom := payload.custom.map fun custom =>
          ⟨Go.throughJson custom.name, Go.throughJson custom.value⟩ }

/-- `Server`: the objects under their identifiers, and the last number used. -/
structure Server where
  objects : Go.Map ManagedObject
  n : Nat

def Server.new : Server where
  objects := []
  n := 0

def identifier (number : Nat) : Bytes :=
  bytes "kmip-" ++ Go.decimal number

/-- `keyPairAlgorithm`, without the name of the algorithm in package `crypto`. -/
def keyPairAlgorithm (algorithm : Bytes) (length : Int) : Except KmipError Unit :=
  if algorithm = bytes "RSA" ∧ (length = 2048 ∨ length = 3072 ∨ length = 4096) ∨
      algorithm = bytes "ECDSA" ∧ (length = 256 ∨ length = 384) then .ok ()
  else
    .error (.wire .invalidField (bytes
      "key pairs are RSA 2048, 3072 or 4096 or ECDSA 256 (P-256) or 384 (P-384), not " ++
        algorithm ++ bytes " " ++ Go.decimal length))

def stateEventFor (object : ManagedObject) (sealedKey : Bytes) : StateEvent :=
  let event : StateEvent :=
    { id := object.id, algorithm := object.algorithm, state := object.state
      version := object.version, sealedKey := sealedKey, objectType := .symmetricKey
      length := 0, usageMask := 0, link := [], publicKey := [], extractable := none }
  if object.type = .symmetricKey then event
  else
    { event with
      objectType := object.type
      length := object.length
      usageMask := object.usageMask
      link := object.link
      extractable := some object.extractable
      publicKey := if object.type = .publicKey then object.publicDER else [] }

/-- What the append of an event does. -/
inductive AppendOutcome where
  | stored
  | lost (cause : Bytes)
  | unacknowledged (cause : Bytes)

/-- The event is in the log. -/
def AppendOutcome.stores : AppendOutcome → Bool
  | .lost _ => false
  | _ => true

/-- What an operation meets outside the server. -/
structure Fate where
  refusal : Option KmipError := none
  generated : Except Bytes (Bytes × Bytes) := .error []
  sealedKey : Except Bytes Bytes := .error []
  now : Time := Time.zero
  appends : Nat → AppendOutcome × Time := fun _ => (.stored, Time.zero)

/-- Key material that is generated and sealed, and appends that succeed. -/
def unfailingFate : Fate where
  generated := .ok ([1], [2])
  sealedKey := .ok [3]

/-- What an operation returns. -/
inductive Reply where
  | object (id : Bytes)
  | pair (privateID publicID : Bytes)
  | version (number : Nat)
  | attributeValue (instanceValue : AttributeInstance)
  | done

/-- An event, and the change of the server that waits for it. -/
structure Change where
  payload : Payload
  after : Server
  reply : Reply

/-- The server, its log, and what an operation returns. -/
structure Outcome where
  server : Server
  log : List Event
  reply : Except KmipError Reply

/-- `persistState`: the log after an append, and its error. -/
def persistState (log : List Event) (payload : Payload) (outcome : AppendOutcome × Time) :
    List Event × Option Bytes :=
  match outcome.1 with
  | .stored => (log ++ [⟨payload.throughJson, outcome.2⟩], none)
  | .lost cause => (log, some cause)
  | .unacknowledged cause => (log ++ [⟨payload.throughJson, outcome.2⟩], some cause)

/-- An operation that appends one event and then changes the server. -/
def commit (server : Server) (log : List Event) (fate : Fate)
    (change : Except KmipError Change) : Outcome :=
  match change with
  | .error error => ⟨server, log, .error error⟩
  | .ok change =>
      match persistState log change.payload (fate.appends 0) with
      | (log, none) => ⟨change.after, log, .ok change.reply⟩
      | (log, some cause) => ⟨server, log, .error (.append cause)⟩

section Operations

variable (server : Server) (fate : Fate)

/-- The key that `register` adds, before it is sealed. -/
def unsealedKey (algorithm : Bytes) : ManagedObject where
  id := identifier (server.n + 1)
  algorithm := algorithm
  state := .active
  version := 1
  sealedKey := []
  type := .symmetricKey
  length := 256
  usageMask := 0
  link := []
  publicDER := []
  extractable := true
  neverExtractable := false
  initial := fate.now
  activated := fate.now
  lastChange := fate.now
  names := []
  contact := []
  custom := []

/-- `register`: a symmetric key under a new identifier. -/
def addSymmetricKey (type : KeyEvent) (algorithm : Bytes) : Except KmipError Change :=
  let object := unsealedKey server fate algorithm
  match fate.sealedKey with
  | .error cause => .error (.sealing cause)
  | .ok sealedKey =>
      .ok
        { payload := .key type (stateEventFor object sealedKey)
          after :=
            { objects := server.objects.set object.id { object with sealedKey := sealedKey }
              n := server.n + 1 }
          reply := .object object.id }

def create (algorithm : Bytes) : Except KmipError Change :=
  match fate.generated with
  | .error cause => .error (.generate cause)
  | .ok _ => addSymmetricKey server fate .created algorithm

def register (algorithm key : Bytes) : Except KmipError Change :=
  if algorithm ≠ bytes "AES" ∨ key.length ≠ 32 then .error .unsupportedMaterial
  else addSymmetricKey server fate .registered algorithm

def activate (id : Bytes) : Except KmipError Change :=
  match server.objects.lookup id with
  | none => .error (.object id "not found")
  | some object =>
      if object.state ≠ .preActive then
        .error (.wire .permissionDenied (bytes
          "only a Pre-Active object can be activated; this one is " ++ object.state.text))
      else
        .ok
          { payload := .lifecycle .activated id .active object.version
            after :=
              { server with
                objects := server.objects.set id
                  { object with
                    state := .active, activated := fate.now, lastChange := fate.now } }
            reply := .done }

/-- The object whose event `ReKey` stores: the key of the next version. -/
def renewedKey (object : ManagedObject) : ManagedObject where
  id := object.id
  algorithm := object.algorithm
  state := object.state
  version := object.version + 1
  sealedKey := []
  type := .symmetricKey
  length := object.length
  usageMask := 0
  link := []
  publicDER := []
  extractable := true
  neverExtractable := false
  initial := Time.zero
  activated := Time.zero
  lastChange := Time.zero
  names := []
  contact := []
  custom := []

def reKey (id : Bytes) : Except KmipError Change :=
  match fate.generated with
  | .error cause => .error (.generate cause)
  | .ok _ =>
      match server.objects.lookup id with
      | none => .error (.object id "not active")
      | some object =>
          if object.state.canReKey = false ∨ object.type ≠ .symmetricKey then
            .error (.object id "not active")
          else
            match fate.sealedKey with
            | .error cause => .error (.sealing cause)
            | .ok sealedKey =>
                .ok
                  { payload := .key .rekeyed (stateEventFor (renewedKey object) sealedKey)
                    after :=
                      { server with
                        objects := server.objects.set id
                          { object with
                            sealedKey := sealedKey
                            version := object.version + 1
                            lastChange := fate.now } }
                    reply := .version (object.version + 1) }

def transition (id : Bytes) (target : ObjectState) : Except KmipError Change :=
  match server.objects.lookup id with
  | none => .error (.object id "not found")
  | some object =>
      if object.state = .destroyed then
        .error (.wire .permissionDenied (bytes "a destroyed object cannot be revoked"))
      else
        .ok
          { payload := .lifecycle .revoked id target object.version
            after :=
              { server with
                objects := server.objects.set id
                  { object with state := target, lastChange := fate.now } }
            reply := .done }

def revoke (id : Bytes) : Except KmipError Change :=
  transition server fate id .revoked

def revokeCompromised (id : Bytes) : Except KmipError Change :=
  transition server fate id .compromised

def destroy (id : Bytes) : Except KmipError Change :=
  match server.objects.lookup id with
  | none => .error (.object id "not found")
  | some object =>
      .ok
        { payload := .lifecycle .destroyed id .destroyed object.version
          after :=
            { server with
              objects := server.objects.set id
                { object with sealedKey := [], state := .destroyed, lastChange := fate.now } }
          reply := .done }

/-- `persistAttributes`: the event with the client attributes of an object. -/
def attributesEvent (object : ManagedObject) : Payload :=
  .attributes ⟨object.id, object.names, object.contact, object.custom, some object.extractable⟩

/-- `Server.ChangeAttribute`. -/
def setAttribute (operation : AttributeOperation) (id : Bytes)
    (requested : RequestedAttribute) : Except KmipError Change :=
  match server.objects.lookup id with
  | none => .error (.object id "not found")
  | some object =>
      if object.state = .destroyed then
        .error (.wire .permissionDenied (bytes "a destroyed object's attributes do not change"))
      else
        match changeAttribute object operation requested with
        | .error error => .error error
        | .ok (changed, instanceValue) =>
            .ok
              { payload := attributesEvent changed
                after :=
                  { server with
                    objects := server.objects.set id
                      { object with
                        names := changed.names
                        contact := changed.contact
                        custom := changed.custom
                        extractable := changed.extractable
                        lastChange := fate.now } }
                reply := .attributeValue instanceValue }

end Operations

structure KeyPairSpec where
  algorithm : Bytes
  length : Int
  privateMask : UInt32
  publicMask : UInt32
  privateNames : List Bytes
  publicNames : List Bytes
  privateExtractable : Option Bool

def usageMaskSign : UInt32 := 1

def usageMaskVerify : UInt32 := 2

/-- The private half of a new pair, whose sealed key is not known yet. -/
def privateHalf (server : Server) (fate : Fate) (spec : KeyPairSpec) : ManagedObject where
  id := identifier (server.n + 1)
  algorithm := spec.algorithm
  state := .preActive
  version := 1
  sealedKey := []
  type := .privateKey
  length := spec.length
  usageMask := if spec.privateMask = 0 then usageMaskSign else spec.privateMask
  link := identifier (server.n + 2)
  publicDER := []
  extractable := spec.privateExtractable.getD false
  neverExtractable := !spec.privateExtractable.getD false
  initial := fate.now
  activated := Time.zero
  lastChange := fate.now
  names := []
  contact := []
  custom := []

def publicHalf (server : Server) (fate : Fate) (spec : KeyPairSpec) (publicDER : Bytes) :
    ManagedObject where
  id := identifier (server.n + 2)
  algorithm := spec.algorithm
  state := .preActive
  version := 1
  sealedKey := []
  type := .publicKey
  length := spec.length
  usageMask := if spec.publicMask = 0 then usageMaskVerify else spec.publicMask
  link := identifier (server.n + 1)
  publicDER := publicDER
  extractable := true
  neverExtractable := false
  initial := fate.now
  activated := Time.zero
  lastChange := fate.now
  names := []
  contact := []
  custom := []

/-- The names of a half, set in memory and then recorded. -/
def nameHalf (server : Server) (log : List Event) (outcome : AppendOutcome × Time)
    (half : ManagedObject) (names : List Bytes) : Server × List Event × Option Bytes :=
  if names = [] then (server, log, none)
  else
    let named := { half with names := names }
    ({ server with objects := server.objects.set half.id named },
      persistState log (attributesEvent named) outcome)

/-- The last part of `Server.CreateKeyPair`: the names of both halves. -/
def nameHalves (server : Server) (log : List Event) (fate : Fate) (spec : KeyPairSpec)
    (privateKey publicKey : ManagedObject) : Outcome :=
  match nameHalf server log (fate.appends 2) privateKey spec.privateNames with
  | (server, log, some cause) => ⟨server, log, .error (.append cause)⟩
  | (server, log, none) =>
      match nameHalf server log (fate.appends 3) publicKey spec.publicNames with
      | (server, log, some cause) => ⟨server, log, .error (.append cause)⟩
      | (server, log, none) => ⟨server, log, .ok (.pair privateKey.id publicKey.id)⟩

/-- `Server.CreateKeyPair` from the record of the private half on.  Both
identifiers are spent; without a public key the private half is destroyed. -/
def recordPublicHalf (server : Server) (log : List Event) (fate : Fate) (spec : KeyPairSpec)
    (privateKey publicKey : ManagedObject) : Outcome :=
  let spent := { server with n := server.n + 2 }
  match persistState log (.key .created (stateEventFor publicKey [])) (fate.appends 1) with
  | (log, some cause) =>
      ⟨spent,
        (persistState log (.lifecycle .destroyed privateKey.id .destroyed 1)
          (fate.appends 2)).1,
        .error (.append cause)⟩
  | (log, none) =>
      nameHalves
        { spent with
          objects := (spent.objects.set privateKey.id privateKey).set publicKey.id publicKey }
        log fate spec privateKey publicKey

def createKeyPair (server : Server) (log : List Event) (fate : Fate) (spec : KeyPairSpec) :
    Outcome :=
  match keyPairAlgorithm spec.algorithm spec.length, fate.generated, fate.sealedKey with
  | .error error, _, _ => ⟨server, log, .error error⟩
  | .ok _, .error cause, _ => ⟨server, log, .error (.generate cause)⟩
  | .ok _, .ok _, .error cause => ⟨server, log, .error (.sealing cause)⟩
  | .ok _, .ok generated, .ok sealedKey =>
      let privateKey := privateHalf server fate spec
      let publicKey := publicHalf server fate spec generated.2
      match persistState log (.key .created (stateEventFor privateKey sealedKey))
          (fate.appends 0) with
      | (log, some cause) => ⟨server, log, .error (.append cause)⟩
      | (log, none) =>
          recordPublicHalf server log fate spec { privateKey with sealedKey := sealedKey }
            publicKey

/-- The operations that change an object. -/
inductive Operation where
  | create (algorithm : Bytes)
  | register (algorithm key : Bytes)
  | createKeyPair (spec : KeyPairSpec)
  | activate (id : Bytes)
  | reKey (id : Bytes)
  | revoke (id : Bytes)
  | revokeCompromised (id : Bytes)
  | destroy (id : Bytes)
  | changeAttribute (operation : AttributeOperation) (id : Bytes) (requested : RequestedAttribute)

/-- An operation of an authenticated client, or its refusal by `authClient`. -/
def perform (server : Server) (log : List Event) (fate : Fate) (operation : Operation) :
    Outcome :=
  match fate.refusal with
  | some error => ⟨server, log, .error error⟩
  | none =>
      match operation with
      | .create algorithm => commit server log fate (create server fate algorithm)
      | .register algorithm key => commit server log fate (register server fate algorithm key)
      | .createKeyPair spec => createKeyPair server log fate spec
      | .activate id => commit server log fate (activate server fate id)
      | .reKey id => commit server log fate (reKey server fate id)
      | .revoke id => commit server log fate (revoke server fate id)
      | .revokeCompromised id => commit server log fate (revokeCompromised server fate id)
      | .destroy id => commit server log fate (destroy server fate id)
      | .changeAttribute operation id requested =>
          commit server log fate (setAttribute server fate operation id requested)

def replayedObject (payload : StateEvent) (time : Time) : Except KmipError ManagedObject :=
  let object : ManagedObject :=
    { id := payload.id, algorithm := payload.algorithm, state := payload.state
      version := payload.version, sealedKey := payload.sealedKey, type := payload.objectType
      length := payload.length, usageMask := payload.usageMask, link := payload.link
      publicDER := [], extractable := false, neverExtractable := false, initial := time
      activated := Time.zero, lastChange := time, names := [], contact := [], custom := [] }
  let unnumbered := payload.id = [] ∨ payload.version < 1
  let unpaired := (keyPairAlgorithm payload.algorithm payload.length).isOk = false
  match payload.objectType with
  | .symmetricKey =>
      if unnumbered ∨ payload.algorithm ≠ bytes "AES" ∨ payload.sealedKey = [] then
        .error .malformedReplay
      else
        .ok { object with
          state := .active
          activated := time
          extractable := true
          length := if payload.length = 0 then 256 else payload.length }
  | .privateKey =>
      if unnumbered ∨ payload.sealedKey = [] ∨ payload.link = [] ∨ unpaired then
        .error .malformedReplay
      else
        .ok { object with
          extractable := payload.extractable.getD false
          neverExtractable := !payload.extractable.getD false }
  | .publicKey =>
      if unnumbered ∨ payload.publicKey = [] ∨ payload.link = [] ∨ unpaired then
        .error .malformedReplay
      else .ok { object with publicDER := payload.publicKey, extractable := true }

def replayLifecycle (object : ManagedObject) (type : LifecycleEvent) (state : ObjectState)
    (time : Time) : ManagedObject :=
  match type with
  | .destroyed => { object with sealedKey := [], state := .destroyed, lastChange := time }
  | .activated => { object with state := .active, activated := time, lastChange := time }
  | .revoked =>
      { object with
        state := if state = .compromised then .compromised else .revoked
        lastChange := time }

def applyAttributes (object : ManagedObject) (payload : AttributesEvent) : ManagedObject :=
  { object with
    names := payload.names.filter (· ≠ [])
    contact := payload.contact
    custom := payload.custom.filter fun custom =>
      Go.hasPrefix custom.name (bytes "x-") && custom.value ≠ []
    extractable := payload.extractable.getD object.extractable }

/-- The number of an identifier. -/
def numericID (id : Bytes) : Option Nat :=
  if Go.hasPrefix id (bytes "kmip-") then Go.parseDigits (id.drop 5) else none

def Server.observeNumericID (server : Server) (id : Bytes) : Server :=
  { server with n := max server.n ((numericID id).getD 0) }

/-- The object that a key event leaves, given the one it replaces. -/
def Server.renewed (server : Server) (type : KeyEvent) (id : Bytes) (object : ManagedObject) :
    ManagedObject :=
  match server.objects.lookup id with
  | some old =>
      if type = .rekeyed then
        { object with
          initial := old.initial, activated := old.activated, names := old.names
          contact := old.contact, custom := old.custom }
      else object
  | none => object

/-- The step of `replay` for one event. -/
def Server.apply (server : Server) (event : Event) : Except KmipError Server :=
  match event.payload with
  | .key type payload => do
      let object ← replayedObject payload event.time
      let object := server.renewed type payload.id object
      return { server with objects := server.objects.set payload.id object }.observeNumericID
        payload.id
  | .lifecycle type id state _ =>
      match server.objects.lookup id with
      | none => .error (.unknownReplay id)
      | some object =>
          .ok { server with
            objects := server.objects.set id (replayLifecycle object type state event.time) }
  | .attributes payload =>
      match server.objects.lookup payload.id with
      | none => .error (.unknownReplay payload.id)
      | some object =>
          .ok { server with
            objects := server.objects.set payload.id
              { applyAttributes object payload with lastChange := event.time } }

/-- `Server.replay` into a new server. -/
def replay (log : List Event) : Except KmipError Server :=
  log.foldlM Server.apply Server.new

/-- A log, and the server over it unless its replay has failed. -/
structure World where
  server : Option Server
  log : List Event

/-- A server over a log without an event. -/
def World.new : World where
  server := some Server.new
  log := []

/-- What happens next: an operation, or a restart that replays the log. -/
inductive Step where
  | perform (operation : Operation) (fate : Fate)
  | restart

def World.step (world : World) : Step → World
  | .perform operation fate =>
      match world.server with
      | none => world
      | some server =>
          let outcome := Kmip.perform server world.log fate operation
          ⟨some outcome.server, outcome.log⟩
  | .restart => ⟨(replay world.log).toOption, world.log⟩

/-- The world after a run. -/
def World.run (world : World) (steps : List Step) : World :=
  steps.foldl World.step world

/-- The object under an identifier in memory. -/
def World.object (world : World) (id : Bytes) : Option ManagedObject :=
  world.server.bind fun server => server.objects.lookup id

end Trstctl.Kmip
