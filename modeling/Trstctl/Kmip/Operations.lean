import Trstctl.Kmip.Recorded
import Trstctl.Library.Result

/-!
# Operations and restarts

What each operation may change.  A property of the marks of an object that the
operations on it keep holds from then on, in memory and after every restart.
-/

namespace Trstctl.Kmip

open Go (Bytes Time bytes MapOf)

/-- A property of the marks that says something of the state and of
extractability apart from each other. -/
def Separable (property : Marks → Prop) : Prop :=
  ∀ first second, property first → property second → property (first.1, second.2)

section Pairs

variable {property : Marks → Prop} {server : Server} {log : List Event} {fate : Fate}

theorem recorded_nameHalf {half : ManagedObject} (separable : Separable property)
    (recorded : Recorded property server log) (stored : server.objects.lookup half.id = some half)
    (outcome : AppendOutcome × Time) (names : List Bytes) :
    Recorded property (nameHalf server log outcome half names).1
      (nameHalf server log outcome half names).2.1 := by
  unfold nameHalf
  split_ifs with unnamed
  · exact recorded
  · dsimp only
    have replaced : Recorded property
        { server with objects := server.objects.set half.id { half with names := names } } log :=
      recorded.replace stored rfl rfl
    have appended : Recorded property
        { server with objects := server.objects.set half.id { half with names := names } }
        (log ++ [⟨(attributesEvent { half with names := names }).throughJson, outcome.2⟩]) := by
      apply replaced.appendSame
      · change (server.objects.set half.id _).lookup half.id = _
        rw [MapOf.lookup_set, if_pos rfl]
      · rfl
      · intro other mirrored holds
        exact separable other _ (mirrored holds) holds
    rcases persistState_cases log (attributesEvent { half with names := names }) outcome with
      success | ⟨cause, failure | failure⟩
    · rw [success]
      exact appended
    · rw [failure]
      exact replaced
    · rw [failure]
      exact appended

theorem lookup_nameHalf_of_ne {half : ManagedObject} {id : Bytes} (different : id ≠ half.id)
    (outcome : AppendOutcome × Time) (names : List Bytes) :
    (nameHalf server log outcome half names).1.objects.lookup id = server.objects.lookup id := by
  unfold nameHalf
  split_ifs with unnamed
  · rfl
  · exact (MapOf.lookup_set _ _ _ _).trans (if_neg different)

theorem keeps_nameHalves {paired : Server} {privateKey publicKey : ManagedObject}
    (separable : Separable property) (recorded : Recorded property paired log)
    (privateStored : paired.objects.lookup privateKey.id = some privateKey)
    (publicStored : paired.objects.lookup publicKey.id = some publicKey)
    (different : publicKey.id ≠ privateKey.id)
    (earlier : ∀ id object, server.objects.lookup id = some object →
      id ≠ privateKey.id ∧ id ≠ publicKey.id ∧ paired.objects.lookup id = some object)
    (spec : KeyPairSpec) :
    Keeps property server (nameHalves paired log fate spec privateKey publicKey) := by
  unfold nameHalves
  have firstRecorded := recorded_nameHalf separable recorded privateStored (fate.appends 2)
    spec.privateNames
  have firstLookup : ∀ id, id ≠ privateKey.id →
      (nameHalf paired log (fate.appends 2) privateKey spec.privateNames).1.objects.lookup id =
        paired.objects.lookup id :=
    fun id differs => lookup_nameHalf_of_ne differs (fate.appends 2) spec.privateNames
  generalize nameHalf paired log (fate.appends 2) privateKey spec.privateNames = first
    at firstRecorded firstLookup ⊢
  obtain ⟨named, namedLog, failure⟩ := first
  dsimp only at firstRecorded firstLookup
  cases failure with
  | some cause =>
      refine ⟨firstRecorded, ?_⟩
      intro id object stored holds
      obtain ⟨differs, _, kept⟩ := earlier id object stored
      exact ⟨object, (firstLookup id differs).trans kept, holds⟩
  | none =>
      have secondRecorded := recorded_nameHalf separable firstRecorded
        ((firstLookup publicKey.id different).trans publicStored) (fate.appends 3)
        spec.publicNames
      have secondLookup : ∀ id, id ≠ publicKey.id →
          (nameHalf named namedLog (fate.appends 3) publicKey
            spec.publicNames).1.objects.lookup id = named.objects.lookup id :=
        fun id differs => lookup_nameHalf_of_ne differs (fate.appends 3) spec.publicNames
      dsimp only
      generalize nameHalf named namedLog (fate.appends 3) publicKey spec.publicNames = second
        at secondRecorded secondLookup ⊢
      obtain ⟨both, bothLog, failure⟩ := second
      have kept : ∀ id object, server.objects.lookup id = some object →
          property object.marks →
          ∃ changed, both.objects.lookup id = some changed ∧ property changed.marks := by
        intro id object stored holds
        obtain ⟨differs, differsPublic, kept⟩ := earlier id object stored
        exact ⟨object,
          (secondLookup id differsPublic).trans ((firstLookup id differs).trans kept), holds⟩
      cases failure with
      | some cause => exact ⟨secondRecorded, kept⟩
      | none => exact ⟨secondRecorded, kept⟩

theorem id_stateEventFor (object : ManagedObject) (sealedKey : Bytes) :
    (stateEventFor object sealedKey).id = object.id := by
  unfold stateEventFor
  split_ifs <;> rfl

theorem marks_stateEventFor {object : ManagedObject} (asymmetric : object.type ≠ .symmetricKey)
    (public_extractable : object.type = .publicKey → object.extractable = true) (sealedKey : Bytes)
    (before : Marks) :
    (Payload.key .created (stateEventFor object sealedKey)).marks before = object.marks := by
  unfold stateEventFor
  rw [if_neg asymmetric]
  unfold Payload.marks ManagedObject.marks
  dsimp only
  cases type : object.type with
  | symmetricKey => exact absurd type asymmetric
  | privateKey => rfl
  | publicKey => rw [public_extractable type]

theorem keeps_destroyedHalf {count : Nat} {id : Bytes}
    (recorded : Recorded property { server with n := count } log)
    (named : ∃ number, id = identifier number) (absent : server.objects.lookup id = none)
    (error : KmipError) :
    Keeps property server
      ⟨{ server with n := count },
        (persistState log (.lifecycle .destroyed id .destroyed 1) (fate.appends 2)).1,
        .error error⟩ := by
  refine ⟨?_, fun _ object stored holds => ⟨object, stored, holds⟩⟩
  have appended : Recorded property { server with n := count }
      (log ++ [⟨(Payload.lifecycle .destroyed id .destroyed 1).throughJson,
        (fate.appends 2).2⟩]) :=
    recorded.appendFresh named absent
  rcases persistState_cases log (.lifecycle .destroyed id .destroyed 1) (fate.appends 2) with
    success | ⟨cause, failure | failure⟩
  · rw [success]
    exact appended
  · rw [failure]
    exact recorded
  · rw [failure]
    exact appended

theorem keeps_recordPublicHalf
    {event : StateEvent} {privateKey publicKey : ManagedObject} {time : Time}
    (separable : Separable property) (recorded : Recorded property server log)
    (event_id : event.id = identifier (server.n + 1)) (private_id : privateKey.id = event.id)
    (public_id : publicKey.id = identifier (server.n + 2))
    (private_marks : ∀ before, (Payload.key .created event).marks before = privateKey.marks)
    (public_type : publicKey.type = .publicKey) (public_extractable : publicKey.extractable = true)
    (spec : KeyPairSpec) :
    Keeps property server
      (recordPublicHalf server (log ++ [⟨(Payload.key .created event).throughJson, time⟩]) fate
        spec privateKey publicKey) := by
  have privateAbsent : server.objects.lookup event.id = none := by
    rw [event_id]
    exact recorded.numbered.absent (by omega)
  have publicAbsent : server.objects.lookup publicKey.id = none := by
    rw [public_id]
    exact recorded.numbered.absent (by omega)
  have different : publicKey.id ≠ event.id := by
    rw [event_id, public_id]
    intro same
    have numbers := identifier_injective same
    omega
  have publicEvent_id := id_stateEventFor publicKey []
  have privateNamed : ∃ number, (Payload.key .created event).id = identifier number :=
    ⟨server.n + 1, event_id⟩
  have publicNamed : ∃ number,
      (Payload.key .created (stateEventFor publicKey [])).id = identifier number :=
    ⟨server.n + 2, publicEvent_id.trans public_id⟩
  have asymmetric : publicKey.type ≠ .symmetricKey := by
    rw [public_type]
    decide
  have publicMarks := marks_stateEventFor asymmetric (fun _ => public_extractable) []
  -- memory before the objects are added
  have spent : Recorded property { server with n := server.n + 2 }
      (log ++ [⟨(Payload.key .created event).throughJson, time⟩]) :=
    (recorded.appendFresh privateNamed privateAbsent).congr (fun _ => rfl) (by simp)
  -- memory as if the private half were added with its event
  have halfPaired : Recorded property
      ⟨server.objects.set event.id privateKey, server.n + 2⟩
      (log ++ [⟨(Payload.key .created event).throughJson, time⟩]) :=
    recorded.add event_id private_id privateAbsent (by omega) (by omega) private_marks
  have halfAbsent : (server.objects.set event.id privateKey).lookup
      (stateEventFor publicKey []).id = none := by
    rw [publicEvent_id, MapOf.lookup_set, if_neg different]
    exact publicAbsent
  have publicEventAbsent : server.objects.lookup
      (Payload.key .created (stateEventFor publicKey [])).id = none := by
    change server.objects.lookup (stateEventFor publicKey []).id = none
    rw [publicEvent_id]
    exact publicAbsent
  have privateHalfNamed : ∃ number, privateKey.id = identifier number :=
    ⟨server.n + 1, private_id.trans event_id⟩
  have privateHalfAbsent : server.objects.lookup privateKey.id = none := by
    rw [private_id]
    exact privateAbsent
  unfold recordPublicHalf
  dsimp only
  rcases persistState_cases (log ++ [⟨(Payload.key .created event).throughJson, time⟩])
      (.key .created (stateEventFor publicKey [])) (fate.appends 1) with
    success | ⟨cause, failure | failure⟩
  · rw [success]
    have paired : Recorded property
        ⟨(server.objects.set event.id privateKey).set (stateEventFor publicKey []).id publicKey,
          server.n + 2⟩
        (log ++ [⟨(Payload.key .created event).throughJson, time⟩] ++
          [⟨(Payload.key .created (stateEventFor publicKey [])).throughJson,
            (fate.appends 1).2⟩]) :=
      halfPaired.add (publicEvent_id.trans public_id) publicEvent_id.symm halfAbsent le_rfl le_rfl
        publicMarks
    rw [publicEvent_id, ← private_id] at paired
    rw [← private_id] at different
    apply keeps_nameHalves separable paired
    · change ((server.objects.set _ _).set _ _).lookup _ = _
      rw [MapOf.lookup_set, if_neg different.symm, MapOf.lookup_set, if_pos rfl]
    · change ((server.objects.set _ _).set _ _).lookup _ = _
      rw [MapOf.lookup_set, if_pos rfl]
    · exact different
    · intro id object stored
      have notPrivate : id ≠ privateKey.id := by
        rintro rfl
        rw [privateHalfAbsent] at stored
        cases stored
      have notPublic : id ≠ publicKey.id := by
        rintro rfl
        rw [publicAbsent] at stored
        cases stored
      refine ⟨notPrivate, notPublic, ?_⟩
      change ((server.objects.set _ _).set _ _).lookup _ = _
      rw [MapOf.lookup_set, if_neg notPublic, MapOf.lookup_set, if_neg notPrivate]
      exact stored
  · rw [failure]
    exact keeps_destroyedHalf spent privateHalfNamed privateHalfAbsent _
  · rw [failure]
    exact keeps_destroyedHalf (spent.appendFresh publicNamed publicEventAbsent)
      privateHalfNamed privateHalfAbsent _

theorem keeps_createKeyPair (separable : Separable property)
    (recorded : Recorded property server log) (spec : KeyPairSpec) :
    Keeps property server (createKeyPair server log fate spec) := by
  unfold createKeyPair
  cases keyPairAlgorithm spec.algorithm spec.length with
  | error error => exact keeps_refused recorded error
  | ok _ =>
    cases fate.generated with
    | error cause => exact keeps_refused recorded _
    | ok generated =>
      cases fate.sealedKey with
      | error cause => exact keeps_refused recorded _
      | ok sealedKey =>
        dsimp only
        rcases persistState_cases log
            (.key .created (stateEventFor (privateHalf server fate spec) sealedKey))
            (fate.appends 0) with success | ⟨cause, failure | failure⟩
        · rw [success]
          refine keeps_recordPublicHalf separable recorded ?_ ?_ ?_ ?_ ?_ ?_ spec
          · exact id_stateEventFor (privateHalf server fate spec) sealedKey
          · exact (id_stateEventFor (privateHalf server fate spec) sealedKey).symm
          · rfl
          · exact marks_stateEventFor ObjectType.noConfusion ObjectType.noConfusion sealedKey
          · rfl
          · rfl
        · rw [failure]
          exact keeps_refused recorded _
        · rw [failure]
          refine keeps_refused ?_ _
          have id_eq := id_stateEventFor (privateHalf server fate spec) sealedKey
          apply recorded.appendFresh
          · exact ⟨server.n + 1, id_eq⟩
          · change server.objects.lookup (stateEventFor _ sealedKey).id = none
            rw [id_eq]
            exact recorded.numbered.absent (by omega)

end Pairs

/-- An object is the same but for its client attributes, and no more extractable
than before. -/
def Retouches (object changed : ManagedObject) : Prop :=
  changed.id = object.id ∧ changed.state = object.state ∧
    (object.extractable = false → changed.extractable = false)

section Attributes

variable {object changed : ManagedObject} {operation : AttributeOperation}
  {requested : RequestedAttribute} {instanceValue : AttributeInstance}

theorem retouches_changeName
    (changes : changeName object operation requested = .ok (changed, instanceValue)) :
    Retouches object changed := by
  unfold changeName at changes
  cases operation with
  | add =>
      rw [if_neg (by simp)] at changes
      dsimp only at changes
      split at changes
      · cases changes
      · obtain ⟨value, _, changes⟩ := Result.bind_eq_ok.mp changes
        cases changes
        exact ⟨rfl, rfl, id⟩
  | modify =>
      split at changes
      · cases changes
      · obtain ⟨value, _, changes⟩ := Result.bind_eq_ok.mp changes
        cases changes
        exact ⟨rfl, rfl, id⟩
  | delete =>
      split at changes
      · cases changes
      · cases changes
        exact ⟨rfl, rfl, id⟩

theorem retouches_changeContact
    (changes : changeContact object operation requested = .ok (changed, instanceValue)) :
    Retouches object changed := by
  unfold changeContact at changes
  split_ifs at changes
  · cases changes
    exact ⟨rfl, rfl, id⟩
  · obtain ⟨value, _, changes⟩ := Result.bind_eq_ok.mp changes
    cases changes
    exact ⟨rfl, rfl, id⟩

theorem retouches_changeExtractable
    (changes : changeExtractable object operation requested = .ok (changed, instanceValue)) :
    Retouches object changed := by
  unfold changeExtractable at changes
  split at changes
  · cases changes
  · cases value : booleanValue requested with
    | error error =>
        rw [value] at changes
        cases changes
    | ok extractable =>
        rw [value] at changes
        dsimp only at changes
        split_ifs at changes with raises
        cases changes
        refine ⟨rfl, rfl, ?_⟩
        intro unextractable
        rw [unextractable] at raises
        simpa using raises

theorem retouches_changeCustom
    (changes : changeCustom object operation requested = .ok (changed, instanceValue)) :
    Retouches object changed := by
  unfold changeCustom at changes
  dsimp only at changes
  split_ifs at changes
  · cases changes
    exact ⟨rfl, rfl, id⟩
  · cases value : textValue requested with
    | error error =>
        rw [value] at changes
        cases changes
    | ok text =>
        rw [value] at changes
        cases changes
        exact ⟨rfl, rfl, id⟩

theorem retouches_changeAttribute
    (changes : changeAttribute object operation requested = .ok (changed, instanceValue)) :
    Retouches object changed := by
  unfold changeAttribute at changes
  split_ifs at changes
  · exact retouches_changeName changes
  · exact retouches_changeContact changes
  · exact retouches_changeExtractable changes
  · exact retouches_changeCustom changes

end Attributes

/-- The changes of the marks of one object that an operation makes, and its event. -/
inductive Alters : Operation → Payload → Marks → Marks → Prop where
  | activate
      (id : Bytes)
      (version : Nat)
      (extractable : Bool) :
      Alters (.activate id) (.lifecycle .activated id .active version)
        (.preActive, extractable) (.active, extractable)
  | reKey
      (id : Bytes)
      (event : StateEvent)
      (extractable : Bool)
      (event_id : event.id = id)
      (symmetric : event.objectType = .symmetricKey) :
      Alters (.reKey id) (.key .rekeyed event) (.active, extractable) (.active, extractable)
  | revoke
      (id : Bytes)
      (version : Nat)
      (before : Marks)
      (present : before.1 ≠ .destroyed) :
      Alters (.revoke id) (.lifecycle .revoked id .revoked version) before (.revoked, before.2)
  | revokeCompromised
      (id : Bytes)
      (version : Nat)
      (before : Marks)
      (present : before.1 ≠ .destroyed) :
      Alters (.revokeCompromised id) (.lifecycle .revoked id .compromised version) before
        (.compromised, before.2)
  | destroy
      (id : Bytes)
      (version : Nat)
      (before : Marks) :
      Alters (.destroy id) (.lifecycle .destroyed id .destroyed version) before
        (.destroyed, before.2)
  | changeAttribute
      (operation : AttributeOperation)
      (id : Bytes)
      (requested : RequestedAttribute)
      (event : AttributesEvent)
      (before : Marks)
      (extractable : Bool)
      (event_eq : event.extractable = some extractable)
      (narrows : before.2 = false → extractable = false) :
      Alters (.changeAttribute operation id requested) (.attributes event) before
        (before.1, extractable)

/-- The change that an operation plans, where it appends one event. -/
def Operation.plan (server : Server) (fate : Fate) :
    Operation → Option (Except KmipError Change)
  | .create algorithm => some (Kmip.create server fate algorithm)
  | .register algorithm key => some (Kmip.register server fate algorithm key)
  | .createKeyPair _ => none
  | .activate id => some (Kmip.activate server fate id)
  | .reKey id => some (Kmip.reKey server fate id)
  | .revoke id => some (Kmip.revoke server fate id)
  | .revokeCompromised id => some (Kmip.revokeCompromised server fate id)
  | .destroy id => some (Kmip.destroy server fate id)
  | .changeAttribute operation id requested =>
      some (setAttribute server fate operation id requested)

/-- A change that alters one stored object. -/
structure ChangesOne (server : Server) (fate : Fate) (operation : Operation) (change : Change)
    (id : Bytes) (object changed : ManagedObject) : Prop where
  planned : operation.plan server fate = some (.ok change)
  stored : server.objects.lookup id = some object
  payload_id : change.payload.id = id
  after_eq : change.after = { server with objects := server.objects.set id changed }
  own : changed.id = object.id
  alters : Alters operation change.payload object.marks changed.marks

section Plans

variable {server : Server} {fate : Fate} {id : Bytes} {change : Change}

theorem stored_of_planned {refusal : KmipError} {plan : ManagedObject → Except KmipError Change}
    (planned : (match server.objects.lookup id with
      | none => Except.error refusal
      | some object => plan object) = .ok change) :
    ∃ object, server.objects.lookup id = some object ∧ plan object = .ok change := by
  cases stored : server.objects.lookup id with
  | none =>
      rw [stored] at planned
      cases planned
  | some object =>
      rw [stored] at planned
      exact ⟨object, rfl, planned⟩

theorem changesOne_activate (planned : activate server fate id = .ok change) :
    ∃ object changed, ChangesOne server fate (.activate id) change id object changed := by
  have isPlanned := congrArg some planned
  unfold activate at planned
  obtain ⟨object, stored, planned⟩ := stored_of_planned planned
  split_ifs at planned with refused
  have preActive := not_not.mp refused
  cases planned
  refine ⟨object, _, isPlanned, stored, rfl, rfl, rfl, ?_⟩
  unfold ManagedObject.marks
  rw [preActive]
  exact .activate id object.version object.extractable

theorem changesOne_reKey (numbered : server.Numbered)
    (planned : reKey server fate id = .ok change) :
    ∃ object changed, ChangesOne server fate (.reKey id) change id object changed := by
  have isPlanned := congrArg some planned
  unfold reKey at planned
  cases generated : fate.generated with
  | error cause =>
      rw [generated] at planned
      cases planned
  | ok material =>
      rw [generated] at planned
      obtain ⟨object, stored, planned⟩ := stored_of_planned planned
      split_ifs at planned with refused
      have isActive : object.state = .active := by
        rw [not_or] at refused
        simpa [ObjectState.canReKey] using refused.1
      cases sealedKey : fate.sealedKey with
      | error cause =>
          rw [sealedKey] at planned
          cases planned
      | ok key =>
          rw [sealedKey] at planned
          cases planned
          refine ⟨object, _, isPlanned, stored, (numbered id object stored).1, rfl, rfl, ?_⟩
          unfold ManagedObject.marks
          rw [isActive]
          exact .reKey id _ object.extractable (numbered id object stored).1 rfl

theorem changesOne_transition {target : ObjectState} {operation : Operation}
    (plan_eq : operation.plan server fate = some (transition server fate id target))
    (alters : ∀ version before, before.1 ≠ .destroyed →
      Alters operation (.lifecycle .revoked id target version) before (target, before.2))
    (planned : transition server fate id target = .ok change) :
    ∃ object changed, ChangesOne server fate operation change id object changed := by
  have isPlanned := plan_eq.trans (congrArg some planned)
  unfold transition at planned
  obtain ⟨object, stored, planned⟩ := stored_of_planned planned
  split_ifs at planned with destroyed
  cases planned
  exact ⟨object, _, isPlanned, stored, rfl, rfl, rfl,
    alters object.version object.marks destroyed⟩

theorem changesOne_destroy (planned : destroy server fate id = .ok change) :
    ∃ object changed, ChangesOne server fate (.destroy id) change id object changed := by
  have isPlanned := congrArg some planned
  unfold destroy at planned
  obtain ⟨object, stored, planned⟩ := stored_of_planned planned
  cases planned
  exact ⟨object, _, isPlanned, stored, rfl, rfl, rfl, .destroy id object.version object.marks⟩

theorem changesOne_setAttribute {operation : AttributeOperation} {requested : RequestedAttribute}
    (numbered : server.Numbered)
    (planned : setAttribute server fate operation id requested = .ok change) :
    ∃ object changed, ChangesOne server fate (.changeAttribute operation id requested) change id
      object changed := by
  have isPlanned := congrArg some planned
  unfold setAttribute at planned
  obtain ⟨object, stored, planned⟩ := stored_of_planned planned
  split_ifs at planned
  cases changes : changeAttribute object operation requested with
  | error error =>
      rw [changes] at planned
      cases planned
  | ok result =>
      obtain ⟨changed, instanceValue⟩ := result
      obtain ⟨own, state_eq, narrows⟩ := retouches_changeAttribute changes
      rw [changes] at planned
      cases planned
      exact ⟨object, _, isPlanned, stored, own.trans (numbered id object stored).1, rfl, rfl,
        .changeAttribute operation id requested _ object.marks changed.extractable rfl narrows⟩

end Plans

section Every

variable {property : Marks → Prop} {server : Server} {log : List Event} {fate : Fate}
  {operation : Operation}

/-- The changes of one object that an operation may make keep a property. -/
def StableOperation (property : Marks → Prop) (server : Server) (fate : Fate)
    (operation : Operation) : Prop :=
  fate.refusal = none → (fate.appends 0).1.stores = true → ∀ change id object changed,
    ChangesOne server fate operation change id object changed →
      Stable property change.payload object.marks changed.marks

theorem keeps_planned {plan : Except KmipError Change} (accepted : fate.refusal = none)
    (recorded : Recorded property server log)
    (stable : StableOperation property server fate operation)
    (changesOne : ∀ change, plan = .ok change →
      ∃ id object changed, ChangesOne server fate operation change id object changed) :
    Keeps property server (commit server log fate plan) := by
  cases plan with
  | error error => exact keeps_refused recorded error
  | ok change =>
      obtain ⟨id, object, changed, changes⟩ := changesOne change rfl
      exact keeps_commit_on recorded changes.stored changes.payload_id changes.own
        changes.after_eq fun stores => stable accepted stores change id object changed changes

theorem keeps_addSymmetricKey (recorded : Recorded property server log) (type : KeyEvent)
    (algorithm : Bytes) :
    Keeps property server
      (commit server log fate (addSymmetricKey server fate type algorithm)) := by
  unfold addSymmetricKey unsealedKey
  dsimp only
  cases fate.sealedKey with
  | error cause => exact keeps_refused recorded _
  | ok sealedKey => exact keeps_commit_add recorded rfl rfl rfl rfl fun _ => rfl

/-- Operations keep what is recorded, and a property that their changes keep. -/
theorem keeps_perform (separable : Separable property) (recorded : Recorded property server log)
    (stable : StableOperation property server fate operation) :
    Keeps property server (perform server log fate operation) := by
  unfold perform
  cases accepted : fate.refusal with
  | some error => exact keeps_refused recorded error
  | none =>
      cases operation with
      | create algorithm =>
          dsimp only [create]
          cases fate.generated with
          | error cause => exact keeps_refused recorded _
          | ok material => exact keeps_addSymmetricKey recorded .created algorithm
      | register algorithm key =>
          dsimp only [register]
          split_ifs
          · exact keeps_refused recorded _
          · exact keeps_addSymmetricKey recorded .registered algorithm
      | createKeyPair spec => exact keeps_createKeyPair separable recorded spec
      | activate id =>
          exact keeps_planned accepted recorded stable fun change planned =>
            ⟨id, changesOne_activate planned⟩
      | reKey id =>
          exact keeps_planned accepted recorded stable fun change planned =>
            ⟨id, changesOne_reKey recorded.numbered planned⟩
      | revoke id =>
          exact keeps_planned accepted recorded stable fun change planned =>
            ⟨id, changesOne_transition rfl (.revoke id) planned⟩
      | revokeCompromised id =>
          exact keeps_planned accepted recorded stable fun change planned =>
            ⟨id, changesOne_transition rfl (.revokeCompromised id) planned⟩
      | destroy id =>
          exact keeps_planned accepted recorded stable fun change planned =>
            ⟨id, changesOne_destroy planned⟩
      | changeAttribute attributeOperation id requested =>
          exact keeps_planned accepted recorded stable fun change planned =>
            ⟨id, changesOne_setAttribute recorded.numbered planned⟩

end Every

/-- A condition holds of every step of a run in the world it meets. -/
def World.EachStep (condition : World → Step → Prop) : World → List Step → Prop
  | _, [] => True
  | world, step :: rest => condition world step ∧ (world.step step).EachStep condition rest

/-- The changes that a step may make keep a property. -/
def StableStep (property : Marks → Prop) (world : World) : Step → Prop
  | .restart => True
  | .perform operation fate => ∀ server, world.server = some server →
      StableOperation property server fate operation

/-- What is in memory is recorded, and a server is missing only where its log
cannot be replayed. -/
structure World.Sound (property : Marks → Prop) (world : World) : Prop where
  running : ∀ server, world.server = some server → Recorded property server world.log
  missing : world.server = none → ∀ replayed, replay world.log ≠ .ok replayed

theorem World.sound_new (property : Marks → Prop) : World.new.Sound property := by
  constructor
  · intro server running
    cases running
    refine ⟨?_, ?_, ?_⟩
    · intro id object stored
      cases stored
    · intro replayed read id object stored
      cases read
      cases stored
    · intro replayed read id object stored
      cases stored
  · intro missing
    cases missing

section Runs

variable {property : Marks → Prop} {world : World} {next : Step}

/-- What is recorded stays recorded. -/
theorem World.Sound.step (separable : Separable property) (sound : world.Sound property)
    (stable : StableStep property world next) :
    (world.step next).Sound property := by
  cases next with
  | restart =>
      change World.Sound property ⟨(replay world.log).toOption, world.log⟩
      cases read : replay world.log with
      | error error =>
          constructor
          · intro server running
            cases running
          · intro _ replayed other
            change replay world.log = .ok replayed at other
            rw [read] at other
            cases other
      | ok replayed =>
          constructor
          · intro server running
            cases running
            cases present : world.server with
            | none => exact absurd read (sound.missing present replayed)
            | some earlier =>
                have recorded := sound.running earlier present
                have numbered := recorded.replayNumbered replayed read
                refine ⟨numbered, recorded.replayNumbered, ?_⟩
                intro again readAgain id object stored
                cases read.symm.trans readAgain
                exact ⟨object, stored, fun holds => holds⟩
          · intro missing
            cases missing
  | perform operation fate =>
      cases present : world.server with
      | none =>
          unfold World.step
          rw [present]
          exact sound
      | some server =>
          have kept := keeps_perform separable (sound.running server present)
            (stable server present)
          unfold World.step
          rw [present]
          constructor
          · intro after running
            cases running
            exact kept.recorded
          · intro missing
            cases missing

/-- While there is a server, it has an object with the property. -/
def World.HoldsAt (property : Marks → Prop) (id : Bytes) (world : World) : Prop :=
  ∀ server, world.server = some server →
    ∃ object, server.objects.lookup id = some object ∧ property object.marks

theorem World.HoldsAt.step {id : Bytes} (separable : Separable property)
    (sound : world.Sound property) (stable : StableStep property world next)
    (holds : world.HoldsAt property id) :
    (world.step next).HoldsAt property id := by
  intro after running
  cases next with
  | restart =>
      have read : replay world.log = .ok after := by
        change (replay world.log).toOption = some after at running
        cases read : replay world.log with
        | error error =>
            rw [read] at running
            cases running
        | ok replayed =>
            rw [read] at running
            cases running
            rfl
      cases present : world.server with
      | none => exact absurd read (sound.missing present after)
      | some server =>
          obtain ⟨object, stored, objectHolds⟩ := holds server present
          obtain ⟨other, otherStored, mirrored⟩ :=
            (sound.running server present).present after read id object stored
          exact ⟨other, otherStored, mirrored objectHolds⟩
  | perform operation fate =>
      unfold World.step at running
      cases present : world.server with
      | none =>
          rw [present] at running
          dsimp only at running
          rw [present] at running
          cases running
      | some server =>
          have kept := keeps_perform separable (sound.running server present)
            (stable server present)
          rw [present] at running
          cases running
          obtain ⟨object, stored, objectHolds⟩ := holds server present
          exact kept.held id object stored objectHolds

variable {condition : World → Step → Prop}

theorem World.Sound.run (separable : Separable property)
    (stable : ∀ world next, condition world next → StableStep property world next)
    (sound : world.Sound property) (steps : List Step) (each : world.EachStep condition steps) :
    (world.run steps).Sound property := by
  induction steps generalizing world with
  | nil => exact sound
  | cons next rest ih =>
      exact ih (sound.step separable (stable world next each.1)) each.2

theorem World.HoldsAt.run {id : Bytes} (separable : Separable property)
    (stable : ∀ world next, condition world next → StableStep property world next)
    (sound : world.Sound property) (holds : world.HoldsAt property id) (steps : List Step)
    (each : world.EachStep condition steps) :
    (world.run steps).HoldsAt property id := by
  induction steps generalizing world with
  | nil => exact holds
  | cons next rest ih =>
      have stableNext := stable world next each.1
      exact ih (sound.step separable stableNext)
        (holds.step separable sound stableNext) each.2

theorem World.eachStep_append (first second : List Step) :
    world.EachStep condition (first ++ second) ↔
      world.EachStep condition first ∧ (world.run first).EachStep condition second := by
  induction first generalizing world with
  | nil => simp [World.EachStep, World.run]
  | cons next rest ih =>
      have later := @ih (world.step next)
      simp only [List.cons_append, World.EachStep, later, and_assoc]
      rfl

theorem World.run_append (first second : List Step) :
    world.run (first ++ second) = (world.run first).run second :=
  List.foldl_append

end Runs

end Trstctl.Kmip
