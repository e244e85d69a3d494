import Trstctl.Kmip.Operations

/-!
# A restarted server

Every operation changes the objects in memory and appends an event, and a replay
of the events rebuilds the objects.  Text in an event passes through JSON, which
replaces what is not valid UTF-8, the replay drops empty names, and it accepts no
symmetric key but AES.  Where every step avoids these, the replay of the log is
the server in memory.
-/

namespace Trstctl.Kmip

open Go (Bytes Time bytes MapOf)

/-- What a restart has to restore of an object. -/
structure View where
  id : Bytes
  type : ObjectType
  algorithm : Bytes
  length : Int
  state : ObjectState
  version : Nat
  usageMask : UInt32
  link : Bytes
  names : List Bytes
  contact : Bytes
  custom : List CustomAttribute
  sealedKey : Bytes
deriving DecidableEq

def ManagedObject.view (object : ManagedObject) : View :=
  ⟨object.id, object.type, object.algorithm, object.length, object.state, object.version,
    object.usageMask, object.link, object.names, object.contact, object.custom, object.sealedKey⟩

/-- Two servers have the same objects under the same identifiers, and the same
next identifier. -/
structure Restores (live restarted : Server) : Prop where
  objects : ∀ id, (restarted.objects.lookup id).map ManagedObject.view =
    (live.objects.lookup id).map ManagedObject.view
  next : restarted.n = live.n

/-- Client text that an event keeps: it is valid UTF-8 and not empty. -/
def KeptText (text : Bytes) : Prop :=
  text ≠ [] ∧ Go.utf8Valid text = true

/-- What the events of an object keep: symmetric keys are AES keys of 256 bits, and
client text is kept. -/
structure View.Plain (view : View) : Prop where
  symmetric : view.type = .symmetricKey →
    view.algorithm = bytes "AES" ∧ view.length = 256 ∧ view.usageMask = 0 ∧ view.link = []
  names : ∀ name ∈ view.names, KeptText name
  contact : Go.utf8Valid view.contact = true
  custom : ∀ custom ∈ view.custom,
    Go.hasPrefix custom.name (bytes "x-") = true ∧ Go.utf8Valid custom.name = true ∧
      KeptText custom.value

/-- The server in memory is the replay of its log. -/
structure Tracked (server : Server) (log : List Event) : Prop where
  numbered : server.Numbered
  plain : ∀ id object, server.objects.lookup id = some object → object.view.Plain
  restored : ∃ restarted, replay log = .ok restarted ∧ Restores server restarted

theorem Restores.lookup {live restarted : Server} (restores : Restores live restarted)
    {id : Bytes} {object : ManagedObject} (stored : live.objects.lookup id = some object) :
    ∃ old, restarted.objects.lookup id = some old ∧ old.view = object.view := by
  have same := restores.objects id
  rw [stored, Option.map_some, Option.map_eq_some_iff] at same
  exact same

theorem Tracked.append {server : Server} {log : List Event} (tracked : Tracked server log)
    {payload : Payload} {time : Time} {id : Bytes} {changed : ManagedObject} {count number : Nat}
    (own : changed.id = id) (named : id = identifier number) (used : number ≤ count)
    (counts : server.n ≤ count) (plain : changed.view.Plain)
    (applies : ∀ restarted, Restores server restarted →
      ∃ object, object.view = changed.view ∧
        restarted.apply ⟨payload.throughJson, time⟩ =
          .ok ⟨restarted.objects.set id object, count⟩) :
    Tracked ⟨server.objects.set id changed, count⟩ (log ++ [⟨payload.throughJson, time⟩]) := by
  obtain ⟨restarted, read, restores⟩ := tracked.restored
  obtain ⟨object, same, applied⟩ := applies restarted restores
  refine ⟨fun other found stored => ?_, fun other found stored => ?_, ?_⟩
  · rw [MapOf.lookup_set] at stored
    split at stored
    · next isChanged =>
        obtain rfl := Option.some.inj stored
        exact ⟨own.trans isChanged.symm, number, isChanged.trans named, used⟩
    · obtain ⟨itself, earlier, id_eq, below⟩ := tracked.numbered other found stored
      exact ⟨itself, earlier, id_eq, below.trans counts⟩
  · rw [MapOf.lookup_set] at stored
    split at stored
    · obtain rfl := Option.some.inj stored
      exact plain
    · exact tracked.plain other found stored
  · refine ⟨⟨restarted.objects.set id object, count⟩, ?_, fun other => ?_, rfl⟩
    · rw [replay_concat, read]
      exact applied
    simp only [MapOf.lookup_set]
    split
    · rw [Option.map_some, Option.map_some, same]
    · exact restores.objects other

section One

variable {server : Server} {log : List Event} {time : Time} {id : Bytes} {object : ManagedObject}

theorem Tracked.rewrite (tracked : Tracked server log) {payload : Payload} {changed : ManagedObject}
    (stored : server.objects.lookup id = some object) (own : changed.id = object.id)
    (plain : changed.view.Plain)
    (applies : ∀ (restarted : Server) (old : ManagedObject), restarted.n = server.n →
      restarted.objects.lookup id = some old → old.view = object.view →
        ∃ result : ManagedObject, result.view = changed.view ∧
          restarted.apply ⟨payload.throughJson, time⟩ =
            .ok ⟨restarted.objects.set id result, server.n⟩) :
    Tracked { server with objects := server.objects.set id changed }
      (log ++ [⟨payload.throughJson, time⟩]) := by
  obtain ⟨itself, number, named, used⟩ := tracked.numbered id object stored
  refine tracked.append (own.trans itself) named used le_rfl plain fun restarted restores => ?_
  obtain ⟨old, found, same⟩ := restores.lookup stored
  exact applies restarted old restores.next found same

theorem Tracked.lifecycle (tracked : Tracked server log)
    {type : LifecycleEvent} {state : ObjectState} {version : Nat} {changed : ManagedObject}
    (stored : server.objects.lookup id = some object) (own : changed.id = object.id)
    (changes : ∀ old : ManagedObject, old.view = object.view →
      (replayLifecycle old type state time).view = changed.view)
    (kept : object.view.Plain → changed.view.Plain) :
    Tracked { server with objects := server.objects.set id changed }
      (log ++ [⟨(Payload.lifecycle type id state version).throughJson, time⟩]) := by
  refine tracked.rewrite stored own (kept (tracked.plain id object stored)) ?_
  intro restarted old next found same
  refine ⟨replayLifecycle old type state time, changes old same, ?_⟩
  simp only [Server.apply, Payload.throughJson]
  rw [found, ← next]

theorem filter_map_eq_self {α : Type} {items : List α} {read : α → α} {passes : α → Bool}
    (kept : ∀ item ∈ items, read item = item ∧ passes item = true) :
    (items.map read).filter passes = items := by
  rw [List.map_congr_left fun item member => (kept item member).1, List.map_id',
    List.filter_eq_self]
  exact fun item member => (kept item member).2

theorem View.Plain.names_read {view : View} (plain : view.Plain) :
    ((view.names.map Go.throughJson).filter fun name => decide (name ≠ [])) = view.names := by
  refine filter_map_eq_self fun name member => ?_
  obtain ⟨nonempty, valid⟩ := plain.names name member
  exact ⟨Go.throughJson_of_utf8Valid valid, decide_eq_true nonempty⟩

theorem View.Plain.custom_read {view : View} (plain : view.Plain) :
    ((view.custom.map fun custom =>
        (⟨Go.throughJson custom.name, Go.throughJson custom.value⟩ : CustomAttribute)).filter
      fun custom => Go.hasPrefix custom.name (bytes "x-") && decide (custom.value ≠ [])) =
      view.custom := by
  refine filter_map_eq_self fun custom member => ?_
  obtain ⟨starts, nameValid, nonempty, valid⟩ := plain.custom custom member
  rw [Go.throughJson_of_utf8Valid nameValid, Go.throughJson_of_utf8Valid valid, starts,
    decide_eq_true nonempty]
  exact ⟨rfl, rfl⟩

/-- The object after a change of its client attributes. -/
def ManagedObject.retouched (object changed : ManagedObject) (now : Time) : ManagedObject :=
  { object with
    names := changed.names
    contact := changed.contact
    custom := changed.custom
    extractable := changed.extractable
    lastChange := now }

theorem Tracked.attributes (tracked : Tracked server log) {changed : ManagedObject} {now : Time}
    (stored : server.objects.lookup changed.id = some object)
    (plain : (object.retouched changed now).view.Plain) :
    Tracked
      { server with
        objects := server.objects.set changed.id (object.retouched changed now) }
      (log ++ [⟨(attributesEvent changed).throughJson, time⟩]) := by
  refine tracked.rewrite stored rfl plain ?_
  intro restarted old next found same
  refine ⟨{ applyAttributes old
      ⟨changed.id, changed.names.map Go.throughJson, Go.throughJson changed.contact,
        changed.custom.map fun custom => ⟨Go.throughJson custom.name, Go.throughJson custom.value⟩,
        some changed.extractable⟩ with lastChange := time }, ?_, ?_⟩
  · have names := plain.names_read
    have custom := plain.custom_read
    have contact : Go.throughJson changed.contact = changed.contact :=
      Go.throughJson_of_utf8Valid plain.contact
    simp only [ManagedObject.retouched, ManagedObject.view] at names custom
    simp only [ManagedObject.view, View.mk.injEq] at same
    simp only [ManagedObject.view, applyAttributes, ManagedObject.retouched, names, custom, contact,
      same]
  · simp only [Server.apply, attributesEvent, Payload.throughJson]
    rw [found, ← next]

theorem keptText_of_textValue {requested : RequestedAttribute} {value : Bytes}
    (valid : ∀ text, textValue requested = .ok text → Go.utf8Valid text = true)
    (read : textValue requested = .ok value) :
    KeptText value := by
  refine ⟨?_, valid value read⟩
  unfold textValue at read
  split_ifs at read with _ refused
  rw [← Except.ok.inj read]
  intro empty
  exact refused (.inl (by rw [empty]; rfl))

/-- What a change of an attribute writes is kept by an event. -/
structure RequestedAttribute.Kept (requested : RequestedAttribute) : Prop where
  name : ∀ text, nameValue requested = .ok text → Go.utf8Valid text = true
  text : ∀ text, textValue requested = .ok text → Go.utf8Valid text = true
  custom : Go.hasPrefix requested.name (bytes "x-") = true → Go.utf8Valid requested.name = true

theorem keptText_of_nameValue {requested : RequestedAttribute} {value : Bytes}
    (kept : requested.Kept) (read : nameValue requested = .ok value) :
    KeptText value := by
  have valid := kept.name value read
  unfold nameValue at read
  split_ifs at read
  split at read
  · cases read
  · next node _ =>
      refine ⟨(keptText_of_textValue (fun text again => ?_) read).1, valid⟩
      rw [read] at again
      rwa [← Except.ok.inj again]

section Attribute

variable {object changed : ManagedObject} {operation : AttributeOperation}
  {requested : RequestedAttribute} {instanceValue : AttributeInstance}

theorem plain_changeName (plain : object.view.Plain) (kept : operation ≠ .delete → requested.Kept)
    (changes : changeName object operation requested = .ok (changed, instanceValue)) :
    changed.view.Plain := by
  unfold changeName at changes
  split at changes
  · cases changes
  cases operation with
  | add =>
      dsimp only at changes
      split at changes
      · cases changes
      · obtain ⟨value, read, changes⟩ := Result.bind_eq_ok.mp changes
        cases changes
        refine ⟨plain.symmetric, fun name member => ?_, plain.contact, plain.custom⟩
        rcases List.mem_append.mp member with earlier | last
        · exact plain.names name earlier
        · rw [List.mem_singleton.mp last]
          exact keptText_of_nameValue (kept (by decide)) read
  | modify =>
      obtain ⟨value, read, changes⟩ := Result.bind_eq_ok.mp changes
      cases changes
      refine ⟨plain.symmetric, fun name member => ?_, plain.contact, plain.custom⟩
      rcases List.mem_or_eq_of_mem_set member with earlier | rfl
      · exact plain.names name earlier
      · exact keptText_of_nameValue (kept (by decide)) read
  | delete =>
      cases changes
      exact ⟨plain.symmetric, fun name member => plain.names name (List.mem_of_mem_eraseIdx member),
        plain.contact, plain.custom⟩

theorem plain_changeContact (plain : object.view.Plain)
    (kept : operation ≠ .delete → requested.Kept)
    (changes : changeContact object operation requested = .ok (changed, instanceValue)) :
    changed.view.Plain := by
  unfold changeContact at changes
  split_ifs at changes with _ _ deletes
  · cases changes
    exact ⟨plain.symmetric, plain.names, rfl, plain.custom⟩
  · obtain ⟨value, read, changes⟩ := Result.bind_eq_ok.mp changes
    cases changes
    exact ⟨plain.symmetric, plain.names, (kept deletes).text value read, plain.custom⟩

theorem plain_changeCustom (plain : object.view.Plain) (kept : operation ≠ .delete → requested.Kept)
    (starts : Go.hasPrefix requested.name (bytes "x-") = true)
    (changes : changeCustom object operation requested = .ok (changed, instanceValue)) :
    changed.view.Plain := by
  unfold changeCustom at changes
  dsimp only at changes
  split_ifs at changes with _ _ _ _ deletes
  · cases changes
    exact ⟨plain.symmetric, plain.names, plain.contact,
      fun custom member => plain.custom custom (List.mem_of_mem_eraseIdx member)⟩
  · cases read : textValue requested with
    | error error =>
        rw [read] at changes
        cases changes
    | ok value =>
        have requestedKept := kept deletes
        have added : Go.hasPrefix requested.name (bytes "x-") = true ∧
            Go.utf8Valid requested.name = true ∧ KeptText value :=
          ⟨starts, requestedKept.custom starts, keptText_of_textValue requestedKept.text read⟩
        rw [read] at changes
        cases changes
        refine ⟨plain.symmetric, plain.names, plain.contact, ?_⟩
        cases customIndex object requested.name with
        | none =>
            intro custom member
            rcases List.mem_append.mp member with earlier | last
            · exact plain.custom custom earlier
            · rw [List.mem_singleton.mp last]
              exact added
        | some index =>
            intro custom member
            rcases List.mem_or_eq_of_mem_set member with earlier | rfl
            · exact plain.custom custom earlier
            · exact added

theorem plain_changeAttribute (plain : object.view.Plain)
    (kept : operation ≠ .delete → requested.Kept)
    (changes : changeAttribute object operation requested = .ok (changed, instanceValue)) :
    changed.view.Plain := by
  unfold changeAttribute at changes
  split_ifs at changes with _ _ _ _ _ starts
  · exact plain_changeName plain kept changes
  · exact plain_changeContact plain kept changes
  · unfold changeExtractable at changes
    split_ifs at changes
    cases value : booleanValue requested with
    | error error =>
        rw [value] at changes
        cases changes
    | ok extractable =>
        rw [value] at changes
        dsimp only at changes
        split_ifs at changes
        cases changes
        exact ⟨plain.symmetric, plain.names, plain.contact, plain.custom⟩
  · exact plain_changeCustom plain kept starts changes

end Attribute

end One

/-- No append fails, and neither a sealed key nor a public key is empty. -/
structure Fate.Whole (fate : Fate) : Prop where
  stored : ∀ place, (fate.appends place).1 = .stored
  sealedKey : ∀ key, fate.sealedKey = .ok key → key ≠ []
  publicKey : ∀ pair, fate.generated = .ok pair → pair.2 ≠ []

/-- What an operation writes is kept by its events: a created key is an AES key,
the names of a pair are valid and not empty, and so is the text of an attribute
that is added or modified. -/
def Operation.Kept : Operation → Prop
  | .create algorithm => algorithm = bytes "AES"
  | .createKeyPair spec => ∀ name ∈ spec.privateNames ++ spec.publicNames, KeptText name
  | .changeAttribute operation _ requested => operation ≠ .delete → requested.Kept
  | _ => True

section Operations

variable {server : Server} {log : List Event} {fate : Fate}

/-- What is in memory after an operation is the replay of the log after it. -/
def Outcome.Tracked (outcome : Outcome) : Prop :=
  Kmip.Tracked outcome.server outcome.log

theorem tracked_commit {plan : Except KmipError Change} (tracked : Tracked server log)
    (whole : fate.Whole)
    (tracks : ∀ change, plan = .ok change →
      Tracked change.after (log ++ [⟨change.payload.throughJson, (fate.appends 0).2⟩])) :
    (commit server log fate plan).Tracked := by
  cases plan with
  | error error => exact tracked
  | ok change =>
      unfold commit persistState
      rw [whole.stored 0]
      exact tracks change rfl

/-- What is read back of a key event. -/
def StateEvent.throughJson (event : StateEvent) : StateEvent :=
  { event with algorithm := Go.throughJson event.algorithm }

theorem identifier_ne_nil (number : Nat) : identifier number ≠ [] := by
  have length_eq : (bytes "kmip-").length = 5 := by decide +kernel
  intro empty
  have lengths := congrArg List.length empty
  rw [identifier, List.length_append, length_eq, List.length_nil] at lengths
  omega

theorem Server.renewed_of_fresh (server : Server) {type : KeyEvent} (fresh : type ≠ .rekeyed)
    (id : Bytes) (object : ManagedObject) :
    server.renewed type id object = object := by
  unfold Server.renewed
  cases server.objects.lookup id with
  | none => rfl
  | some old => exact if_neg fresh

theorem apply_key {restarted : Server} {type : KeyEvent} {payload : StateEvent} {time : Time}
    {object : ManagedObject} {number : Nat} (named : payload.id = identifier number)
    (replayed : replayedObject payload time = .ok object) :
    restarted.apply ⟨.key type payload, time⟩ =
      .ok ⟨restarted.objects.set payload.id (restarted.renewed type payload.id object),
        max restarted.n number⟩ := by
  unfold Server.apply
  dsimp only
  rw [replayed]
  simp only [Server.observeNumericID, named, numericID_identifier, Option.getD_some]
  rfl

theorem throughJson_aes : Go.throughJson (bytes "AES") = bytes "AES" := by
  decide +kernel

theorem replayedObject_symmetric (object : ManagedObject) {number : Nat} {key : Bytes}
    (symmetric : object.type = .symmetricKey) (aes : object.algorithm = bytes "AES")
    (named : object.id = identifier number) (version : 1 ≤ object.version) (nonempty : key ≠ [])
    (time : Time) :
    ∃ result, replayedObject (stateEventFor object key).throughJson time = .ok result ∧
      result.view = ⟨object.id, .symmetricKey, bytes "AES", 256, .active, object.version, 0, [], [],
        [], [], key⟩ := by
  have numbered : ¬ object.version < 1 := by omega
  have accepted : ¬ ((object.id = [] ∨ object.version < 1) ∨ bytes "AES" ≠ bytes "AES" ∨
      key = []) := by
    simp [named, identifier_ne_nil, numbered, nonempty]
  unfold replayedObject StateEvent.throughJson stateEventFor
  dsimp only
  rw [if_pos symmetric, aes, throughJson_aes]
  dsimp only
  rw [if_neg accepted]
  exact ⟨_, rfl, rfl⟩

section Whole

variable (tracked : Tracked server log) (whole : fate.Whole)

include tracked whole

theorem tracked_addSymmetricKey {type : KeyEvent} (fresh : type ≠ .rekeyed) :
    (commit server log fate (addSymmetricKey server fate type (bytes "AES"))).Tracked := by
  refine tracked_commit tracked whole fun change planned => ?_
  unfold addSymmetricKey at planned
  dsimp only at planned
  cases sealedKey : fate.sealedKey with
  | error cause =>
      rw [sealedKey] at planned
      cases planned
  | ok key =>
      rw [sealedKey] at planned
      cases planned
      refine tracked.append rfl rfl le_rfl (Nat.le_succ _) ?_ ?_
      · exact ⟨fun _ => ⟨rfl, rfl, rfl, rfl⟩, List.forall_mem_nil _, rfl, List.forall_mem_nil _⟩
      · intro restarted restores
        obtain ⟨result, replayed, view_eq⟩ := replayedObject_symmetric
          (unsealedKey server fate (bytes "AES")) rfl rfl rfl le_rfl
          (whole.sealedKey key sealedKey) (fate.appends 0).2
        refine ⟨result, view_eq, (apply_key rfl replayed).trans ?_⟩
        rw [restores.next, max_eq_right (Nat.le_succ _), Server.renewed_of_fresh _ fresh]
        rfl

theorem tracked_activate (id : Bytes) :
    (commit server log fate (activate server fate id)).Tracked := by
  refine tracked_commit tracked whole fun change planned => ?_
  unfold activate at planned
  obtain ⟨object, stored, planned⟩ := stored_of_planned planned
  split_ifs at planned
  cases planned
  refine tracked.lifecycle stored rfl (fun old same => ?_) fun plain =>
    ⟨plain.symmetric, plain.names, plain.contact, plain.custom⟩
  simp only [ManagedObject.view, View.mk.injEq] at same
  simp only [ManagedObject.view, replayLifecycle, same]

theorem tracked_transition (id : Bytes)
    {target : ObjectState} (revokes : target = .revoked ∨ target = .compromised) :
    (commit server log fate (transition server fate id target)).Tracked := by
  refine tracked_commit tracked whole fun change planned => ?_
  unfold transition at planned
  obtain ⟨object, stored, planned⟩ := stored_of_planned planned
  split_ifs at planned
  cases planned
  refine tracked.lifecycle stored rfl (fun old same => ?_) fun plain =>
    ⟨plain.symmetric, plain.names, plain.contact, plain.custom⟩
  simp only [ManagedObject.view, View.mk.injEq] at same
  rcases revokes with rfl | rfl
  · simp [ManagedObject.view, replayLifecycle, same]
  · simp [ManagedObject.view, replayLifecycle, same]

theorem tracked_destroy (id : Bytes) :
    (commit server log fate (destroy server fate id)).Tracked := by
  refine tracked_commit tracked whole fun change planned => ?_
  unfold destroy at planned
  obtain ⟨object, stored, planned⟩ := stored_of_planned planned
  cases planned
  refine tracked.lifecycle stored rfl (fun old same => ?_) fun plain =>
    ⟨plain.symmetric, plain.names, plain.contact, plain.custom⟩
  simp only [ManagedObject.view, View.mk.injEq] at same
  simp only [ManagedObject.view, replayLifecycle, same]

theorem tracked_setAttribute
    {operation : AttributeOperation} (id : Bytes) {requested : RequestedAttribute}
    (kept : operation ≠ .delete → requested.Kept) :
    (commit server log fate (setAttribute server fate operation id requested)).Tracked := by
  refine tracked_commit tracked whole fun change planned => ?_
  unfold setAttribute at planned
  obtain ⟨object, stored, planned⟩ := stored_of_planned planned
  split_ifs at planned
  cases changes : changeAttribute object operation requested with
  | error error =>
      rw [changes] at planned
      cases planned
  | ok result =>
      obtain ⟨changed, instanceValue⟩ := result
      rw [changes] at planned
      cases planned
      have before := tracked.plain id object stored
      have after := plain_changeAttribute before kept changes
      obtain ⟨own, -⟩ := retouches_changeAttribute changes
      obtain rfl : changed.id = id := own.trans (tracked.numbered id object stored).1
      exact tracked.attributes stored
        ⟨before.symmetric, after.names, after.contact, after.custom⟩

theorem tracked_reKey (id : Bytes) :
    (commit server log fate (reKey server fate id)).Tracked := by
  refine tracked_commit tracked whole fun change planned => ?_
  unfold reKey at planned
  cases generated : fate.generated with
  | error cause =>
      rw [generated] at planned
      cases planned
  | ok material =>
  rw [generated] at planned
  obtain ⟨object, stored, planned⟩ := stored_of_planned planned
  split_ifs at planned with refused
  rw [not_or, not_not] at refused
  have isActive : object.state = .active := by simpa [ObjectState.canReKey] using refused.1
  cases sealedKey : fate.sealedKey with
  | error cause =>
      rw [sealedKey] at planned
      cases planned
  | ok key =>
  rw [sealedKey] at planned
  cases planned
  have plain := tracked.plain id object stored
  obtain ⟨aes, length, usageMask, link⟩ := plain.symmetric refused.2
  obtain ⟨itself, number, named, used⟩ := tracked.numbered id object stored
  refine tracked.rewrite stored rfl ⟨plain.symmetric, plain.names, plain.contact, plain.custom⟩ ?_
  intro restarted old next found same
  obtain ⟨result, replayed, view_eq⟩ := replayedObject_symmetric (renewedKey object) rfl aes
    (itself.trans named) (Nat.le_add_left 1 _) (whole.sealedKey key sealedKey) (fate.appends 0).2
  have event_id : (stateEventFor (renewedKey object) key).id = id :=
    (id_stateEventFor (renewedKey object) key).trans itself
  have applied := @apply_key restarted .rekeyed (stateEventFor (renewedKey object) key).throughJson
    (fate.appends 0).2 result number (event_id.trans named) replayed
  have renewed_eq : restarted.renewed .rekeyed id result =
      { result with
        initial := old.initial, activated := old.activated, names := old.names
        contact := old.contact, custom := old.custom } := by
    unfold Server.renewed
    rw [found]
    exact if_pos rfl
  refine ⟨restarted.renewed .rekeyed id result, ?_, applied.trans ?_⟩
  · rw [renewed_eq]
    simp only [ManagedObject.view, View.mk.injEq] at same view_eq aes length usageMask link ⊢
    simp only [view_eq, same, isActive, refused.2, aes, length, usageMask, link, renewedKey,
      and_self]
  · change Except.ok (⟨restarted.objects.set (stateEventFor (renewedKey object) key).id
      (restarted.renewed .rekeyed (stateEventFor (renewedKey object) key).id result), _⟩ :
      Server) = _
    rw [next, event_id, max_eq_left used]

end Whole

theorem throughJson_of_keyPairAlgorithm {algorithm : Bytes} {length : Int}
    (accepted : keyPairAlgorithm algorithm length = .ok ()) :
    Go.throughJson algorithm = algorithm := by
  unfold keyPairAlgorithm at accepted
  split at accepted
  · next known =>
      rcases known with ⟨rfl, -⟩ | ⟨rfl, -⟩
      · decide +kernel
      · decide +kernel
  · cases accepted

theorem replayedObject_half (object : ManagedObject) {number : Nat} {key : Bytes}
    (half : object.type = .privateKey ∧ key ≠ [] ∨
      object.type = .publicKey ∧ object.publicDER ≠ [])
    (named : object.id = identifier number)
    (linked : object.link ≠ [])
    (version : 1 ≤ object.version)
    (paired : keyPairAlgorithm object.algorithm object.length = .ok ())
    (unnamed : object.names = [] ∧ object.contact = [] ∧ object.custom = [])
    (time : Time) :
    ∃ result, replayedObject (stateEventFor object key).throughJson time = .ok result ∧
      result.view = { object.view with sealedKey := key } := by
  have numbered : ¬ object.version < 1 := by omega
  have identified : object.id ≠ [] := by
    rw [named]
    exact identifier_ne_nil number
  have kept := throughJson_of_keyPairAlgorithm paired
  unfold replayedObject StateEvent.throughJson stateEventFor
  rcases half with ⟨type, nonempty⟩ | ⟨type, nonempty⟩
  · simp [type, identified, numbered, nonempty, linked, kept, paired, ManagedObject.view,
      unnamed, Except.isOk, Except.toBool]
  · simp [type, identified, numbered, nonempty, linked, kept, paired, ManagedObject.view,
      unnamed, Except.isOk, Except.toBool]

variable (tracked : Tracked server log)

include tracked

theorem Tracked.addHalf {object : ManagedObject} {key : Bytes} {time : Time}
    (half : object.type = .privateKey ∧ key ≠ [] ∨
      object.type = .publicKey ∧ object.publicDER ≠ [] ∧ key = [])
    (named : object.id = identifier (server.n + 1))
    (linked : object.link ≠ [])
    (version : object.version = 1)
    (paired : keyPairAlgorithm object.algorithm object.length = .ok ())
    (unnamed : object.names = [] ∧ object.contact = [] ∧ object.custom = []) :
    Tracked ⟨server.objects.set object.id { object with sealedKey := key }, server.n + 1⟩
      (log ++ [⟨(Payload.key .created (stateEventFor object key)).throughJson, time⟩]) := by
  have asymmetric : object.type ≠ .symmetricKey := by
    rcases half with ⟨type, -⟩ | ⟨type, -⟩
    · rw [type]
      decide
    · rw [type]
      decide
  refine tracked.append rfl named le_rfl (Nat.le_succ _) ?_ ?_
  · refine ⟨fun symmetric => absurd symmetric asymmetric, ?_, ?_, ?_⟩
    · simp [ManagedObject.view, unnamed]
    · simp only [ManagedObject.view, unnamed]
      rfl
    · simp [ManagedObject.view, unnamed]
  · intro restarted restores
    obtain ⟨result, replayed, view_eq⟩ := replayedObject_half object
      (half.imp_right fun isPublic => ⟨isPublic.1, isPublic.2.1⟩) named linked version.ge paired
      unnamed time
    have event_id := id_stateEventFor object key
    have applied := @apply_key restarted .created (stateEventFor object key).throughJson time result
      (server.n + 1) (event_id.trans named) replayed
    refine ⟨result, view_eq, applied.trans ?_⟩
    change Except.ok (⟨restarted.objects.set (stateEventFor object key).id _,
      max restarted.n (server.n + 1)⟩ : Server) = _
    rw [restores.next, max_eq_right (Nat.le_succ _), event_id,
      Server.renewed_of_fresh _ (by decide)]

theorem tracked_nameHalf {outcome : AppendOutcome × Time}
    (appended : outcome.1 = .stored) {half : ManagedObject}
    (stored : server.objects.lookup half.id = some half) {names : List Bytes}
    (kept : ∀ name ∈ names, KeptText name) :
    Tracked (nameHalf server log outcome half names).1
        (nameHalf server log outcome half names).2.1 ∧
      (nameHalf server log outcome half names).2.2 = none := by
  unfold nameHalf
  split
  · exact ⟨tracked, rfl⟩
  · unfold persistState
    rw [appended]
    have plain := tracked.plain half.id half stored
    have attributes := @Tracked.attributes server log outcome.2 half tracked
      { half with names := names } half.lastChange stored
      ⟨plain.symmetric, kept, plain.contact, plain.custom⟩
    exact ⟨attributes, rfl⟩

theorem tracked_nameHalves (whole : fate.Whole)
    {spec : KeyPairSpec} {privateKey publicKey : ManagedObject}
    (privateStored : server.objects.lookup privateKey.id = some privateKey)
    (publicStored : server.objects.lookup publicKey.id = some publicKey)
    (different : publicKey.id ≠ privateKey.id)
    (kept : ∀ name ∈ spec.privateNames ++ spec.publicNames, KeptText name) :
    (nameHalves server log fate spec privateKey publicKey).Tracked := by
  have first := tracked_nameHalf tracked (whole.stored 2) privateStored
    fun name member => kept name (List.mem_append_left _ member)
  have publicKept : (nameHalf server log (fate.appends 2) privateKey
      spec.privateNames).1.objects.lookup publicKey.id = some publicKey :=
    (lookup_nameHalf_of_ne different _ _).trans publicStored
  unfold nameHalves
  generalize nameHalf server log (fate.appends 2) privateKey spec.privateNames = named
    at first publicKept ⊢
  obtain ⟨named, namedLog, failure⟩ := named
  obtain ⟨namedTracked, rfl⟩ := first
  have second := tracked_nameHalf namedTracked (whole.stored 3) publicKept
    fun name member => kept name (List.mem_append_right _ member)
  dsimp only at second ⊢
  generalize nameHalf named namedLog (fate.appends 3) publicKey spec.publicNames = both
    at second ⊢
  obtain ⟨both, bothLog, failure⟩ := both
  obtain ⟨bothTracked, rfl⟩ := second
  exact bothTracked

theorem tracked_createKeyPair (whole : fate.Whole)
    {spec : KeyPairSpec} (kept : ∀ name ∈ spec.privateNames ++ spec.publicNames, KeptText name) :
    (createKeyPair server log fate spec).Tracked := by
  unfold createKeyPair
  cases paired : keyPairAlgorithm spec.algorithm spec.length with
  | error error => exact tracked
  | ok _ =>
  cases generated : fate.generated with
  | error cause => exact tracked
  | ok pair =>
  cases sealedKey : fate.sealedKey with
  | error cause => exact tracked
  | ok key =>
  have first := @Tracked.addHalf server log tracked (privateHalf server fate spec) key
    (fate.appends 0).2 (.inl ⟨rfl, whole.sealedKey key sealedKey⟩) rfl (identifier_ne_nil _) rfl
    paired ⟨rfl, rfl, rfl⟩
  have second := @Tracked.addHalf _ _ first (publicHalf server fate spec pair.2) []
    (fate.appends 1).2 (.inr ⟨rfl, whole.publicKey pair generated, rfl⟩) rfl (identifier_ne_nil _)
    rfl paired ⟨rfl, rfl, rfl⟩
  have different : (publicHalf server fate spec pair.2).id ≠ (privateHalf server fate spec).id := by
    intro same
    have numbers := identifier_injective same
    omega
  simp only [persistState, whole.stored 0, recordPublicHalf, whole.stored 1]
  refine tracked_nameHalves second whole ?_ ?_ different kept
  · dsimp only
    rw [MapOf.lookup_set, if_neg different.symm, MapOf.lookup_set, if_pos rfl]
  · dsimp only
    rw [MapOf.lookup_set, if_pos rfl]
    rfl

/-- An operation whose events are stored and keep what it writes leaves memory and
log in step. -/
theorem tracked_perform {operation : Operation} (whole : fate.Whole) (kept : operation.Kept) :
    (perform server log fate operation).Tracked := by
  unfold perform
  cases fate.refusal with
  | some error => exact tracked
  | none =>
      cases operation with
      | create algorithm =>
          obtain rfl : algorithm = bytes "AES" := kept
          dsimp only [create]
          cases fate.generated with
          | error cause => exact tracked
          | ok material => exact tracked_addSymmetricKey tracked whole (by decide)
      | register algorithm key =>
          dsimp only [register]
          split
          · exact tracked
          · next accepted =>
              obtain rfl : algorithm = bytes "AES" := not_not.mp fun other => accepted (.inl other)
              exact tracked_addSymmetricKey tracked whole (by decide)
      | createKeyPair spec => exact tracked_createKeyPair tracked whole kept
      | activate id => exact tracked_activate tracked whole id
      | reKey id => exact tracked_reKey tracked whole id
      | revoke id => exact tracked_transition tracked whole id (.inl rfl)
      | revokeCompromised id => exact tracked_transition tracked whole id (.inr rfl)
      | destroy id => exact tracked_destroy tracked whole id
      | changeAttribute operation id requested =>
          exact tracked_setAttribute tracked whole id kept

end Operations

/-- No append fails in a step, and what the ciphers return is not empty. -/
def Step.Whole : Step → Prop
  | .perform _ fate => fate.Whole
  | .restart => True

def Step.Sealed : Step → Prop
  | .perform _ fate => ∃ key, fate.sealedKey = .ok key
  | .restart => True

/-- What a step writes is kept by its events. -/
def Step.Kept : Step → Prop
  | .perform operation _ => operation.Kept
  | .restart => True

/-- There is a server, and it is the replay of the log. -/
def World.Tracked (world : World) : Prop :=
  ∃ server, world.server = some server ∧ Kmip.Tracked server world.log

theorem World.tracked_new : World.new.Tracked := by
  refine ⟨Server.new, rfl, ?_, ?_, Server.new, rfl, fun _ => rfl, rfl⟩
  · intro id object stored
    cases stored
  · intro id object stored
    cases stored

theorem Tracked.restarted {server restarted : Server} {log : List Event}
    (tracked : Tracked server log) (read : replay log = .ok restarted)
    (restores : Restores server restarted) :
    Tracked restarted log := by
  have earlier {id : Bytes} {object : ManagedObject}
      (stored : restarted.objects.lookup id = some object) :
      ∃ old, server.objects.lookup id = some old ∧ old.view = object.view := by
    have same := restores.objects id
    rw [stored, Option.map_some, eq_comm, Option.map_eq_some_iff] at same
    exact same
  refine ⟨fun id object stored => ?_, fun id object stored => ?_, restarted, read, fun _ => rfl,
    rfl⟩
  · obtain ⟨old, found, same⟩ := earlier stored
    rw [restores.next, ← show old.id = object.id from congrArg View.id same]
    exact tracked.numbered id old found
  · obtain ⟨old, found, same⟩ := earlier stored
    rw [← same]
    exact tracked.plain id old found

theorem World.Tracked.step {world : World} {next : Step} (tracked : world.Tracked)
    (whole : next.Whole) (kept : next.Kept) :
    (world.step next).Tracked := by
  obtain ⟨server, running, tracked⟩ := tracked
  cases next with
  | perform operation fate =>
      unfold World.step
      rw [running]
      exact ⟨_, rfl, tracked_perform tracked whole kept⟩
  | restart =>
      obtain ⟨restarted, read, restores⟩ := tracked.restored
      refine ⟨restarted, ?_, tracked.restarted read restores⟩
      unfold World.step
      rw [read]
      rfl

theorem World.Tracked.run {world : World} (tracked : world.Tracked) (steps : List Step)
    (whole : ∀ step ∈ steps, step.Whole) (kept : ∀ step ∈ steps, step.Kept) :
    (world.run steps).Tracked := by
  induction steps generalizing world with
  | nil => exact tracked
  | cons next rest ih =>
      obtain ⟨nextWhole, restWhole⟩ := List.forall_mem_cons.mp whole
      obtain ⟨nextKept, restKept⟩ := List.forall_mem_cons.mp kept
      exact ih (tracked.step nextWhole nextKept) restWhole restKept

/-- After every run of operations and restarts in which no append fails and whose
events keep what is written, a replay of the log gives the server in memory. -/
theorem replay_restores_server
    (steps : List Step)
    (whole : ∀ step ∈ steps, step.Whole)
    (kept : ∀ step ∈ steps, step.Kept) :
    ∃ server restarted, (World.new.run steps).server = some server ∧
      replay (World.new.run steps).log = .ok restarted ∧ Restores server restarted := by
  obtain ⟨server, running, tracked⟩ := World.tracked_new.run steps whole kept
  obtain ⟨restarted, read, restores⟩ := tracked.restored
  exact ⟨server, restarted, running, read, restores⟩

theorem unfailingFate_whole : unfailingFate.Whole where
  stored _ := rfl
  sealedKey key sealed := by
    cases sealed
    decide
  publicKey pair generated := by
    cases generated
    decide

/-- The request that sets a custom attribute. -/
def noteWith (text : Bytes) : RequestedAttribute where
  name := bytes "x-note"
  index := 0
  value := .node 0x42000B Ttlv.ttlvTextString text.length.toUInt32 text []

/-- A key is created, gets a custom attribute and is renewed. -/
def notedKey (text : Bytes) : List Step :=
  [.perform (.create (bytes "AES")) unfailingFate,
    .perform (.changeAttribute .add (identifier 1) (noteWith text)) unfailingFate,
    .perform (.reKey (identifier 1)) unfailingFate]

theorem notedKey_whole (text : Bytes) : ∀ step ∈ notedKey text, step.Whole ∧ step.Sealed := by
  intro step member
  simp only [notedKey, List.mem_cons, List.not_mem_nil, or_false] at member
  rcases member with rfl | rfl | rfl
  · exact ⟨unfailingFate_whole, [3], rfl⟩
  · exact ⟨unfailingFate_whole, [3], rfl⟩
  · exact ⟨unfailingFate_whole, [3], rfl⟩

/-- The key and what was noted of it come back from the log. -/
theorem replay_restores_notedKey :
    ∃ server restarted, (World.new.run (notedKey (bytes "disk"))).server = some server ∧
      replay (World.new.run (notedKey (bytes "disk"))).log = .ok restarted ∧
      Restores server restarted := by
  refine replay_restores_server (notedKey (bytes "disk"))
    (fun step member => (notedKey_whole _ step member).1) ?_
  intro step member
  simp only [notedKey, List.mem_cons, List.not_mem_nil, or_false] at member
  rcases member with rfl | rfl | rfl
  · rfl
  · intro _
    refine ⟨fun text read => ?_, fun text read => ?_, fun _ => by decide +kernel⟩
    · cases read
    · have value : text = bytes "disk" := (Except.ok.inj read).symm
      rw [value]
      decide +kernel
  · trivial

/-- A byte that is no valid UTF-8 comes back as U+FFFD. -/
theorem replay_loses_invalid_text :
    ¬ ∀ steps : List Step, (∀ step ∈ steps, step.Whole ∧ step.Sealed) →
      ∃ server restarted, (World.new.run steps).server = some server ∧
        replay (World.new.run steps).log = .ok restarted ∧ Restores server restarted := by
  intro restores
  obtain ⟨server, restarted, running, read, same⟩ := restores (notedKey [0xFF]) (notedKey_whole _)
  obtain rfl := Option.some.inj running
  obtain rfl := Except.ok.inj read
  have views := same.objects (identifier 1)
  revert views
  decide +kernel

end Trstctl.Kmip
