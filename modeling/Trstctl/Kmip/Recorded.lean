import Trstctl.Kmip.Server

/-!
# What the log records of the objects in memory

The events of an operation change one object each, in memory and in a replay.
Identifiers are never used twice for objects in memory, and every object in
memory is in the replay of the log.
-/

namespace Trstctl.Kmip

open Go (Bytes Time bytes MapOf)

theorem numericID_identifier (number : Nat) : numericID (identifier number) = some number := by
  have starts : Go.hasPrefix (identifier number) (bytes "kmip-") = true := by
    rw [Go.hasPrefix_iff]
    exact List.prefix_append _ _
  have rest : (identifier number).drop 5 = Go.decimal number := by
    have length_eq : (bytes "kmip-").length = 5 := by decide +kernel
    rw [← length_eq]
    exact List.drop_left
  rw [numericID, if_pos starts, rest, Go.parseDigits_decimal]

theorem identifier_injective {first second : Nat} (same : identifier first = identifier second) :
    first = second := by
  have numbers := congrArg numericID same
  rw [numericID_identifier, numericID_identifier] at numbers
  exact Option.some.inj numbers

/-- Every object is under its own identifier, whose number has been used. -/
def Server.Numbered (server : Server) : Prop :=
  ∀ id object, server.objects.lookup id = some object →
    object.id = id ∧ ∃ number, id = identifier number ∧ number ≤ server.n

/-- The object that an event is about. -/
def Payload.id : Payload → Bytes
  | .key _ payload => payload.id
  | .lifecycle _ id _ _ => id
  | .attributes payload => payload.id

@[simp]
theorem Payload.id_throughJson (payload : Payload) : payload.throughJson.id = payload.id := by
  cases payload <;> rfl

theorem Server.renewed_fields (server : Server) (type : KeyEvent) (id : Bytes)
    (object : ManagedObject) :
    (server.renewed type id object).id = object.id ∧
      (server.renewed type id object).state = object.state ∧
      (server.renewed type id object).extractable = object.extractable := by
  unfold Server.renewed
  cases server.objects.lookup id with
  | none => exact ⟨rfl, rfl, rfl⟩
  | some old =>
      dsimp only
      split_ifs <;> exact ⟨rfl, rfl, rfl⟩

/-- The object under an event's identifier after the event. -/
inductive Rewrites (server : Server) (time : Time) : Payload → ManagedObject → Prop where
  | key
      (type : KeyEvent)
      (payload : StateEvent)
      (object : ManagedObject)
      (replayed : replayedObject payload time = .ok object) :
      Rewrites server time (.key type payload) (server.renewed type payload.id object)
  | lifecycle
      (type : LifecycleEvent)
      (id : Bytes)
      (state : ObjectState)
      (version : Nat)
      (object : ManagedObject)
      (stored : server.objects.lookup id = some object) :
      Rewrites server time (.lifecycle type id state version)
        (replayLifecycle object type state time)
  | attributes
      (payload : AttributesEvent)
      (object : ManagedObject)
      (stored : server.objects.lookup payload.id = some object) :
      Rewrites server time (.attributes payload)
        { applyAttributes object payload with lastChange := time }

/-- The last number used after an event. -/
def Server.counted (server : Server) : Payload → Nat
  | .key _ payload => max server.n ((numericID payload.id).getD 0)
  | _ => server.n

theorem apply_eq_ok {server after : Server} {event : Event}
    (applied : server.apply event = .ok after) :
    ∃ object, Rewrites server event.time event.payload object ∧
      after = ⟨server.objects.set event.payload.id object, server.counted event.payload⟩ := by
  obtain ⟨payload, time⟩ := event
  unfold Server.apply at applied
  dsimp only at applied
  cases payload with
  | key type payload =>
      dsimp only at applied
      cases replayed : replayedObject payload time with
      | error error =>
          rw [replayed] at applied
          cases applied
      | ok object =>
          rw [replayed] at applied
          cases applied
          exact ⟨server.renewed type payload.id object, .key type payload object replayed, rfl⟩
  | lifecycle type id state version =>
      dsimp only at applied
      cases stored : server.objects.lookup id with
      | none =>
          rw [stored] at applied
          cases applied
      | some object =>
          rw [stored] at applied
          cases applied
          exact ⟨_, .lifecycle type id state version object stored, rfl⟩
  | attributes payload =>
      dsimp only at applied
      cases stored : server.objects.lookup payload.id with
      | none =>
          rw [stored] at applied
          cases applied
      | some object =>
          rw [stored] at applied
          cases applied
          exact ⟨_, .attributes payload object stored, rfl⟩

variable {object : ManagedObject}

theorem replayedObject_id {payload : StateEvent} {time : Time}
    (replayed : replayedObject payload time = .ok object) :
    object.id = payload.id := by
  unfold replayedObject at replayed
  dsimp only at replayed
  split at replayed <;> split_ifs at replayed <;> cases replayed <;> rfl

section Apply

variable {server after : Server} {event : Event} {id : Bytes}

theorem lookup_apply_of_ne (applied : server.apply event = .ok after)
    (different : id ≠ event.payload.id) :
    after.objects.lookup id = server.objects.lookup id := by
  obtain ⟨object, _, rfl⟩ := apply_eq_ok applied
  rw [MapOf.lookup_set, if_neg different]

theorem exists_lookup_apply (applied : server.apply event = .ok after) :
    ∃ object, Rewrites server event.time event.payload object ∧
      after.objects.lookup event.payload.id = some object := by
  obtain ⟨object, rewrites, rfl⟩ := apply_eq_ok applied
  refine ⟨object, rewrites, ?_⟩
  rw [MapOf.lookup_set, if_pos rfl]

theorem numbered_apply (numbered : server.Numbered)
    (named : ∃ number, event.payload.id = identifier number)
    (applied : server.apply event = .ok after) :
    after.Numbered := by
  obtain ⟨object, rewrites, rfl⟩ := apply_eq_ok applied
  have counts : server.n ≤ server.counted event.payload := by
    cases event.payload with
    | key type payload => exact le_max_left _ _
    | lifecycle type id state version => exact le_rfl
    | attributes payload => exact le_rfl
  intro id found stored
  rw [MapOf.lookup_set] at stored
  split_ifs at stored with same
  · cases stored
    obtain ⟨number, id_eq⟩ := named
    obtain ⟨payload, time⟩ := event
    dsimp only at *
    cases rewrites with
    | key type payload object replayed =>
        refine ⟨?_, number, same.trans id_eq, ?_⟩
        · rw [(server.renewed_fields type payload.id object).1, replayedObject_id replayed, same]
          rfl
        · change payload.id = identifier number at id_eq
          change number ≤ max server.n ((numericID payload.id).getD 0)
          rw [id_eq, numericID_identifier]
          exact le_max_right _ _
    | lifecycle type other state version old oldStored =>
        change id = other at same
        subst same
        obtain ⟨own, number, id_eq, used⟩ := numbered id old oldStored
        refine ⟨?_, number, id_eq, used⟩
        cases type <;> exact own
    | attributes payload old oldStored =>
        change id = payload.id at same
        subst same
        exact numbered payload.id old oldStored
  · obtain ⟨own, number, id_eq, used⟩ := numbered id found stored
    exact ⟨own, number, id_eq, used.trans counts⟩

end Apply

theorem replay_concat (log : List Event) (event : Event) :
    replay (log ++ [event]) = (replay log).bind fun server => server.apply event := by
  unfold replay
  rw [List.foldlM_append]
  simp only [List.foldlM_cons, List.foldlM_nil, bind_pure]
  rfl

theorem replay_concat_eq_ok {log : List Event} {event : Event} {replayed : Server}
    (read : replay (log ++ [event]) = .ok replayed) :
    ∃ before, replay log = .ok before ∧ before.apply event = .ok replayed := by
  rw [replay_concat] at read
  cases before : replay log with
  | error error =>
      rw [before] at read
      cases read
  | ok server =>
      rw [before] at read
      exact ⟨server, rfl, read⟩

/-- The state of an object, and whether it is extractable. -/
abbrev Marks := ObjectState × Bool

def ManagedObject.marks (object : ManagedObject) : Marks :=
  (object.state, object.extractable)

/-- The marks of an object after an event, given those before it. -/
def Payload.marks : Payload → Marks → Marks
  | .key _ payload, _ =>
      match payload.objectType with
      | .symmetricKey => (.active, true)
      | .privateKey => (payload.state, payload.extractable.getD false)
      | .publicKey => (payload.state, true)
  | .lifecycle .destroyed _ _ _, before => (.destroyed, before.2)
  | .lifecycle .activated _ _ _, before => (.active, before.2)
  | .lifecycle .revoked _ state _, before =>
      (if state = .compromised then .compromised else .revoked, before.2)
  | .attributes payload, before => (before.1, payload.extractable.getD before.2)

@[simp]
theorem Payload.marks_throughJson (payload : Payload) (before : Marks) :
    payload.throughJson.marks before = payload.marks before := by
  cases payload with
  | key type payload => rfl
  | lifecycle type id state version => rfl
  | attributes payload => rfl

theorem replayedObject_marks {payload : StateEvent} {time : Time}
    (replayed : replayedObject payload time = .ok object) (type : KeyEvent) (before : Marks) :
    object.marks = (Payload.key type payload).marks before := by
  unfold replayedObject at replayed
  unfold Payload.marks
  dsimp only at replayed ⊢
  split at replayed <;> rename_i objectType <;> split_ifs at replayed <;> cases replayed <;>
    rw [objectType] <;> rfl

theorem Rewrites.marks_eq {server : Server} {time : Time} {payload : Payload} {old : ManagedObject}
    (rewrites : Rewrites server time payload object)
    (stored : server.objects.lookup payload.id = some old) :
    object.marks = payload.marks old.marks := by
  cases rewrites with
  | key type payload object replayed =>
      rw [← replayedObject_marks replayed type old.marks]
      obtain ⟨_, state_eq, extractable_eq⟩ := server.renewed_fields type payload.id object
      unfold ManagedObject.marks
      rw [state_eq, extractable_eq]
  | lifecycle type id state version object found =>
      cases found.symm.trans stored
      cases type <;> rfl
  | attributes payload object found =>
      cases found.symm.trans stored
      rfl

theorem Rewrites.marks_key {server : Server} {time : Time} {type : KeyEvent} {payload : StateEvent}
    (rewrites : Rewrites server time (.key type payload) object) (before : Marks) :
    object.marks = (Payload.key type payload).marks before := by
  cases rewrites with
  | key type payload object replayed =>
      rw [← replayedObject_marks replayed type before]
      obtain ⟨_, state_eq, extractable_eq⟩ := server.renewed_fields type payload.id object
      unfold ManagedObject.marks
      rw [state_eq, extractable_eq]

/-- The objects in memory are numbered and present in the replay of the log, and
those with a property of their marks have it there too. -/
structure Recorded (property : Marks → Prop) (server : Server) (log : List Event) : Prop where
  numbered : server.Numbered
  replayNumbered : ∀ replayed, replay log = .ok replayed → replayed.Numbered
  present : ∀ replayed, replay log = .ok replayed → ∀ id object,
    server.objects.lookup id = some object →
      ∃ other, replayed.objects.lookup id = some other ∧
        (property object.marks → property other.marks)

section Recording

variable {property : Marks → Prop} {server : Server} {log : List Event} {payload : Payload}
  {time : Time}

section Grown

variable {object : ManagedObject} (recorded : Recorded property server log)

include recorded

theorem Recorded.appendFresh (named : ∃ number, payload.id = identifier number)
    (absent : server.objects.lookup payload.id = none) :
    Recorded property server (log ++ [⟨payload.throughJson, time⟩]) := by
  have named : ∃ number, payload.throughJson.id = identifier number := by
    rw [Payload.id_throughJson]
    exact named
  refine ⟨recorded.numbered, ?_, ?_⟩
  · intro replayed read
    obtain ⟨before, readBefore, applied⟩ := replay_concat_eq_ok read
    exact numbered_apply (recorded.replayNumbered before readBefore) named applied
  · intro replayed read id object stored
    obtain ⟨before, readBefore, applied⟩ := replay_concat_eq_ok read
    have different : id ≠ payload.throughJson.id := by
      rw [Payload.id_throughJson]
      rintro rfl
      rw [absent] at stored
      cases stored
    rw [lookup_apply_of_ne applied different]
    exact recorded.present before readBefore id object stored

/-- An event about an object in memory, which takes its place with the event. -/
theorem Recorded.appendOn {id : Bytes} {changed : ManagedObject}
    (stored : server.objects.lookup id = some object)
    (payload_id : payload.id = id) (own : changed.id = id)
    (keeps : ∀ other, (property object.marks → property other) → property changed.marks →
      property (payload.marks other)) :
    Recorded property { server with objects := server.objects.set id changed }
      (log ++ [⟨payload.throughJson, time⟩]) := by
  obtain ⟨own_eq, number, id_eq, used⟩ := recorded.numbered id object stored
  have named : ∃ number, payload.throughJson.id = identifier number := by
    rw [Payload.id_throughJson, payload_id]
    exact ⟨number, id_eq⟩
  refine ⟨?_, ?_, ?_⟩
  · intro other found foundStored
    rw [MapOf.lookup_set] at foundStored
    split_ifs at foundStored with same
    · cases foundStored
      rw [same]
      exact ⟨own, number, id_eq, used⟩
    · exact recorded.numbered other found foundStored
  · intro replayed read
    obtain ⟨before, readBefore, applied⟩ := replay_concat_eq_ok read
    exact numbered_apply (recorded.replayNumbered before readBefore) named applied
  · intro replayed read other found foundStored
    obtain ⟨before, readBefore, applied⟩ := replay_concat_eq_ok read
    rw [MapOf.lookup_set] at foundStored
    split_ifs at foundStored with same
    · cases foundStored
      obtain ⟨old, oldStored, mirrored⟩ := recorded.present before readBefore id object stored
      obtain ⟨result, rewrites, resultStored⟩ := exists_lookup_apply applied
      rw [Payload.id_throughJson, payload_id] at resultStored
      refine ⟨result, same ▸ resultStored, ?_⟩
      have marks_eq : result.marks = payload.throughJson.marks old.marks := by
        apply rewrites.marks_eq
        rw [Payload.id_throughJson, payload_id]
        exact oldStored
      rw [marks_eq, Payload.marks_throughJson]
      exact keeps old.marks mirrored
    · have different : other ≠ payload.throughJson.id := by
        rw [Payload.id_throughJson, payload_id]
        exact same
      rw [lookup_apply_of_ne applied different]
      exact recorded.present before readBefore other found foundStored

theorem Recorded.congr {same : Server}
    (lookup_eq : ∀ id, same.objects.lookup id = server.objects.lookup id)
    (counts : server.n ≤ same.n) :
    Recorded property same log := by
  refine ⟨?_, recorded.replayNumbered, ?_⟩
  · intro id object stored
    rw [lookup_eq] at stored
    obtain ⟨own, number, id_eq, used⟩ := recorded.numbered id object stored
    exact ⟨own, number, id_eq, used.trans counts⟩
  · intro replayed read id object stored
    rw [lookup_eq] at stored
    exact recorded.present replayed read id object stored

theorem Recorded.appendSame {id : Bytes}
    (stored : server.objects.lookup id = some object) (payload_id : payload.id = id)
    (keeps : ∀ other, (property object.marks → property other) → property object.marks →
      property (payload.marks other)) :
    Recorded property server (log ++ [⟨payload.throughJson, time⟩]) := by
  have rewritten : Recorded property { server with objects := server.objects.set id object }
      (log ++ [⟨payload.throughJson, time⟩]) :=
    recorded.appendOn stored payload_id (recorded.numbered id object stored).1 keeps
  refine rewritten.congr ?_ le_rfl
  intro other
  rw [MapOf.lookup_set]
  split_ifs with same
  · rw [same, stored]
  · rfl

theorem Recorded.replace {id : Bytes} {changed : ManagedObject}
    (stored : server.objects.lookup id = some object)
    (own : changed.id = id) (marks_eq : changed.marks = object.marks) :
    Recorded property { server with objects := server.objects.set id changed } log := by
  refine ⟨?_, recorded.replayNumbered, ?_⟩
  · intro other found foundStored
    rw [MapOf.lookup_set] at foundStored
    split_ifs at foundStored with same
    · cases foundStored
      rw [same]
      exact ⟨own, (recorded.numbered id object stored).2⟩
    · exact recorded.numbered other found foundStored
  · intro replayed read other found foundStored
    rw [MapOf.lookup_set] at foundStored
    split_ifs at foundStored with same
    · cases foundStored
      rw [same, marks_eq]
      exact recorded.present replayed read id object stored
    · exact recorded.present replayed read other found foundStored

theorem Recorded.add {type : KeyEvent} {event : StateEvent} {number count : Nat}
    (id_eq : event.id = identifier number)
    (own : object.id = event.id) (absent : server.objects.lookup event.id = none)
    (used : number ≤ count) (counts : server.n ≤ count)
    (marks_eq : ∀ before, (Payload.key type event).marks before = object.marks) :
    Recorded property ⟨server.objects.set event.id object, count⟩
      (log ++ [⟨(Payload.key type event).throughJson, time⟩]) := by
  have named : ∃ number, (Payload.key type event).id = identifier number := ⟨number, id_eq⟩
  have appended : Recorded property server
      (log ++ [⟨(Payload.key type event).throughJson, time⟩]) :=
    recorded.appendFresh named absent
  refine ⟨?_, appended.replayNumbered, ?_⟩
  · intro other found foundStored
    rw [MapOf.lookup_set] at foundStored
    split_ifs at foundStored with same
    · cases foundStored
      rw [same]
      exact ⟨own, number, id_eq, used⟩
    · obtain ⟨ownFound, foundNumber, found_eq, foundUsed⟩ :=
        recorded.numbered other found foundStored
      exact ⟨ownFound, foundNumber, found_eq, foundUsed.trans counts⟩
  · intro replayed read other found foundStored
    rw [MapOf.lookup_set] at foundStored
    split_ifs at foundStored with same
    · cases foundStored
      obtain ⟨before, readBefore, applied⟩ := replay_concat_eq_ok read
      obtain ⟨result, rewrites, resultStored⟩ := exists_lookup_apply applied
      rw [Payload.id_throughJson] at resultStored
      refine ⟨result, same ▸ resultStored, ?_⟩
      have resultMarks := rewrites.marks_key object.marks
      change result.marks = (Payload.key type event).throughJson.marks object.marks at resultMarks
      rw [resultMarks, Payload.marks_throughJson, marks_eq]
      exact id
    · exact appended.present replayed read other found foundStored

end Grown

variable {object : ManagedObject}

theorem Server.Numbered.absent {number : Nat} (numbered : server.Numbered)
    (unused : server.n < number) :
    server.objects.lookup (identifier number) = none := by
  cases stored : server.objects.lookup (identifier number) with
  | none => rfl
  | some object =>
      obtain ⟨_, other, id_eq, used⟩ := numbered (identifier number) object stored
      have same := identifier_injective id_eq
      omega

theorem persistState_of_lost {outcome : AppendOutcome × Time} (lost : outcome.1.stores = false)
    (log : List Event) (payload : Payload) :
    ∃ cause, persistState log payload outcome = (log, some cause) := by
  obtain ⟨result, time⟩ := outcome
  cases result with
  | stored => cases lost
  | lost cause => exact ⟨cause, rfl⟩
  | unacknowledged cause => cases lost

theorem persistState_cases (log : List Event) (payload : Payload) (outcome : AppendOutcome × Time) :
    persistState log payload outcome = (log ++ [⟨payload.throughJson, outcome.2⟩], none) ∨
      ∃ cause, persistState log payload outcome = (log, some cause) ∨
        persistState log payload outcome =
          (log ++ [⟨payload.throughJson, outcome.2⟩], some cause) := by
  unfold persistState
  cases outcome.1 with
  | stored => exact .inl rfl
  | lost cause => exact .inr ⟨cause, .inl rfl⟩
  | unacknowledged cause => exact .inr ⟨cause, .inr rfl⟩

end Recording

/-- A change of an object in memory and the event of it keep a property of the
marks. -/
structure Stable (property : Marks → Prop) (payload : Payload) (before after : Marks) :
    Prop where
  held : property before → property after
  replayed : ∀ other, (property before → property other) → property after →
    property (payload.marks other)

/-- An operation keeps a property of the objects in memory, and what is recorded. -/
structure Keeps (property : Marks → Prop) (server : Server) (outcome : Outcome) : Prop where
  recorded : Recorded property outcome.server outcome.log
  held : ∀ id object, server.objects.lookup id = some object → property object.marks →
    ∃ changed, outcome.server.objects.lookup id = some changed ∧ property changed.marks

section Keeping

variable {property : Marks → Prop} {server : Server} {log : List Event} {fate : Fate}

theorem keeps_refused (recorded : Recorded property server log) (error : KmipError) :
    Keeps property server ⟨server, log, .error error⟩ :=
  ⟨recorded, fun _ object stored holds => ⟨object, stored, holds⟩⟩

/-- A change of one object that waits for its event. -/
theorem keeps_commit_on {change : Change} {id : Bytes} {object changed : ManagedObject}
    (recorded : Recorded property server log) (stored : server.objects.lookup id = some object)
    (payload_id : change.payload.id = id) (own : changed.id = object.id)
    (after_eq : change.after = { server with objects := server.objects.set id changed })
    (stable : (fate.appends 0).1.stores = true →
      Stable property change.payload object.marks changed.marks) :
    Keeps property server (commit server log fate (.ok change)) := by
  have object_id := (recorded.numbered id object stored).1
  unfold commit
  dsimp only
  cases stores : (fate.appends 0).1.stores with
  | false =>
      obtain ⟨cause, failure⟩ := persistState_of_lost stores log change.payload
      rw [failure]
      exact keeps_refused recorded _
  | true =>
  have stable := stable stores
  rcases persistState_cases log change.payload (fate.appends 0) with
    success | ⟨cause, failure | failure⟩
  · rw [success]
    constructor
    · change Recorded property change.after _
      rw [after_eq]
      exact recorded.appendOn stored payload_id (own.trans object_id) stable.replayed
    · intro other found foundStored holds
      change ∃ changed, change.after.objects.lookup other = some changed ∧ _
      rw [after_eq, MapOf.lookup_set]
      split_ifs with same
      · subst same
        cases stored.symm.trans foundStored
        exact ⟨changed, rfl, stable.held holds⟩
      · exact ⟨found, foundStored, holds⟩
  · rw [failure]
    exact keeps_refused recorded _
  · rw [failure]
    refine keeps_refused ?_ _
    exact recorded.appendSame stored payload_id fun other mirrored holds =>
      stable.replayed other mirrored (stable.held holds)

theorem keeps_commit_add
    {change : Change} {type : KeyEvent} {event : StateEvent} {object : ManagedObject}
    (recorded : Recorded property server log) (payload_eq : change.payload = .key type event)
    (id_eq : event.id = identifier (server.n + 1)) (own : object.id = event.id)
    (after_eq : change.after = ⟨server.objects.set event.id object, server.n + 1⟩)
    (marks_eq : ∀ before, (Payload.key type event).marks before = object.marks) :
    Keeps property server (commit server log fate (.ok change)) := by
  have absent : server.objects.lookup event.id = none := by
    rw [id_eq]
    exact recorded.numbered.absent (by omega)
  unfold commit
  dsimp only
  rcases persistState_cases log change.payload (fate.appends 0) with
    success | ⟨cause, failure | failure⟩
  · rw [success, payload_eq]
    constructor
    · change Recorded property change.after _
      rw [after_eq]
      exact recorded.add id_eq own absent le_rfl (by omega) marks_eq
    · intro other found foundStored holds
      refine ⟨found, ?_, holds⟩
      change change.after.objects.lookup other = some found
      rw [after_eq, MapOf.lookup_set, if_neg]
      · exact foundStored
      · rintro rfl
        rw [absent] at foundStored
        cases foundStored
  · rw [failure]
    exact keeps_refused recorded _
  · have named : ∃ number, (Payload.key type event).id = identifier number :=
      ⟨server.n + 1, id_eq⟩
    rw [failure, payload_eq]
    exact keeps_refused (recorded.appendFresh named absent) _

end Keeping

end Trstctl.Kmip
