import Trstctl.Kmip.Operations

/-!
# Compromise is final

`RevokeCompromised` leaves an object in a state that no operation may use.  The
transitions refuse a destroyed object only, so a later `Revoke` makes the object
deactivated again, and a deactivated public key verifies.  In runs without such a
`Revoke` a compromised object stays unusable through every operation and restart.
-/

namespace Trstctl.Kmip

open Go (Bytes Time bytes)

/-- Compromised or destroyed. -/
def Closed (marks : Marks) : Prop :=
  marks.1 = .compromised ∨ marks.1 = .destroyed

theorem separable_closed : Separable Closed :=
  fun _ _ closed _ => closed

theorem not_closed {state : ObjectState} (usable : state ≠ .compromised ∧ state ≠ .destroyed)
    (extractable : Bool) :
    ¬ Closed (state, extractable) := by
  rintro (same | same)
  · exact usable.1 same
  · exact usable.2 same

/-- A `Revoke` of a compromised object whose event is stored. -/
def Reopens (world : World) : Step → Prop
  | .perform (.revoke id) fate =>
      fate.refusal = none ∧ (fate.appends 0).1.stores = true ∧
        ∃ object, world.object id = some object ∧ object.state = .compromised
  | _ => False

/-- Every other change keeps a closed object closed, in memory and in the log. -/
theorem stable_of_not_reopens (world : World) (next : Step) (kept : ¬ Reopens world next) :
    StableStep Closed world next := by
  cases next with
  | restart => exact trivial
  | perform operation fate =>
      intro server present accepted stores change id object changed changes
      have alters := changes.alters
      have payload_id := changes.payload_id
      generalize change.payload = payload at alters payload_id ⊢
      generalize before_eq : object.marks = before at alters ⊢
      generalize changed.marks = after at alters ⊢
      cases alters with
      | activate target version extractable =>
          exact ⟨fun closed => absurd closed (not_closed (by decide) extractable),
            fun _ _ closed => absurd closed (not_closed (by decide) extractable)⟩
      | reKey target event extractable event_id symmetric =>
          exact ⟨fun closed => absurd closed (not_closed (by decide) extractable),
            fun _ _ closed => absurd closed (not_closed (by decide) extractable)⟩
      | revoke target version before notDestroyed =>
          constructor
          · intro closed
            have compromised := closed.resolve_right notDestroyed
            rw [← before_eq] at compromised
            change target = id at payload_id
            subst payload_id
            refine absurd ⟨accepted, stores, object, ?_, compromised⟩ kept
            unfold World.object
            rw [present]
            exact changes.stored
          · exact fun _ _ closed => absurd closed (not_closed (by decide) _)
      | revokeCompromised target version before notDestroyed =>
          exact ⟨fun _ => .inl rfl, fun _ _ _ => .inl rfl⟩
      | destroy target version before =>
          exact ⟨fun _ => .inr rfl, fun _ _ _ => .inr rfl⟩
      | changeAttribute attributeOperation target requested event before extractable event_eq
          narrows =>
          exact ⟨fun closed => closed, fun _ mirrored closed => mirrored closed⟩

/-- A successful `RevokeCompromised` leaves the object compromised. -/
theorem holdsAt_revokeCompromised
    {world : World} {server : Server} {fate : Fate} {id : Bytes} {reply : Reply}
    (running : world.server = some server)
    (succeeded : (perform server world.log fate (.revokeCompromised id)).reply = .ok reply) :
    (world.step (.perform (.revokeCompromised id) fate)).HoldsAt Closed id := by
  intro after present
  unfold World.step at present
  rw [running] at present
  cases present
  unfold perform at succeeded ⊢
  cases accepted : fate.refusal with
  | some error =>
      rw [accepted] at succeeded
      cases succeeded
  | none =>
      rw [accepted] at succeeded
      dsimp only at succeeded ⊢
      cases planned : revokeCompromised server fate id with
      | error error =>
          rw [planned] at succeeded
          cases succeeded
      | ok change =>
          rw [planned] at succeeded
          obtain ⟨object, changed, changes⟩ :=
            changesOne_transition rfl (.revokeCompromised id) planned
          unfold commit at succeeded ⊢
          dsimp only at succeeded ⊢
          rcases persistState_cases world.log change.payload (fate.appends 0) with
            success | ⟨cause, failure | failure⟩
          · rw [success]
            refine ⟨changed, ?_, ?_⟩
            · change change.after.objects.lookup id = some changed
              rw [changes.after_eq, Go.MapOf.lookup_set, if_pos rfl]
            · have alters := changes.alters
              generalize change.payload = payload at alters
              generalize object.marks = before at alters
              generalize changed.marks = marks at alters ⊢
              cases alters
              exact .inl rfl
          · rw [failure] at succeeded
            cases succeeded
          · rw [failure] at succeeded
            cases succeeded

/-- In a run without a `Revoke` of a compromised object, an object once revoked
for compromise passes no state check again. -/
theorem compromised_stays_unusable
    (before later : List Step)
    (id : Bytes)
    (fate : Fate)
    (server : Server)
    (reply : Reply)
    (object : ManagedObject)
    (running : (World.new.run before).server = some server)
    (succeeded : (perform server (World.new.run before).log fate
      (.revokeCompromised id)).reply = .ok reply)
    (respected : World.new.EachStep (fun world next => ¬ Reopens world next)
      (before ++ .perform (.revokeCompromised id) fate :: later))
    (stored : (World.new.run
      (before ++ .perform (.revokeCompromised id) fate :: later)).object id = some object) :
    object.state.canSign = false ∧ object.state.canVerify = false ∧
      object.state.canGet = false ∧ object.state.canReKey = false := by
  obtain ⟨respectedBefore, respectedLater⟩ := (World.eachStep_append before _).mp respected
  have sound := (World.sound_new Closed).run separable_closed stable_of_not_reopens before
    respectedBefore
  have holds := (holdsAt_revokeCompromised running succeeded).run separable_closed
    stable_of_not_reopens
    (sound.step separable_closed (stable_of_not_reopens _ _ respectedLater.1)) later
    respectedLater.2
  rw [World.run_append] at stored
  obtain ⟨final, present, found⟩ := Option.bind_eq_some_iff.mp stored
  obtain ⟨kept, keptStored, closed⟩ := holds final present
  cases keptStored.symm.trans found
  change object.state = .compromised ∨ object.state = .destroyed at closed
  rcases closed with same | same
  · rw [same]
    decide
  · rw [same]
    decide

/-- An RSA pair without names. -/
def rsaPair : KeyPairSpec where
  algorithm := bytes "RSA"
  length := 2048
  privateMask := 0
  publicMask := 0
  privateNames := []
  publicNames := []
  privateExtractable := none

/-- The pair is created and its public half revoked for compromise. -/
theorem compromised_stays_unusable_restarted :
    ∃ object, (World.new.run ([.perform (.createKeyPair rsaPair) unfailingFate] ++
      .perform (.revokeCompromised (identifier 2)) unfailingFate :: [.restart])).object
        (identifier 2) = some object ∧
      object.state.canVerify = false := by
  refine ⟨_, rfl, ?_⟩
  have unusable := compromised_stays_unusable [.perform (.createKeyPair rsaPair) unfailingFate]
    [.restart] (identifier 2) unfailingFate _ .done _ rfl (by rfl)
    ⟨fun reopens => reopens, fun reopens => reopens, fun reopens => reopens, trivial⟩ rfl
  exact unusable.2.1

/-- The public half is revoked once more, and its state lets it verify again. -/
theorem compromised_key_verifies :
    ¬ ∀ (before later : List Step) (id : Bytes) (fate : Fate) (server : Server) (reply : Reply)
        (object : ManagedObject),
      (World.new.run before).server = some server →
      (perform server (World.new.run before).log fate (.revokeCompromised id)).reply =
        .ok reply →
      (World.new.run (before ++ .perform (.revokeCompromised id) fate :: later)).object id =
        some object →
      object.state.canVerify = false := by
  intro absorbs
  have unusable := absorbs [.perform (.createKeyPair rsaPair) unfailingFate]
    [.perform (.revoke (identifier 2)) unfailingFate] (identifier 2) unfailingFate _ .done _ rfl rfl
    rfl
  revert unusable
  decide +kernel

/-!
## Unextractable keys

A client makes a key unextractable and cannot take that back.  The event of a
`ReKey` does not say whether the key is extractable, and its replay makes the key
extractable again.  In runs without a `ReKey` of an unextractable key, such a key
stays unextractable through every operation and restart.
-/

/-- Not extractable. -/
def Unextractable (marks : Marks) : Prop :=
  marks.2 = false

theorem separable_unextractable : Separable Unextractable :=
  fun _ _ _ unextractable => unextractable

/-- A `ReKey` of an unextractable key that passes its checks and whose event is
stored. -/
def RenewsUnextractable (world : World) : Step → Prop
  | .perform (.reKey id) fate =>
      fate.refusal = none ∧ (fate.appends 0).1.stores = true ∧
        ∃ server change object, world.server = some server ∧
          reKey server fate id = .ok change ∧
          server.objects.lookup id = some object ∧ object.extractable = false
  | _ => False

/-- Every other change keeps an unextractable object unextractable, in memory and
in the log. -/
theorem stable_of_not_renews (world : World) (next : Step)
    (kept : ¬ RenewsUnextractable world next) :
    StableStep Unextractable world next := by
  cases next with
  | restart => exact trivial
  | perform operation fate =>
      intro server present accepted stores change id object changed changes
      have alters := changes.alters
      have payload_id := changes.payload_id
      generalize change.payload = payload at alters payload_id ⊢
      generalize before_eq : object.marks = before at alters ⊢
      generalize changed.marks = after at alters ⊢
      cases alters with
      | activate target version extractable =>
          exact ⟨fun unextractable => unextractable,
            fun _ mirrored unextractable => mirrored unextractable⟩
      | reKey target event extractable event_id symmetric =>
          have extractable_eq : extractable = true := by
            by_contra unextractable
            refine kept ⟨accepted, stores, server, change, object, present, ?_, ?_, ?_⟩
            · exact Option.some.inj changes.planned
            · rw [← event_id, show event.id = id from payload_id]
              exact changes.stored
            · rw [Bool.not_eq_true] at unextractable
              exact (congrArg Prod.snd before_eq).trans unextractable
          subst extractable_eq
          exact ⟨fun unextractable => unextractable,
            fun _ _ unextractable => by cases unextractable⟩
      | revoke target version before notDestroyed =>
          exact ⟨fun unextractable => unextractable,
            fun _ mirrored unextractable => mirrored unextractable⟩
      | revokeCompromised target version before notDestroyed =>
          exact ⟨fun unextractable => unextractable,
            fun _ mirrored unextractable => mirrored unextractable⟩
      | destroy target version before =>
          exact ⟨fun unextractable => unextractable,
            fun _ mirrored unextractable => mirrored unextractable⟩
      | changeAttribute attributeOperation target requested event before extractable event_eq
          narrows =>
          refine ⟨narrows, ?_⟩
          intro other _ unextractable
          change (event.extractable.getD other.2) = false
          rw [event_eq]
          exact unextractable

/-- In a run without a `ReKey` of an unextractable key, an object once
unextractable is unextractable in every later state. -/
theorem unextractable_stays
    (before later : List Step)
    (id : Bytes)
    (object final : ManagedObject)
    (respected : World.new.EachStep (fun world next => ¬ RenewsUnextractable world next)
      (before ++ later))
    (stored : (World.new.run before).object id = some object)
    (unextractable : object.extractable = false)
    (finalStored : (World.new.run (before ++ later)).object id = some final) :
    final.extractable = false := by
  obtain ⟨respectedBefore, respectedLater⟩ := (World.eachStep_append before later).mp respected
  have sound := (World.sound_new Unextractable).run separable_unextractable stable_of_not_renews
    before respectedBefore
  have holds : (World.new.run before).HoldsAt Unextractable id := by
    intro server running
    obtain ⟨other, present, found⟩ := Option.bind_eq_some_iff.mp stored
    cases present.symm.trans running
    exact ⟨object, found, unextractable⟩
  have kept := holds.run separable_unextractable stable_of_not_renews sound later respectedLater
  rw [World.run_append] at finalStored
  obtain ⟨server, present, found⟩ := Option.bind_eq_some_iff.mp finalStored
  obtain ⟨other, otherStored, otherUnextractable⟩ := kept server present
  cases otherStored.symm.trans found
  exact otherUnextractable

def makeUnextractable : RequestedAttribute where
  name := bytes "Extractable"
  index := 0
  value := .node 0x42000B Ttlv.ttlvBoolean 8 (List.replicate 8 0) []

/-- A key is created, and made unextractable. -/
def unextractableKey : List Step :=
  [.perform (.create (bytes "AES")) unfailingFate,
    .perform (.changeAttribute .modify (identifier 1) makeUnextractable) unfailingFate]

/-- A key made unextractable is so after a restart. -/
theorem unextractable_stays_restarted :
    ∃ object final, (World.new.run unextractableKey).object (identifier 1) = some object ∧
      object.extractable = false ∧
      (World.new.run (unextractableKey ++ [.restart])).object (identifier 1) = some final ∧
      final.extractable = false :=
  ⟨_, _, rfl, rfl, rfl,
    unextractable_stays unextractableKey [.restart] (identifier 1) _ _
      ⟨fun renews => renews, fun renews => renews, fun renews => renews, trivial⟩ rfl rfl rfl⟩

/-- The key is renewed, and extractable after a restart. -/
theorem renewed_key_extractable :
    ¬ ∀ (before later : List Step) (id : Bytes) (object final : ManagedObject),
      (World.new.run before).object id = some object →
      object.extractable = false →
      (World.new.run (before ++ later)).object id = some final →
      final.extractable = false := by
  intro permanent
  have unextractable := permanent unextractableKey
    [.perform (.reKey (identifier 1)) unfailingFate, .restart] (identifier 1) _ _ rfl rfl rfl
  revert unextractable
  decide +kernel

end Trstctl.Kmip
