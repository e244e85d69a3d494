import Trstctl.Agentid.Revoke.Cascade

/-!
# Redelivery of a directive

Deliveries are repeated until they are acknowledged.  The event of a directive is
appended on each delivery and its row is inserted without a conflict rule, so a
directive that was delivered is never delivered again with success, and each
attempt leaves one more event in the ledger.
-/

namespace Trstctl.Agentid.Revoke

open Go (Bytes bytes)

section Enqueue

variable {Tenant : Type} [DecidableEq Tenant] {uuid : Bytes → Option Tenant}
  {world : World Tenant} {fate : Fate} {directive : Directive} {descendants : List Bytes}

theorem enqueueDirective_of_determined (valid : directive.validate = none)
    (head : fate.headFailure = none) (replay : fate.replayFailure = none)
    (determined : world.ledger.descendantsAsOf directive.tenantID directive.subject
      world.ledger.head = some descendants) :
    enqueueDirective uuid world fate directive =
      match fate.appended with
      | .lost cause => (world, .error (.append cause))
      | .unacknowledged cause =>
          (⟨world.ledger.appendDirective fate.eventID directive, world.database⟩,
            .error (.append cause))
      | .done =>
          recordDirective uuid
            ⟨world.ledger.appendDirective fate.eventID directive, world.database⟩ fate directive
            world.ledger.head descendants := by
  unfold enqueueDirective
  cases appended : fate.appended <;> simp only [valid, head, replay, determined]

theorem enqueueDirective_cases (uuid : Bytes → Option Tenant) (world : World Tenant) (fate : Fate)
    (directive : Directive) :
    (∃ error, enqueueDirective uuid world fate directive = (world, .error error)) ∨
      directive.validate = none ∧ fate.headFailure = none ∧ fate.replayFailure = none ∧
        ∃ descendants, world.ledger.descendantsAsOf directive.tenantID directive.subject
          world.ledger.head = some descendants := by
  unfold enqueueDirective
  cases directive.validate with
  | some error => exact .inl ⟨error, rfl⟩
  | none =>
    cases fate.headFailure with
    | some cause => exact .inl ⟨_, rfl⟩
    | none =>
      cases fate.replayFailure with
      | some cause => exact .inl ⟨_, rfl⟩
      | none =>
        cases determined : world.ledger.descendantsAsOf directive.tenantID directive.subject
            world.ledger.head with
        | none =>
            dsimp only
            rw [determined]
            exact .inl ⟨_, rfl⟩
        | some descendants => exact .inr ⟨rfl, rfl, rfl, descendants, rfl⟩

/-- A directive that was enqueued is committed with its event. -/
theorem enqueueDirective_eq_ok {after : World Tenant} {result : DirectiveResult}
    (enqueued : enqueueDirective uuid world fate directive = (after, .ok result)) :
    directive.validate = none ∧ fate.headFailure = none ∧ fate.replayFailure = none ∧
      after.ledger = world.ledger.appendDirective fate.eventID directive ∧
      ∃ descendants, world.ledger.descendantsAsOf directive.tenantID directive.subject
          world.ledger.head = some descendants ∧
        commitDirective uuid world.database directive (directive.key fate.eventID)
          world.ledger.head (world.ledger.head + 1) descendants = .ok after.database := by
  rcases enqueueDirective_cases uuid world fate directive with
    ⟨error, refused⟩ | ⟨valid, head, replay, descendants, determined⟩
  · rw [refused] at enqueued
    cases enqueued
  · rw [enqueueDirective_of_determined valid head replay determined] at enqueued
    refine ⟨valid, head, replay, ?_⟩
    cases appended : fate.appended with
    | lost cause =>
        rw [appended] at enqueued
        cases enqueued
    | unacknowledged cause =>
        rw [appended] at enqueued
        cases enqueued
    | done =>
        rw [appended] at enqueued
        dsimp only at enqueued
        unfold recordDirective at enqueued
        dsimp only at enqueued
        cases committed : fate.committed with
        | lost cause =>
            rw [committed] at enqueued
            cases enqueued
        | unacknowledged cause =>
            rw [committed] at enqueued
            dsimp only at enqueued
            split at enqueued <;> cases enqueued
        | done =>
            rw [committed] at enqueued
            dsimp only at enqueued
            split at enqueued
            · cases enqueued
            · rename_i database succeeded
              cases enqueued
              exact ⟨rfl, descendants, determined, succeeded⟩

end Enqueue

section Redelivery

variable {Tenant : Type} [DecidableEq Tenant]

/-- The directives of earlier tables are still there. -/
def Database.Retains (later earlier : Database Tenant) : Prop :=
  ∀ tenant directiveID, earlier.Names tenant directiveID → later.Names tenant directiveID

/-- Where a directive is there, it is appended and not committed. -/
theorem enqueueDirective_of_names
    {uuid : Bytes → Option Tenant} {world : World Tenant} {directive : Directive} {tenant : Tenant}
    (isTenant : uuid directive.tenantID = some tenant) (explicit : directive.directiveID ≠ [])
    (named : world.database.Names tenant directive.directiveID) (fate : Fate) :
    (enqueueDirective uuid world fate directive).1.database = world.database ∧
      (∃ error, (enqueueDirective uuid world fate directive).2 = .error error) ∧
      (directive.validate = none → fate.headFailure = none → fate.replayFailure = none →
        (world.ledger.descendantsAsOf directive.tenantID directive.subject
          world.ledger.head).isSome = true →
        fate.appended.writes = true →
        (enqueueDirective uuid world fate directive).1.ledger =
          world.ledger.appendDirective fate.eventID directive) := by
  rcases enqueueDirective_cases uuid world fate directive with
    ⟨error, refused⟩ | ⟨valid, head, replay, descendants, determined⟩
  · refine ⟨by rw [refused], ⟨error, by rw [refused]⟩, ?_⟩
    intro valid head replay determined writes
    obtain ⟨descendants, determined⟩ := Option.isSome_iff_exists.mp determined
    rw [enqueueDirective_of_determined valid head replay determined] at refused ⊢
    cases appended : fate.appended with
    | lost cause =>
        rw [appended] at writes
        cases writes
    | unacknowledged cause => rfl
    | done =>
        unfold recordDirective
        dsimp only
        split
        · rfl
        · split <;> rfl
        · split <;> rfl
  · rw [enqueueDirective_of_determined valid head replay determined]
    cases appended : fate.appended with
    | lost cause =>
        refine ⟨rfl, ⟨_, rfl⟩, ?_⟩
        intro _ _ _ _ writes
        cases writes
    | unacknowledged cause => exact ⟨rfl, ⟨_, rfl⟩, fun _ _ _ _ _ => rfl⟩
    | done =>
        unfold recordDirective
        dsimp only
        rw [Directive.key_of_explicit explicit]
        have refused : ∀ after, commitDirective uuid world.database directive
            directive.directiveID world.ledger.head
            (world.ledger.appendDirective fate.eventID directive).head descendants ≠ .ok after :=
          fun after => commitDirective_ne_ok isTenant named
        cases committed : commitDirective uuid world.database directive directive.directiveID
            world.ledger.head (world.ledger.appendDirective fate.eventID directive).head
            descendants with
        | ok after => exact absurd committed (refused after)
        | error error =>
            cases fate.committed with
            | lost cause => exact ⟨rfl, ⟨_, rfl⟩, fun _ _ _ _ _ => rfl⟩
            | done => exact ⟨rfl, ⟨_, rfl⟩, fun _ _ _ _ _ => rfl⟩
            | unacknowledged cause => exact ⟨rfl, ⟨_, rfl⟩, fun _ _ _ _ _ => rfl⟩

/-- A directive that was delivered is never again delivered with success: the
tables stay as they are, and the ledger has one more event when it takes one. -/
theorem redelivery_never_succeeds
    (uuid : Bytes → Option Tenant)
    (world later : World Tenant)
    (first second : Fate)
    (message : Message)
    (staged : StagedRevocation)
    (isStaged : message.payload = some staged)
    (explicit : staged.directiveID ≠ [])
    (delivered : (deliverDirective uuid world first message).2 = .ok ())
    (retained :
      later.database.Retains (deliverDirective uuid world first message).1.database) :
    (deliverDirective uuid later second message).2 ≠ .ok () ∧
      (deliverDirective uuid later second message).1.database = later.database ∧
      (second.headFailure = none → second.replayFailure = none →
        (later.ledger.descendantsAsOf message.tenantID staged.subject
          later.ledger.head).isSome = true →
        second.appended.writes = true →
        (deliverDirective uuid later second message).1.ledger.events.length =
          later.ledger.events.length + 1) := by
  unfold deliverDirective at delivered retained ⊢
  split_ifs at delivered retained ⊢ with wrong
  rw [isStaged] at delivered retained ⊢
  dsimp only at delivered retained ⊢
  split_ifs at delivered retained ⊢ with missing
  generalize directive_eq : Directive.mk message.tenantID staged.directiveID staged.subject
    staged.reason = directive at delivered retained ⊢
  have explicitDirective : directive.directiveID ≠ [] := by
    rw [← directive_eq]
    exact explicit
  cases enqueued : enqueueDirective uuid world first directive with
  | mk after reply =>
      rw [enqueued] at delivered retained
      cases reply with
      | error error => cases delivered
      | ok result =>
          obtain ⟨valid, _, _, _, descendants, _, committed⟩ := enqueueDirective_eq_ok enqueued
          rw [Directive.key_of_explicit explicitDirective] at committed
          obtain ⟨tenant, isTenant, named⟩ := names_of_commitDirective committed
          obtain ⟨kept, ⟨error, refused⟩, appends⟩ := enqueueDirective_of_names isTenant
            explicitDirective (retained tenant directive.directiveID named) second
          refine ⟨?_, kept, ?_⟩
          · rw [refused]
            exact fun equal => nomatch equal
          · intro head replay determined writes
            rw [← directive_eq] at valid appends ⊢
            rw [appends valid head replay determined writes]
            simp [Ledger.appendDirective, Ledger.append]

/-- No event and no row. -/
def emptyWorld : World Bytes where
  ledger := .empty
  database := ⟨[], [], []⟩

/-- A message that carries a revocation. -/
def revokeMessage : Message where
  destination := revocationDirectiveDestination
  tenantID := uuidTenant
  payload := some ⟨bytes "directive-1", bytes "agent-1", bytes "compromise"⟩

/-- A call that nothing goes wrong for, with the last digits of its event id. -/
def smoothFate (digits : String) : Fate where
  eventID := bytes ("agid-revoke-evt-0123456789abcdef01234567" ++ digits)

/-- The second delivery of a message whose first one succeeded. -/
theorem redelivery_never_succeeds_revokeMessage :
    (deliverDirective some
      (deliverDirective some emptyWorld (smoothFate "89abcde0") revokeMessage).1
      (smoothFate "89abcde1") revokeMessage).2 ≠ .ok () :=
  (redelivery_never_succeeds some emptyWorld
    (deliverDirective some emptyWorld (smoothFate "89abcde0") revokeMessage).1
    (smoothFate "89abcde0") (smoothFate "89abcde1") revokeMessage
    ⟨bytes "directive-1", bytes "agent-1", bytes "compromise"⟩ rfl (by decide +kernel)
    (by decide +kernel) fun _ _ named => named).1

/-- The second delivery fails and appends a second event. -/
theorem redelivered_directive_fails :
    ¬ ∀ (world : World Bytes) (first second : Fate) (message : Message)
        (staged : StagedRevocation),
      message.payload = some staged → staged.directiveID ≠ [] →
      (deliverDirective some world first message).2 = .ok () →
      (deliverDirective some (deliverDirective some world first message).1 second
        message).2 = .ok () ∧
      (deliverDirective some (deliverDirective some world first message).1 second
        message).1.ledger.events =
        (deliverDirective some world first message).1.ledger.events := by
  intro idempotent
  have again := idempotent emptyWorld (smoothFate "89abcde0")
    (smoothFate "89abcde1") revokeMessage _ rfl (by decide +kernel) (by decide +kernel)
  revert again
  decide +kernel

end Redelivery

end Trstctl.Agentid.Revoke
