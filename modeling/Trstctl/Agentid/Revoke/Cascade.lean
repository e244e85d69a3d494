import Trstctl.Agentid.Revoke.Tables

/-!
# Enqueuing a revocation directive

A directive is appended to the ledger first, and then its row, the jobs of the
descendants and their outbox entries are written in one transaction.  A
redelivered directive is appended again, and its row is refused by the primary
key.
-/

namespace Trstctl.Agentid.Revoke

open Go (Bytes bytes)

/-- An order to revoke. -/
structure Directive where
  tenantID : Bytes
  directiveID : Bytes
  subject : Bytes
  reason : Bytes

/-- Why a cascade fails. -/
inductive CascadeError where
  | noTenant
  | noSubject
  | unknownReason (reason : Bytes)
  | head (cause : String)
  | replay (cause : String)
  | fold
  | append (cause : String)
  | commit (error : StoreError)
  | destination (destination : Bytes)
  | decode
  | missingSubject
deriving DecidableEq

def Directive.validate (directive : Directive) : Option CascadeError :=
  if directive.tenantID.isEmpty then some .noTenant
  else if directive.subject.isEmpty then some .noSubject
  else if validReason directive.reason then none
  else some (.unknownReason directive.reason)

/-- `Directive.directiveEvent`: the payload as it is read back from the event. -/
def Directive.directiveEvent (directive : Directive) (watermark : Nat) : RevocationDirectiveV1 where
  tenantID := Go.throughJson directive.tenantID
  subjectID := Go.throughJson directive.subject
  reason := Go.throughJson directive.reason
  watermark := watermark

section Transactions

variable {Tenant : Type} [DecidableEq Tenant]

/-- The job rows of the credentials, and then their outbox entries. -/
def fileJobs (database : Database Tenant) (tenant : Tenant)
    (tenantID directiveID reason : Bytes) (followOn : Bool) (credentials : List Bytes) :
    Except StoreError (Database Tenant) := do
  let withJobs ← (credentials.map (jobRow tenant directiveID followOn)).foldlM
    Database.insertJob database
  (credentials.map (jobEntry tenant tenantID directiveID reason followOn)).foldlM
    Database.enqueueIfAbsent withJobs

/-- The row of a directive that is not terminal. -/
def directiveRow (tenant : Tenant) (directiveID subject reason : Bytes) (watermark seq : Nat) :
    DirectiveRow Tenant where
  tenant := tenant
  directiveID := directiveID
  subjectID := subject
  reason := reason
  watermark := watermark
  terminal := false
  seq := seq

/-- The transaction of `EnqueueDirective`. -/
def commitDirective (uuid : Bytes → Option Tenant) (database : Database Tenant)
    (directive : Directive) (directiveID : Bytes) (watermark seq : Nat)
    (descendants : List Bytes) : Except StoreError (Database Tenant) :=
  match uuid directive.tenantID with
  | none => .error .tenant
  | some tenant => do
      let withDirective ← database.insertDirective
        (directiveRow tenant directiveID directive.subject directive.reason watermark seq)
      fileJobs withDirective tenant directive.tenantID directiveID directive.reason false
        descendants

theorem absorbs_fileJobs (tenant : Tenant) (tenantID directiveID reason : Bytes)
    (followOn : Bool) (credentials : List Bytes) :
    Absorbs fun database : Database Tenant =>
      fileJobs database tenant tenantID directiveID reason followOn credentials :=
  (Absorbs.foldlM absorbs_insertJob _).andThen (Absorbs.foldlM absorbs_enqueueIfAbsent _)

section FileJobs

variable {database after : Database Tenant} {tenant : Tenant}
  {tenantID directiveID reason : Bytes} {followOn : Bool} {credentials : List Bytes}

/-- Every credential has its job and its entry. -/
def Database.HasJobs (database : Database Tenant) (tenant : Tenant)
    (tenantID directiveID reason : Bytes) (followOn : Bool) (credentials : List Bytes) : Prop :=
  ∀ credential ∈ credentials,
    database.HasJob (jobRow tenant directiveID followOn credential) ∧
      database.HasEntry (jobEntry tenant tenantID directiveID reason followOn credential)

theorem fileJobs_of_present
    (present : database.HasJobs tenant tenantID directiveID reason followOn credentials) :
    fileJobs database tenant tenantID directiveID reason followOn credentials =
      .ok database := by
  refine Result.bind_eq_ok.mpr ⟨database, foldlM_of_settled ?_, foldlM_of_settled ?_⟩
  · intro row member
    obtain ⟨credential, credentialMember, rfl⟩ := List.mem_map.mp member
    exact insertJob_of_present (present credential credentialMember).1
  · intro row member
    obtain ⟨credential, credentialMember, rfl⟩ := List.mem_map.mp member
    exact enqueueIfAbsent_of_present (present credential credentialMember).2

theorem fileJobs_adds
    (filed : fileJobs database tenant tenantID directiveID reason followOn credentials =
      .ok after) :
    database ≤ after ∧ after.HasJobs tenant tenantID directiveID reason followOn credentials := by
  refine ⟨(absorbs_fileJobs _ _ _ _ _ _).le filed, ?_⟩
  intro credential member
  obtain ⟨withJobs, inserted, queued⟩ := Result.bind_eq_ok.mp filed
  constructor
  · have settled := Absorbs.settled_of_mem absorbs_insertJob
      (List.mem_map_of_mem member) inserted
    have extended := (Absorbs.foldlM absorbs_enqueueIfAbsent _).le queued
    exact (insertJob_adds settled).2.of_le extended
  · have settled := Absorbs.settled_of_mem absorbs_enqueueIfAbsent
      (List.mem_map_of_mem member) queued
    exact (enqueueIfAbsent_adds settled).2

theorem Database.AddsOnly.fileJobs
    {earlier : Database Tenant} {directive : DirectiveRow Tenant → Prop}
    {job : JobRow Tenant → Prop} {entry : OutboxRow Tenant → Prop}
    (jobKind : ∀ credential, job (jobRow tenant directiveID followOn credential))
    (entryKind : ∀ credential,
      entry (jobEntry tenant tenantID directiveID reason followOn credential))
    (filed : Revoke.fileJobs database tenant tenantID directiveID reason followOn credentials =
      .ok after)
    (adds : earlier.AddsOnly database directive job entry) :
    earlier.AddsOnly after directive job entry := by
  obtain ⟨withJobs, inserted, queued⟩ := Result.bind_eq_ok.mp filed
  have addsJobs : earlier.AddsOnly withJobs directive job entry := by
    refine Result.foldlM_keeps (earlier.AddsOnly · directive job entry) ?_ inserted adds
    intro row member before next succeeds
    obtain ⟨credential, _, rfl⟩ := List.mem_map.mp member
    exact Database.AddsOnly.insertJob (jobKind credential) succeeds
  refine Result.foldlM_keeps (earlier.AddsOnly · directive job entry) ?_ queued addsJobs
  intro row member before next succeeds
  obtain ⟨credential, _, rfl⟩ := List.mem_map.mp member
  exact Database.AddsOnly.enqueueIfAbsent (entryKind credential) succeeds

end FileJobs

section Commit

variable {uuid : Bytes → Option Tenant} {database after : Database Tenant}
  {directive : Directive} {directiveID : Bytes} {watermark seq : Nat} {descendants : List Bytes}

theorem commitDirective_eq_ok
    (committed : commitDirective uuid database directive directiveID watermark seq descendants =
      .ok after) :
    ∃ tenant, uuid directive.tenantID = some tenant ∧
      ∃ withDirective, database.insertDirective
          (directiveRow tenant directiveID directive.subject directive.reason watermark seq) =
            .ok withDirective ∧
        fileJobs withDirective tenant directive.tenantID directiveID directive.reason false
          descendants = .ok after := by
  unfold commitDirective at committed
  cases isTenant : uuid directive.tenantID with
  | none =>
      rw [isTenant] at committed
      cases committed
  | some tenant =>
      rw [isTenant] at committed
      exact ⟨tenant, rfl, Result.bind_eq_ok.mp committed⟩

/-- A row of the tenant has the directive. -/
def Database.Names (database : Database Tenant) (tenant : Tenant) (directiveID : Bytes) : Prop :=
  ∃ row ∈ database.directives, row.tenant = tenant ∧ row.directiveID = directiveID

theorem names_of_commitDirective
    (committed : commitDirective uuid database directive directiveID watermark seq descendants =
      .ok after) :
    ∃ tenant, uuid directive.tenantID = some tenant ∧ after.Names tenant directiveID := by
  obtain ⟨tenant, isTenant, withDirective, inserted, filed⟩ := commitDirective_eq_ok committed
  have extended := (absorbs_fileJobs tenant directive.tenantID directiveID directive.reason
    false descendants).le filed
  obtain ⟨_, _, rfl⟩ := insertDirective_eq_ok inserted
  exact ⟨tenant, isTenant, _,
    extended.1.subset (List.mem_append_right _ (List.mem_singleton_self _)), rfl, rfl⟩

theorem commitDirective_ne_ok {tenant : Tenant} (isTenant : uuid directive.tenantID = some tenant)
    (named : database.Names tenant directiveID) :
    commitDirective uuid database directive directiveID watermark seq descendants ≠ .ok after := by
  intro committed
  obtain ⟨other, isOther, withDirective, inserted, _⟩ := commitDirective_eq_ok committed
  cases isTenant.symm.trans isOther
  obtain ⟨_, absent, _⟩ := insertDirective_eq_ok inserted
  obtain ⟨row, member, tenant_eq, id_eq⟩ := named
  have different := List.any_eq_false.mp absent row member
  simp [DirectiveRow.sameKey, directiveRow, tenant_eq, id_eq] at different

end Commit

end Transactions

/-- The ledger and the tables. -/
structure World (Tenant : Type) where
  ledger : Ledger
  database : Database Tenant

/-- What becomes of a write: it is done and acknowledged, it is lost, or it is
done and its caller learns of a failure or crashes. -/
inductive WriteOutcome where
  | done
  | lost (cause : String)
  | unacknowledged (cause : String)

/-- The write has been done. -/
def WriteOutcome.writes : WriteOutcome → Bool
  | .lost _ => false
  | _ => true

/-- What one call meets: failures of the reads, the id of the event, and the
outcomes of the append and of the transaction. -/
structure Fate where
  headFailure : Option String := none
  replayFailure : Option String := none
  eventID : Bytes
  appended : WriteOutcome := .done
  committed : WriteOutcome := .done

structure DirectiveResult where
  directiveID : Bytes
  eventID : Bytes
  watermark : Nat
  descendants : List Bytes
deriving DecidableEq

/-- The id that the jobs of a directive are keyed under. -/
def Directive.key (directive : Directive) (eventID : Bytes) : Bytes :=
  if directive.directiveID.isEmpty then eventID else directive.directiveID

theorem Directive.key_of_explicit {directive : Directive} (explicit : directive.directiveID ≠ [])
    (eventID : Bytes) :
    directive.key eventID = directive.directiveID := by
  unfold Directive.key
  rw [if_neg]
  simpa using explicit

section Delivery

variable {Tenant : Type} [DecidableEq Tenant] (uuid : Bytes → Option Tenant)

/-- The third step of `EnqueueDirective`. -/
def recordDirective (world : World Tenant) (fate : Fate) (directive : Directive)
    (watermark : Nat) (descendants : List Bytes) :
    World Tenant × Except CascadeError DirectiveResult :=
  let directiveID := directive.key fate.eventID
  let result : DirectiveResult :=
    { directiveID := directiveID, eventID := fate.eventID, watermark := watermark
      descendants := descendants }
  match fate.committed with
  | .lost cause => (world, .error (.commit (.failed cause)))
  | .done =>
      match commitDirective uuid world.database directive directiveID watermark
          world.ledger.head descendants with
      | .error error => (world, .error (.commit error))
      | .ok database => ({ world with database := database }, .ok result)
  | .unacknowledged cause =>
      match commitDirective uuid world.database directive directiveID watermark
          world.ledger.head descendants with
      | .error error => (world, .error (.commit error))
      | .ok database =>
          ({ world with database := database }, .error (.commit (.failed cause)))

def Ledger.appendDirective (ledger : Ledger) (eventID : Bytes) (directive : Directive) : Ledger :=
  ledger.append eventID directive.tenantID
    (.revocationDirective (.known (directive.directiveEvent ledger.head)))

def enqueueDirective (world : World Tenant) (fate : Fate) (directive : Directive) :
    World Tenant × Except CascadeError DirectiveResult :=
  match directive.validate with
  | some error => (world, .error error)
  | none =>
    match fate.headFailure with
    | some cause => (world, .error (.head cause))
    | none =>
      let watermark := world.ledger.head
      match fate.replayFailure with
      | some cause => (world, .error (.replay cause))
      | none =>
        match world.ledger.descendantsAsOf directive.tenantID directive.subject watermark with
        | none => (world, .error .fold)
        | some descendants =>
            let appended : World Tenant :=
              { world with ledger := world.ledger.appendDirective fate.eventID directive }
            match fate.appended with
            | .lost cause => (world, .error (.append cause))
            | .unacknowledged cause => (appended, .error (.append cause))
            | .done => recordDirective uuid appended fate directive watermark descendants

/-- `stagedRevocation`, as far as it is delivered. -/
structure StagedRevocation where
  directiveID : Bytes
  subject : Bytes
  reason : Bytes

/-- `Message`, with its payload as JSON reads it. -/
structure Message where
  destination : Bytes
  tenantID : Bytes
  payload : Option StagedRevocation

def revocationDirectiveDestination : Bytes := bytes "agentid.revoke-directive"

def deliverDirective (world : World Tenant) (fate : Fate) (message : Message) :
    World Tenant × Except CascadeError Unit :=
  if message.destination ≠ revocationDirectiveDestination then
    (world, .error (.destination message.destination))
  else
    match message.payload with
    | none => (world, .error .decode)
    | some staged =>
        if staged.subject.isEmpty then (world, .error .missingSubject)
        else
          let directive : Directive :=
            { tenantID := message.tenantID, directiveID := staged.directiveID
              subject := staged.subject, reason := staged.reason }
          let outcome := enqueueDirective uuid world fate directive
          (outcome.1, outcome.2.map fun _ => ())

end Delivery

/-- A tenant id that PostgreSQL casts to a `uuid`. -/
def uuidTenant : Bytes :=
  bytes "6f9619ff-8b86-d011-b42d-00cf4fc964ff"

end Trstctl.Agentid.Revoke
