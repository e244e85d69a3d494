import Trstctl.Agentid.Revoke.Ledger
import Trstctl.Go.JsonUnescape
import Trstctl.Library.Absorbing

/-!
# The tables of the cascade

The rows that a revocation writes, and the statements that write them.  Each
statement runs in a transaction that is bound to one tenant.
-/

namespace Trstctl.Agentid.Revoke

open Go (Bytes bytes jsonPair)

/-- `ReasonClass.Valid`. -/
def validReason (reason : Bytes) : Bool :=
  ["compromise", "task-completion", "policy-change", "root-principal-request"].any
    fun known => reason == bytes known

def destinationRevocationJob : Bytes := bytes "agent.revocation.job"

def jobIdempotencyKey (directiveID credentialID : Bytes) : Bytes :=
  bytes "agid-revoke:" ++ directiveID ++ bytes ":" ++ credentialID

structure JobPayload where
  tenantID : Bytes
  directiveID : Bytes
  credentialID : Bytes
  reason : Bytes
  followOn : Bool
  publishDownstream : Bool

/-- The members of the JSON object of a job. -/
def JobPayload.members (payload : JobPayload) : List Bytes :=
  [jsonPair "tenant_id" (Go.jsonString payload.tenantID),
    jsonPair "directive_id" (Go.jsonString payload.directiveID),
    jsonPair "credential_id" (Go.jsonString payload.credentialID),
    jsonPair "reason" (Go.jsonString payload.reason)] ++
    Go.jsonOptional payload.followOn (jsonPair "follow_on" (Go.jsonBool true)) ++
    Go.jsonOptional payload.publishDownstream
      (jsonPair "publish_downstream" (Go.jsonBool true))

def JobPayload.encode (payload : JobPayload) : Bytes :=
  Go.jsonObject payload.members

theorem JobPayload.isValue_members (payload : JobPayload) :
    ∀ member ∈ payload.members, Go.IsValue member := by
  have texts : ∀ (key : String) (text : Bytes),
      Go.IsValue (jsonPair key (Go.jsonString text)) :=
    fun key text => Go.isValue_jsonPair key (Go.isValue_jsonString text)
  have flags : ∀ (present : Bool) (key : String),
      ∀ member ∈ Go.jsonOptional present (jsonPair key (Go.jsonBool true)),
        Go.IsValue member := by
    intro present key member isMember
    unfold Go.jsonOptional at isMember
    split_ifs at isMember
    · rw [List.mem_singleton.mp isMember]
      exact Go.isValue_jsonPair key (Go.isValue_jsonBool true)
    · cases isMember
  intro member isMember
  rcases List.mem_append.mp isMember with first | last
  · rcases List.mem_append.mp first with text | flag
    · simp only [List.mem_cons, List.not_mem_nil, or_false] at text
      rcases text with rfl | rfl | rfl | rfl <;> exact texts _ _
    · exact flags _ _ member flag
  · exact flags _ _ member last

theorem JobPayload.directiveID_eq_of_encode_eq {payload other : JobPayload}
    (valid : Go.utf8Valid payload.directiveID = true) (same : payload.encode = other.encode) :
    payload.directiveID = other.directiveID := by
  have members := Go.eq_of_jsonObject_eq payload.isValue_members other.isValue_members same
  have ids := (List.cons.inj (List.cons.inj members).2).1
  exact Go.eq_of_jsonString_eq valid (Go.jsonPair_injective ids)

/-- A row of `agent_revocation_directives`. -/
structure DirectiveRow (Tenant : Type) where
  tenant : Tenant
  directiveID : Bytes
  subjectID : Bytes
  reason : Bytes
  watermark : Nat
  terminal : Bool
  seq : Nat
deriving DecidableEq

/-- A row of `agent_revocation_jobs`. -/
structure JobRow (Tenant : Type) where
  tenant : Tenant
  directiveID : Bytes
  idempotencyKey : Bytes
  credentialID : Bytes
  followOn : Bool
  completionRef : Option Bytes
  seq : Nat
deriving DecidableEq

/-- The command in a row of `outbox`: what one idempotency key stands for. -/
structure Command where
  destination : Bytes
  payload : Bytes
  lane : Bytes
  requiredAgentRole : Bytes
  requiredAgentID : Bytes
deriving DecidableEq

/-- A row of `outbox`. -/
structure OutboxRow (Tenant : Type) where
  tenant : Tenant
  idempotencyKey : Bytes
  command : Command

/-- The tables, each in the order of insertion. -/
structure Database (Tenant : Type) where
  directives : List (DirectiveRow Tenant)
  jobs : List (JobRow Tenant)
  outbox : List (OutboxRow Tenant)

/-- Why a transaction is rolled back. -/
inductive StoreError where
  | tenant
  | text
  | range
  | duplicate
  | conflict
  | failed (cause : String)
deriving DecidableEq

/-- Text columns take valid UTF-8 without zero bytes. -/
def storable (text : Bytes) : Bool :=
  Go.utf8Valid text && !text.contains 0

/-- The largest `bigint`. -/
def maxBigint : Nat := 2 ^ 63 - 1

section Statements

variable {Tenant : Type} [DecidableEq Tenant]

/-- Why the columns of a directive refuse its values. -/
def DirectiveRow.refusal (row : DirectiveRow Tenant) : Option StoreError :=
  if storable row.directiveID && storable row.subjectID && storable row.reason then
    if row.watermark ≤ maxBigint ∧ row.seq ≤ maxBigint then none else some .range
  else some .text

/-- Why the columns of a job refuse its values. -/
def JobRow.refusal (row : JobRow Tenant) : Option StoreError :=
  if storable row.directiveID && storable row.idempotencyKey && storable row.credentialID then none
  else some .text

def DirectiveRow.sameKey (row other : DirectiveRow Tenant) : Bool :=
  row.tenant == other.tenant && row.directiveID == other.directiveID

def JobRow.sameKey (row other : JobRow Tenant) : Bool :=
  row.tenant == other.tenant && row.directiveID == other.directiveID &&
    row.idempotencyKey == other.idempotencyKey

/-- `INSERT` of a directive. -/
def Database.insertDirective (database : Database Tenant) (row : DirectiveRow Tenant) :
    Except StoreError (Database Tenant) :=
  match row.refusal with
  | some error => .error error
  | none =>
      if database.directives.any row.sameKey then .error .duplicate
      else .ok { database with directives := database.directives ++ [row] }

/-- `INSERT` of a directive with `ON CONFLICT DO NOTHING`. -/
def Database.insertDirectiveIfAbsent (database : Database Tenant) (row : DirectiveRow Tenant) :
    Except StoreError (Database Tenant) :=
  match row.refusal with
  | some error => .error error
  | none =>
      if database.directives.any row.sameKey then .ok database
      else .ok { database with directives := database.directives ++ [row] }

/-- `INSERT` of a job with `ON CONFLICT DO NOTHING`. -/
def Database.insertJob (database : Database Tenant) (row : JobRow Tenant) :
    Except StoreError (Database Tenant) :=
  match row.refusal with
  | some error => .error error
  | none =>
      if database.jobs.any row.sameKey then .ok database
      else .ok { database with jobs := database.jobs ++ [row] }

def Database.queued (database : Database Tenant) (tenant : Tenant) (key : Bytes) :
    Option (OutboxRow Tenant) :=
  database.outbox.find? fun row => row.tenant == tenant && row.idempotencyKey == key

def Database.enqueueIfAbsent (database : Database Tenant) (row : OutboxRow Tenant) :
    Except StoreError (Database Tenant) :=
  if storable row.idempotencyKey then
    match database.queued row.tenant row.idempotencyKey with
    | none => .ok { database with outbox := database.outbox ++ [row] }
    | some existing => if existing.command = row.command then .ok database else .error .conflict
  else .error .text

def jobRow (tenant : Tenant) (directiveID : Bytes) (followOn : Bool) (credentialID : Bytes) :
    JobRow Tenant where
  tenant := tenant
  directiveID := directiveID
  idempotencyKey := jobIdempotencyKey directiveID credentialID
  credentialID := credentialID
  followOn := followOn
  completionRef := none
  seq := 0

def jobEntry (tenant : Tenant) (tenantID directiveID reason : Bytes) (followOn : Bool)
    (credentialID : Bytes) : OutboxRow Tenant where
  tenant := tenant
  idempotencyKey := jobIdempotencyKey directiveID credentialID
  command :=
    { destination := destinationRevocationJob
      payload := JobPayload.encode
        { tenantID := tenantID, directiveID := directiveID, credentialID := credentialID
          reason := reason, followOn := followOn, publishDownstream := true }
      lane := destinationRevocationJob
      requiredAgentRole := []
      requiredAgentID := [] }

/-- Rows have been added at the end of the tables. -/
instance : Preorder (Database Tenant) where
  le earlier later :=
    earlier.directives <+: later.directives ∧ earlier.jobs <+: later.jobs ∧
      earlier.outbox <+: later.outbox
  le_refl _ := ⟨List.prefix_rfl, List.prefix_rfl, List.prefix_rfl⟩
  le_trans _ _ _ first second :=
    ⟨first.1.trans second.1, first.2.1.trans second.2.1, first.2.2.trans second.2.2⟩

variable {database after later : Database Tenant}

theorem any_of_prefix {α : Type} {earlier later : List α} {present : α → Bool}
    (isPrefix : earlier <+: later) (found : earlier.any present = true) :
    later.any present = true := by
  obtain ⟨row, member, holds⟩ := List.any_eq_true.mp found
  exact List.any_eq_true.mpr ⟨row, isPrefix.subset member, holds⟩

theorem queued_of_le {tenant : Tenant} {key : Bytes} {row : OutboxRow Tenant}
    (extended : database ≤ later) (found : database.queued tenant key = some row) :
    later.queued tenant key = some row := by
  obtain ⟨rest, outbox_eq⟩ := extended.2.2
  unfold Database.queued at found ⊢
  rw [← outbox_eq, List.find?_append, found]
  rfl

/-- A directive that its columns take is in its table. -/
def Database.HasDirective (database : Database Tenant) (row : DirectiveRow Tenant) : Prop :=
  row.refusal = none ∧ database.directives.any row.sameKey = true

/-- A job that its columns take is in its table. -/
def Database.HasJob (database : Database Tenant) (row : JobRow Tenant) : Prop :=
  row.refusal = none ∧ database.jobs.any row.sameKey = true

/-- The outbox has an entry, and no other command under its key before it. -/
def Database.HasEntry (database : Database Tenant) (row : OutboxRow Tenant) : Prop :=
  storable row.idempotencyKey = true ∧
    ∃ existing, database.queued row.tenant row.idempotencyKey = some existing ∧
      existing.command = row.command

variable {row : DirectiveRow Tenant}

theorem Database.HasDirective.of_le (extended : database ≤ later)
    (present : database.HasDirective row) :
    later.HasDirective row :=
  ⟨present.1, any_of_prefix extended.1 present.2⟩

theorem Database.HasJob.of_le {row : JobRow Tenant} (extended : database ≤ later)
    (present : database.HasJob row) :
    later.HasJob row :=
  ⟨present.1, any_of_prefix extended.2.1 present.2⟩

theorem Database.HasEntry.of_le {row : OutboxRow Tenant} (extended : database ≤ later)
    (present : database.HasEntry row) :
    later.HasEntry row := by
  obtain ⟨valid, existing, found, same⟩ := present
  exact ⟨valid, existing, queued_of_le extended found, same⟩

theorem insertDirectiveIfAbsent_of_present (present : database.HasDirective row) :
    database.insertDirectiveIfAbsent row = .ok database := by
  unfold Database.insertDirectiveIfAbsent
  rw [present.1]
  exact if_pos present.2

theorem insertJob_of_present {row : JobRow Tenant} (present : database.HasJob row) :
    database.insertJob row = .ok database := by
  unfold Database.insertJob
  rw [present.1]
  exact if_pos present.2

theorem enqueueIfAbsent_of_present {row : OutboxRow Tenant} (present : database.HasEntry row) :
    database.enqueueIfAbsent row = .ok database := by
  obtain ⟨valid, existing, found, same⟩ := present
  unfold Database.enqueueIfAbsent
  rw [if_pos valid, found]
  exact if_pos same

theorem insertDirective_eq_ok (succeeds : database.insertDirective row = .ok after) :
    row.refusal = none ∧ database.directives.any row.sameKey = false ∧
      after = { database with directives := database.directives ++ [row] } := by
  unfold Database.insertDirective at succeeds
  cases refusal : row.refusal with
  | some error =>
      rw [refusal] at succeeds
      cases succeeds
  | none =>
      rw [refusal] at succeeds
      dsimp only at succeeds
      split_ifs at succeeds with present
      cases succeeds
      exact ⟨rfl, Bool.eq_false_iff.mpr present, rfl⟩

theorem insertDirectiveIfAbsent_adds (succeeds : database.insertDirectiveIfAbsent row = .ok after) :
    database ≤ after ∧ after.HasDirective row := by
  unfold Database.insertDirectiveIfAbsent at succeeds
  cases refusal : row.refusal with
  | some error =>
      rw [refusal] at succeeds
      cases succeeds
  | none =>
      rw [refusal] at succeeds
      dsimp only at succeeds
      split_ifs at succeeds with present
      · cases succeeds
        exact ⟨le_rfl, refusal, present⟩
      · cases succeeds
        refine ⟨⟨List.prefix_append _ _, List.prefix_rfl, List.prefix_rfl⟩, refusal, ?_⟩
        simp [DirectiveRow.sameKey]

theorem insertJob_adds {row : JobRow Tenant} (succeeds : database.insertJob row = .ok after) :
    database ≤ after ∧ after.HasJob row := by
  unfold Database.insertJob at succeeds
  cases refusal : row.refusal with
  | some error =>
      rw [refusal] at succeeds
      cases succeeds
  | none =>
      rw [refusal] at succeeds
      dsimp only at succeeds
      split_ifs at succeeds with present
      · cases succeeds
        exact ⟨le_rfl, refusal, present⟩
      · cases succeeds
        refine ⟨⟨List.prefix_rfl, List.prefix_append _ _, List.prefix_rfl⟩, refusal, ?_⟩
        simp [JobRow.sameKey]

theorem enqueueIfAbsent_adds {row : OutboxRow Tenant}
    (succeeds : database.enqueueIfAbsent row = .ok after) :
    database ≤ after ∧ after.HasEntry row := by
  unfold Database.enqueueIfAbsent at succeeds
  split_ifs at succeeds with valid
  cases found : database.queued row.tenant row.idempotencyKey with
  | none =>
      rw [found] at succeeds
      cases succeeds
      refine ⟨⟨List.prefix_rfl, List.prefix_rfl, List.prefix_append _ _⟩, valid, row, ?_, rfl⟩
      unfold Database.queued at found ⊢
      simp [List.find?_append, found]
  | some existing =>
      rw [found] at succeeds
      dsimp only at succeeds
      split_ifs at succeeds with same
      cases succeeds
      exact ⟨le_rfl, valid, existing, found, same⟩

theorem absorbs_insertJob (row : JobRow Tenant) :
    Absorbs fun database : Database Tenant => database.insertJob row :=
  .of_present insertJob_adds Database.HasJob.of_le insertJob_of_present

theorem absorbs_enqueueIfAbsent (row : OutboxRow Tenant) :
    Absorbs fun database : Database Tenant => database.enqueueIfAbsent row :=
  .of_present enqueueIfAbsent_adds Database.HasEntry.of_le enqueueIfAbsent_of_present

/-- The rows that have been added are of the given kinds. -/
structure Database.AddsOnly (earlier later : Database Tenant)
    (directive : DirectiveRow Tenant → Prop) (job : JobRow Tenant → Prop)
    (entry : OutboxRow Tenant → Prop) : Prop where
  directives : ∀ row ∈ later.directives, row ∈ earlier.directives ∨ directive row
  jobs : ∀ row ∈ later.jobs, row ∈ earlier.jobs ∨ job row
  outbox : ∀ row ∈ later.outbox, row ∈ earlier.outbox ∨ entry row

section AddsOnly

variable {earlier : Database Tenant} {directive : DirectiveRow Tenant → Prop}
  {job : JobRow Tenant → Prop} {entry : OutboxRow Tenant → Prop}

omit [DecidableEq Tenant] in
theorem Database.addsOnly_self (database : Database Tenant) :
    database.AddsOnly database directive job entry :=
  ⟨fun _ member => .inl member, fun _ member => .inl member, fun _ member => .inl member⟩

omit [DecidableEq Tenant] in
theorem forall_mem_concat {α : Type} {property : α → Prop} {rows : List α} {row : α}
    (all : ∀ other ∈ rows, property other) (holds : property row) :
    ∀ other ∈ rows ++ [row], property other := by
  intro other member
  rcases List.mem_append.mp member with before | last
  · exact all other before
  · rw [List.mem_singleton.mp last]
    exact holds

theorem Database.AddsOnly.insertDirectiveIfAbsent {row : DirectiveRow Tenant} (kind : directive row)
    (succeeds : database.insertDirectiveIfAbsent row = .ok after)
    (adds : earlier.AddsOnly database directive job entry) :
    earlier.AddsOnly after directive job entry := by
  unfold Database.insertDirectiveIfAbsent at succeeds
  split at succeeds
  · cases succeeds
  · split_ifs at succeeds <;> cases succeeds
    · exact adds
    · exact ⟨forall_mem_concat adds.directives (.inr kind), adds.jobs, adds.outbox⟩

theorem Database.AddsOnly.insertJob {row : JobRow Tenant} (kind : job row)
    (succeeds : database.insertJob row = .ok after)
    (adds : earlier.AddsOnly database directive job entry) :
    earlier.AddsOnly after directive job entry := by
  unfold Database.insertJob at succeeds
  split at succeeds
  · cases succeeds
  · split_ifs at succeeds <;> cases succeeds
    · exact adds
    · exact ⟨adds.directives, forall_mem_concat adds.jobs (.inr kind), adds.outbox⟩

theorem Database.AddsOnly.enqueueIfAbsent {row : OutboxRow Tenant} (kind : entry row)
    (succeeds : database.enqueueIfAbsent row = .ok after)
    (adds : earlier.AddsOnly database directive job entry) :
    earlier.AddsOnly after directive job entry := by
  unfold Database.enqueueIfAbsent at succeeds
  split_ifs at succeeds
  split at succeeds
  · cases succeeds
    exact ⟨adds.directives, adds.jobs, forall_mem_concat adds.outbox (.inr kind)⟩
  · split_ifs at succeeds
    cases succeeds
    exact adds

end AddsOnly

end Statements

end Trstctl.Agentid.Revoke
