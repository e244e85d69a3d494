import Trstctl.Agentid.Revoke.Redelivery

/-!
# Recovery of directives from the ledger

`Reconcile` writes what the transaction of a directive would have written, from
the event alone.  The event does not say under which id the directive was to be
recorded, and the pass uses the id of the event.  It restores what a crash has
lost exactly when the directive has no other id and no earlier directive is
unsettled.
-/

namespace Trstctl.Agentid.Revoke

open Go (Bytes bytes)

/-- The errors of a pass. -/
inductive ReconcileError where
  | decode (sequence : Nat)
  | reason (sequence : Nat) (reason : Bytes)
  | fold
  | store (error : StoreError)

section Pass

variable {Tenant : Type} [DecidableEq Tenant] (uuid : Bytes → Option Tenant) (ledger : Ledger)

/-- The transaction of `Reconcile` for one directive. -/
def restoreDirective (database : Database Tenant) (tenant : Tenant) (event : Event)
    (payload : RevocationDirectiveV1) (descendants : List Bytes) :
    Except StoreError (Database Tenant) := do
  let withDirective ← database.insertDirectiveIfAbsent
    (directiveRow tenant event.id payload.subjectID payload.reason payload.watermark
      event.sequence)
  fileJobs withDirective tenant event.tenantID event.id payload.reason false descendants

/-- One event of the loop of `Reconcile`. -/
def reconcileEvent (database : Database Tenant) (event : Event) :
    Except ReconcileError (Database Tenant) :=
  match event.content with
  | .revocationDirective .malformed => .error (.decode event.sequence)
  | .revocationDirective (.known payload) =>
      if validReason payload.reason = false then
        .error (.reason event.sequence payload.reason)
      else
        match ledger.descendantsAsOf event.tenantID payload.subjectID payload.watermark with
        | none => .error .fold
        | some descendants =>
            match uuid event.tenantID with
            | none => .error (.store .tenant)
            | some tenant =>
                (restoreDirective database tenant event payload descendants).mapError .store
  | _ => .ok database

/-- The loop of `Reconcile`: each directive has a transaction of its own. -/
def reconcileEvents : Database Tenant → List Event → Database Tenant × Option ReconcileError
  | database, [] => (database, none)
  | database, event :: rest =>
      match reconcileEvent uuid ledger database event with
      | .error error => (database, some error)
      | .ok after => reconcileEvents after rest

end Pass

/-- What a pass leaves: the tables, the number of outbox entries it added, and the
error it ended with. -/
structure Reconciliation (Tenant : Type) where
  database : Database Tenant
  healed : Nat
  error : Option ReconcileError

def reconcile {Tenant : Type} [DecidableEq Tenant] (uuid : Bytes → Option Tenant)
    (world : World Tenant) (start : Nat) : Reconciliation Tenant :=
  let start := if start = 0 then 1 else start
  let outcome := reconcileEvents uuid world.ledger world.database
    (world.ledger.events.filter fun event =>
      (start ≤ event.sequence && event.sequence ≤ world.ledger.head : Bool))
  { database := outcome.1
    healed := outcome.1.outbox.length - world.database.outbox.length
    error := outcome.2 }

section

variable {Tenant : Type} [DecidableEq Tenant] {uuid : Bytes → Option Tenant}
  {database after : Database Tenant}

theorem reconcileEvents_eq_none {ledger : Ledger} {events : List Event} :
    reconcileEvents uuid ledger database events = (after, none) ↔
      events.foldlM (reconcileEvent uuid ledger) database = .ok after := by
  induction events generalizing database with
  | nil => simp [reconcileEvents, pure, Except.pure]
  | cons event rest ih =>
      rw [reconcileEvents, List.foldlM_cons]
      cases reconcileEvent uuid ledger database event with
      | error error => simp [bind, Except.bind]
      | ok between => exact ih

theorem reconcile_one_eq_none {world : World Tenant} :
    (reconcile uuid world 1).error = none ∧ (reconcile uuid world 1).database = after ↔
      world.ledger.events.foldlM (reconcileEvent uuid world.ledger) world.database =
        .ok after := by
  have all : (world.ledger.events.filter fun event =>
      (1 ≤ event.sequence && event.sequence ≤ world.ledger.head : Bool)) =
        world.ledger.events := by
    refine List.filter_eq_self.mpr fun event member => ?_
    simpa using world.ledger.numbered event member
  rw [← reconcileEvents_eq_none]
  unfold reconcile
  simp only [Nat.one_ne_zero, if_false, all]
  rw [Prod.ext_iff, and_comm]

/-- What a directive stands for is in the tables under the id of its event. -/
structure FiledDirective (uuid : Bytes → Option Tenant) (ledger : Ledger)
    (database : Database Tenant) (event : Event) (payload : RevocationDirectiveV1)
    (tenant : Tenant) (descendants : List Bytes) : Prop where
  valid : validReason payload.reason = true
  determined : ledger.descendantsAsOf event.tenantID payload.subjectID payload.watermark =
    some descendants
  isTenant : uuid event.tenantID = some tenant
  directive : database.HasDirective (directiveRow tenant event.id payload.subjectID
    payload.reason payload.watermark event.sequence)
  jobs : database.HasJobs tenant event.tenantID event.id payload.reason false descendants

/-- An event needs nothing more in the tables. -/
def Filed (uuid : Bytes → Option Tenant) (ledger : Ledger) (database : Database Tenant)
    (event : Event) : Prop :=
  match event.content with
  | .revocationDirective .malformed => False
  | .revocationDirective (.known payload) =>
      ∃ tenant descendants, FiledDirective uuid ledger database event payload tenant descendants
  | _ => True

variable {ledger : Ledger} {event : Event} {payload : RevocationDirectiveV1}
  {later : Database Tenant}

theorem Filed.of_le (extended : database ≤ later) (filed : Filed uuid ledger database event) :
    Filed uuid ledger later event := by
  unfold Filed at filed ⊢
  split at filed
  · exact filed
  · obtain ⟨tenant, descendants, directive⟩ := filed
    refine ⟨tenant, descendants, directive.valid, directive.determined, directive.isTenant,
      directive.directive.of_le extended, ?_⟩
    intro credential member
    obtain ⟨job, entry⟩ := directive.jobs credential member
    exact ⟨job.of_le extended, entry.of_le extended⟩
  · trivial

theorem reconcileEvent_of_filed (filed : Filed uuid ledger database event) :
    reconcileEvent uuid ledger database event = .ok database := by
  unfold Filed at filed
  unfold reconcileEvent
  split at filed
  · exact filed.elim
  · obtain ⟨tenant, descendants, directive⟩ := filed
    rw [if_neg (by simp [directive.valid]), directive.determined, directive.isTenant]
    refine Result.mapError_eq_ok.mpr (Result.bind_eq_ok.mpr ⟨database, ?_, ?_⟩)
    · exact insertDirectiveIfAbsent_of_present directive.directive
    · exact fileJobs_of_present directive.jobs
  · rfl

theorem reconcileEvent_eq_ok (isDirective : event.content = .revocationDirective (.known payload))
    (succeeds : reconcileEvent uuid ledger database event = .ok after) :
    validReason payload.reason = true ∧
      ∃ tenant descendants, uuid event.tenantID = some tenant ∧
        ledger.descendantsAsOf event.tenantID payload.subjectID payload.watermark =
          some descendants ∧
        ∃ withDirective, database.insertDirectiveIfAbsent (directiveRow tenant event.id
            payload.subjectID payload.reason payload.watermark event.sequence) =
              .ok withDirective ∧
          fileJobs withDirective tenant event.tenantID event.id payload.reason false
            descendants = .ok after := by
  unfold reconcileEvent at succeeds
  rw [isDirective] at succeeds
  dsimp only at succeeds
  split_ifs at succeeds with invalid
  cases determined : ledger.descendantsAsOf event.tenantID payload.subjectID
      payload.watermark with
  | none =>
      rw [determined] at succeeds
      cases succeeds
  | some descendants =>
      rw [determined] at succeeds
      cases isTenant : uuid event.tenantID with
      | none =>
          rw [isTenant] at succeeds
          cases succeeds
      | some tenant =>
          rw [isTenant] at succeeds
          refine ⟨by simpa using invalid, tenant, descendants, rfl, rfl, ?_⟩
          exact Result.bind_eq_ok.mp (Result.mapError_eq_ok.mp succeeds)

theorem reconcileEvent_adds (succeeds : reconcileEvent uuid ledger database event = .ok after) :
    database ≤ after ∧ Filed uuid ledger after event := by
  have whole := succeeds
  unfold Filed
  unfold reconcileEvent at succeeds
  split at succeeds
  · cases succeeds
  · rename_i payload content
    obtain ⟨valid, tenant, descendants, isTenant, determined, withDirective, inserted,
      filed⟩ := reconcileEvent_eq_ok content whole
    obtain ⟨extended, present⟩ := insertDirectiveIfAbsent_adds inserted
    obtain ⟨extendedAgain, jobs⟩ := fileJobs_adds filed
    exact ⟨extended.trans extendedAgain, tenant, descendants, valid, determined, isTenant,
      present.of_le extendedAgain, jobs⟩
  · cases succeeds
    exact ⟨le_rfl, trivial⟩

theorem absorbs_reconcileEvent (uuid : Bytes → Option Tenant) (ledger : Ledger) (event : Event) :
    Absorbs fun database : Database Tenant => reconcileEvent uuid ledger database event :=
  .of_present reconcileEvent_adds Filed.of_le reconcileEvent_of_filed

theorem mem_directives_reconcile {events : List Event} {row : DirectiveRow Tenant}
    (succeeds : events.foldlM (reconcileEvent uuid ledger) database = .ok after)
    (member : row ∈ after.directives) :
    row ∈ database.directives ∨
      ∃ event ∈ events, row.directiveID = event.id ∧ row.seq = event.sequence := by
  have adds : database.AddsOnly after
      (fun row => ∃ event ∈ events, row.directiveID = event.id ∧ row.seq = event.sequence)
      (fun _ => True) (fun _ => True) := by
    refine Result.foldlM_keeps (database.AddsOnly · _ _ _) ?_ succeeds database.addsOnly_self
    intro event eventMember before next step kept
    have whole := step
    unfold reconcileEvent at step
    split at step
    · cases step
    · rename_i payload content
      obtain ⟨_, tenant, descendants, _, _, withDirective, inserted, filed⟩ :=
        reconcileEvent_eq_ok content whole
      have keptDirective := Database.AddsOnly.insertDirectiveIfAbsent
        ⟨event, eventMember, rfl, rfl⟩ inserted kept
      exact keptDirective.fileJobs (fun _ => trivial) (fun _ => trivial) filed
    · cases step
      exact kept
  exact adds.directives row member

/-- The same directives, the same jobs and the same keys of outbox entries. -/
structure Database.SameRows (first second : Database Tenant) : Prop where
  directives : ∀ row, row ∈ first.directives ↔ row ∈ second.directives
  jobs : ∀ row, row ∈ first.jobs ↔ row ∈ second.jobs
  outbox : ∀ tenant key,
    (∃ row ∈ first.outbox, row.tenant = tenant ∧ row.idempotencyKey = key) ↔
      ∃ row ∈ second.outbox, row.tenant = tenant ∧ row.idempotencyKey = key

omit [DecidableEq Tenant] in
theorem Database.sameRows_self (database : Database Tenant) : database.SameRows database :=
  ⟨fun _ => Iff.rfl, fun _ => Iff.rfl, fun _ _ => Iff.rfl⟩

theorem any_eq_true_of_mem_iff {α : Type} {rows others : List α} {holds : α → Bool}
    (same : ∀ row, row ∈ rows ↔ row ∈ others) (found : rows.any holds = true) :
    others.any holds = true := by
  obtain ⟨row, member, row_holds⟩ := List.any_eq_true.mp found
  exact List.any_eq_true.mpr ⟨row, (same row).mp member, row_holds⟩

theorem isSome_queued_iff {tenant : Tenant} {key : Bytes} :
    (database.queued tenant key).isSome = true ↔
      ∃ row ∈ database.outbox, row.tenant = tenant ∧ row.idempotencyKey = key := by
  unfold Database.queued
  rw [List.find?_isSome]
  simp

theorem Filed.of_sameRows (extended : database ≤ later) (same : later.SameRows database)
    (filed : Filed uuid ledger later event) :
    Filed uuid ledger database event := by
  unfold Filed at filed ⊢
  split at filed
  · exact filed
  · obtain ⟨tenant, descendants, directive⟩ := filed
    refine ⟨tenant, descendants, directive.valid, directive.determined, directive.isTenant,
      ⟨directive.directive.1, any_eq_true_of_mem_iff same.directives directive.directive.2⟩, ?_⟩
    intro credential member
    obtain ⟨job, storableKey, existing, queued, command⟩ := directive.jobs credential member
    refine ⟨⟨job.1, any_eq_true_of_mem_iff same.jobs job.2⟩, storableKey, ?_⟩
    -- the oldest entry with the key is the oldest in the extension too
    have present := isSome_queued_iff.mp (Option.isSome_of_mem queued)
    obtain ⟨older, found⟩ := Option.isSome_iff_exists.mp
      (isSome_queued_iff.mpr ((same.outbox _ _).mp present))
    cases (queued_of_le extended found).symm.trans queued
    exact ⟨existing, found, command⟩
  · trivial

theorem utf8Valid_of_storable {text : Bytes} (isStorable : storable text = true) :
    Go.utf8Valid text = true := by
  unfold storable at isStorable
  exact (Bool.and_eq_true_iff.mp isStorable).1

theorem addsOnly_commitDirective {directive : Directive} {directiveID : Bytes} {watermark seq : Nat}
    {descendants : List Bytes}
    (committed : commitDirective uuid database directive directiveID watermark seq descendants =
      .ok after) :
    database ≤ after ∧ database.AddsOnly after (fun row => row.directiveID = directiveID)
      (fun row => row.directiveID = directiveID)
      (fun row => ∃ tenant tenantID reason credential,
        row = jobEntry tenant tenantID directiveID reason false credential) := by
  obtain ⟨tenant, _, withDirective, inserted, filed⟩ := commitDirective_eq_ok committed
  have extended := (fileJobs_adds filed).1
  obtain ⟨_, _, rfl⟩ := insertDirective_eq_ok inserted
  refine ⟨⟨(List.prefix_append _ _).trans extended.1, extended.2.1, extended.2.2⟩, ?_⟩
  refine Database.AddsOnly.fileJobs (fun _ => rfl) (fun credential => ⟨_, _, _, credential, rfl⟩)
    filed ?_
  refine ⟨forall_mem_concat (fun _ member => .inl member) (.inr rfl), ?_, ?_⟩
  · exact fun _ member => .inl member
  · exact fun _ member => .inl member

/-- What is filed of another directive was filed before the transaction. -/
theorem Filed.before_commit {directive : Directive} {directiveID : Bytes} {watermark seq : Nat}
    {descendants : List Bytes}
    (committed : commitDirective uuid database directive directiveID watermark seq descendants =
      .ok after)
    (different : event.id ≠ directiveID)
    (filed : Filed uuid ledger after event) :
    Filed uuid ledger database event := by
  obtain ⟨extended, adds⟩ := addsOnly_commitDirective committed
  unfold Filed at filed ⊢
  split at filed
  · exact filed
  · obtain ⟨tenant, others, directive⟩ := filed
    refine ⟨tenant, others, directive.valid, directive.determined, directive.isTenant,
      ⟨directive.directive.1, ?_⟩, ?_⟩
    · obtain ⟨row, member, same⟩ := List.any_eq_true.mp directive.directive.2
      refine List.any_eq_true.mpr ⟨row, ?_, same⟩
      refine (adds.directives row member).resolve_right fun named => different ?_
      simp only [DirectiveRow.sameKey, directiveRow, Bool.and_eq_true, beq_iff_eq] at same
      exact same.2.trans named
    · intro credential credentialMember
      obtain ⟨job, storableKey, existing, queued, command⟩ :=
        directive.jobs credential credentialMember
      refine ⟨⟨job.1, ?_⟩, storableKey, ?_⟩
      · obtain ⟨row, member, same⟩ := List.any_eq_true.mp job.2
        refine List.any_eq_true.mpr ⟨row, ?_, same⟩
        refine (adds.jobs row member).resolve_right fun named => different ?_
        simp only [JobRow.sameKey, jobRow, Bool.and_eq_true, beq_iff_eq] at same
        exact same.1.2.trans named
      · -- an entry that the transaction added is of another command
        have idValid : Go.utf8Valid event.id = true := by
          have accepted := directive.directive.1
          unfold DirectiveRow.refusal at accepted
          split_ifs at accepted with texts
          simp only [directiveRow, Bool.and_eq_true] at texts
          exact utf8Valid_of_storable texts.1.1
        cases found : database.queued (jobEntry tenant event.tenantID event.id _ false
            credential).tenant (jobEntry tenant event.tenantID event.id _ false
            credential).idempotencyKey with
        | some older =>
            cases (queued_of_le extended found).symm.trans queued
            exact ⟨existing, rfl, command⟩
        | none =>
            have member := List.mem_of_find?_eq_some queued
            have holds := List.find?_some queued
            rcases adds.outbox existing member with before | ⟨_, _, _, _, rfl⟩
            · unfold Database.queued at found
              exact absurd holds (List.find?_eq_none.mp found existing before)
            · refine absurd ?_ different
              exact JobPayload.directiveID_eq_of_encode_eq idValid
                (congrArg Command.payload command).symm
  · trivial

theorem filed_appendDirective {eventID : Bytes} {directive : Directive} :
    Filed uuid (ledger.appendDirective eventID directive) database event ↔
      Filed uuid ledger database event := by
  have same : ∀ tenantID subject watermark,
      (ledger.appendDirective eventID directive).descendantsAsOf tenantID subject watermark =
        ledger.descendantsAsOf tenantID subject watermark :=
    ledger.descendantsAsOf_append_directive eventID directive.tenantID _
  unfold Filed
  split
  · exact Iff.rfl
  · constructor
    · rintro ⟨tenant, descendants, filed⟩
      exact ⟨tenant, descendants, filed.valid, (same _ _ _).symm.trans filed.determined,
        filed.isTenant, filed.directive, filed.jobs⟩
    · rintro ⟨tenant, descendants, filed⟩
      exact ⟨tenant, descendants, filed.valid, (same _ _ _).trans filed.determined,
        filed.isTenant, filed.directive, filed.jobs⟩
  · exact Iff.rfl

/-- The event of a directive, as the ledger has it. -/
def Directive.recorded (directive : Directive) (eventID : Bytes) (watermark : Nat) : Event where
  id := eventID
  tenantID := directive.tenantID
  sequence := watermark + 1
  content := .revocationDirective (.known (directive.directiveEvent watermark))

/-- A call appends its event, whatever becomes of it then. -/
structure Fate.Appends (fate : Fate) (eventID : Bytes) : Prop where
  event : fate.eventID = eventID
  head : fate.headFailure = none
  replay : fate.replayFailure = none
  writes : fate.appended.writes = true

section Crash

variable {world full : World Tenant} {fate crash : Fate} {directive : Directive}
  {result : DirectiveResult}
  (completed : enqueueDirective uuid world fate directive = (full, .ok result))

include completed

/-- A call that appends its event ends with its transaction or without it. -/
theorem enqueueDirective_interrupted (appends : crash.Appends fate.eventID) :
    (enqueueDirective uuid world crash directive).1 = ⟨full.ledger, world.database⟩ ∨
      (enqueueDirective uuid world crash directive).1 = full := by
  obtain ⟨valid, _, _, ledger_eq, descendants, determined, committed⟩ :=
    enqueueDirective_eq_ok completed
  rw [enqueueDirective_of_determined valid appends.head appends.replay determined]
  have ledger_crash : world.ledger.appendDirective crash.eventID directive = full.ledger := by
    rw [appends.event]
    exact ledger_eq.symm
  cases appended : crash.appended with
  | lost cause =>
      have writes := appends.writes
      rw [appended] at writes
      cases writes
  | unacknowledged cause =>
      left
      dsimp only
      rw [ledger_crash]
  | done =>
      have transaction : commitDirective uuid world.database directive
          (directive.key crash.eventID) world.ledger.head
          (world.ledger.appendDirective crash.eventID directive).head descendants =
            .ok full.database := by
        rw [appends.event]
        exact committed
      unfold recordDirective
      dsimp only
      rw [transaction]
      cases crash.committed with
      | lost cause =>
          left
          dsimp only
          rw [ledger_crash]
      | done =>
          right
          dsimp only
          rw [ledger_crash]
      | unacknowledged cause =>
          right
          dsimp only
          rw [ledger_crash]

theorem enqueueDirective_without_transaction (cause : String) :
    (enqueueDirective uuid world { fate with committed := .lost cause } directive).1 =
      ⟨full.ledger, world.database⟩ := by
  obtain ⟨valid, head, replay, ledger_eq, descendants, determined, _⟩ :=
    enqueueDirective_eq_ok completed
  have crashed : enqueueDirective uuid world { fate with committed := .lost cause } directive = _ :=
    enqueueDirective_of_determined valid head replay determined
  rw [enqueueDirective_of_determined valid head replay determined] at completed
  rw [crashed, ledger_eq]
  cases appended : fate.appended with
  | lost cause =>
      rw [appended] at completed
      cases completed
  | unacknowledged cause => rfl
  | done => rfl

theorem appends_of_completed :
    fate.Appends fate.eventID := by
  obtain ⟨valid, head, replay, _, descendants, determined, _⟩ := enqueueDirective_eq_ok completed
  refine ⟨rfl, head, replay, ?_⟩
  rw [enqueueDirective_of_determined valid head replay determined] at completed
  cases appended : fate.appended with
  | lost cause =>
      rw [appended] at completed
      cases completed
  | unacknowledged cause => rfl
  | done => rfl

theorem reconcileEvent_recorded (key_eq : directive.key fate.eventID = fate.eventID) :
    reconcileEvent uuid full.ledger world.database
      (directive.recorded fate.eventID world.ledger.head) = .ok full.database := by
  obtain ⟨valid, _, _, ledger_eq, descendants, determined, committed⟩ :=
    enqueueDirective_eq_ok completed
  obtain ⟨tenant, isTenant, withDirective, inserted, filed⟩ := commitDirective_eq_ok committed
  obtain ⟨accepted, absent, rfl⟩ := insertDirective_eq_ok inserted
  rw [key_eq] at accepted absent filed
  have texts : storable fate.eventID = true ∧ storable directive.subject = true ∧
      storable directive.reason = true := by
    unfold DirectiveRow.refusal at accepted
    split_ifs at accepted with texts
    simpa [directiveRow, and_assoc] using texts
  have subject_eq := Go.throughJson_of_utf8Valid (utf8Valid_of_storable texts.2.1)
  have reason_eq := Go.throughJson_of_utf8Valid (utf8Valid_of_storable texts.2.2)
  have reasonValid : validReason directive.reason = true := by
    unfold Directive.validate at valid
    split_ifs at valid with _ _ isValid
    exact isValid
  have descendants_eq : full.ledger.descendantsAsOf directive.tenantID directive.subject
      world.ledger.head = some descendants := by
    rw [ledger_eq]
    exact (world.ledger.descendantsAsOf_append_directive _ _ _ _ _ _).trans determined
  unfold reconcileEvent Directive.recorded
  dsimp only [Directive.directiveEvent]
  rw [subject_eq, reason_eq, if_neg (by simp [reasonValid]), descendants_eq, isTenant]
  refine Result.mapError_eq_ok.mpr (Result.bind_eq_ok.mpr ⟨_, ?_, filed⟩)
  unfold Database.insertDirectiveIfAbsent
  rw [accepted]
  exact if_neg (by simp [absent])

theorem events_of_completed :
    full.ledger.events =
      world.ledger.events ++ [directive.recorded fate.eventID world.ledger.head] := by
  obtain ⟨_, _, _, ledger_eq, _⟩ := enqueueDirective_eq_ok completed
  rw [ledger_eq]
  rfl

theorem reconcile_of_filed (key_eq : directive.key fate.eventID = fate.eventID)
    (filed : ∀ event ∈ world.ledger.events, Filed uuid world.ledger world.database event)
    {database : Database Tenant} (reached : database = world.database ∨ database = full.database) :
    full.ledger.events.foldlM (reconcileEvent uuid full.ledger) database = .ok full.database := by
  have restored := reconcileEvent_recorded completed key_eq
  have extended := (reconcileEvent_adds restored).1
  have earlier : world.ledger.events.foldlM (reconcileEvent uuid full.ledger) database =
      .ok database := by
    refine foldlM_of_settled fun event member => reconcileEvent_of_filed ?_
    obtain ⟨_, _, _, ledger_eq, _⟩ := enqueueDirective_eq_ok completed
    rw [ledger_eq, filed_appendDirective]
    rcases reached with rfl | rfl
    · exact filed event member
    · exact (filed event member).of_le extended
  rw [events_of_completed completed, List.foldlM_append, earlier]
  simp only [List.foldlM_cons, List.foldlM_nil, bind_pure]
  rcases reached with rfl | rfl
  · exact restored
  · exact (absorbs_reconcileEvent uuid full.ledger _).settled restored le_rfl

/-- A pass that restores the row of the directive restores it under the id of
the event. -/
theorem key_eq_of_restored {restored : Database Tenant}
    (succeeds : full.ledger.events.foldlM (reconcileEvent uuid full.ledger) world.database =
      .ok restored)
    (same : restored.SameRows full.database) :
    directive.key fate.eventID = fate.eventID := by
  obtain ⟨_, _, _, _, descendants, _, committed⟩ := enqueueDirective_eq_ok completed
  obtain ⟨tenant, _, withDirective, inserted, filed⟩ := commitDirective_eq_ok committed
  have extended := (fileJobs_adds filed).1
  obtain ⟨_, absent, rfl⟩ := insertDirective_eq_ok inserted
  have member := (same.directives _).mpr
    (extended.1.subset (List.mem_append_right _ (List.mem_singleton_self _)))
  rcases mem_directives_reconcile succeeds member with before | ⟨event, eventMember, id_eq, seq_eq⟩
  · have present := List.any_eq_false.mp absent _ before
    simp [DirectiveRow.sameKey] at present
  · rw [events_of_completed completed] at eventMember
    rcases List.mem_append.mp eventMember with earlier | last
    · -- the sequence number of the row is that of the last event
      have numbered := (world.ledger.numbered event earlier).2
      change world.ledger.head + 1 = event.sequence at seq_eq
      omega
    · rw [List.mem_singleton.mp last] at id_eq
      exact id_eq

theorem filed_of_restored {restored : Database Tenant}
    (fresh : ∀ event ∈ world.ledger.events, event.id ≠ fate.eventID)
    (key_eq : directive.key fate.eventID = fate.eventID)
    (succeeds : full.ledger.events.foldlM (reconcileEvent uuid full.ledger) full.database =
      .ok restored)
    (same : restored.SameRows full.database) :
    ∀ event ∈ world.ledger.events, Filed uuid world.ledger world.database event := by
  intro event member
  obtain ⟨_, _, _, ledger_eq, descendants, _, committed⟩ := enqueueDirective_eq_ok completed
  have extended := (Absorbs.foldlM (absorbs_reconcileEvent uuid full.ledger) _).le succeeds
  have settled : reconcileEvent uuid full.ledger restored event = .ok restored := by
    refine Absorbs.settled_of_mem (absorbs_reconcileEvent uuid full.ledger) ?_ succeeds
    rw [events_of_completed completed]
    exact List.mem_append_left _ member
  have filed := ((reconcileEvent_adds settled).2.of_sameRows extended same)
  rw [ledger_eq, filed_appendDirective] at filed
  rw [key_eq] at committed
  exact filed.before_commit committed (fresh event member)

end Crash

theorem Directive.key_eq_iff {directive : Directive} {eventID : Bytes} :
    directive.key eventID = eventID ↔
      directive.directiveID = [] ∨ directive.directiveID = eventID := by
  unfold Directive.key
  split_ifs with absent
  · simp [List.isEmpty_iff.mp absent]
  · have present : directive.directiveID ≠ [] := by simpa using absent
    simp [present]

/-- From every crash after the append, and from none, a pass leaves the rows of
the call that was not interrupted, exactly when the directive has no id but that
of its event and every earlier directive is filed. -/
theorem reconcile_restores_iff
    (uuid : Bytes → Option Tenant)
    (world full : World Tenant)
    (fate : Fate)
    (directive : Directive)
    (result : DirectiveResult)
    (completed : enqueueDirective uuid world fate directive = (full, .ok result))
    (fresh : ∀ event ∈ world.ledger.events, event.id ≠ fate.eventID) :
    (∀ crash : Fate, crash.Appends fate.eventID →
      (reconcile uuid (enqueueDirective uuid world crash directive).1 1).error = none ∧
        (reconcile uuid (enqueueDirective uuid world crash directive).1 1).database.SameRows
          full.database) ↔
      (directive.directiveID = [] ∨ directive.directiveID = fate.eventID) ∧
        ∀ event ∈ world.ledger.events, Filed uuid world.ledger world.database event := by
  rw [← Directive.key_eq_iff]
  constructor
  · intro restores
    have appends := appends_of_completed completed
    -- the crash before the transaction, and no crash
    have lost := restores { fate with committed := .lost "" } ⟨rfl, appends.head, appends.replay,
      appends.writes⟩
    have whole := restores fate appends
    rw [enqueueDirective_without_transaction completed] at lost
    rw [completed] at whole
    have key_eq := key_eq_of_restored completed (reconcile_one_eq_none.mp ⟨lost.1, rfl⟩) lost.2
    exact ⟨key_eq,
      filed_of_restored completed fresh key_eq (reconcile_one_eq_none.mp ⟨whole.1, rfl⟩) whole.2⟩
  · rintro ⟨key_eq, filed⟩ crash appends
    have restored : (reconcile uuid (enqueueDirective uuid world crash directive).1 1).error =
        none ∧ (reconcile uuid (enqueueDirective uuid world crash directive).1 1).database =
          full.database := by
      rw [reconcile_one_eq_none]
      rcases enqueueDirective_interrupted completed appends with crashed | crashed
      · rw [crashed]
        exact reconcile_of_filed completed key_eq filed (.inl rfl)
      · rw [crashed]
        exact reconcile_of_filed completed key_eq filed (.inr rfl)
    refine ⟨restored.1, ?_⟩
    rw [restored.2]
    exact full.database.sameRows_self

end

/-- A tenant with one delegation and one credential issued over it. -/
def delegatedWorld : World Bytes where
  ledger :=
    ((emptyWorld.ledger.append (bytes "evt-1") uuidTenant
      (.delegationRecorded (.known ⟨[1], [], true, bytes "root", bytes "agent-1"⟩))).append
      (bytes "evt-2") uuidTenant
      (.issuanceRecorded (.known ⟨bytes "credential-1", [], [1]⟩)))
  database := ⟨[], [], []⟩

/-- A directive against the agent, with the given id. -/
def agentDirective (directiveID : Bytes) : Directive where
  tenantID := uuidTenant
  directiveID := directiveID
  subject := bytes "agent-1"
  reason := bytes "compromise"

/-- The directive without an id is restored from every crash. -/
theorem reconcile_restores_iff_agentDirective :
    (∀ event ∈ delegatedWorld.ledger.events, event.id ≠ (smoothFate "89abcde0").eventID) ∧
    ∀ crash : Fate, crash.Appends (smoothFate "89abcde0").eventID →
      (reconcile some (enqueueDirective some delegatedWorld crash (agentDirective [])).1 1).error =
          none ∧
        (reconcile some (enqueueDirective some delegatedWorld crash
          (agentDirective [])).1 1).database.SameRows
          (enqueueDirective some delegatedWorld (smoothFate "89abcde0")
            (agentDirective [])).1.database :=
  ⟨by decide +kernel,
    (reconcile_restores_iff some delegatedWorld _ (smoothFate "89abcde0") (agentDirective [])
      ⟨(smoothFate "89abcde0").eventID, (smoothFate "89abcde0").eventID, 2,
        [bytes "credential-1"]⟩
      (Prod.ext rfl (by decide +kernel)) (by decide +kernel)).mpr
      ⟨.inl rfl, List.forall_mem_cons.mpr ⟨trivial, List.forall_mem_cons.mpr
        ⟨trivial, List.forall_mem_nil _⟩⟩⟩⟩

/-- The directive with an id gets a second row under the id of its event. -/
theorem explicit_directive_recorded_twice :
    ¬ ∀ (world full : World Bytes) (fate : Fate) (directive : Directive)
        (result : DirectiveResult),
      enqueueDirective some world fate directive = (full, .ok result) →
      (∀ event ∈ world.ledger.events, event.id ≠ fate.eventID) →
      (reconcile some full 1).error = none ∧
        (reconcile some full 1).database.SameRows full.database := by
  intro adds_nothing
  have settled := adds_nothing delegatedWorld _ (smoothFate "89abcde0")
    (agentDirective (bytes "directive-1"))
    ⟨bytes "directive-1", (smoothFate "89abcde0").eventID, 2, [bytes "credential-1"]⟩
    (Prod.ext rfl (by decide +kernel)) (by decide +kernel)
  have again := (settled.2.directives (directiveRow uuidTenant
    (smoothFate "89abcde0").eventID (bytes "agent-1") (bytes "compromise") 2 3)).mp
    (by decide +kernel)
  revert again
  decide +kernel

end Trstctl.Agentid.Revoke
