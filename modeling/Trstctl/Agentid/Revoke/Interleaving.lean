import Trstctl.Agentid.Revoke.Terminal

/-!
# Interleaved calls on a directive

What the steps leave unchanged: recorded effects stay, and only one step sets a
directive terminal.  From it follows what holds at that step in every schedule
that inserts no job between the read of a `Transition` and its transaction.
-/

namespace Trstctl.Agentid.Revoke

open Go (Bytes bytes)
open Interaction (Pool Obeys)

section Steps

variable {Tenant : Type} [DecidableEq Tenant] {uuid : Bytes → Option Tenant}
  {records : Records Tenant} {circumstance : Circumstance}

variable {tenantID : Bytes}

omit [DecidableEq Tenant] in
theorem transact_keeps {α : Type}
    {body : Tenant → Except StoreError (Records Tenant × α)} (property : Records Tenant → Prop)
    (start : property records)
    (kept : ∀ tenant outcome, uuid tenantID = some tenant → body tenant = .ok outcome →
      property outcome.1) :
    property (transact uuid circumstance records tenantID body).1 := by
  unfold transact
  cases isTenant : uuid tenantID with
  | none => exact start
  | some tenant =>
      cases circumstance.write with
      | lost cause => exact start
      | done =>
          dsimp only
          cases result : body tenant with
          | error error => exact start
          | ok outcome => exact kept tenant outcome isTenant result
      | unacknowledged cause =>
          dsimp only
          cases result : body tenant with
          | error error => exact start
          | ok outcome => exact kept tenant outcome isTenant result

variable {tenant : Tenant}

theorem publishEffect_le {database published : Database Tenant} {effect : NewEffect}
    (succeeds : publishEffect database tenant tenantID effect = .ok published) :
    database ≤ published := by
  unfold publishEffect at succeeds
  split_ifs at succeeds
  · exact (enqueueIfAbsent_adds succeeds).1
  · cases succeeds
    exact le_rfl

theorem recordEffect_eq_ok {effect : NewEffect} {after : Records Tenant} {recorded : Bool}
    (succeeds : records.recordEffect tenant tenantID effect = .ok (after, recorded)) :
    records.effects <+: after.effects ∧
      records.database.directives <+: after.database.directives := by
  unfold Records.recordEffect at succeeds
  split at succeeds
  · cases succeeds
  split at succeeds
  · cases succeeds
    exact ⟨List.prefix_rfl, List.prefix_rfl⟩
  dsimp only at succeeds
  split at succeeds
  · cases succeeds
  · rename_i database published
    cases succeeds
    exact ⟨List.prefix_append _ _, (publishEffect_le published).1⟩

/-- What one step leaves: recorded effects stay, and directives do unless the step
sets one terminal. -/
theorem after_grows (op : Op) :
    records.effects <+: ((environment uuid).after records op circumstance).effects ∧
      ((∀ tenantID directiveID, op ≠ .markTerminal tenantID directiveID) →
        records.database.directives <+:
          ((environment uuid).after records op circumstance).database.directives) := by
  cases op with
  | markTerminal tenantID directiveID =>
      refine ⟨?_, fun different => absurd rfl (different tenantID directiveID)⟩
      refine transact_keeps (fun after => records.effects <+: after.effects) List.prefix_rfl ?_
      intro tenant outcome _ result
      split_ifs at result
      cases result
      exact List.prefix_rfl
  | appendEvent tenantID content =>
      change _ <+: (appendEvent circumstance records tenantID content).1.effects ∧ (_ →
        _ <+: (appendEvent circumstance records tenantID content).1.database.directives)
      unfold appendEvent
      dsimp only
      split <;> exact ⟨List.prefix_rfl, fun _ => List.prefix_rfl⟩
  | fileFollowOn tenantID directiveID reason credentials =>
      refine transact_keeps (fun after => records.effects <+: after.effects ∧
        (_ → records.database.directives <+: after.database.directives))
        ⟨List.prefix_rfl, fun _ => List.prefix_rfl⟩ ?_
      intro tenant outcome _ result
      cases filed : fileJobs records.database tenant tenantID directiveID reason true
          credentials with
      | error error =>
          rw [filed] at result
          cases result
      | ok database =>
          rw [filed] at result
          cases result
          exact ⟨List.prefix_rfl, fun _ => (fileJobs_adds filed).1.1⟩
  | recordEffect tenantID effect =>
      refine transact_keeps (fun after => records.effects <+: after.effects ∧
        (_ → records.database.directives <+: after.database.directives))
        ⟨List.prefix_rfl, fun _ => List.prefix_rfl⟩ ?_
      intro tenant outcome _ result
      obtain ⟨effects, directives⟩ := recordEffect_eq_ok result
      exact ⟨effects, fun _ => directives⟩
  | fetchDirective tenantID directiveID => exact ⟨List.prefix_rfl, fun _ => List.prefix_rfl⟩
  | fetchJobs reading tenantID directiveID => exact ⟨List.prefix_rfl, fun _ => List.prefix_rfl⟩
  | fetchEffect tenantID directiveID key => exact ⟨List.prefix_rfl, fun _ => List.prefix_rfl⟩
  | checkedHead => exact ⟨List.prefix_rfl, fun _ => List.prefix_rfl⟩
  | replayEdges tenantID subject watermark => exact ⟨List.prefix_rfl, fun _ => List.prefix_rfl⟩
  | replayTerminal tenantID directiveID head => exact ⟨List.prefix_rfl, fun _ => List.prefix_rfl⟩
  | sign body => exact ⟨List.prefix_rfl, fun _ => List.prefix_rfl⟩

theorem isOpen_after {op : Op} {directiveID : Bytes}
    (isOpen : records.isOpen tenant directiveID = true)
    (closed : ((environment uuid).after records op circumstance).isOpen tenant directiveID =
      false) :
    ∃ tenantID, op = .markTerminal tenantID directiveID ∧ uuid tenantID = some tenant := by
  by_contra other
  have grows := (@after_grows _ _ uuid records circumstance op).2
  cases op with
  | markTerminal tenantID otherID =>
      have kept : ((environment uuid).after records (.markTerminal tenantID otherID)
          circumstance).isOpen tenant directiveID = true := by
        refine transact_keeps (fun after => after.isOpen tenant directiveID = true) isOpen ?_
        intro otherTenant outcome isTenant result
        split_ifs at result
        cases result
        obtain ⟨row, member, row_open⟩ := List.any_eq_true.mp isOpen
        refine List.any_eq_true.mpr ⟨row, List.mem_map.mpr ⟨row, member, if_neg ?_⟩, row_open⟩
        rintro ⟨tenant_eq, id_eq, _⟩
        simp only [Bool.and_eq_true, beq_iff_eq] at row_open
        refine other ⟨tenantID, ?_, ?_⟩
        · rw [← id_eq, row_open.1.2]
        · rw [isTenant, ← tenant_eq, row_open.1.1]
      rw [closed] at kept
      cases kept
  | _ =>
      have kept := any_of_prefix (grows fun _ _ same => nomatch same) isOpen
      change _ = false at closed
      unfold Records.isOpen at closed
      rw [closed] at kept
      cases kept

end Steps

section Runs

variable {Tenant : Type} [DecidableEq Tenant] {ι : Type} [DecidableEq ι]

/-- A job has evidence that verifies. -/
def Records.Evidenced (records : Records Tenant) (reader : Reader) (tenant : Tenant)
    (directiveID key : Bytes) : Prop :=
  ∃ effect, records.effect tenant directiveID key = some effect ∧ effect.verifies reader = true

/-- Every job of a directive has evidence that verifies. -/
def Records.AllEvidenced (records : Records Tenant) (reader : Reader) (tenant : Tenant)
    (directiveID : Bytes) : Prop :=
  ∀ job ∈ records.database.jobs, job.tenant = tenant → job.directiveID = directiveID →
    records.Evidenced reader tenant directiveID job.idempotencyKey

/-- The directive has no jobs but these. -/
def Records.JobsAmong (records : Records Tenant) (tenant : Tenant) (directiveID : Bytes)
    (keys : List Bytes) : Prop :=
  ∀ job ∈ records.database.jobs, job.tenant = tenant → job.directiveID = directiveID →
    job.idempotencyKey ∈ keys

/-- What a call has read of the jobs is all there is, and what it has verified
verifies. -/
structure Watch.Faithful (uuid : Bytes → Option Tenant) (reader : Reader)
    (records : Records Tenant) (watch : Watch) : Prop where
  jobs : ∀ tenant, uuid watch.tenantID = some tenant →
    records.JobsAmong tenant watch.directiveID watch.jobs
  verified : ∀ tenant, uuid watch.tenantID = some tenant → ∀ key ∈ watch.verified,
    records.Evidenced reader tenant watch.directiveID key

/-- What every call remembers is faithful. -/
def FaithfulWatches (uuid : Bytes → Option Tenant) (reader : Reader)
    (records : Records Tenant) (memory : ι → Option Watch) : Prop :=
  ∀ caller watch, memory caller = some watch → watch.Faithful uuid reader records

/-- The calls on the records, none of which has begun. -/
def startCalls (reader : Reader) (records : Records Tenant) (calls : ι → CascadeCall) :
    Pool Op (Answer Tenant) CallResult (Records Tenant) (Option Watch) ι :=
  .start (discipline reader) records fun caller => (calls caller).program reader

/-- A turn inserts no job of a directive whose jobs a `Transition` has read and not
yet acted on. -/
def Undisturbed (uuid : Bytes → Option Tenant) (reader : Reader)
    (pool : Pool Op (Answer Tenant) CallResult (Records Tenant) (Option Watch) ι)
    (turn : ι × Circumstance) : Prop :=
  ∀ caller watch, pool.memory caller = some watch →
    ∀ tenant, uuid watch.tenantID = some tenant →
      ∀ job ∈ (pool.step (environment uuid) (discipline reader) turn).state.database.jobs,
        job.tenant = tenant → job.directiveID = watch.directiveID →
        ∃ before ∈ pool.state.database.jobs, before.tenant = tenant ∧
          before.directiveID = watch.directiveID ∧
          before.idempotencyKey = job.idempotencyKey

variable {uuid : Bytes → Option Tenant} {reader : Reader} {records : Records Tenant}

theorem Records.Evidenced.after {tenant : Tenant} {directiveID key : Bytes}
    (evidenced : records.Evidenced reader tenant directiveID key) (op : Op)
    (circumstance : Circumstance) :
    ((environment uuid).after records op circumstance).Evidenced reader tenant directiveID
      key := by
  obtain ⟨effect, found, verifies⟩ := evidenced
  obtain ⟨rest, effects_eq⟩ := (@after_grows _ _ uuid records circumstance op).1
  refine ⟨effect, ?_, verifies⟩
  unfold Records.effect at found ⊢
  rw [← effects_eq, List.find?_append, found]
  rfl

omit [DecidableEq Tenant] in
theorem readTenant_eq_ok
    {α : Type} {circumstance : Circumstance} {tenantID : Bytes} {read : Tenant → α} {value : α}
    (succeeds : readTenant uuid circumstance tenantID read = .ok value) :
    ∃ tenant, uuid tenantID = some tenant ∧ value = read tenant := by
  unfold readTenant at succeeds
  split at succeeds
  · cases succeeds
  · cases succeeds
  · rename_i tenant _ isTenant
    cases succeeds
    exact ⟨tenant, isTenant, rfl⟩

/-- What is remembered after a step is faithful to the records after it. -/
theorem faithful_advance
    {memory : Option Watch} {op : Op} {circumstance : Circumstance} {watch : Watch}
    (faithful : ∀ watch, memory = some watch → watch.Faithful uuid reader
      ((environment uuid).after records op circumstance))
    (advanced : advance reader memory op ((environment uuid).answer records op circumstance) =
      some watch) :
    watch.Faithful uuid reader ((environment uuid).after records op circumstance) := by
  cases op with
  | fetchJobs reading tenantID directiveID =>
      cases reading with
      | coverage => exact faithful watch advanced
      | verdict =>
          change advance reader memory _ (readTenant uuid circumstance tenantID _) = _ at advanced
          cases answer : readTenant uuid circumstance tenantID
              (fun tenant => records.jobs tenant directiveID) with
          | error error =>
              rw [answer] at advanced
              cases advanced
          | ok jobs =>
              rw [answer] at advanced
              cases advanced
              obtain ⟨reader, isReader, rfl⟩ := readTenant_eq_ok answer
              refine ⟨?_, fun _ _ _ member => nomatch member⟩
              intro tenant isTenant job member tenant_eq id_eq
              cases isReader.symm.trans isTenant
              refine List.mem_map_of_mem ((List.perm_insertionSort _ _).mem_iff.mpr ?_)
              exact List.mem_filter.mpr ⟨member, by simp [tenant_eq, id_eq]⟩
  | fetchEffect tenantID directiveID key =>
      change advance reader memory _ (readTenant uuid circumstance tenantID _) = _ at advanced
      cases answer : readTenant uuid circumstance tenantID
          (fun tenant => records.effect tenant directiveID key) with
      | error error =>
          rw [answer] at advanced
          exact faithful watch advanced
      | ok found =>
          rw [answer] at advanced
          cases found with
          | none => exact faithful watch advanced
          | some effect =>
              obtain ⟨earlier, isEarlier, rfl⟩ := Option.map_eq_some_iff.mp advanced
              have earlierFaithful := faithful earlier isEarlier
              split_ifs with verifies
              · obtain ⟨effectVerifies, sameTenant, sameDirective⟩ := verifies
                refine ⟨earlierFaithful.jobs, ?_⟩
                intro tenant isTenant other member
                rcases List.mem_cons.mp member with rfl | before
                · obtain ⟨reader, isReader, found⟩ := readTenant_eq_ok answer
                  change uuid earlier.tenantID = some tenant at isTenant
                  rw [sameTenant] at isTenant
                  cases isReader.symm.trans isTenant
                  rw [← sameDirective] at found
                  exact ⟨effect, found.symm, effectVerifies⟩
                · exact earlierFaithful.verified tenant isTenant other before
              · exact earlierFaithful
  | checkedHead =>
      change advance reader memory .checkedHead (readLog circumstance _) = _ at advanced
      cases answer : readLog circumstance records.ledger.head with
      | error error =>
          rw [answer] at advanced
          cases advanced
      | ok head =>
          rw [answer] at advanced
          exact faithful watch (Option.filter_eq_some_iff.mp advanced).1
  | replayTerminal tenantID directiveID head =>
      change advance reader memory (.replayTerminal tenantID directiveID head)
        (readLog circumstance _) = _ at advanced
      cases answer : readLog circumstance
          (records.hasTerminalEvent tenantID directiveID head) with
      | error error =>
          rw [answer] at advanced
          cases advanced
      | ok persisted =>
          rw [answer] at advanced
          cases persisted with
          | true => cases advanced
          | false => exact faithful watch advanced
  | sign body =>
      change advance reader memory (.sign body) (readLog circumstance _) = _ at advanced
      cases answer : readLog circumstance circumstance.signed with
      | error error =>
          rw [answer] at advanced
          cases advanced
      | ok signed =>
          rw [answer] at advanced
          exact faithful watch advanced
  | markTerminal tenantID directiveID => cases advanced
  | fetchDirective tenantID directiveID => exact faithful watch advanced
  | replayEdges tenantID subject watermark => exact faithful watch advanced
  | appendEvent tenantID content => exact faithful watch advanced
  | fileFollowOn tenantID directiveID reason credentials => exact faithful watch advanced
  | recordEffect tenantID effect => exact faithful watch advanced

section Schedules

variable {pool : Pool Op (Answer Tenant) CallResult (Records Tenant) (Option Watch) ι}
  {turn : ι × Circumstance} {op : Op} {next : Answer Tenant op → Call Tenant CallResult}

theorem state_step (remaining : pool.remaining turn.1 = .ask op next) :
    (pool.step (environment uuid) (discipline reader) turn).state =
      (environment uuid).after pool.state op turn.2 := by
  unfold Pool.step
  rw [remaining]

/-- A turn that inserts no job behind a call keeps what the calls remember
faithful. -/
theorem faithfulWatches_step (faithful : FaithfulWatches uuid reader pool.state pool.memory)
    (undisturbed : Undisturbed uuid reader pool turn)
    (remaining : pool.remaining turn.1 = .ask op next) :
    FaithfulWatches uuid reader ((environment uuid).after pool.state op turn.2)
      (Function.update pool.memory turn.1 (advance reader (pool.memory turn.1) op
        ((environment uuid).answer pool.state op turn.2))) := by
  have kept : ∀ caller watch, pool.memory caller = some watch →
      watch.Faithful uuid reader ((environment uuid).after pool.state op turn.2) := by
    intro caller watch remembered
    obtain ⟨jobs, verified⟩ := faithful caller watch remembered
    constructor
    · intro tenant isTenant job member tenant_eq id_eq
      rw [← state_step remaining] at member
      obtain ⟨before, beforeMember, beforeTenant, beforeID, key_eq⟩ :=
        undisturbed caller watch remembered tenant isTenant job member tenant_eq id_eq
      rw [← key_eq]
      exact jobs tenant isTenant before beforeMember beforeTenant beforeID
    · intro tenant isTenant key member
      exact (verified tenant isTenant key member).after op turn.2
  intro caller watch remembered
  by_cases same : caller = turn.1
  · subst same
    rw [Function.update_self] at remembered
    exact faithful_advance (kept turn.1) remembered
  · rw [Function.update_of_ne same] at remembered
    exact kept caller watch remembered

theorem sound_run (records : Records Tenant) (calls : ι → CascadeCall)
    (schedule : List (ι × Circumstance))
    (undisturbed : (startCalls reader records calls).EachTurn (environment uuid)
      (discipline reader) (Undisturbed uuid reader) schedule) :
    ((startCalls reader records calls).run (environment uuid) (discipline reader)
      schedule).Sound (environment uuid) (discipline reader)
        (FaithfulWatches uuid reader) := by
  refine Pool.Sound.run ?_ ?_ schedule undisturbed
  · intro pool turn op next faithful admitted remaining _
    exact faithfulWatches_step faithful admitted remaining
  · refine ⟨fun caller => obeys_program (calls caller), ?_⟩
    intro caller watch remembered
    cases remembered

/-- In a schedule that inserts no job between the read of a `Transition` and its
transaction, every job of a directive has evidence that verifies at the step
that sets it terminal. -/
theorem terminal_jobs_evidenced
    (uuid : Bytes → Option Tenant)
    (reader : Reader)
    (records : Records Tenant)
    (calls : ι → CascadeCall)
    (schedule : List (ι × Circumstance))
    (turn : ι × Circumstance)
    (tenant : Tenant)
    (directiveID : Bytes)
    (undisturbed : (startCalls reader records calls).EachTurn (environment uuid)
      (discipline reader) (Undisturbed uuid reader) schedule)
    (isOpen : ((startCalls reader records calls).run (environment uuid) (discipline reader)
      schedule).state.isOpen tenant directiveID = true)
    (closed : ((startCalls reader records calls).run (environment uuid) (discipline reader)
      (schedule ++ [turn])).state.isOpen tenant directiveID = false) :
    ((startCalls reader records calls).run (environment uuid) (discipline reader)
      schedule).state.AllEvidenced reader tenant directiveID := by
  have sound := sound_run records calls schedule undisturbed
  unfold Pool.run at closed
  rw [List.foldl_append] at closed
  change ((Pool.run (environment uuid) (discipline reader) _ schedule).step _ _ turn).state.isOpen
    tenant directiveID = false at closed
  generalize (startCalls reader records calls).run (environment uuid) (discipline reader)
    schedule = pool at sound isOpen closed ⊢
  cases remaining : pool.remaining turn.1 with
  | done result =>
      unfold Pool.step at closed
      rw [remaining] at closed
      rw [isOpen] at closed
      cases closed
  | ask op next =>
      rw [state_step remaining] at closed
      obtain ⟨tenantID, rfl, isTenant⟩ := isOpen_after isOpen closed
      have obeys := sound.obeys turn.1
      rw [remaining] at obeys
      obtain ⟨watch, remembered, rfl, rfl, covers⟩ := obeys.1
      obtain ⟨jobs, verified⟩ := sound.holds turn.1 watch remembered
      intro job member tenant_eq id_eq
      exact verified tenant isTenant _ (covers _ (jobs tenant isTenant job member tenant_eq id_eq))

end Schedules

theorem undisturbed_of_jobs_eq
    {pool : Pool Op (Answer Tenant) CallResult (Records Tenant) (Option Watch) ι}
    {turn : ι × Circumstance}
    (same : (pool.step (environment uuid) (discipline reader) turn).state.database.jobs =
      pool.state.database.jobs) :
    Undisturbed uuid reader pool turn := by
  intro caller watch remembered tenant isTenant job member tenant_eq id_eq
  rw [same] at member
  exact ⟨job, member, tenant_eq, id_eq, rfl⟩

end Runs

/-- The evidence of the job of the first credential. -/
def firstEvidence : CompletionEvidence where
  tenantID := uuidTenant
  directiveID := bytes "directive-1"
  idempotencyKey := jobIdempotencyKey (bytes "directive-1") (bytes "credential-1")
  credentialID := bytes "credential-1"
  effectClass := bytes "revoke"
  completedAt := 1
  executor := bytes "executor-1"
  signature := []
  publicKey := []

/-- The reading of that evidence, with one good signature. -/
def firstReader : Reader where
  unmarshal text :=
    if text = firstEvidence.evidenceBodyBytes.drop evidenceDomain.length then some firstEvidence
    else none
  verify publicKey body signature :=
    publicKey == [2] && body == firstEvidence.evidenceBodyBytes && signature == [1]

/-- A directive whose only job is evidenced, and a credential that was issued after
its watermark. -/
def lateRecords : Records Bytes where
  ledger :=
    ((Ledger.empty.append (bytes "evt-1") uuidTenant
      (.delegationRecorded (.known ⟨[1], [], true, bytes "root", bytes "agent-1"⟩))).append
      (bytes "evt-2") uuidTenant
      (.issuanceRecorded (.known ⟨bytes "credential-1", [], [1]⟩))).append
      (bytes "evt-3") uuidTenant
      (.issuanceRecorded (.known ⟨bytes "credential-2", [], [1]⟩))
  database :=
    { directives := [⟨uuidTenant, bytes "directive-1", bytes "agent-1",
        bytes "compromise", 2, false, 3⟩]
      jobs := [jobRow uuidTenant (bytes "directive-1") false (bytes "credential-1")]
      outbox := [] }
  effects :=
    [⟨uuidTenant, bytes "directive-1", firstEvidence.idempotencyKey,
      bytes "credential-1", bytes "revoke", bytes "executor-1", 1,
      firstEvidence.evidenceBodyBytes, [1], [2]⟩]

/-- A step that nothing goes wrong for. -/
def plainStep : Circumstance where
  signed := ([1], [2])

/-- One call for each of the two operations. -/
def lateCalls (isTransition : Bool) : CascadeCall :=
  if isTransition then .transition uuidTenant (bytes "directive-1")
  else .followOn uuidTenant (bytes "directive-1")

/-- The transition, with the reads of the other call between its own. -/
def readsBetween : List (Bool × Circumstance) :=
  [(true, plainStep), (false, plainStep), (true, plainStep), (false, plainStep),
    (true, plainStep), (true, plainStep), (true, plainStep)]

/-- Two calls that overlap, of which one sets the directive terminal. -/
theorem terminal_jobs_evidenced_overlapping :
    ((startCalls firstReader lateRecords lateCalls).run (environment some)
      (discipline firstReader) readsBetween).state.AllEvidenced firstReader uuidTenant
        (bytes "directive-1") :=
  terminal_jobs_evidenced some firstReader lateRecords lateCalls readsBetween (true, plainStep)
    uuidTenant (bytes "directive-1")
    ⟨undisturbed_of_jobs_eq (by decide +kernel), undisturbed_of_jobs_eq (by decide +kernel),
      undisturbed_of_jobs_eq (by decide +kernel), undisturbed_of_jobs_eq (by decide +kernel),
      undisturbed_of_jobs_eq (by decide +kernel), undisturbed_of_jobs_eq (by decide +kernel),
      undisturbed_of_jobs_eq (by decide +kernel), trivial⟩
    (by decide +kernel) (by decide +kernel)

/-- The follow-on job of the second credential is inserted after the transition has
read the jobs, and the directive is set terminal without evidence of it. -/
theorem late_job_without_evidence :
    ¬ ∀ (records : Records Bytes) (calls : Bool → CascadeCall)
        (schedule : List (Bool × Circumstance)) (turn : Bool × Circumstance)
        (tenant directiveID : Bytes),
      ((startCalls firstReader records calls).run (environment some) (discipline firstReader)
        schedule).state.isOpen tenant directiveID = true →
      ((startCalls firstReader records calls).run (environment some) (discipline firstReader)
        (schedule ++ [turn])).state.isOpen tenant directiveID = false →
      ((startCalls firstReader records calls).run (environment some) (discipline firstReader)
        schedule).state.AllEvidenced firstReader tenant directiveID := by
  intro evidenced
  have all := evidenced lateRecords lateCalls
    (List.replicate 4 (true, plainStep) ++ List.replicate 5 (false, plainStep) ++
      [(true, plainStep)]) (true, plainStep)
    uuidTenant (bytes "directive-1") (by decide +kernel) (by decide +kernel)
  obtain ⟨effect, found, _⟩ := all
    (jobRow uuidTenant (bytes "directive-1") true (bytes "credential-2"))
    (by decide +kernel) rfl rfl
  have absent : (Records.effect _ uuidTenant (bytes "directive-1")
      (jobIdempotencyKey (bytes "directive-1") (bytes "credential-2"))).isSome = true :=
    Option.isSome_of_mem found
  revert absent
  decide +kernel

end Trstctl.Agentid.Revoke
