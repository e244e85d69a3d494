import Trstctl.Agentid.Revoke.Evidence

/-!
# Terminal directives

`Transition` reads the jobs of a directive, verifies the evidence of each and
then sets the directive terminal in a transaction of its own.  A job that is
inserted between the read and that transaction is not looked at.  In runs where
none is, every job of a directive that is set terminal has evidence that
verifies.
-/

namespace Trstctl.Agentid.Revoke

open Go (Bytes bytes)
open Interaction (perform Discipline Obeys Pool)

/-- Programs over the steps. -/
abbrev Call (Tenant α : Type) := Interaction Op (Answer Tenant) α

inductive CallError where
  | store (error : StoreError)
  | notFound (directiveID : Bytes)
  | unknownReason (directiveID reason : Bytes)
  | noTenantOrDirective
  | fold
  | decode
  | incomplete

/-- `TerminalVerdict`, without the digests of the evidence. -/
structure TerminalVerdict where
  terminal : Bool
  jobCount : Nat
  missing : List Bytes
  ledgerHead : Nat

/-- `TransitionResult`, without the artifact. -/
structure TransitionResult where
  terminal : Bool
  transitioned : Bool
  verdict : TerminalVerdict

section Calls

variable {Tenant : Type} (reader : Reader)

/-- A step whose failure ends the call. -/
def attempt {α : Type} (op : Op) (next : Value Tenant op → Call Tenant (Except CallError α)) :
    Call Tenant (Except CallError α) :=
  .ask op fun answer =>
    match answer with
    | .error error => .done (.error (.store error))
    | .ok value => next value

/-- The loop of `VerifyTerminal`, with what follows it: the keys of the jobs without
evidence that verifies.  A failure to load the evidence counts as none. -/
def missingEvidence {α : Type} (tenantID directiveID : Bytes)
    (next : List Bytes → Call Tenant α) : List (JobRow Tenant) → List Bytes → Call Tenant α
  | [], missing => next missing
  | job :: rest, missing =>
      .ask (.fetchEffect tenantID directiveID job.idempotencyKey) fun answer =>
        match answer with
        | .ok (some effect) =>
            missingEvidence tenantID directiveID next rest
              (if effect.verifies reader then missing else missing ++ [job.idempotencyKey])
        | _ =>
            missingEvidence tenantID directiveID next rest (missing ++ [job.idempotencyKey])

/-- `TerminalTransition.VerifyTerminal`, with what follows it. -/
def verifyTerminal {α : Type} (tenantID directiveID : Bytes)
    (next : TerminalVerdict → Call Tenant (Except CallError α)) :
    Call Tenant (Except CallError α) :=
  attempt (.fetchJobs .verdict tenantID directiveID) fun jobs =>
    missingEvidence reader tenantID directiveID
      (fun missing =>
        attempt .checkedHead fun head =>
          next
            { terminal := !jobs.isEmpty && missing.isEmpty, jobCount := jobs.length
              missing := missing, ledgerHead := head })
      jobs []

/-- The end of `Transition`: the artifact is signed, the directive set terminal and
the event appended. -/
def mintTerminal (directive : DirectiveRow Tenant) (tenantID directiveID : Bytes)
    (verdict : TerminalVerdict) : Call Tenant (Except CallError TransitionResult) :=
  attempt (.sign directiveID) fun _ =>
    attempt (.markTerminal tenantID directiveID) fun transitioned =>
      let result : TransitionResult :=
        { terminal := true, transitioned := transitioned, verdict := verdict }
      if transitioned || directive.terminal then
        attempt (.appendEvent tenantID (.revocationTerminal (some directiveID))) fun _ =>
          .done (.ok result)
      else .done (.ok result)

/-- `Transition` after a terminal verdict: a directive that is terminal has its
event, or gets it now. -/
def settleTerminal (directive : DirectiveRow Tenant) (tenantID directiveID : Bytes)
    (verdict : TerminalVerdict) : Call Tenant (Except CallError TransitionResult) :=
  if directive.terminal then
    attempt .checkedHead fun head =>
      attempt (.replayTerminal tenantID directiveID head) fun persisted =>
        if persisted then
          .done (.ok { terminal := true, transitioned := false, verdict := verdict })
        else mintTerminal directive tenantID directiveID verdict
  else mintTerminal directive tenantID directiveID verdict

def transition (tenantID directiveID : Bytes) : Call Tenant (Except CallError TransitionResult) :=
  attempt (.fetchDirective tenantID directiveID) fun found =>
    match found with
    | none => .done (.error (.notFound directiveID))
    | some directive =>
        if validReason directive.reason = false then
          .done (.error (.unknownReason directiveID directive.reason))
        else
          verifyTerminal reader tenantID directiveID fun verdict =>
            if verdict.terminal = false then
              .done (.ok { terminal := false, transitioned := false, verdict := verdict })
            else settleTerminal directive tenantID directiveID verdict

/-- `Cascade.GenerateFollowOn`: the credentials with new jobs. -/
def generateFollowOn (tenantID directiveID : Bytes) : Call Tenant (Except CallError (List Bytes)) :=
  if tenantID.isEmpty || directiveID.isEmpty then .done (.error .noTenantOrDirective)
  else
    attempt (.fetchDirective tenantID directiveID) fun found =>
      match found with
      | none => .done (.error (.notFound directiveID))
      | some directive =>
          attempt .checkedHead fun head =>
            attempt (.replayEdges tenantID directive.subjectID head) fun folded =>
              match folded with
              | none => .done (.error .fold)
              | some current =>
                  attempt (.fetchJobs .coverage tenantID directiveID) fun jobs =>
                    if validReason directive.reason = false then
                      .done (.error (.unknownReason directiveID directive.reason))
                    else
                      let uncovered := current.filter fun credential =>
                        !(jobs.map JobRow.credentialID).contains credential
                      if uncovered.isEmpty then .done (.ok [])
                      else
                        attempt (.fileFollowOn tenantID directiveID directive.reason uncovered)
                          fun _ => .done (.ok uncovered)

/-- A job message, with its payload as JSON reads it. -/
structure JobMessage where
  idempotencyKey : Bytes
  payload : Option JobPayload

/-- The executor's identity, its clock and the first effect class of a job. -/
structure Executor where
  executor : Bytes
  clock : Int
  primary : JobPayload → Bytes

def execute (executor : Executor) (message : JobMessage) : Call Tenant (Except CallError Unit) :=
  match message.payload with
  | none => .done (.error .decode)
  | some payload =>
      if payload.tenantID.isEmpty || payload.directiveID.isEmpty ||
          payload.credentialID.isEmpty then .done (.error .incomplete)
      else
        let key := if message.idempotencyKey.isEmpty then
          jobIdempotencyKey payload.directiveID payload.credentialID else message.idempotencyKey
        let evidence : CompletionEvidence :=
          { tenantID := payload.tenantID, directiveID := payload.directiveID
            idempotencyKey := key, credentialID := payload.credentialID
            effectClass := executor.primary payload, completedAt := executor.clock
            executor := executor.executor, signature := [], publicKey := [] }
        attempt (.sign evidence.evidenceBodyBytes) fun signed =>
          let effect : NewEffect :=
            { directiveID := payload.directiveID, idempotencyKey := key
              credentialID := payload.credentialID, effectClass := evidence.effectClass
              executor := executor.executor, completedAt := executor.clock
              evidenceBody := evidence.evidenceBodyBytes, evidenceSig := signed.1
              evidencePub := signed.2, reason := payload.reason
              publishDownstream := payload.publishDownstream }
          attempt (.recordEffect payload.tenantID effect) fun recorded =>
            if recorded then
              attempt (.appendEvent payload.tenantID .other) fun _ => .done (.ok ())
            else .done (.ok ())

/-- A call on a directive. -/
inductive CascadeCall where
  | transition (tenantID directiveID : Bytes)
  | followOn (tenantID directiveID : Bytes)
  | execute (executor : Executor) (message : JobMessage)

/-- What a call returns. -/
inductive CallResult where
  | transition (result : Except CallError TransitionResult)
  | followOn (result : Except CallError (List Bytes))
  | execute (result : Except CallError Unit)

def CascadeCall.program : CascadeCall → Call Tenant CallResult
  | .transition tenantID directiveID => do
      return .transition (← Revoke.transition reader tenantID directiveID)
  | .followOn tenantID directiveID => do
      return .followOn (← generateFollowOn tenantID directiveID)
  | .execute executor message => do
      return .execute (← Revoke.execute executor message)

end Calls

/-- The jobs that a `Transition` has read and not yet acted on, and those of them
whose evidence it has verified. -/
structure Watch where
  tenantID : Bytes
  directiveID : Bytes
  jobs : List Bytes
  verified : List Bytes

/-- Every job has been verified. -/
def Watch.Covers (watch : Watch) : Prop :=
  ∀ key ∈ watch.jobs, key ∈ watch.verified

instance (watch : Watch) : Decidable watch.Covers :=
  inferInstanceAs (Decidable (∀ key ∈ watch.jobs, key ∈ watch.verified))

section Discipline

variable {Tenant : Type} (reader : Reader)

/-- What is known after a step.  It is forgotten where the call ends. -/
def advance (memory : Option Watch) : (op : Op) → Answer Tenant op → Option Watch
  | .fetchJobs .verdict tenantID directiveID, .ok jobs =>
      some ⟨tenantID, directiveID, jobs.map JobRow.idempotencyKey, []⟩
  | .fetchJobs .verdict _ _, .error _ => none
  | .fetchEffect tenantID directiveID key, .ok (some effect) =>
      memory.map fun watch =>
        if effect.verifies reader ∧ watch.tenantID = tenantID ∧
            watch.directiveID = directiveID then
          { watch with verified := key :: watch.verified }
        else watch
  | .checkedHead, .ok _ =>
      memory.filter fun watch => !watch.jobs.isEmpty && decide watch.Covers
  | .checkedHead, .error _ => none
  | .replayTerminal _ _ _, .ok persisted => if persisted then none else memory
  | .replayTerminal _ _ _, .error _ => none
  | .sign _, .error _ => none
  | .markTerminal _ _, _ => none
  | _, _ => memory

/-- A directive is set terminal by a call that has verified every job it read. -/
def allows (memory : Option Watch) : Op → Prop
  | .markTerminal tenantID directiveID => ∃ watch, memory = some watch ∧
      watch.tenantID = tenantID ∧ watch.directiveID = directiveID ∧ watch.Covers
  | _ => True

/-- What the calls remember, and when they set a directive terminal. -/
def discipline : Discipline Op (Answer Tenant) (Option Watch) where
  fresh := none
  allows := allows
  advance := advance reader

theorem advance_checkedHead {watch : Watch} (nonempty : watch.jobs ≠ []) (covers : watch.Covers)
    (head : Value Tenant .checkedHead) :
    advance reader (some watch) .checkedHead (.ok head) = some watch := by
  have isNonempty : watch.jobs.isEmpty = false := by simpa using nonempty
  simp [advance, Option.filter, covers, isNonempty]

end Discipline

section Obeys

variable {Tenant : Type} [DecidableEq Tenant] {uuid : Bytes → Option Tenant} {reader : Reader}
  {α : Type} {memory : Option Watch}

theorem obeys_attempt {op : Op} {next : Value Tenant op → Call Tenant (Except CallError α)}
    (allowed : allows memory op)
    (goesOn : ∀ value, Obeys (environment uuid) (discipline reader)
      (advance reader memory op (.ok value)) (next value)) :
    Obeys (environment uuid) (discipline reader) memory (attempt op next) := by
  refine ⟨allowed, ?_⟩
  intro records circumstance
  generalize (environment uuid).answer records op circumstance = answer
  cases answer with
  | error error => exact trivial
  | ok value => exact goesOn value

theorem obeys_mintTerminal {watch : Watch} (covers : watch.Covers) (directive : DirectiveRow Tenant)
    (verdict : TerminalVerdict) :
    Obeys (environment uuid) (discipline reader) (some watch)
      (mintTerminal directive watch.tenantID watch.directiveID verdict) := by
  refine obeys_attempt trivial fun signed => ?_
  refine obeys_attempt ⟨watch, rfl, rfl, rfl, covers⟩ fun transitioned => ?_
  dsimp only
  split_ifs
  · exact obeys_attempt trivial fun _ => trivial
  · exact trivial

theorem obeys_missingEvidence {tenantID directiveID : Bytes} {jobs : List Bytes}
    {next : List Bytes → Call Tenant α}
    (goesOn : ∀ missing verified,
      (missing = [] → Watch.Covers ⟨tenantID, directiveID, jobs, verified⟩) →
      Obeys (environment uuid) (discipline reader)
        (some ⟨tenantID, directiveID, jobs, verified⟩) (next missing))
    (rest : List (JobRow Tenant))
    (missing verified : List Bytes)
    (seen : missing = [] → ∀ key ∈ jobs,
      key ∈ verified ∨ key ∈ rest.map JobRow.idempotencyKey) :
    Obeys (environment uuid) (discipline reader) (some ⟨tenantID, directiveID, jobs, verified⟩)
      (missingEvidence reader tenantID directiveID next rest missing) := by
  induction rest generalizing missing verified with
  | nil =>
      refine goesOn missing verified fun none_missing key member => ?_
      simpa using seen none_missing key member
  | cons job rest ih =>
      refine ⟨trivial, ?_⟩
      intro records circumstance
      generalize (environment uuid).answer records
        (.fetchEffect tenantID directiveID job.idempotencyKey) circumstance = answer
      have unverified := ih (missing ++ [job.idempotencyKey]) verified
        fun none_missing => absurd none_missing (by simp)
      cases answer with
      | error error => exact unverified
      | ok found =>
          cases found with
          | none => exact unverified
          | some effect =>
              by_cases verifies : effect.verifies reader = true
              · have verifiedJob := ih missing (job.idempotencyKey :: verified)
                  fun none_missing key member => by
                    rcases seen none_missing key member with before | later
                    · exact .inl (List.mem_cons_of_mem _ before)
                    · rcases List.mem_cons.mp later with rfl | after
                      · exact .inl List.mem_cons_self
                      · exact .inr after
                simpa [discipline, advance, verifies] using verifiedJob
              · simpa [discipline, advance, verifies] using unverified

theorem obeys_settleTerminal {watch : Watch} (nonempty : watch.jobs ≠ []) (covers : watch.Covers)
    (directive : DirectiveRow Tenant) (verdict : TerminalVerdict) :
    Obeys (environment uuid) (discipline reader) (some watch)
      (settleTerminal directive watch.tenantID watch.directiveID verdict) := by
  unfold settleTerminal
  split_ifs
  · refine obeys_attempt trivial fun head => ?_
    rw [advance_checkedHead reader nonempty covers]
    refine obeys_attempt trivial fun persisted => ?_
    cases persisted with
    | true => exact trivial
    | false => exact obeys_mintTerminal covers directive verdict
  · exact obeys_mintTerminal covers directive verdict

theorem obeys_transition (tenantID directiveID : Bytes) :
    Obeys (environment uuid) (discipline reader) none
      (@transition Tenant reader tenantID directiveID) := by
  refine obeys_attempt trivial fun found => ?_
  cases found with
  | none => exact trivial
  | some directive =>
      dsimp only
      split_ifs with invalid
      · exact trivial
      · refine obeys_attempt trivial fun jobs => ?_
        refine obeys_missingEvidence ?_ jobs [] [] fun _ key member => .inr member
        intro missing verified covers
        refine obeys_attempt trivial fun head => ?_
        cases verdict : !jobs.isEmpty && missing.isEmpty with
        | false => exact trivial
        | true =>
            obtain ⟨nonempty, none_missing⟩ := Bool.and_eq_true_iff.mp verdict
            have isCovered := covers (List.isEmpty_iff.mp none_missing)
            have present : jobs.map JobRow.idempotencyKey ≠ [] := by
              simpa using nonempty
            rw [advance_checkedHead reader present isCovered]
            exact obeys_settleTerminal present isCovered directive _

theorem obeys_generateFollowOn (tenantID directiveID : Bytes) :
    Obeys (environment uuid) (discipline reader) none
      (@generateFollowOn Tenant tenantID directiveID) := by
  unfold generateFollowOn
  split_ifs
  · exact trivial
  refine obeys_attempt trivial fun found => ?_
  cases found with
  | none => exact trivial
  | some directive =>
      refine obeys_attempt trivial fun head => ?_
      refine obeys_attempt trivial fun folded => ?_
      cases folded with
      | none => exact trivial
      | some current =>
          refine obeys_attempt trivial fun jobs => ?_
          dsimp only
          split_ifs
          · exact trivial
          · exact trivial
          · exact obeys_attempt trivial fun _ => trivial

theorem obeys_execute (executor : Executor) (message : JobMessage) :
    Obeys (environment uuid) (discipline reader) none
      (@execute Tenant executor message) := by
  unfold execute
  cases message.payload with
  | none => exact trivial
  | some payload =>
      dsimp only
      split
      · exact trivial
      · refine obeys_attempt trivial fun signed => ?_
        refine obeys_attempt trivial fun recorded => ?_
        cases recorded with
        | true => exact obeys_attempt trivial fun _ => trivial
        | false => exact trivial

theorem obeys_program (call : CascadeCall) :
    Obeys (environment uuid) (discipline reader) none (call.program reader) := by
  cases call with
  | transition tenantID directiveID => exact (obeys_transition tenantID directiveID).map _
  | followOn tenantID directiveID => exact (obeys_generateFollowOn tenantID directiveID).map _
  | execute executor message => exact (obeys_execute executor message).map _

end Obeys

end Trstctl.Agentid.Revoke
