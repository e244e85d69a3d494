import Trstctl.Decommission.Gate.Destroy
import Trstctl.Go.Hash
import Trstctl.Library.Result

/-!
# Destroyed keys stay refused

The terminal epoch of a key only rises, so a key that is terminal once is
refused ever after.  It becomes terminal when the sink has taken the record of
its destruction, not when the module has destroyed it.
-/

namespace Trstctl.Decommission.Gate

open Go (Bytes bytes trimSpace)

/-- A call of the boundary. -/
inductive CustodyCall where
  | destroy (call : DestroyCall)
  | authorize (request : CustodyOperationRequest)

def HSMCustodyBoundary.step (config : CustodyConfig) (boundary : HSMCustodyBoundary) :
    CustodyCall → HSMCustodyBoundary
  | .destroy call => (boundary.destroy config call).2
  | .authorize _ => boundary

/-- The boundary after a sequence of calls. -/
def HSMCustodyBoundary.run (config : CustodyConfig) (boundary : HSMCustodyBoundary)
    (calls : List CustodyCall) : HSMCustodyBoundary :=
  calls.foldl (HSMCustodyBoundary.step config) boundary

/-- A call of `Destroy` asks the module, and the module returns a valid
attestation. -/
def HSMCustodyBoundary.Attests (boundary : HSMCustodyBoundary) (call : DestroyCall) : Prop :=
  boundary.beforeModule call = .ok none ∧ ∃ attestation, call.attest = .ok attestation

/-- The key is final at the epoch or after it. -/
def HSMCustodyBoundary.TerminalAt (boundary : HSMCustodyBoundary) (key : Bytes) (epoch : UInt64) :
    Prop :=
  ∃ state, boundary.terminal.lookup key = some state ∧ epoch ≤ state.finalEpoch

section Calls

variable {config : CustodyConfig} {boundary : HSMCustodyBoundary} {call : DestroyCall}

theorem beforeModule_eq_none (reached : boundary.beforeModule call = .ok none) :
    validateDestroyTarget call.request.tenantID call.request.stableKeyID call.request.finalEpoch =
        .ok () ∧
      ¬ boundary.TerminalAt (terminalKey call.request.tenantID call.request.stableKeyID)
        call.request.finalEpoch := by
  unfold HSMCustodyBoundary.beforeModule at reached
  simp only [Result.bind_eq_ok, Result.guard_eq_ok] at reached
  obtain ⟨context, -, target, valid, -, reached⟩ := reached
  refine ⟨valid, ?_⟩
  rintro ⟨state, state_eq, bound⟩
  split at reached
  · cases reached
  · obtain ⟨done, terminal, -⟩ := Result.bind_eq_ok.mp reached
    rw [state_eq, checkTerminal, if_pos bound] at terminal
    cases terminal

theorem destroy_cases (config : CustodyConfig) (boundary : HSMCustodyBoundary)
    (call : DestroyCall) :
    (boundary.destroy config call).2 = boundary ∨
      boundary.beforeModule call = .ok none ∧
        ∃ attestation, (boundary.destroy config call).2.terminal = boundary.terminal.set
          (terminalKey call.request.tenantID call.request.stableKeyID)
          (call.terminalState attestation) := by
  unfold HSMCustodyBoundary.destroy
  split
  · exact Or.inl rfl
  · exact Or.inl rfl
  · rename_i reached
    split
    · exact Or.inl rfl
    · rename_i attestation _
      split
      · exact Or.inl rfl
      · exact Or.inr ⟨reached, attestation, rfl⟩

theorem destroy_of_attests (attests : boundary.Attests call) (appended : call.appended = .ok ()) :
    (boundary.destroy config call).2.TerminalAt
      (terminalKey call.request.tenantID call.request.stableKeyID) call.request.finalEpoch := by
  obtain ⟨reached, attestation, attested⟩ := attests
  refine ⟨call.terminalState attestation, ?_, UInt64.le_refl _⟩
  unfold HSMCustodyBoundary.destroy
  rw [reached, attested, appended]
  rw [Go.MapOf.lookup_set, if_pos rfl]

theorem destroy_of_append_error {error : Bytes} (attests : boundary.Attests call)
    (failed : call.appended = .error error) :
    (boundary.destroy config call).2 = boundary := by
  obtain ⟨reached, attestation, attested⟩ := attests
  unfold HSMCustodyBoundary.destroy
  rw [reached, attested, failed]

end Calls

section Runs

variable {config : CustodyConfig} {boundary : HSMCustodyBoundary} {key : Bytes} {epoch : UInt64}

theorem terminalAt_step (terminal : boundary.TerminalAt key epoch) (call : CustodyCall) :
    (boundary.step config call).TerminalAt key epoch := by
  cases call with
  | authorize request => exact terminal
  | destroy call =>
      change (boundary.destroy config call).2.TerminalAt key epoch
      rcases destroy_cases config boundary call with same | ⟨reached, attestation, changed⟩
      · rw [same]
        exact terminal
      · unfold HSMCustodyBoundary.TerminalAt
        rw [changed, Go.MapOf.lookup_set]
        obtain ⟨state, state_eq, bound⟩ := terminal
        split_ifs with isKey
        · -- the key becomes terminal again only at a later epoch
          refine ⟨_, rfl, ?_⟩
          have later := (beforeModule_eq_none reached).2
          rw [← isKey] at later
          have above : state.finalEpoch < call.request.finalEpoch := by
            by_contra below
            exact later ⟨state, state_eq, UInt64.not_lt.mp below⟩
          exact UInt64.le_trans bound (UInt64.le_of_lt above)
        · exact ⟨state, state_eq, bound⟩

theorem run_append_destroy (config : CustodyConfig) (boundary : HSMCustodyBoundary)
    (before : List CustodyCall) (call : DestroyCall) (after : List CustodyCall) :
    boundary.run config (before ++ .destroy call :: after) =
      ((boundary.run config before).destroy config call).2.run config after := by
  unfold HSMCustodyBoundary.run
  rw [List.foldl_append, List.foldl_cons, HSMCustodyBoundary.step]

@[simp]
theorem run_nil (config : CustodyConfig) (boundary : HSMCustodyBoundary) :
    boundary.run config [] = boundary :=
  rfl

theorem terminalAt_run (config : CustodyConfig) (terminal : boundary.TerminalAt key epoch)
    (calls : List CustodyCall) :
    (boundary.run config calls).TerminalAt key epoch := by
  induction calls generalizing boundary with
  | nil => exact terminal
  | cons call rest ih => exact ih (terminalAt_step terminal call)

theorem authorizeOperation_of_terminalAt {request : CustodyOperationRequest}
    (terminal : boundary.TerminalAt (terminalKey request.tenantID request.stableKeyID)
      request.epoch) :
    ∃ error, boundary.authorizeOperation request = .error error := by
  obtain ⟨state, state_eq, bound⟩ := terminal
  unfold HSMCustodyBoundary.authorizeOperation
  cases validateDestroyTarget request.tenantID request.stableKeyID request.epoch with
  | error error => exact ⟨error, rfl⟩
  | ok valid =>
      rw [state_eq]
      simp only
      rw [if_pos bound]
      exact ⟨_, rfl⟩

theorem authorizeOperation_of_not_terminalAt (request : CustodyOperationRequest)
    (valid : validateDestroyTarget request.tenantID request.stableKeyID request.epoch = .ok ())
    (notTerminal : ¬ boundary.TerminalAt (terminalKey request.tenantID request.stableKeyID)
      request.epoch) :
    boundary.authorizeOperation request = .ok () := by
  unfold HSMCustodyBoundary.authorizeOperation
  rw [valid]
  cases state_eq : boundary.terminal.lookup
      (terminalKey request.tenantID request.stableKeyID) with
  | none => rfl
  | some state =>
      have below : ¬ request.epoch ≤ state.finalEpoch :=
        fun bound => notTerminal ⟨state, state_eq, bound⟩
      change (if request.epoch ≤ state.finalEpoch then _ else pure ()) = Except.ok ()
      rw [if_neg below]
      rfl

/-- After a destruction for which the module returned a valid attestation, every
later operation on the key up to the destroyed epoch is refused, exactly when
the sink took the record of the destruction. -/
theorem destroyed_key_refused_iff
    (config : CustodyConfig)
    (before : List CustodyCall)
    (call : DestroyCall)
    (attests : (newHSMCustodyBoundary.run config before).Attests call) :
    (∀ (after : List CustodyCall) (request : CustodyOperationRequest),
        trimSpace request.tenantID = trimSpace call.request.tenantID →
        trimSpace request.stableKeyID = trimSpace call.request.stableKeyID →
        request.epoch ≤ call.request.finalEpoch →
        ∃ error, (newHSMCustodyBoundary.run config
          (before ++ .destroy call :: after)).authorizeOperation request = .error error) ↔
      call.appended = .ok () := by
  constructor
  · intro refused
    cases appended : call.appended with
    | ok taken => rfl
    | error failure =>
        obtain ⟨valid, notTerminal⟩ := beforeModule_eq_none attests.1
        obtain ⟨error, refusal⟩ := refused []
          ⟨call.request.tenantID, call.request.stableKeyID, call.request.finalEpoch, []⟩ rfl rfl
          (UInt64.le_refl _)
        rw [run_append_destroy, destroy_of_append_error attests appended, run_nil] at refusal
        have allowed := authorizeOperation_of_not_terminalAt
          ⟨call.request.tenantID, call.request.stableKeyID, call.request.finalEpoch, []⟩ valid
          notTerminal
        rw [allowed] at refusal
        cases refusal
  · intro appended after request tenants keys bound
    rw [run_append_destroy]
    apply authorizeOperation_of_terminalAt
    obtain ⟨state, state_eq, epochBound⟩ :=
      terminalAt_run config (destroy_of_attests attests appended) after
    refine ⟨state, ?_, UInt64.le_trans bound epochBound⟩
    rw [terminalKey, tenants, keys]
    exact state_eq

end Runs

/-- The answer of a module that has destroyed epoch 3 of a key. -/
def destroyedSlot : HSMDestroyAttestation where
  version := 0
  moduleID := bytes "hsm-1"
  keyID := bytes "slot-7"
  finalEpoch := 3
  attestationClass := 3
  attestationClassID := []
  statement := bytes "destroyed"
  signature := []
  issuedAtUnix := 1700000000

/-- The call of that destruction. -/
def attestedDestroy (appended : Except Bytes Unit) : DestroyCall where
  contextError := none
  request := ⟨bytes "t1", bytes "ca-key", bytes "slot-7", 3⟩
  attestation := .ok destroyedSlot
  now := 1700000001
  appended := appended

def custodyConfig : CustodyConfig where
  enforcerID := bytes "custody-boundary"
  sha256Sum _ := Hash.digestOf 1

theorem attests_attestedDestroy (appended : Except Bytes Unit) :
    newHSMCustodyBoundary.Attests (attestedDestroy appended) := by
  have target : validateDestroyTarget (bytes "t1") (bytes "ca-key") 3 = .ok () := by
    decide +kernel
  have module : ¬ trimSpace (bytes "slot-7") = [] := by
    decide +kernel
  have valid : validateAttestation ⟨bytes "t1", bytes "ca-key", bytes "slot-7", 3⟩
      (normalizeAttestation destroyedSlot) = .ok () := by
    decide +kernel
  constructor
  · unfold HSMCustodyBoundary.beforeModule attestedDestroy
    simp only [target, module]
    rfl
  · refine ⟨normalizeAttestation destroyedSlot, ?_⟩
    unfold DestroyCall.attest attestedDestroy
    simp only [Except.mapError]
    exact Result.bind_eq_ok.mpr ⟨_, rfl, Result.bind_eq_ok.mpr ⟨(), valid, rfl⟩⟩

/-- The sink takes the record of a destruction. -/
theorem destroyed_key_refused_iff_taken :
    (∀ (after : List CustodyCall) (request : CustodyOperationRequest),
        trimSpace request.tenantID = trimSpace (attestedDestroy (.ok ())).request.tenantID →
        trimSpace request.stableKeyID = trimSpace (attestedDestroy (.ok ())).request.stableKeyID →
        request.epoch ≤ (attestedDestroy (.ok ())).request.finalEpoch →
        ∃ error, (newHSMCustodyBoundary.run custodyConfig
          ([] ++ .destroy (attestedDestroy (.ok ())) :: after)).authorizeOperation request =
            .error error) ↔
      (attestedDestroy (.ok ())).appended = .ok () := by
  apply destroyed_key_refused_iff
  rw [run_nil]
  exact attests_attestedDestroy (.ok ())

/-- A module destroys a key, the sink fails, and an operation at the destroyed
epoch is allowed. -/
theorem allows_destroyed_key :
    ¬ ∀ (config : CustodyConfig) (before : List CustodyCall) (call : DestroyCall),
      (newHSMCustodyBoundary.run config before).Attests call →
      ∀ (after : List CustodyCall) (request : CustodyOperationRequest),
        trimSpace request.tenantID = trimSpace call.request.tenantID →
        trimSpace request.stableKeyID = trimSpace call.request.stableKeyID →
        request.epoch ≤ call.request.finalEpoch →
        ∃ error, (newHSMCustodyBoundary.run config
          (before ++ .destroy call :: after)).authorizeOperation request = .error error := by
  intro refused
  have attests := attests_attestedDestroy (.error (bytes "sink unavailable"))
  obtain ⟨error, refusal⟩ := refused custodyConfig [] _ attests []
    ⟨bytes "t1", bytes "ca-key", 3, []⟩
    rfl rfl (UInt64.le_refl _)
  simp only [run_append_destroy, run_nil, destroy_of_append_error attests rfl] at refusal
  have allowed : newHSMCustodyBoundary.authorizeOperation ⟨bytes "t1", bytes "ca-key", 3, []⟩ =
      .ok () := by
    decide +kernel
  rw [allowed] at refusal
  cases refusal

end Trstctl.Decommission.Gate
