import Trstctl.Approval.Manager

/-!
# Decisions after an issuance

Calls of the manager one after another.  A request whose credential was issued
stays issuing or issued, unless a denial finds it while it is still issuing.
-/

namespace Trstctl.Approval

open Go (Bytes Time bytes)

/-- A call of the manager. -/
inductive Call where
  | requestIssuance (spec : RequestSpec)
  | approve (tenantID reqID approver : Bytes)
  | deny (tenantID reqID approver : Bytes)

def Call.method (manager : Manager) : Call → Method
  | .requestIssuance spec => manager.requestIssuance spec
  | .approve tenantID reqID approver => manager.approve tenantID reqID approver
  | .deny tenantID reqID approver => Approval.deny tenantID reqID approver

/-- The world after calls one after another, each with the fates of its
operations.  A call with too few of them is cut short, so that the runs that end
inside a call reach every point of it. -/
def World.run (manager : Manager) (world : World) (calls : List (Call × List Fate)) : World :=
  calls.foldl (fun world call => Interaction.alone environment world (call.1.method manager) call.2)
    world

/-- A condition holds of every call of a run in the world it starts in. -/
def World.EachCall (manager : Manager) (condition : World → Call → Prop) :
    World → List (Call × List Fate) → Prop
  | _, [] => True
  | world, (call, fates) :: rest =>
      condition world call ∧
        World.EachCall manager condition
          (Interaction.alone environment world (call.method manager) fates) rest

/-- A new request has an identifier that is not in the store. -/
def Fresh (manager : Manager) (world : World) : Call → Prop
  | .requestIssuance spec => world.store.find (manager.tenantID, spec.id) = none
  | _ => True

/-- A denial does not find the request in the state of an issuance whose outcome
is not stored yet. -/
def DeniesSettled (world : World) : Call → Prop
  | .deny tenantID reqID _ => ∀ request, world.store.find (tenantID, reqID) = some request →
      request.state ≠ .issuing
  | _ => True

/-- The stored state of a request that was issued. -/
def DecisionStands (world : World) : Prop :=
  ∀ key, (key, true) ∈ world.issues → ∃ request, world.store.find key = some request ∧
    (request.state = .issuing ∨ request.state = .issued)

section Operations

variable {world : World} {invariant : World → Prop}

theorem keeps_save {request : Request} {next : Except Bytes Unit → Method} (start : invariant world)
    (written : ∀ answer, Interaction.Keeps environment invariant (next answer)
      { world with store := world.store.write request })
    (failed : ∀ error, Interaction.Keeps environment invariant (next (.error error)) world) :
    Interaction.Keeps environment invariant (.ask (.save request) next) world := by
  refine ⟨start, ?_⟩
  intro fate
  rcases save_cases world request fate with
    ⟨answer, -, after⟩ | ⟨error, answer, -, after⟩ | ⟨error, answer, after⟩
  · rw [answer, after]
    exact written (.ok ())
  · rw [answer, after]
    exact written (.error error)
  · rw [answer, after]
    exact failed error

theorem keeps_reading {op : Op} {next : Answer op → Method}
    (quiet : ∀ fate, environment.after world op fate = world) (start : invariant world)
    (rest : ∀ answer, Interaction.Keeps environment invariant (next answer) world) :
    Interaction.Keeps environment invariant (.ask op next) world := by
  refine ⟨start, ?_⟩
  intro fate
  rw [quiet fate]
  exact rest _

theorem keeps_get {tenantID reqID : Bytes} {next : Except Bytes (Option Request) → Method}
    (start : invariant world)
    (failed : ∀ error, Interaction.Keeps environment invariant (next (.error error)) world)
    (found : Interaction.Keeps environment invariant
      (next (.ok (world.store.find (tenantID, reqID)))) world) :
    Interaction.Keeps environment invariant (.ask (.get tenantID reqID) next) world := by
  refine ⟨start, ?_⟩
  intro fate
  obtain ⟨failure, stored, credentialID, complete, allowed, reason, now⟩ := fate
  cases failure with
  | none => exact found
  | some error => exact failed error

theorem stands_write (request : Request) (stands : DecisionStands world)
    (agrees : (request.key, true) ∈ world.issues →
      request.state = .issuing ∨ request.state = .issued) :
    DecisionStands { world with store := world.store.write request } := by
  intro key issued
  change ∃ found, (world.store.write request).find key = some found ∧ _
  rw [RequestStore.find_write]
  split_ifs with same
  · exact ⟨request, rfl, agrees (same ▸ issued)⟩
  · exact stands key issued

theorem not_issued_of_open {request : Request} {key : Bytes × Bytes} (stands : DecisionStands world)
    (found : world.store.find key = some request) (notIssuing : request.state ≠ .issuing)
    (notIssued : request.state ≠ .issued) :
    (request.key, true) ∉ world.issues := by
  intro issued
  rw [world.store.keyed key request found] at issued
  obtain ⟨stored, stored_eq, state⟩ := stands key issued
  rw [found] at stored_eq
  rw [← Option.some.inj stored_eq] at state
  exact state.elim notIssuing notIssued

end Operations

section Methods

variable {world : World} {request : Request} {tenantID reqID : Bytes}

abbrev KeepsDecisions (method : Method) (world : World) : Prop :=
  Interaction.Keeps environment DecisionStands method world

theorem keeps_persist (stands : DecisionStands world)
    (agrees : (request.key, true) ∈ world.issues →
      request.state = .issuing ∨ request.state = .issued) :
    KeepsDecisions (persist request) world := by
  unfold persist
  apply keeps_save stands
  · intro answer
    have written := stands_write request stands agrees
    cases answer with
    | ok saved => exact written
    | error error => exact written
  · intro error
    exact stands

variable (manager : Manager) (stands : DecisionStands world)

include stands

theorem keeps_recoverIssuance :
    KeepsDecisions (manager.recoverIssuance request) world := by
  unfold Manager.recoverIssuance
  split_ifs
  · exact stands
  · apply keeps_reading (fun fate => rfl) stands
    intro answer
    cases answer with
    | error error => exact stands
    | ok recovered =>
        change Interaction.Keeps _ _ (if recovered.2 = false ∨ recovered.1 = [] then _ else _) world
        split_ifs
        · exact stands
        · apply keeps_save stands
          · intro answer
            have written := stands_write
              { request with state := .issued, credentialID := recovered.1 } stands
              fun _ => Or.inr rfl
            cases answer with
            | ok saved => exact written
            | error error => exact written
          · intro error
            exact stands

/-- The credential is issued while the request is stored as issuing. -/
theorem keeps_issueApproved (key_eq : request.key = (tenantID, reqID)) :
    KeepsDecisions (issueApproved tenantID reqID request) world := by
  unfold issueApproved
  have issuing := stands_write { request with state := .issuing } stands
    fun _ => Or.inl rfl
  apply keeps_save stands
  · intro answer
    cases answer with
    | error error => exact issuing
    | ok saved =>
        refine ⟨issuing, ?_⟩
        intro fate
        have stored : (world.store.write { request with state := .issuing }).find
            (tenantID, reqID) = some { request with state := .issuing } := by
          rw [RequestStore.find_write]
          exact if_pos key_eq.symm
        -- the key of the request joins the issued ones
        have after : DecisionStands (environment.after
            { world with store := world.store.write { request with state := .issuing } }
            (.issue tenantID reqID request.resource) fate) := by
          intro key issued
          rcases List.mem_append.mp issued with earlier | own
          · exact issuing key earlier
          · have isKey : key = (tenantID, reqID) := congrArg Prod.fst (List.mem_singleton.mp own)
            rw [isKey]
            exact ⟨_, stored, Or.inl rfl⟩
        obtain ⟨failure, stored, credentialID, complete, allowed, reason, now⟩ := fate
        cases failure with
        | some error => exact after
        | none => exact keeps_persist after fun _ => Or.inr rfl
  · intro error
    exact stands

theorem keeps_recordApproval {approver : Bytes} {now : Time}
    (key_eq : request.key = (tenantID, reqID)) (notIssued : (request.key, true) ∉ world.issues) :
    KeepsDecisions (recordApproval tenantID reqID approver request now) world := by
  unfold recordApproval
  dsimp only
  split_ifs
  · exact stands
  · exact keeps_issueApproved stands key_eq
  · exact keeps_persist stands fun issued => absurd issued notIssued

theorem keeps_expire (notIssued : (request.key, true) ∉ world.issues) :
    KeepsDecisions (expire reqID request) world := by
  unfold expire
  split_ifs
  · exact stands
  · apply keeps_save stands
    · intro answer
      exact stands_write { request with state := .expired } stands
        fun issued => absurd issued notIssued
    · intro error
      exact stands

theorem keeps_approveOpen {approver : Bytes}
    (key_eq : request.key = (tenantID, reqID)) (notIssued : (request.key, true) ∉ world.issues) :
    KeepsDecisions (manager.approveOpen tenantID reqID approver request) world := by
  unfold Manager.approveOpen
  simp only [Interaction.perform_bind]
  apply keeps_reading (fun fate => rfl) stands
  intro now
  split_ifs
  · exact keeps_expire stands notIssued
  · exact stands
  · exact keeps_recordApproval stands key_eq notIssued
  · apply keeps_reading (fun fate => rfl) stands
    intro answer
    split_ifs
    · exact stands
    · exact keeps_recordApproval stands key_eq notIssued

theorem keeps_approve (approver : Bytes) :
    KeepsDecisions (manager.approve tenantID reqID approver) world := by
  unfold Manager.approve
  apply keeps_get stands
  · intro error
    exact stands
  · cases found : world.store.find (tenantID, reqID) with
    | none => exact stands
    | some request =>
        change Interaction.Keeps _ _ (if _ then _ else if _ then _ else _) world
        split_ifs with terminal issuing
        · exact stands
        · exact keeps_recoverIssuance manager stands
        · rw [not_or] at terminal
          exact keeps_approveOpen manager stands (world.store.keyed _ _ found)
            (not_issued_of_open stands found issuing terminal.1)

theorem keeps_deny (approver : Bytes)
    (settled : ∀ request, world.store.find (tenantID, reqID) = some request →
      request.state ≠ .issuing) :
    KeepsDecisions (deny tenantID reqID approver) world := by
  unfold deny
  apply keeps_get stands
  · intro error
    exact stands
  · cases found : world.store.find (tenantID, reqID) with
    | none => exact stands
    | some request =>
        change Interaction.Keeps _ _ (if _ then _ else if _ then _ else _) world
        split_ifs with issued denied
        · exact stands
        · exact stands
        · have notIssued := not_issued_of_open stands found (settled request found) issued
          apply keeps_reading (fun fate => rfl) stands
          intro now
          apply keeps_save stands
          · intro answer
            have written := stands_write
              { request with
                approvals := request.approvals ++ [⟨approver, .deny, now⟩]
                state := .denied } stands fun issued => absurd issued notIssued
            cases answer with
            | ok saved => exact written
            | error error => exact written
          · intro error
            exact stands

theorem keeps_requestIssuance (spec : RequestSpec)
    (fresh : world.store.find (manager.tenantID, spec.id) = none) :
    KeepsDecisions (manager.requestIssuance spec) world := by
  have notIssued : ((manager.tenantID, spec.id), true) ∉ world.issues := by
    intro issued
    obtain ⟨request, stored, -⟩ := stands _ issued
    rw [fresh] at stored
    cases stored
  unfold Manager.requestIssuance
  split_ifs
  · exact stands
  · apply keeps_reading (fun fate => rfl) stands
    intro now
    apply keeps_save stands
    · intro answer
      have written := stands_write (manager.newRequest spec now) stands
        fun issued => absurd issued notIssued
      cases answer with
      | ok saved => exact written
      | error error => exact written
    · intro error
      exact stands

end Methods

theorem stands_alone {manager : Manager} {world : World} {call : Call}
    (stands : DecisionStands world) (fresh : Fresh manager world call)
    (settled : DeniesSettled world call) (fates : List Fate) :
    DecisionStands (Interaction.alone environment world (call.method manager) fates) := by
  apply Interaction.Keeps.alone
  cases call with
  | requestIssuance spec => exact keeps_requestIssuance manager stands spec fresh
  | approve tenantID reqID approver => exact keeps_approve manager stands approver
  | deny tenantID reqID approver => exact keeps_deny stands approver settled

theorem stands_run {manager : Manager} {world : World} {calls : List (Call × List Fate)}
    (stands : DecisionStands world) (fresh : world.EachCall manager (Fresh manager) calls)
    (settled : world.EachCall manager DeniesSettled calls) :
    DecisionStands (world.run manager calls) := by
  induction calls generalizing world with
  | nil => exact stands
  | cons first rest ih =>
      obtain ⟨call, fates⟩ := first
      exact ih (stands_alone stands fresh.1 settled.1 fates) fresh.2 settled.2

/-- In every run in which no denial finds a request that is issuing, the stored
state of a request that was issued is neither denied nor expired. -/
theorem issued_decision_stands
    (manager : Manager)
    (store : RequestStore)
    (calls : List (Call × List Fate))
    (fresh : World.EachCall manager (Fresh manager) ⟨store, []⟩ calls)
    (settled : World.EachCall manager DeniesSettled ⟨store, []⟩ calls)
    (key : Bytes × Bytes)
    (issued : (key, true) ∈ (World.run manager ⟨store, []⟩ calls).issues)
    (request : Request)
    (stored : (World.run manager ⟨store, []⟩ calls).store.find key = some request) :
    request.state ≠ .denied ∧ request.state ≠ .expired := by
  have start : DecisionStands ⟨store, []⟩ := fun key issued => absurd issued List.not_mem_nil
  obtain ⟨found, found_eq, state⟩ := stands_run start fresh settled key issued
  rw [stored] at found_eq
  rw [← Option.some.inj found_eq] at state
  rcases state with isIssuing | isIssued
  · rw [isIssuing]
    decide
  · rw [isIssued]
    decide

/-- A request for a credential that needs one approval. -/
def deploySpec : RequestSpec where
  id := bytes "r1"
  kind := []
  resource := bytes "deploy"
  requester := bytes "alice"
  payload := []
  requiredApprovals := 1
  ttl := 0

/-- A fate without a failure. -/
def passing : Fate := {}

/-- The request is made. -/
def firstRequest : Call × List Fate :=
  (.requestIssuance deploySpec, [passing, passing])

/-- The approval issues the credential, but the result is not stored. -/
def unstoredApproval : Call × List Fate :=
  (.approve (bytes "t") (bytes "r1") (bytes "bob"),
    [passing, passing, passing, passing, { failure := some (bytes "store unavailable") }])

/-- The request is denied. -/
def lateDenial : Call × List Fate :=
  (.deny (bytes "t") (bytes "r1") (bytes "eve"), [passing, passing, passing])

/-- The approval issues the credential and stores it. -/
def storedApproval : Call × List Fate :=
  (.approve (bytes "t") (bytes "r1") (bytes "bob"), List.replicate 5 passing)

/-- A request that is made, approved by one person and denied by another. -/
def deniedLate : List (Call × List Fate) :=
  [firstRequest, storedApproval, lateDenial]

/-- The denial finds the request issued and leaves it so. -/
theorem issued_decision_stands_deniedLate :
    ∃ request, (World.run plainManager ⟨emptyStore, []⟩ deniedLate).store.find
        (bytes "t", bytes "r1") = some request ∧
      request.state ≠ .denied ∧ request.state ≠ .expired := by
  have issued : ((bytes "t", bytes "r1"), true) ∈
      (World.run plainManager ⟨emptyStore, []⟩ deniedLate).issues := by
    decide +kernel
  have kept : ((World.run plainManager ⟨emptyStore, []⟩ deniedLate).store.find
      (bytes "t", bytes "r1")).isSome = true := by
    decide +kernel
  have state : ((World.run plainManager ⟨emptyStore, []⟩ [firstRequest, storedApproval]).store.find
      (bytes "t", bytes "r1")).map Request.state = some .issued := by
    decide +kernel
  have settled : DeniesSettled (World.run plainManager ⟨emptyStore, []⟩
      [firstRequest, storedApproval]) lateDenial.1 := by
    intro request found
    have isIssued := state
    rw [found] at isIssued
    rw [Option.some.inj isIssued]
    exact State.noConfusion
  obtain ⟨request, stored⟩ := Option.isSome_iff_exists.mp kept
  exact ⟨request, stored, issued_decision_stands plainManager emptyStore deniedLate
    ⟨rfl, trivial, trivial, trivial⟩ ⟨trivial, trivial, settled, trivial⟩ _ issued request stored⟩

/-- The request is denied after its credential was issued. -/
theorem denied_after_issuance :
    ¬ ∀ (manager : Manager) (store : RequestStore) (calls : List (Call × List Fate)),
      World.EachCall manager (Fresh manager) ⟨store, []⟩ calls →
      ∀ key, (key, true) ∈ (World.run manager ⟨store, []⟩ calls).issues →
      ∀ request, (World.run manager ⟨store, []⟩ calls).store.find key = some request →
        request.state ≠ .denied ∧ request.state ≠ .expired := by
  intro stands
  have denied := stands plainManager emptyStore
    [firstRequest, unstoredApproval, lateDenial]
    ⟨rfl, trivial, trivial, trivial⟩ (bytes "t", bytes "r1") (by decide +kernel)
  have state : ((World.run plainManager ⟨emptyStore, []⟩
      [firstRequest, unstoredApproval, lateDenial]).store.find
        (bytes "t", bytes "r1")).map Request.state = some .denied := by
    decide +kernel
  obtain ⟨request, stored, isDenied⟩ := Option.map_eq_some_iff.mp state
  exact (denied request stored).1 isDenied

end Trstctl.Approval
