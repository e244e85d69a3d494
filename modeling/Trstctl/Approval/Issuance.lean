import Trstctl.Approval.Manager

/-!
# Overlapping approvals

Calls of `Approve` and `Deny` that share the store, in any interleaving of their
operations.  An approval is stored over whatever the store holds by then, so two
calls may both go on to issue; where no approval is stored over a request that
has changed since it was read, the credential is issued at most once.
-/

namespace Trstctl.Approval

open Go (Bytes Time bytes)
open Interaction (Obeys Pool)

/-- A request in this state is decided. -/
def State.settled : State → Bool
  | .issued | .denied | .expired => true
  | _ => false

/-- A request in this state takes no more approvals. -/
def State.closed : State → Bool
  | .issuing | .issued | .denied | .expired => true
  | _ => false

theorem State.closed_of_settled {state : State} (settled : state.settled = true) :
    state.closed = true := by
  revert settled
  cases state <;> decide

/-- How far a call has come. -/
inductive Phase where
  | unread
  | read (found : Option Request)
  | claimed (key : Bytes × Bytes)
  | closing

/-- A call gets the request first.  It stores an approval only of a request that
it read open, issues only after its own `Save` as issuing, and stores nothing
but decided requests after that. -/
def discipline : Interaction.Discipline Op Answer Phase where
  fresh := .unread
  allows phase op :=
    match phase, op with
    | .unread, .get _ _ => True
    | .read found, .save request => ∃ read, found = some read ∧ request.key = read.key ∧
        (request.state.settled = true ∨ read.state.closed = false)
    | .claimed key, .issue tenantID id _ => key = (tenantID, id)
    | .closing, .save request => request.state.settled = true
    | .read _, .recoverIssuance _ _ _ => True
    | .read _, .canApprove _ _ _ => True
    | .read _, .clock => True
    | _, _ => False
  advance phase op answer :=
    match phase, op, answer with
    | .unread, .get _ _, .ok found => .read found
    | .unread, .get _ _, .error _ => .closing
    | .read _, .save request, .ok () =>
        if request.state = .issuing then .claimed request.key else .closing
    | .read _, .save _, .error _ => .closing
    | .claimed _, .issue _ _ _, _ => .closing
    | phase, _, _ => phase

section Methods

variable {request : Request} {tenantID reqID : Bytes}

/-- A call that has come this far obeys the discipline. -/
abbrev ObeysFrom (phase : Phase) (method : Method) : Prop :=
  Obeys environment discipline phase method

theorem obeys_get {next : Except Bytes (Option Request) → Method}
    (failed : ∀ error, ObeysFrom .closing (next (.error error)))
    (missing : ObeysFrom (.read none) (next (.ok none)))
    (found : ∀ request, request.key = (tenantID, reqID) →
      ObeysFrom (.read (some request)) (next (.ok (some request)))) :
    ObeysFrom .unread (.ask (.get tenantID reqID) next) := by
  refine ⟨trivial, ?_⟩
  intro world fate
  obtain ⟨failure, stored, credentialID, complete, allowed, reason, now⟩ := fate
  cases failure with
  | some error => exact failed error
  | none =>
      change ObeysFrom (.read (world.store.find (tenantID, reqID)))
        (next (.ok (world.store.find (tenantID, reqID))))
      cases stored : world.store.find (tenantID, reqID) with
      | none => exact missing
      | some request => exact found request (world.store.keyed _ _ stored)

theorem obeys_last_save {phase : Phase} {next : Except Bytes Unit → Method}
    (allowed : discipline.allows phase (.save request))
    (ends : ∀ answer, ∃ outcome, next answer = .done outcome) :
    ObeysFrom phase (.ask (.save request) next) := by
  refine ⟨allowed, ?_⟩
  intro world fate
  obtain ⟨outcome, outcome_eq⟩ := ends (environment.answer world (.save request) fate)
  rw [outcome_eq]
  exact trivial

theorem obeys_persist {phase : Phase} (allowed : discipline.allows phase (.save request)) :
    ObeysFrom phase (persist request) := by
  apply obeys_last_save allowed
  intro answer
  cases answer with
  | ok saved => exact ⟨_, rfl⟩
  | error error => exact ⟨_, rfl⟩

theorem obeys_issueApproved {read : Request} (key_eq : request.key = (tenantID, reqID))
    (same : request.key = read.key) (isOpen : read.state.closed = false) :
    ObeysFrom (.read (some read)) (issueApproved tenantID reqID request) := by
  refine ⟨⟨read, rfl, same, Or.inr isOpen⟩, ?_⟩
  intro world fate
  generalize environment.answer world _ fate = answer
  cases answer with
  | error error => exact trivial
  | ok saved =>
      refine ⟨key_eq, ?_⟩
      intro world fate
      generalize environment.answer world _ fate = answer
      cases answer with
      | error error => exact trivial
      | ok credentialID => exact obeys_persist rfl

theorem obeys_recordApproval {approver : Bytes} {now : Time}
    (key_eq : request.key = (tenantID, reqID)) (isOpen : request.state.closed = false) :
    ObeysFrom (.read (some request)) (recordApproval tenantID reqID approver request now) := by
  unfold recordApproval
  dsimp only
  split_ifs
  · exact trivial
  · exact obeys_issueApproved key_eq rfl isOpen
  · exact obeys_persist ⟨request, rfl, rfl, Or.inr isOpen⟩

theorem obeys_approveOpen {approver : Bytes} (manager : Manager)
    (key_eq : request.key = (tenantID, reqID))
    (undecided : request.state = .expired ∨ request.state.closed = false) :
    ObeysFrom (.read (some request)) (manager.approveOpen tenantID reqID approver request) := by
  unfold Manager.approveOpen
  simp only [Interaction.perform_bind]
  refine ⟨trivial, ?_⟩
  intro world fate
  dsimp only
  split_ifs with expired
  · unfold expire
    split_ifs
    · exact trivial
    · exact ⟨⟨request, rfl, rfl, Or.inl rfl⟩, fun _ _ => trivial⟩
  · exact trivial
  · exact obeys_recordApproval key_eq
      (undecided.resolve_left fun isExpired => expired (Or.inl isExpired))
  · refine ⟨trivial, ?_⟩
    intro world fate
    dsimp only
    split_ifs
    · exact trivial
    · exact obeys_recordApproval key_eq
        (undecided.resolve_left fun isExpired => expired (Or.inl isExpired))

theorem obeys_recoverIssuance (manager : Manager) :
    ObeysFrom (.read (some request)) (manager.recoverIssuance request) := by
  unfold Manager.recoverIssuance
  split_ifs
  · exact trivial
  · refine ⟨trivial, ?_⟩
    intro world fate
    generalize environment.answer world _ fate = answer
    cases answer with
    | error error => exact trivial
    | ok recovered =>
        change Obeys _ _ _ (if recovered.2 = false ∨ recovered.1 = [] then _ else _)
        split_ifs
        · exact trivial
        · apply obeys_last_save
          · exact ⟨request, rfl, rfl, Or.inl rfl⟩
          · intro answer
            cases answer with
            | ok saved => exact ⟨_, rfl⟩
            | error error => exact ⟨_, rfl⟩

theorem obeys_approve (manager : Manager) (approver : Bytes) :
    ObeysFrom .unread (manager.approve tenantID reqID approver) := by
  unfold Manager.approve
  apply obeys_get
  · exact fun error => trivial
  · exact trivial
  · intro request key_eq
    change ObeysFrom _ (if _ then _ else if _ then _ else _)
    split_ifs with terminal issuing
    · exact trivial
    · exact obeys_recoverIssuance manager
    · apply obeys_approveOpen manager key_eq
      rw [not_or] at terminal
      cases state : request.state with
      | awaitingApproval => exact Or.inr rfl
      | approved => exact Or.inr rfl
      | issuing => exact absurd state issuing
      | denied => exact absurd state terminal.2
      | issued => exact absurd state terminal.1
      | expired => exact Or.inl rfl

theorem obeys_deny (approver : Bytes) :
    ObeysFrom .unread (deny tenantID reqID approver) := by
  unfold deny
  apply obeys_get
  · exact fun error => trivial
  · exact trivial
  · intro request key_eq
    change ObeysFrom _ (if _ then _ else if _ then _ else _)
    split_ifs
    · exact trivial
    · exact trivial
    · refine ⟨trivial, ?_⟩
      intro world fate
      apply obeys_last_save
      · exact ⟨request, rfl, rfl, Or.inl rfl⟩
      · intro answer
        cases answer with
        | ok saved => exact ⟨_, rfl⟩
        | error error => exact ⟨_, rfl⟩

end Methods

/-- The number of calls of `Issue` for a key. -/
def World.issueCount (world : World) (key : Bytes × Bytes) : Nat :=
  (world.issues.filter fun issue => issue.1 = key).length

/-- A request under the key takes no more approvals. -/
def World.Closed (world : World) (key : Bytes × Bytes) : Prop :=
  ∃ request, world.store.find key = some request ∧ request.state.closed = true

section Claims

variable {ι : Type} {key : Bytes × Bytes} {world : World} {memory : ι → Phase}

/-- One call at most is about to issue or has issued, and from then on the
request is closed. -/
structure OneClaim (key : Bytes × Bytes) (world : World) (memory : ι → Phase) : Prop where
  once : world.issueCount key ≤ 1
  unissued : ∀ caller, memory caller = .claimed key → world.issueCount key = 0
  unique : ∀ caller other, memory caller = .claimed key → memory other = .claimed key →
    caller = other
  closed_of_claimed : ∀ caller, memory caller = .claimed key → world.Closed key
  closed_of_issued : world.issueCount key ≠ 0 → world.Closed key

theorem OneClaim.quiet [DecidableEq ι] {after : World} {caller : ι} {phase : Phase}
    (claim : OneClaim key world memory) (notClaimed : phase ≠ .claimed key)
    (count_eq : after.issueCount key = world.issueCount key)
    (stays : world.Closed key → after.Closed key) :
    OneClaim key after (Function.update memory caller phase) := by
  have earlier : ∀ other, Function.update memory caller phase other = .claimed key →
      memory other = .claimed key := by
    intro other claims
    by_cases same : other = caller
    · rw [same, Function.update_self] at claims
      exact absurd claims notClaimed
    · rwa [Function.update_of_ne same] at claims
  exact
    { once := count_eq.trans_le claim.once
      unissued := fun other claims => count_eq.trans (claim.unissued other (earlier other claims))
      unique := fun first second claims others =>
        claim.unique first second (earlier first claims) (earlier second others)
      closed_of_claimed := fun other claims =>
        stays (claim.closed_of_claimed other (earlier other claims))
      closed_of_issued := fun issued => stays (claim.closed_of_issued (count_eq ▸ issued)) }

variable {request : Request}

theorem OneClaim.none_of_open (claim : OneClaim key world memory)
    (found : world.store.find key = some request) (isOpen : request.state.closed = false) :
    world.issueCount key = 0 ∧ ∀ caller, memory caller ≠ .claimed key := by
  have notClosed : ¬ world.Closed key := by
    rintro ⟨stored, stored_eq, closed⟩
    rw [found] at stored_eq
    rw [← Option.some.inj stored_eq, isOpen] at closed
    cases closed
  constructor
  · by_contra issued
    exact notClosed (claim.closed_of_issued issued)
  · intro caller claims
    exact notClosed (claim.closed_of_claimed caller claims)

theorem closed_write
    (onOpen : request.state.settled = true ∨
      ∃ read, world.store.find request.key = some read ∧ read.state.closed = false)
    (closed : world.Closed key) :
    World.Closed { world with store := world.store.write request } key := by
  unfold World.Closed
  rw [RequestStore.find_write]
  split_ifs with same
  · rcases onOpen with settled | ⟨read, found, isOpen⟩
    · exact ⟨request, rfl, State.closed_of_settled settled⟩
    · obtain ⟨stored, stored_eq, storedClosed⟩ := closed
      rw [same, found] at stored_eq
      rw [← Option.some.inj stored_eq, isOpen] at storedClosed
      cases storedClosed
  · exact closed

theorem OneClaim.claim [DecidableEq ι] {read : Request} (claim : OneClaim request.key world memory)
    (caller : ι) (found : world.store.find request.key = some read)
    (isOpen : read.state.closed = false) (issuing : request.state = .issuing) :
    OneClaim request.key { world with store := world.store.write request }
      (Function.update memory caller (.claimed request.key)) := by
  obtain ⟨unissued, unclaimed⟩ := claim.none_of_open found isOpen
  have only : ∀ other, Function.update memory caller (.claimed request.key) other =
      .claimed request.key → other = caller := by
    intro other claims
    by_contra different
    rw [Function.update_of_ne different] at claims
    exact unclaimed other claims
  have closed : World.Closed { world with store := world.store.write request } request.key := by
    refine ⟨request, ?_, by rw [issuing]; rfl⟩
    rw [RequestStore.find_write, if_pos rfl]
  exact
    { once := claim.once
      unissued := fun _ _ => unissued
      unique := fun first second claims others =>
        (only first claims).trans (only second others).symm
      closed_of_claimed := fun _ _ => closed
      closed_of_issued := fun _ => closed }

/-- A `Save` of a call that has read the request, which is not stale. -/
theorem OneClaim.save [DecidableEq ι] {found : Option Request} {fate : Fate}
    (claim : OneClaim key world memory) (caller : ι)
    (allowed : discipline.allows (.read found) (.save request))
    (current : fate.writes = true → request.state.settled = false →
      world.store.find request.key = found) :
    OneClaim key (environment.after world (.save request) fate)
      (Function.update memory caller (discipline.advance (.read found) (.save request)
        (environment.answer world (.save request) fate))) := by
  obtain ⟨read, rfl, -, decided⟩ := allowed
  have onOpen : fate.writes = true → request.state.settled = true ∨
      ∃ read, world.store.find request.key = some read ∧ read.state.closed = false := by
    intro writes
    cases settled : request.state.settled with
    | true => exact Or.inl rfl
    | false =>
        refine Or.inr ⟨read, current writes settled, decided.resolve_left ?_⟩
        rw [settled]
        decide
  rcases save_cases world request fate with
    ⟨answer, writes, after⟩ | ⟨error, answer, writes, after⟩ | ⟨error, answer, after⟩
  · rw [answer, after]
    change OneClaim key _ (Function.update memory caller
      (if request.state = .issuing then .claimed request.key else .closing))
    split_ifs with issuing
    · by_cases same : key = request.key
      · subst same
        rcases onOpen writes with settled | ⟨stored, stored_eq, isOpen⟩
        · rw [issuing] at settled
          cases settled
        · exact claim.claim caller stored_eq isOpen issuing
      · refine claim.quiet ?_ rfl (closed_write (onOpen writes))
        intro claims
        exact same (Phase.claimed.inj claims).symm
    · exact claim.quiet Phase.noConfusion rfl (closed_write (onOpen writes))
  · rw [answer, after]
    exact claim.quiet Phase.noConfusion rfl (closed_write (onOpen writes))
  · rw [answer, after]
    exact claim.quiet Phase.noConfusion rfl id

theorem OneClaim.issue [DecidableEq ι] {tenantID reqID resource : Bytes} {caller : ι}
    (claim : OneClaim key world memory) (claims : memory caller = .claimed (tenantID, reqID))
    (fate : Fate) :
    OneClaim key (environment.after world (.issue tenantID reqID resource) fate)
      (Function.update memory caller .closing) := by
  have count : (environment.after world (.issue tenantID reqID resource) fate).issueCount key =
      world.issueCount key + if (tenantID, reqID) = key then 1 else 0 := by
    change ((world.issues ++ [((tenantID, reqID), fate.failure.isNone)]).filter _).length = _
    rw [List.filter_append, List.length_append]
    by_cases same : (tenantID, reqID) = key
    · simp [same, World.issueCount]
    · simp [same, World.issueCount]
  by_cases same : (tenantID, reqID) = key
  · subst same
    rw [if_pos rfl, claim.unissued caller claims] at count
    have unclaimed : ∀ other, Function.update memory caller .closing other ≠
        .claimed (tenantID, reqID) := by
      intro other others
      by_cases isCaller : other = caller
      · rw [isCaller, Function.update_self] at others
        cases others
      · rw [Function.update_of_ne isCaller] at others
        exact isCaller (claim.unique other caller others claims)
    exact
      { once := by omega
        unissued := fun other others => absurd others (unclaimed other)
        unique := fun other _ others _ => absurd others (unclaimed other)
        closed_of_claimed := fun other others => absurd others (unclaimed other)
        closed_of_issued := fun _ => claim.closed_of_claimed caller claims }
  · rw [if_neg same, Nat.add_zero] at count
    exact claim.quiet Phase.noConfusion count id

end Claims

/-- A call of `Approve` or `Deny`. -/
inductive DecisionCall where
  | approve (tenantID reqID approver : Bytes)
  | deny (tenantID reqID approver : Bytes)

def DecisionCall.method (manager : Manager) : DecisionCall → Method
  | .approve tenantID reqID approver => manager.approve tenantID reqID approver
  | .deny tenantID reqID approver => Approval.deny tenantID reqID approver

/-- Calls that share a store, before any of their operations. -/
def callers {ι : Type} (manager : Manager) (store : RequestStore) (calls : ι → DecisionCall) :
    Pool Op Answer Outcome World Phase ι :=
  Pool.start discipline ⟨store, []⟩ fun caller => (calls caller).method manager

section Runs

variable {ι : Type} [DecidableEq ι]

/-- Where the next operation of a call writes an undecided request, the store
still holds what the call read. -/
def Current (pool : Pool Op Answer Outcome World Phase ι) (turn : ι × Fate) : Prop :=
  ∀ request next found, pool.remaining turn.1 = .ask (.save request) next →
    turn.2.writes = true → request.state.settled = false → pool.memory turn.1 = .read found →
    pool.state.store.find request.key = found

/-- A current turn keeps the claim. -/
theorem oneClaim_turn {key : Bytes × Bytes} {pool : Pool Op Answer Outcome World Phase ι}
    {turn : ι × Fate} {op : Op} {next : Answer op → Method}
    (claim : OneClaim key pool.state pool.memory) (current : Current pool turn)
    (remaining : pool.remaining turn.1 = .ask op next)
    (allowed : discipline.allows (pool.memory turn.1) op) :
    OneClaim key (environment.after pool.state op turn.2)
      (Function.update pool.memory turn.1 (discipline.advance (pool.memory turn.1) op
        (environment.answer pool.state op turn.2))) := by
  cases phase : pool.memory turn.1 with
  | unread =>
      rw [phase] at allowed
      cases op with
      | get tenantID reqID =>
          refine claim.quiet ?_ rfl id
          generalize environment.answer pool.state (.get tenantID reqID) turn.2 = answer
          cases answer with
          | ok found => exact Phase.noConfusion
          | error error => exact Phase.noConfusion
      | _ => exact allowed.elim
  | read found =>
      rw [phase] at allowed
      cases op with
      | save request =>
          exact claim.save turn.1 allowed fun writes undecided =>
            current request next found remaining writes undecided phase
      | recoverIssuance tenantID reqID resource => exact claim.quiet Phase.noConfusion rfl id
      | canApprove tenantID reqID approver => exact claim.quiet Phase.noConfusion rfl id
      | clock => exact claim.quiet Phase.noConfusion rfl id
      | get tenantID reqID => exact allowed.elim
      | issue tenantID reqID resource => exact allowed.elim
  | claimed claimedKey =>
      rw [phase] at allowed
      cases op with
      | issue tenantID reqID resource =>
          have isKey : claimedKey = (tenantID, reqID) := allowed
          rw [isKey] at phase
          exact claim.issue phase turn.2
      | _ => exact allowed.elim
  | closing =>
      rw [phase] at allowed
      cases op with
      | save request =>
          have settled : request.state.settled = true := allowed
          rcases save_cases pool.state request turn.2 with
            ⟨-, -, after⟩ | ⟨error, -, -, after⟩ | ⟨error, -, after⟩
          · rw [after]
            exact claim.quiet Phase.noConfusion rfl (closed_write (Or.inl settled))
          · rw [after]
            exact claim.quiet Phase.noConfusion rfl (closed_write (Or.inl settled))
          · rw [after]
            exact claim.quiet Phase.noConfusion rfl id
      | _ => exact allowed.elim

/-- In every interleaving in which no approval is stored over a request that has
changed since its call read it, `Issue` is called at most once for a request. -/
theorem issued_at_most_once
    (manager : Manager)
    (store : RequestStore)
    (calls : ι → DecisionCall)
    (schedule : List (ι × Fate))
    (current : (callers manager store calls).EachTurn environment discipline Current schedule)
    (key : Bytes × Bytes) :
    ((callers manager store calls).run environment discipline schedule).state.issueCount key ≤
      1 := by
  have start : (callers manager store calls).Sound environment discipline (OneClaim key) := by
    constructor
    · intro caller
      change ObeysFrom .unread ((calls caller).method manager)
      cases calls caller with
      | approve tenantID reqID approver => exact obeys_approve manager approver
      | deny tenantID reqID approver => exact obeys_deny approver
    · exact
        { once := Nat.zero_le 1
          unissued := fun _ _ => rfl
          unique := fun _ _ claims => Phase.noConfusion claims
          closed_of_claimed := fun _ claims => Phase.noConfusion claims
          closed_of_issued := fun issued => absurd rfl issued }
  have sound := Pool.Sound.run
    (fun pool turn op next claim admitted remaining allowed =>
      oneClaim_turn claim admitted remaining allowed) start schedule current
  exact sound.holds.once

end Runs

/-- A request that needs one approval. -/
def pendingRequest : Request where
  id := [0x72]
  tenantID := [0x74]
  kind := []
  resource := [0x64]
  requester := [0x61]
  requiredApprovals := 1
  approvals := []
  state := .awaitingApproval
  credentialID := []
  payload := []
  createdAt := Time.zero
  expiresAt := ⟨3600 * 10 ^ 9⟩

/-- The store with that request alone. -/
def pendingStore : RequestStore :=
  emptyStore.write pendingRequest

/-- Two approvals of the request. -/
def twoApprovers : Bool → DecisionCall
  | true => .approve [0x74] [0x72] [0x62]
  | false => .approve [0x74] [0x72] [0x63]

/-- One turn after another in which nothing fails. -/
def turns (order : List Bool) : List (Bool × Fate) :=
  order.map fun caller => (caller, {})

/-- One approves and the other denies. -/
def approvalAndDenial : Bool → DecisionCall
  | true => .approve [0x74] [0x72] [0x62]
  | false => .deny [0x74] [0x72] [0x63]

/-- The denial reads the request before the approval is stored, and is stored after
the credential was issued. -/
theorem issued_at_most_once_denied :
    ((callers plainManager pendingStore approvalAndDenial).run environment discipline
      (turns [true, false, true, true, true, false, true, false])).state.issueCount
        ([0x74], [0x72]) ≤ 1 := by
  apply issued_at_most_once
  refine ⟨?_, ?_, ?_, ?_, ?_, ?_, ?_, ?_, trivial⟩
  · intro request next found remaining
    cases remaining
  · intro request next found remaining
    cases remaining
  · intro request next found remaining
    cases remaining
  · intro request next found remaining writes undecided memory
    cases remaining
    cases memory
    rfl
  · intro request next found remaining
    cases remaining
  · intro request next found remaining
    cases remaining
  · intro request next found remaining writes undecided memory
    cases memory
  · intro request next found remaining writes undecided
    cases remaining
    cases undecided

/-- Both approvers read the request before either stores its approval. -/
theorem issued_twice :
    ¬ ∀ (manager : Manager) (store : RequestStore) (calls : Bool → DecisionCall)
        (schedule : List (Bool × Fate)) (key : Bytes × Bytes),
      ((callers manager store calls).run environment discipline schedule).state.issueCount key ≤
        1 := by
  intro once
  have twice : ((callers plainManager pendingStore twoApprovers).run environment discipline
      (turns [true, false, true, true, true, false, false, false])).state.issueCount
        ([0x74], [0x72]) = 2 := by
    decide +kernel
  have atMost := once plainManager pendingStore twoApprovers
    (turns [true, false, true, true, true, false, false, false]) ([0x74], [0x72])
  omega

end Trstctl.Approval
