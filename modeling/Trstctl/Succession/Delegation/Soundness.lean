import Trstctl.Succession.Delegation.Forest

/-!
# Scopes only tighten

Every state of the store is sound: its scopes have distinct keys and paths to
the roots of their tenants, and its operations are the receipts of the commands
they were filed for.  A call of `Apply` leaves the state or tightens it: scopes
keep their parents, floors do not fall and receipts stay.
-/

namespace Trstctl.Succession.Delegation

open Go (Bytes bytes utf8Valid MapOf)

/-- The strings of a command are valid UTF-8, as the strings of the request that
carries it are. -/
structure Command.Valid (command : Command) : Prop where
  tenantID : utf8Valid command.tenantID = true
  operationID : utf8Valid command.operationID = true
  kind : utf8Valid command.kind = true
  scopeID : utf8Valid command.scopeID = true
  parentScopeID : utf8Valid command.parentScopeID = true

/-- A scope with names that are not empty and valid UTF-8. -/
structure PersistedScope.Valid (persisted : PersistedScope) : Prop where
  named : persisted.tenantID ≠ [] ∧ persisted.scope.id ≠ []
  tenantID : utf8Valid persisted.tenantID = true
  id : utf8Valid persisted.scope.id = true
  parent : utf8Valid persisted.scope.parent = true

/-- An operation under the key and with the digest of its command, and a receipt
that verifies. -/
structure Filed (crypto : Crypto) (key : Bytes) (operation : PersistedOperation) : Prop where
  key_eq : key =
    scopeKey operation.receipt.command.tenantID operation.receipt.command.operationID
  digest_eq : operation.digest = operation.receipt.command.digestHex crypto
  verified : operation.receipt.verify crypto = true
  checked : operation.receipt.command.check = .ok ()
  valid : operation.receipt.command.Valid
  parentValid : utf8Valid operation.receipt.appliedParentScopeID = true

/-- The invariant of the store. -/
structure Sound (crypto : Crypto) (state : DurableScopes) : Prop where
  distinct : Distinct state.scopes
  valid : ∀ persisted ∈ state.scopes, persisted.Valid
  resolves : ∀ persisted ∈ state.scopes, ∃ path,
    (treeForTenant state.scopes persisted.tenantID).path persisted.scope.id = .ok path
  keyed : (state.operations.map Prod.fst).Nodup
  filed : ∀ key operation, state.operations.lookup key = some operation →
    Filed crypto key operation

theorem utf8Valid_scopeKey {tenantID id : Bytes} (tenant : utf8Valid tenantID = true)
    (valid : utf8Valid id = true) :
    utf8Valid (scopeKey tenantID id) = true := by
  have ascii : (0 : UInt8).toNat < 0x80 := by decide
  have last : Go.segments (0 :: id) = (0, [0]) :: Go.segments id := rfl
  unfold utf8Valid scopeKey at *
  rw [Go.segments_append tenantID ascii id, List.all_append, tenant, last, List.all_cons, valid]
  rfl

theorem PersistedScope.Valid.throughJson_eq {persisted : PersistedScope} (valid : persisted.Valid) :
    persisted.throughJson = persisted := by
  simp only [PersistedScope.throughJson, Go.throughJson_of_utf8Valid valid.tenantID,
    Go.throughJson_of_utf8Valid valid.id, Go.throughJson_of_utf8Valid valid.parent]

variable {command : Command}

theorem Command.Valid.throughJson_eq (valid : command.Valid) :
    command.throughJson = command := by
  simp only [Command.throughJson, Go.throughJson_of_utf8Valid valid.tenantID,
    Go.throughJson_of_utf8Valid valid.operationID, Go.throughJson_of_utf8Valid valid.kind,
    Go.throughJson_of_utf8Valid valid.scopeID, Go.throughJson_of_utf8Valid valid.parentScopeID]

variable {crypto : Crypto}

theorem Filed.throughJson_eq {key : Bytes} {operation : PersistedOperation}
    (filed : Filed crypto key operation) :
    Go.throughJson key = key ∧ operation.throughJson = operation := by
  constructor
  · rw [filed.key_eq]
    exact Go.throughJson_of_utf8Valid
      (utf8Valid_scopeKey filed.valid.tenantID filed.valid.operationID)
  · have digest : Go.throughJson operation.digest = operation.digest := by
      rw [filed.digest_eq]
      exact Go.throughJson_of_ascii (Go.isAscii_hexEncode _)
    simp only [PersistedOperation.throughJson, filed.valid.throughJson_eq, digest,
      Go.throughJson_of_utf8Valid filed.parentValid]

theorem scopesDistinct_iff {scopes : List PersistedScope} {seen : List Bytes} :
    scopesDistinct seen scopes = true ↔
      (∀ persisted ∈ scopes, persisted.tenantID ≠ [] ∧ persisted.scope.id ≠ []) ∧
        Distinct scopes ∧ ∀ persisted ∈ scopes, persisted.key ∉ seen := by
  induction scopes generalizing seen with
  | nil => simp [scopesDistinct, Distinct]
  | cons persisted rest ih =>
      rw [scopesDistinct, Bool.and_eq_true, ih, List.forall_mem_cons,
        List.forall_mem_cons]
      simp only [Distinct, List.map_cons, List.nodup_cons, List.mem_cons, List.mem_map, not_or,
        not_exists, not_and, Bool.not_eq_true', Bool.or_eq_false_iff, List.isEmpty_eq_false_iff,
        List.contains_eq_mem, decide_eq_false_iff_not]
      constructor
      · rintro ⟨⟨⟨tenant, id⟩, unseen⟩, named, distinct, apart⟩
        exact ⟨⟨⟨tenant, id⟩, named⟩,
          ⟨fun other member same => (apart other member).1 same, distinct⟩,
          unseen, fun other member => (apart other member).2⟩
      · rintro ⟨⟨⟨tenant, id⟩, named⟩, ⟨fresh, distinct⟩, unseen, apart⟩
        exact ⟨⟨⟨tenant, id⟩, unseen⟩, named, distinct,
          fun other member => ⟨fresh other member, apart other member⟩⟩

/-- What a file holds. -/
def contents (file : Option DurableScopes) : DurableScopes :=
  file.getD .empty

variable {file : Option DurableScopes}

theorem loadLocked_eq (sound : Sound crypto (contents file)) (readable : Bool) :
    loadLocked crypto file readable =
      if readable then .ok (contents file) else .error .read := by
  unfold loadLocked
  cases readable with
  | false => rfl
  | true =>
      cases file with
      | none => rfl
      | some state =>
          have distinct : scopesDistinct [] state.scopes = true :=
            scopesDistinct_iff.mpr ⟨fun persisted member => (sound.valid persisted member).named,
              sound.distinct, fun _ _ => List.not_mem_nil⟩
          have verified : (state.operations.any fun binding =>
              !binding.2.receipt.verify crypto) = false := by
            rw [List.any_eq_false]
            intro binding member
            have found := (MapOf.lookup_eq_some_iff sound.keyed).mpr member
            rw [(sound.filed _ _ found).verified]
            exact Bool.false_ne_true
          simp [distinct, verified, contents]

theorem sound_empty (crypto : Crypto) : Sound crypto .empty where
  distinct := List.nodup_nil
  valid := by simp [DurableScopes.empty]
  resolves := by simp [DurableScopes.empty]
  keyed := List.nodup_nil
  filed := by simp [DurableScopes.empty]

/-- A state that tightens another: its scopes do, and it has the operations of
the other. -/
structure Follows (state later : DurableScopes) : Prop where
  scopes : Tightens state.scopes later.scopes
  operations : ∀ key operation, state.operations.lookup key = some operation →
    later.operations.lookup key = some operation

theorem Follows.refl (state : DurableScopes) : Follows state state :=
  ⟨Tightens.refl _, fun _ _ found => found⟩

variable {state : DurableScopes}

theorem Follows.trans {middle later : DurableScopes} (first : Follows state middle)
    (second : Follows middle later) :
    Follows state later :=
  ⟨first.scopes.trans second.scopes,
    fun key operation found =>
      second.operations key operation (first.operations key operation found)⟩

theorem resolves_of_tightens {scopes later : List PersistedScope} (tightens : Tightens scopes later)
    (distinct : Distinct scopes) (laterDistinct : Distinct later) {tenantID id : Bytes}
    (resolves : ∃ path, (treeForTenant scopes tenantID).path id = .ok path) :
    ∃ path, (treeForTenant later tenantID).path id = .ok path := by
  obtain ⟨path, found⟩ := resolves
  exact ⟨path, (tightens.tree distinct laterDistinct tenantID).path_eq found⟩

theorem written_scopes (sound : Sound crypto state) :
    state.written.scopes.Perm state.scopes := by
  have sorted := List.perm_insertionSort (fun first second : PersistedScope =>
    first.key ≤ second.key) state.scopes
  unfold DurableScopes.written
  dsimp only
  have same : (state.scopes.insertionSort fun first second => first.key ≤ second.key).map
      PersistedScope.throughJson =
      state.scopes.insertionSort fun first second => first.key ≤ second.key := by
    conv_rhs => rw [← List.map_id (state.scopes.insertionSort _)]
    apply List.map_congr_left
    intro persisted member
    exact (sound.valid persisted (sorted.mem_iff.mp member)).throughJson_eq
  rw [same]
  exact sorted

theorem written_operations (sound : Sound crypto state) (key : Bytes)
    (operation : PersistedOperation) :
    state.written.operations.lookup key = some operation ↔
      state.operations.lookup key = some operation := by
  have sorted := List.perm_insertionSort (fun first second : Bytes × PersistedOperation =>
    first.1 ≤ second.1) state.operations
  have unchanged : ∀ binding ∈ state.operations,
      Go.throughJson binding.1 = binding.1 ∧ binding.2.throughJson = binding.2 := by
    intro binding member
    exact (sound.filed _ _ ((MapOf.lookup_eq_some_iff sound.keyed).mpr member)).throughJson_eq
  have names : ((state.operations.insertionSort fun first second => first.1 ≤ second.1).map
      fun binding => Go.throughJson binding.1).Nodup := by
    rw [List.map_congr_left (g := Prod.fst)]
    · exact ((sorted.map Prod.fst).nodup_iff).mpr sound.keyed
    · exact fun binding member => (unchanged binding (sorted.mem_iff.mp member)).1
  unfold DurableScopes.written operationsThroughJson
  dsimp only
  rw [@lookup_foldl_set _ _ (fun binding : Bytes × PersistedOperation =>
    Go.throughJson binding.1) (fun binding => binding.2.throughJson) _ names,
    MapOf.lookup_eq_some_iff sound.keyed]
  constructor
  · rintro (⟨binding, member, rfl, rfl⟩ | ⟨found, -⟩)
    · have isMember := sorted.mem_iff.mp member
      obtain ⟨name, value⟩ := unchanged binding isMember
      rw [name, value]
      exact isMember
    · cases found
  · intro member
    obtain ⟨name, value⟩ := unchanged (key, operation) member
    exact Or.inl ⟨(key, operation), sorted.mem_iff.mpr member, name, value⟩

theorem sound_written (sound : Sound crypto state) :
    Sound crypto state.written ∧ Follows state state.written := by
  have permuted := written_scopes sound
  have tightens : Tightens state.scopes state.written.scopes := fun persisted member =>
    ⟨persisted, permuted.mem_iff.mpr member, rfl, rfl, rfl, UInt64.le_refl _⟩
  have distinct : Distinct state.written.scopes :=
    ((permuted.map PersistedScope.key).nodup_iff).mpr sound.distinct
  refine ⟨⟨distinct, fun persisted member => ?_, fun persisted member => ?_, ?_, ?_⟩, tightens, ?_⟩
  · exact sound.valid persisted (permuted.mem_iff.mp member)
  · exact resolves_of_tightens tightens sound.distinct distinct
      (sound.resolves persisted (permuted.mem_iff.mp member))
  · exact nodup_foldl_set _ List.nodup_nil
  · exact fun key operation found =>
      sound.filed key operation ((written_operations sound key operation).mp found)
  · exact fun key operation found => (written_operations sound key operation).mpr found

variable {sign : Sign} {receipt : Receipt}

theorem signReceipt_eq_ok {scope : Scope}
    (signed : signReceipt crypto command scope sign = .ok receipt) :
    receipt.command = command ∧ receipt.appliedParentScopeID = scope.parent ∧
      receipt.verify crypto = true := by
  unfold signReceipt at signed
  dsimp only at signed
  split at signed
  · cases signed
  · split at signed
    · cases signed
    · split at signed
      · rename_i verified
        obtain rfl := Except.ok.inj signed
        exact ⟨rfl, rfl, verified⟩
      · cases signed

theorem nextState_eq_ok {next : DurableScopes}
    (stepped : nextState crypto state command sign = .ok (next, receipt)) :
    ∃ scope path, setScope command state.scopes = .ok (next.scopes, scope) ∧
      (treeForTenant next.scopes command.tenantID).path command.scopeID = .ok path ∧
      signReceipt crypto command scope sign = .ok receipt ∧
      next.operations = state.operations.set (scopeKey command.tenantID command.operationID)
        { digest := command.digestHex crypto, receipt := receipt } := by
  unfold nextState at stepped
  obtain ⟨⟨scopes, scope⟩, set, later⟩ := Result.bind_eq_ok.mp stepped
  dsimp only at later
  split at later
  · cases later
  · rename_i path resolves
    obtain ⟨signed, signs, returned⟩ := Result.bind_eq_ok.mp later
    obtain ⟨rfl, rfl⟩ := Prod.mk.inj (Except.ok.inj returned)
    exact ⟨scope, path, set, resolves, signs, rfl⟩

/-- The scopes of a new operation are valid and have paths. -/
theorem sound_scopes_of_setScope {next : List PersistedScope} {scope : Scope} {path : List Bytes}
    (sound : Sound crypto state) (valid : command.Valid) (checked : command.check = .ok ())
    (set : setScope command state.scopes = .ok (next, scope))
    (resolves : (treeForTenant next command.tenantID).path command.scopeID = .ok path) :
    (∀ persisted ∈ next, persisted.Valid) ∧
      (∀ persisted ∈ next, ∃ path,
        (treeForTenant next persisted.tenantID).path persisted.scope.id = .ok path) ∧
      utf8Valid scope.parent = true := by
  obtain ⟨tightens, distinct⟩ := tightens_setScope set sound.distinct
  have stays : ∀ persisted ∈ state.scopes, ∃ path,
      (treeForTenant next persisted.tenantID).path persisted.scope.id = .ok path :=
    fun persisted member => resolves_of_tightens tightens sound.distinct distinct
      (sound.resolves persisted member)
  have named : command.tenantID ≠ [] ∧ command.scopeID ≠ [] := by
    unfold Command.check at checked
    split at checked
    · cases checked
    · rename_i complete
      simp only [not_or] at complete
      exact ⟨complete.1, complete.2.2.1⟩
  rcases setScope_cases set with
    ⟨before, current, after, split, -, rfl, parent⟩ | ⟨-, parent, rfl⟩
  · -- the scopes have the names and parents that they had
    have members : ∀ persisted ∈ before ++
        { current with scope := { current.scope with epochFloor := command.epochFloor } } :: after,
        ∃ old ∈ state.scopes, old.tenantID = persisted.tenantID ∧
          old.scope.id = persisted.scope.id ∧ old.scope.parent = persisted.scope.parent := by
      intro persisted member
      rw [split]
      rcases List.mem_append.mp member with earlier | later
      · exact ⟨persisted, List.mem_append_left _ earlier, rfl, rfl, rfl⟩
      · rcases List.mem_cons.mp later with rfl | later
        · exact ⟨current, List.mem_append_right _ List.mem_cons_self, rfl, rfl, rfl⟩
        · exact ⟨persisted, List.mem_append_right _ (List.mem_cons_of_mem _ later), rfl, rfl, rfl⟩
    refine ⟨fun persisted member => ?_, fun persisted member => ?_, ?_⟩
    · obtain ⟨old, oldMember, tenant, id, oldParent⟩ := members persisted member
      have oldValid := sound.valid old oldMember
      exact ⟨tenant ▸ id ▸ oldValid.named, tenant ▸ oldValid.tenantID, id ▸ oldValid.id,
        oldParent ▸ oldValid.parent⟩
    · obtain ⟨old, oldMember, tenant, id, -⟩ := members persisted member
      have found := stays old oldMember
      rwa [tenant, id] at found
    · rw [parent]
      exact (sound.valid current
        (split ▸ List.mem_append_right _ List.mem_cons_self)).parent
  · refine ⟨fun persisted member => ?_, fun persisted member => ?_, parent ▸ valid.parentScopeID⟩
    · rcases List.mem_append.mp member with old | new
      · exact sound.valid persisted old
      · rw [List.mem_singleton.mp new]
        exact ⟨named, valid.tenantID, valid.scopeID, valid.parentScopeID⟩
    · rcases List.mem_append.mp member with old | new
      · exact stays persisted old
      · rw [List.mem_singleton.mp new]
        exact ⟨path, resolves⟩

theorem sound_nextState {next : DurableScopes}
    (sound : Sound crypto state) (valid : command.Valid) (checked : command.check = .ok ())
    (unused : state.operations.lookup (scopeKey command.tenantID command.operationID) = none)
    (stepped : nextState crypto state command sign = .ok (next, receipt)) :
    Sound crypto next ∧ Follows state next := by
  obtain ⟨scope, path, set, resolves, signs, operations⟩ := nextState_eq_ok stepped
  obtain ⟨tightens, distinct⟩ := tightens_setScope set sound.distinct
  obtain ⟨scopesValid, allResolve, parentValid⟩ :=
    sound_scopes_of_setScope sound valid checked set resolves
  obtain ⟨own, applied, verified⟩ := signReceipt_eq_ok signs
  refine ⟨⟨distinct, scopesValid, allResolve, ?_, ?_⟩, tightens, ?_⟩
  · rw [operations]
    exact MapOf.nodup_set _ _ sound.keyed
  · intro key operation found
    rw [operations, MapOf.lookup_set] at found
    split at found
    · rename_i named
      obtain rfl := Option.some.inj found
      exact ⟨by rw [named, own], by rw [own], verified, own ▸ checked, own ▸ valid,
        applied ▸ parentValid⟩
    · exact sound.filed key operation found
  · intro key operation found
    rw [operations, MapOf.lookup_set, if_neg]
    · exact found
    · intro named
      rw [named, unused] at found
      cases found

/-- A call keeps the store sound and only tightens it, whether it succeeds or
not. -/
theorem sound_apply {attempt : Attempt} (sound : Sound crypto (contents file))
    (valid : attempt.command.Valid) :
    Sound crypto (contents (apply crypto file attempt).1) ∧
      Follows (contents file) (contents (apply crypto file attempt).1) := by
  have unchanged : Sound crypto (contents file) ∧ Follows (contents file) (contents file) :=
    ⟨sound, Follows.refl _⟩
  unfold apply
  dsimp only
  rw [loadLocked_eq sound]
  split
  · exact unchanged
  · rename_i checked
    split
    · exact unchanged
    · rename_i state loaded
      split at loaded
      · obtain rfl := Except.ok.inj loaded
        split
        · split
          · exact unchanged
          · split
            · exact unchanged
            · exact unchanged
        · rename_i unused
          split
          · exact unchanged
          · rename_i next receipt stepped
            obtain ⟨nextSound, follows⟩ := sound_nextState sound valid checked unused stepped
            obtain ⟨writtenSound, written⟩ := sound_written nextSound
            cases attempt.save with
            | failed => exact unchanged
            | renamed => exact ⟨writtenSound, follows.trans written⟩
            | saved => exact ⟨writtenSound, follows.trans written⟩
      · cases loaded

theorem apply_of_filed {key : Bytes} {operation : PersistedOperation}
    (sound : Sound crypto (contents file))
    (stored : (contents file).operations.lookup key = some operation) (attempt : Attempt)
    (again : attempt.command = operation.receipt.command) :
    apply crypto file attempt =
      (file, if attempt.readable then .ok operation.receipt else .error .read) := by
  have filed := sound.filed key operation stored
  unfold apply
  dsimp only
  rw [loadLocked_eq sound, again, filed.checked]
  cases attempt.readable with
  | false => rfl
  | true =>
      rw [filed.key_eq] at stored
      simp [stored, filed.digest_eq, filed.verified]

theorem run_append (crypto : Crypto) (attempts later : List Attempt) :
    run crypto (attempts ++ later) =
      later.foldl (fun file attempt => (apply crypto file attempt).1) (run crypto attempts) :=
  List.foldl_append

theorem sound_foldl {attempts : List Attempt} (sound : Sound crypto (contents file))
    (valid : ∀ attempt ∈ attempts, attempt.command.Valid) :
    Sound crypto (contents (attempts.foldl (fun file attempt => (apply crypto file attempt).1)
        file)) ∧
      Follows (contents file) (contents (attempts.foldl (fun file attempt =>
        (apply crypto file attempt).1) file)) := by
  induction attempts generalizing file with
  | nil => exact ⟨sound, Follows.refl _⟩
  | cons attempt rest ih =>
      obtain ⟨first, others⟩ := List.forall_mem_cons.mp valid
      obtain ⟨nextSound, follows⟩ := sound_apply sound first
      obtain ⟨lastSound, later⟩ := ih nextSound others
      exact ⟨lastSound, follows.trans later⟩

theorem sound_run {attempts : List Attempt} (valid : ∀ attempt ∈ attempts, attempt.command.Valid) :
    Sound crypto (contents (run crypto attempts)) :=
  (@sound_foldl crypto none attempts (sound_empty crypto) valid).1

/-- Over every sequence of calls: the scopes of a tenant form a forest, a scope
keeps its parent, effective floors do not fall, and a command that was stored
gets its receipt again without a change. -/
theorem scopes_form_tightening_forests
    (crypto : Crypto)
    (attempts later : List Attempt)
    (valid : ∀ attempt ∈ attempts ++ later, attempt.command.Valid) :
    (∀ persisted ∈ (contents (run crypto attempts)).scopes, ∃ path floor laterFloor,
      (treeForTenant (contents (run crypto attempts)).scopes persisted.tenantID).path
          persisted.scope.id = .ok path ∧
        (treeForTenant (contents (run crypto attempts)).scopes persisted.tenantID).effectiveFloor
          persisted.scope.id = .ok floor ∧
        (treeForTenant (contents (run crypto (attempts ++ later))).scopes
          persisted.tenantID).effectiveFloor persisted.scope.id = .ok laterFloor ∧
        floor ≤ laterFloor ∧
        ∀ laterPersisted ∈ (contents (run crypto (attempts ++ later))).scopes,
          laterPersisted.tenantID = persisted.tenantID →
          laterPersisted.scope.id = persisted.scope.id →
          laterPersisted.scope.parent = persisted.scope.parent) ∧
    ∀ key operation, (contents (run crypto attempts)).operations.lookup key = some operation →
      ∀ attempt : Attempt, attempt.command = operation.receipt.command →
        apply crypto (run crypto (attempts ++ later)) attempt =
          (run crypto (attempts ++ later),
            if attempt.readable then .ok operation.receipt else .error .read) := by
  obtain ⟨earlyValid, lateValid⟩ := List.forall_mem_append.mp valid
  have sound := @sound_run crypto attempts earlyValid
  rw [run_append]
  obtain ⟨laterSound, follows⟩ := sound_foldl sound lateValid
  refine ⟨fun persisted member => ?_, fun key operation stored attempt again => ?_⟩
  · obtain ⟨path, resolves⟩ := sound.resolves persisted member
    have tightens := follows.scopes.tree sound.distinct laterSound.distinct persisted.tenantID
    have effective : (treeForTenant (contents (run crypto attempts)).scopes
        persisted.tenantID).effectiveFloor persisted.scope.id =
        .ok ((treeForTenant (contents (run crypto attempts)).scopes
          persisted.tenantID).greatestFloor path) := by
      unfold Tree.effectiveFloor
      rw [resolves]
      rfl
    obtain ⟨laterFloor, laterEffective, raised⟩ := tightens.effectiveFloor_le effective
    refine ⟨path, _, laterFloor, resolves, effective, laterEffective, raised, ?_⟩
    intro laterPersisted laterMember tenant id
    obtain ⟨other, otherMember, otherTenant, otherId, parent, -⟩ := follows.scopes persisted member
    have same : laterPersisted = other := by
      apply List.inj_on_of_nodup_map laterSound.distinct laterMember otherMember
      rw [PersistedScope.key, PersistedScope.key, tenant, id, otherTenant, otherId]
    rw [same, parent]
  · exact apply_of_filed laterSound (follows.operations key operation stored) attempt again

/-- A hash that is its input, and signatures that all verify. -/
def openCrypto : Crypto where
  sha256Sum text := text
  verifyMessage _ _ _ := true

/-- A call that signs and saves. -/
def savedAttempt (operationID kind scopeID parentScopeID : String) (epochFloor : UInt64) :
    Attempt where
  command := ⟨bytes "acme", bytes operationID, bytes kind, bytes scopeID, bytes parentScopeID,
    epochFloor⟩
  sign := some fun _ body => .ok ([1], body)
  readable := true
  save := .saved

/-- The calls that make a root and its child. -/
def treeAttempts : List Attempt :=
  [savedAttempt "1" "scope" "root" "" 2, savedAttempt "2" "scope" "app" "root" 0]

/-- The call that raises the floor of the root. -/
def raiseAttempts : List Attempt :=
  [savedAttempt "3" "floor" "root" "" 5]

/-- The theorem at a root, its child and a higher floor for the root. -/
theorem scopes_form_tightening_forests_child :
    (∃ floor laterFloor,
      (treeForTenant (contents (run openCrypto treeAttempts)).scopes
        (bytes "acme")).effectiveFloor (bytes "app") = .ok floor ∧
      (treeForTenant (contents (run openCrypto (treeAttempts ++ raiseAttempts))).scopes
        (bytes "acme")).effectiveFloor (bytes "app") = .ok laterFloor ∧
      floor ≤ laterFloor) ∧
    ∃ receipt, apply openCrypto (run openCrypto (treeAttempts ++ raiseAttempts))
        (savedAttempt "1" "scope" "root" "" 2) =
      (run openCrypto (treeAttempts ++ raiseAttempts), .ok receipt) := by
  have valid : ∀ attempt ∈ treeAttempts ++ raiseAttempts, attempt.command.Valid := by
    simp only [treeAttempts, raiseAttempts, List.cons_append, List.nil_append,
      List.forall_mem_cons]
    refine ⟨?_, ?_, ?_, by simp⟩ <;>
      exact ⟨by decide +kernel, by decide +kernel, by decide +kernel, by decide +kernel,
        by decide +kernel⟩
  obtain ⟨scopes, operations⟩ :=
    scopes_form_tightening_forests openCrypto treeAttempts raiseAttempts valid
  constructor
  · obtain ⟨path, floor, laterFloor, -, effective, laterEffective, raised, -⟩ :=
      scopes ⟨bytes "acme", bytes "app", bytes "root", 0⟩ (by decide +kernel)
    exact ⟨floor, laterFloor, effective, laterEffective, raised⟩
  · have stored : ((contents (run openCrypto treeAttempts)).operations.lookup
        (scopeKey (bytes "acme") (bytes "1"))).map (fun operation => operation.receipt.command) =
        some (savedAttempt "1" "scope" "root" "" 2).command := by
      decide +kernel
    obtain ⟨operation, found, own⟩ := Option.map_eq_some_iff.mp stored
    exact ⟨operation.receipt, operations _ operation found _ own.symm⟩

end Trstctl.Succession.Delegation
