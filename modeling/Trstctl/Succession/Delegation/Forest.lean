import Trstctl.Succession.Delegation.Durable

/-!
# The trees of the tenants

The scopes of the store have distinct keys, so the tree of a tenant has exactly
the scopes of the tenant.  Setting a scope raises the floor of one or adds one:
the trees of all tenants keep their scopes with their parents, and no floor
falls.
-/

namespace Trstctl.Succession.Delegation

open Go (Bytes bytes)

section Fill

variable {Item Value : Type}

theorem lookup_foldl_set {key : Item → Bytes} {value : Item → Value} {items : List Item}
    (distinct : (items.map key).Nodup) (map : Go.Map Value) (name : Bytes) (bound : Value) :
    (items.foldl (fun map item => map.set (key item) (value item)) map).lookup name = some bound ↔
      (∃ item ∈ items, key item = name ∧ value item = bound) ∨
        (map.lookup name = some bound ∧ ∀ item ∈ items, key item ≠ name) := by
  induction items generalizing map with
  | nil => simp
  | cons first rest ih =>
      obtain ⟨fresh, restDistinct⟩ := List.nodup_cons.mp distinct
      have others : ∀ item ∈ rest, key item ≠ key first :=
        fun item member same => fresh (List.mem_map.mpr ⟨item, member, same⟩)
      rw [List.foldl_cons, ih restDistinct, Go.MapOf.lookup_set]
      by_cases same : name = key first
      · subst same
        rw [if_pos rfl]
        constructor
        · rintro (⟨item, member, named, -⟩ | ⟨found, -⟩)
          · exact absurd named (others item member)
          · exact Or.inl ⟨first, List.mem_cons_self, rfl, Option.some.inj found⟩
        · rintro (⟨item, member, named, rfl⟩ | ⟨-, unnamed⟩)
          · rcases List.mem_cons.mp member with rfl | later
            · exact Or.inr ⟨rfl, others⟩
            · exact absurd named (others item later)
          · exact absurd rfl (unnamed first List.mem_cons_self)
      · rw [if_neg same]
        simp [Ne.symm same]

theorem nodup_foldl_set {key : Item → Bytes} {value : Item → Value} {map : Go.Map Value}
    (items : List Item) (nodup : (map.map Prod.fst).Nodup) :
    ((items.foldl (fun map item => map.set (key item) (value item)) map).map Prod.fst).Nodup := by
  induction items generalizing map with
  | nil => exact nodup
  | cons first rest ih =>
      exact ih (Go.MapOf.nodup_set _ _ nodup)

end Fill

/-- No two scopes have one key. -/
def Distinct (scopes : List PersistedScope) : Prop :=
  (scopes.map PersistedScope.key).Nodup

variable {scopes : List PersistedScope}

theorem lookup_treeForTenant (distinct : Distinct scopes) {tenantID id : Bytes} {scope : Scope} :
    (treeForTenant scopes tenantID).lookup id = some scope ↔
      scope.id = id ∧ ⟨tenantID, scope⟩ ∈ scopes := by
  have own : ((scopes.filter fun persisted => persisted.tenantID = tenantID).map
      fun persisted => persisted.scope.id).Nodup := by
    refine List.Nodup.of_map (scopeKey tenantID) ?_
    have kept := distinct.sublist
      ((List.filter_sublist (p := fun persisted => decide (persisted.tenantID = tenantID))).map
        PersistedScope.key)
    rw [List.map_map]
    rwa [List.map_congr_left (g := PersistedScope.key)]
    intro persisted member
    have tenant := (List.mem_filter.mp member).2
    rw [decide_eq_true_eq] at tenant
    simp [PersistedScope.key, tenant]
  unfold treeForTenant Tree.addScope
  rw [@lookup_foldl_set _ _ (fun persisted : PersistedScope => persisted.scope.id)
    PersistedScope.scope _ own]
  constructor
  · rintro (⟨persisted, member, rfl, rfl⟩ | ⟨found, -⟩)
    · obtain ⟨isMember, tenant⟩ := List.mem_filter.mp member
      obtain rfl := of_decide_eq_true tenant
      exact ⟨rfl, isMember⟩
    · cases found
  · rintro ⟨rfl, member⟩
    exact Or.inl ⟨⟨tenantID, scope⟩, List.mem_filter.mpr ⟨member, decide_eq_true rfl⟩, rfl, rfl⟩

/-- The scopes of one list are in the other with their parents, and floors that
are not lower. -/
def Tightens (scopes later : List PersistedScope) : Prop :=
  ∀ persisted ∈ scopes, ∃ laterPersisted ∈ later,
    laterPersisted.tenantID = persisted.tenantID ∧
      laterPersisted.scope.id = persisted.scope.id ∧
      laterPersisted.scope.parent = persisted.scope.parent ∧
      persisted.scope.epochFloor ≤ laterPersisted.scope.epochFloor

theorem Tightens.refl (scopes : List PersistedScope) : Tightens scopes scopes :=
  fun persisted member => ⟨persisted, member, rfl, rfl, rfl, UInt64.le_refl _⟩

theorem Tightens.trans {middle later : List PersistedScope} (first : Tightens scopes middle)
    (second : Tightens middle later) :
    Tightens scopes later := by
  intro persisted member
  obtain ⟨next, nextMember, tenant, id, parent, raised⟩ := first persisted member
  obtain ⟨last, lastMember, lastTenant, lastId, lastParent, lastRaised⟩ := second next nextMember
  exact ⟨last, lastMember, lastTenant.trans tenant, lastId.trans id, lastParent.trans parent,
    UInt64.le_trans raised lastRaised⟩

theorem Tightens.tree {later : List PersistedScope} (tightens : Tightens scopes later)
    (distinct : Distinct scopes) (laterDistinct : Distinct later) (tenantID : Bytes) :
    (treeForTenant scopes tenantID).Tightens (treeForTenant later tenantID) := by
  intro id scope found
  obtain ⟨named, member⟩ := (lookup_treeForTenant distinct).mp found
  obtain ⟨⟨laterTenant, laterScope⟩, laterMember, rfl, laterNamed, parent, raised⟩ :=
    tightens _ member
  exact ⟨laterScope, (lookup_treeForTenant laterDistinct).mpr ⟨laterNamed.trans named, laterMember⟩,
    parent, raised⟩

/-- What setting a scope can do: raise the floor of a scope or add one. -/
theorem setScope_cases {command : Command} {next : List PersistedScope} {scope : Scope}
    (set : setScope command scopes = .ok (next, scope)) :
    (∃ before current after, scopes = before ++ current :: after ∧
      current.scope.epochFloor ≤ command.epochFloor ∧
      next = before ++
        { current with scope := { current.scope with epochFloor := command.epochFloor } } ::
          after ∧
      scope.parent = current.scope.parent) ∨
    ((∀ persisted ∈ scopes, persisted.key ≠ scopeKey command.tenantID command.scopeID) ∧
      scope.parent = command.parentScopeID ∧
      next = scopes ++ [⟨command.tenantID,
        ⟨command.scopeID, command.parentScopeID, command.epochFloor⟩⟩]) := by
  induction scopes generalizing next with
  | nil =>
      rw [setScope] at set
      split at set
      · cases set
      · obtain ⟨rfl, rfl⟩ := Prod.mk.inj (Except.ok.inj set)
        exact Or.inr ⟨by simp, rfl, rfl⟩
  | cons current rest ih =>
      rw [setScope] at set
      split at set
      · split at set
        · cases set
        · split at set
          · cases set
          · rename_i kept notLower
            obtain ⟨rfl, rfl⟩ := Prod.mk.inj (Except.ok.inj set)
            exact Or.inl ⟨[], current, rest, rfl, UInt64.not_lt.mp notLower, rfl, rfl⟩
      · rename_i different
        split at set
        · cases set
        · rename_i laterScopes laterScope later
          obtain ⟨rfl, rfl⟩ := Prod.mk.inj (Except.ok.inj set)
          rcases ih later with
            ⟨before, found, after, rfl, raised, rfl, parent⟩ | ⟨fresh, parent, rfl⟩
          · exact Or.inl ⟨current :: before, found, after, rfl, raised, rfl, parent⟩
          · exact Or.inr ⟨List.forall_mem_cons.mpr ⟨different, fresh⟩, parent, rfl⟩

theorem tightens_setScope {command : Command} {next : List PersistedScope} {scope : Scope}
    (set : setScope command scopes = .ok (next, scope)) (distinct : Distinct scopes) :
    Tightens scopes next ∧ Distinct next := by
  rcases setScope_cases set with
    ⟨before, current, after, rfl, raised, rfl, -⟩ | ⟨fresh, -, rfl⟩
  · constructor
    · intro persisted member
      rcases List.mem_append.mp member with earlier | later
      · exact ⟨persisted, List.mem_append_left _ earlier, rfl, rfl, rfl, UInt64.le_refl _⟩
      · rcases List.mem_cons.mp later with rfl | later
        · exact ⟨_, List.mem_append_right _ List.mem_cons_self, rfl, rfl, rfl, raised⟩
        · exact ⟨persisted, List.mem_append_right _ (List.mem_cons_of_mem _ later), rfl, rfl, rfl,
            UInt64.le_refl _⟩
    · unfold Distinct at distinct ⊢
      rw [List.map_append, List.map_cons] at distinct ⊢
      exact distinct
  · constructor
    · exact fun persisted member =>
        ⟨persisted, List.mem_append_left _ member, rfl, rfl, rfl, UInt64.le_refl _⟩
    · unfold Distinct at distinct ⊢
      rw [List.map_append, List.map_cons, List.map_nil]
      refine List.nodup_append.mpr ⟨distinct, List.nodup_singleton _, ?_⟩
      intro key keyMember other otherMember same
      obtain ⟨persisted, member, rfl⟩ := List.mem_map.mp keyMember
      rw [List.mem_singleton.mp otherMember] at same
      exact fresh persisted member same

end Trstctl.Succession.Delegation
