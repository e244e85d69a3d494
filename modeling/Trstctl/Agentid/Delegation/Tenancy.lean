import Trstctl.Agentid.Delegation.Narrowing

/-!
# The tenant of a delegated issuance

A record signs a tenant, and a request names one.  `Gate.verify` reads the
tenant of the request in four places only: the lookup of the root anchor, the
revocation reader, a tenant-scoped attestor and the reachability verdict.  It
never reads the tenant of a record.  What ties the hops of a chain to one
another is their keys, so an approved chain stays inside the tenant of its
request exactly when its keys do.
-/

namespace Trstctl.Agentid.Delegation

open Go (Bytes bytes)

variable {crypto : Crypto}
variable {json : Json}
variable {config : Config}
variable {now : Int64}

/-- Every hop of a chain names the tenant, up to the normalization of the
signed bytes. -/
def NamesTenant (chain : List RecordEnvelope) (tenantID : Bytes) : Prop :=
  ∀ hop ∈ chain, normToken hop.record.tenantID = normToken tenantID

/-- The gate approves a request at the given time. -/
def Approves (crypto : Crypto) (json : Json) (config : Config) (now : Int64)
    (request : IssuancePreconditions) : Prop :=
  ∃ material, verify crypto json config now request = .ok material

/-- The trust store holds the key that signs a hop as an anchor of the tenant,
its own or a global one. -/
def Anchored (config : Config) (tenantID : Bytes) (hop : RecordEnvelope) : Prop :=
  ∃ anchor, config.roots.anchorForTenant tenantID hop.record.delegatorKey.id = some anchor ∧
    anchor.publicDER = hop.delegatorPublicDER

/-- A hop is signed by the key that the parent delegates to. -/
def DelegatesTo (crypto : Crypto) (parent child : RecordEnvelope) : Prop :=
  delegateKeyThumbprintOf crypto child.delegatorPublicDER = parent.record.delegateKeyThumbprint

/-- No key is shared between tenants in a chain sent for a tenant: a hop that
an anchor of this tenant signs names this tenant, and a hop signed by the key
another hop delegates to names the tenant of that hop. -/
structure KeysStayInTenant (crypto : Crypto) (config : Config) (tenantID : Bytes)
    (chain : List RecordEnvelope) : Prop where
  fromAnchor : ∀ hop ∈ chain, Anchored config tenantID hop →
    normToken hop.record.tenantID = normToken tenantID
  fromHop : ∀ parent ∈ chain, ∀ child ∈ chain, DelegatesTo crypto parent child →
    normToken child.record.tenantID = normToken parent.record.tenantID

variable {tenantID : Bytes}

theorem anchored_of_checkRootAnchor {authRef : Bytes} {hop : RecordEnvelope}
    (accepted : checkRootAnchor config tenantID hop = .ok authRef) :
    Anchored config tenantID hop := by
  unfold checkRootAnchor at accepted
  split at accepted
  · simp at accepted
  · rename_i anchor found
    split at accepted
    · simp at accepted
    · rename_i same
      exact ⟨anchor, found, not_not.mp same⟩

theorem delegatesTo_of_checkLinkage {index : Nat} {parent child : RecordEnvelope} {digest : Bytes}
    (accepted : checkLinkage crypto index parent.record digest child = .ok ()) :
    DelegatesTo crypto parent child := by
  unfold checkLinkage at accepted
  by_contra other
  rw [DelegatesTo] at other
  simp only [ne_eq, other, not_false_eq_true, if_true] at accepted
  repeat' split at accepted
  all_goals simp at accepted

theorem delegatesTo_of_verifyHop {index : Nat} {parent child : RecordEnvelope}
    (checked : verifyHop crypto config tenantID now index parent child = .ok ()) :
    DelegatesTo crypto parent child := by
  simp only [verifyHop, Result.bind_eq_ok] at checked
  obtain ⟨_, linkage, -⟩ := checked
  exact delegatesTo_of_checkLinkage linkage

variable {rest : List RecordEnvelope}

theorem verifyDelegation_cons {root : RecordEnvelope} {head authRef : Bytes}
    (accepted : verifyDelegation crypto config tenantID (root :: rest) now =
      .ok (head, authRef)) :
    verifyRoot crypto config tenantID now root = .ok authRef ∧
      verifyHops crypto config tenantID now 1 root rest = .ok head ∧
      verifyNarrowing config (root :: rest) = .ok () := by
  simp only [verifyDelegation, verifyChain, Result.bind_eq_ok] at accepted
  obtain ⟨result, chainAccepted, _, narrowing, returned⟩ := accepted
  split at chainAccepted
  · simp at chainAccepted
  · rename_i rootAccepted
    split at chainAccepted
    · simp at chainAccepted
    · rename_i hopsAccepted
      obtain rfl := Except.ok.inj chainAccepted
      obtain ⟨rfl, rfl⟩ := Prod.mk.inj (Except.ok.inj returned)
      exact ⟨rootAccepted, hopsAccepted, narrowing⟩

/-- The chain of an approved request has passed `verifyDelegation` under the
tenant of the request. -/
theorem verifyDelegation_of_approves {request : IssuancePreconditions} {body : PreconditionsBody}
    (decoded : decodePreconditions json request.preconditions = .ok body)
    (approved : Approves crypto json config now request) :
    ∃ head authRef,
      verifyDelegation crypto config request.tenantID body.chain now = .ok (head, authRef) := by
  obtain ⟨material, accepted⟩ := approved
  simp only [verify, decoded, Result.bind_eq_ok] at accepted
  obtain ⟨⟨head, authRef⟩, delegation, -⟩ := accepted
  exact ⟨head, authRef, delegation⟩

/-- Along hops whose keys stay in the tenant, the tenant of the first is the
tenant of all. -/
theorem namesTenant_of_isChain {first : RecordEnvelope}
    (linked : List.IsChain (DelegatesTo crypto) (first :: rest))
    (stays : ∀ parent ∈ first :: rest, ∀ child ∈ first :: rest, DelegatesTo crypto parent child →
      normToken child.record.tenantID = normToken parent.record.tenantID)
    (named : normToken first.record.tenantID = normToken tenantID) :
    NamesTenant (first :: rest) tenantID := by
  -- The hops before the first of the suffix are done; its tenant is the carried fact.
  induction rest generalizing first with
  | nil =>
      intro hop member
      rw [List.mem_singleton.mp member]
      exact named
  | cons next rest ih =>
      obtain ⟨delegates, later⟩ := List.isChain_cons_cons.mp linked
      have next_named := (stays first List.mem_cons_self next
        (List.mem_cons_of_mem _ List.mem_cons_self) delegates).trans named
      have others := ih later
        (fun parent parent_mem child child_mem => stays parent (List.mem_cons_of_mem _ parent_mem)
          child (List.mem_cons_of_mem _ child_mem)) next_named
      exact List.forall_mem_cons.mpr ⟨named, others⟩

/-- Every hop of an approved chain names the tenant of the request exactly when
no key of the chain is shared between tenants. -/
theorem tenant_isolation_iff
    (crypto : Crypto)
    (json : Json)
    (config : Config)
    (now : Int64)
    (request : IssuancePreconditions)
    (body : PreconditionsBody)
    (decoded : decodePreconditions json request.preconditions = .ok body)
    (nonempty : body.chain ≠ [])
    (approved : Approves crypto json config now request) :
    NamesTenant body.chain request.tenantID ↔
      KeysStayInTenant crypto config request.tenantID body.chain := by
  obtain ⟨head, authRef, delegation⟩ := verifyDelegation_of_approves decoded approved
  obtain ⟨root, rest, chain_eq⟩ := List.exists_cons_of_ne_nil nonempty
  rw [chain_eq] at delegation ⊢
  obtain ⟨rootAccepted, hopsAccepted, -⟩ := verifyDelegation_cons delegation
  constructor
  · intro names
    exact ⟨fun hop member _ => names hop member, fun parent parent_mem child child_mem _ =>
      (names child child_mem).trans (names parent parent_mem).symm⟩
  · intro stays
    simp only [verifyRoot, Result.bind_eq_ok] at rootAccepted
    obtain ⟨_, -, _, -, _, anchorAccepted, -⟩ := rootAccepted
    have anchored := anchored_of_checkRootAnchor anchorAccepted
    exact namesTenant_of_isChain (isChain_of_verifyHops delegatesTo_of_verifyHop hopsAccepted)
      stays.fromHop (stays.fromAnchor root List.mem_cons_self anchored)

/-- A decoder for requests with one hop, a root hop of tenant `a`. -/
def rootHopJson : Json where
  preconditions _ := .ok {
    chain := [rootHop]
    designatedClass := []
    envelope := []
    reachabilityVerdict := [] }
  attestation _ := .error []
  repr _ := .error []
  envelope _ := .error []
  verdict _ := .error []

/-- A request of a tenant with the chain of that hop. -/
def rootHopRequest (tenantID : Bytes) : IssuancePreconditions where
  tenantID := tenantID
  trustAnchorRef := bytes "agent"
  notBefore := 0
  notAfter := 0
  preconditions := bytes "chain"
  subjectRepr := []
  attestation := []
  attestationMethod := []

theorem approves_rootHop (tenantID : Bytes) :
    Approves fixedCrypto rootHopJson globalConfig 0 (rootHopRequest tenantID) :=
  ⟨_, rfl⟩

/-- A chain whose records name tenant `a` is approved for tenant `b`. -/
theorem approves_chain_of_other_tenant :
    ¬ ∀ (crypto : Crypto) (json : Json) (config : Config) (now : Int64)
        (request : IssuancePreconditions) (body : PreconditionsBody),
      decodePreconditions json request.preconditions = .ok body →
      body.chain ≠ [] →
      Approves crypto json config now request →
      NamesTenant body.chain request.tenantID := by
  intro claim
  have names := claim fixedCrypto rootHopJson globalConfig 0 (rootHopRequest (bytes "b"))
    { chain := [rootHop], designatedClass := [], envelope := [], reachabilityVerdict := [] }
    rfl (by simp) (approves_rootHop (bytes "b")) rootHop (List.mem_singleton.mpr rfl)
  exact absurd names (by decide)

/-- The body of a request with the chain of two hops of tenant `a`. -/
def twoHopBody : PreconditionsBody where
  chain := [rootHop, leafHop]
  designatedClass := []
  envelope := []
  reachabilityVerdict := []

/-- The theorem at the two hops of tenant `a`: sent for that tenant their keys
stay in it, sent for tenant `b` they do not. -/
theorem tenant_isolation_iff_two_hops :
    KeysStayInTenant fixedCrypto globalConfig (bytes "a") [rootHop, leafHop] ∧
      ¬ KeysStayInTenant fixedCrypto globalConfig (bytes "b") [rootHop, leafHop] := by
  have isolated := fun tenantID => tenant_isolation_iff fixedCrypto
    { rootHopJson with preconditions := fun _ => .ok twoHopBody } globalConfig 0
    (rootHopRequest tenantID) twoHopBody rfl (by decide) ⟨_, rfl⟩
  constructor
  · refine (isolated (bytes "a")).mp ?_
    intro hop member
    rcases List.mem_pair.mp member with rfl | rfl <;> rfl
  · intro stays
    have names := (isolated (bytes "b")).mpr stays rootHop List.mem_cons_self
    exact absurd names (by decide)

end Trstctl.Agentid.Delegation
