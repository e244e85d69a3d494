import Mathlib.Data.List.Chain
import Trstctl.Agentid.Delegation.Verifier
import Trstctl.Library.Result

/-!
# Accepted chains narrow

`verifyChain` and `verifyNarrowing` compare neighbouring hops.  What they
establish of neighbours is carried along the chain: authority narrows from
every hop to every later one, and the remaining depth, which falls at each
hop, bounds the number of hops.
-/

namespace Trstctl.Agentid.Delegation

open Go (Bytes bytes)

variable {crypto : Crypto}
variable {config : Config}
variable {tenantID : Bytes}
variable {now : Int64}

/-- A hop has less remaining depth than the hop before it. -/
def DepthFalls (previous hop : RecordEnvelope) : Prop :=
  hop.record.depthRemaining.toNat < previous.record.depthRemaining.toNat

/-- A hop's authority is within that of the hop before it. -/
def Narrows (config : Config) (previous hop : RecordEnvelope) : Prop :=
  withinParent hop.record.authority previous.record.authority config.tools = true

variable {previous : RecordEnvelope}

theorem checkDepth_spec {index : Nat} {hop : RecordEnvelope}
    (accepted : checkDepth index previous.record hop.record = .ok ()) :
    DepthFalls previous hop := by
  unfold checkDepth at accepted
  split at accepted
  · simp at accepted
  · split at accepted
    · simp at accepted
    · rename_i falls
      exact UInt32.lt_iff_toNat_lt.mp (UInt32.not_le.mp falls)

variable {rest : List RecordEnvelope}

/-- What every iteration establishes of a hop and the hop before it holds along
the chain. -/
theorem isChain_of_verifyHops {relation : RecordEnvelope → RecordEnvelope → Prop}
    (each : ∀ {index previous hop},
      verifyHop crypto config tenantID now index previous hop = .ok () → relation previous hop)
    {index : Nat} {head : Bytes}
    (accepted : verifyHops crypto config tenantID now index previous rest = .ok head) :
    List.IsChain relation (previous :: rest) := by
  induction rest generalizing index previous with
  | nil => exact List.isChain_singleton previous
  | cons hop rest ih =>
      rw [verifyHops] at accepted
      split at accepted
      · simp at accepted
      · rename_i checked
        exact List.isChain_cons_cons.mpr ⟨each checked, ih accepted⟩

theorem depthFalls_of_verifyHop {index : Nat} {hop : RecordEnvelope}
    (checked : verifyHop crypto config tenantID now index previous hop = .ok ()) :
    DepthFalls previous hop := by
  simp only [verifyHop, Result.bind_eq_ok] at checked
  obtain ⟨_, -, _, -, _, -, _, depth, -⟩ := checked
  exact checkDepth_spec depth

theorem isChain_narrows {index : Nat} {parent : RecordEnvelope}
    (accepted : narrowingFrom config index parent rest = .ok ()) :
    List.IsChain (Narrows config) (parent :: rest) := by
  induction rest generalizing index parent with
  | nil => exact List.isChain_singleton parent
  | cons child rest ih =>
      rw [narrowingFrom] at accepted
      split at accepted
      · rename_i within
        exact List.isChain_cons_cons.mpr ⟨within, ih accepted⟩
      · simp at accepted

theorem length_le_of_isChain_depthFalls (falls : List.IsChain DepthFalls (previous :: rest)) :
    rest.length ≤ previous.record.depthRemaining.toNat := by
  induction rest generalizing previous with
  | nil => exact Nat.zero_le _
  | cons hop rest ih =>
      obtain ⟨first, later⟩ := List.isChain_cons_cons.mp falls
      have bound := ih later
      unfold DepthFalls at first
      rw [List.length_cons]
      omega

theorem pairwise_narrows {chain : List RecordEnvelope}
    (narrows : List.IsChain (Narrows config) chain) :
    chain.Pairwise (Narrows config) := by
  have transitive : Trans (Narrows config) (Narrows config) (Narrows config) :=
    ⟨fun upper lower => withinParent_trans lower upper⟩
  exact narrows.pairwise

theorem root_depth_le {authRef : Bytes} {root : RecordEnvelope}
    (accepted : verifyRoot crypto config tenantID now root = .ok authRef) :
    root.record.depthRemaining.toNat ≤ root.record.authority.depth.toNat := by
  simp only [verifyRoot, Result.bind_eq_ok] at accepted
  obtain ⟨_, -, _, -, _, -, _, validity, -⟩ := accepted
  unfold checkValidity at validity
  split at validity
  · simp at validity
  · split at validity
    · simp at validity
    · omega

/-- Along a chain that `verifyChain` and `verifyNarrowing` accept, the authority
of every hop is within that of every earlier hop and of itself, the hops are at
most one more than the root's remaining depth, and that is at most the depth of
the root's authority. -/
theorem authority_narrows_along_chain
    (crypto : Crypto)
    (config : Config)
    (tenantID : Bytes)
    (now : Int64)
    (chain : List RecordEnvelope)
    (result : Bytes × Bytes)
    (chainAccepted : verifyChain crypto config tenantID chain now = .ok result)
    (narrowingAccepted : verifyNarrowing config chain = .ok ()) :
    (∀ (i j : Nat) (earlier later : RecordEnvelope), i ≤ j →
        chain[i]? = some earlier → chain[j]? = some later →
        withinParent later.record.authority earlier.record.authority config.tools = true) ∧
      ∀ root ∈ chain.head?,
        chain.length ≤ root.record.depthRemaining.toNat + 1 ∧
          root.record.depthRemaining.toNat ≤ root.record.authority.depth.toNat := by
  cases chain with
  | nil => simp
  | cons root rest =>
      rw [verifyChain] at chainAccepted
      split at chainAccepted
      · simp at chainAccepted
      · rename_i authRef rootAccepted
        split at chainAccepted
        · simp at chainAccepted
        · rename_i head hopsAccepted
          constructor
          · intro i j earlier later ordered earlier_eq later_eq
            rcases Nat.eq_or_lt_of_le ordered with rfl | before
            · rw [earlier_eq] at later_eq
              obtain rfl := Option.some.inj later_eq
              exact withinParent_refl _ _
            · obtain ⟨earlierBound, rfl⟩ := List.getElem?_eq_some_iff.mp earlier_eq
              obtain ⟨laterBound, rfl⟩ := List.getElem?_eq_some_iff.mp later_eq
              exact List.pairwise_iff_getElem.mp
                (pairwise_narrows (isChain_narrows narrowingAccepted)) i j earlierBound
                laterBound before
          · intro first first_eq
            obtain rfl := Option.some.inj first_eq
            refine ⟨?_, root_depth_le rootAccepted⟩
            have bound := length_le_of_isChain_depthFalls
              (isChain_of_verifyHops depthFalls_of_verifyHop hopsAccepted)
            rw [List.length_cons]
            omega

/-- A hash with 32-byte digests, and signatures that are all valid. -/
def fixedCrypto : Crypto where
  sha256Sum _ := List.replicate 32 1
  verifyMessage _ _ _ := true

/-- A gate with one global root anchor and no revocations. -/
def globalConfig : Config where
  roots := {
    anchors := [(bytes "root-key", { publicDER := [1], authRef := bytes "fido2:1" })]
    tenantAnchors := []
    source := none }
  isRevoked _ _ := some false
  attestor := none
  minClass := []
  tools := none
  taskEnvelopeTrust := none
  reachabilityTrust := none
  reachabilityWatermark := none
  requireReachability := false

/-- The authority to read below a path, with the given depth. -/
def readAuthority (path : Bytes) (depth : UInt32) : Authority where
  scopes := [bytes "read"]
  tools := []
  resources := [{ kind := bytes "path", value := path }]
  classes := []
  spend := { amount := 10, currency := bytes "usd" }
  rate := { limit := 5, per := bytes "minute" }
  depth := depth
  validity := { notBefore := 0, notAfter := 0 }

/-- A root hop of tenant `a`. -/
def rootHop : RecordEnvelope where
  record := {
    tenantID := bytes "a"
    delegatorID := bytes "alice"
    delegatorKey := { id := bytes "root-key", algorithm := bytes "ECDSA-P256" }
    delegateID := bytes "agent"
    delegateKeyThumbprint := List.replicate 32 1
    authority := readAuthority (bytes "/data") 1
    depthRemaining := 1
    validity := { notBefore := 0, notAfter := 0 }
    rootAnchor := true
    parentDigest := []
    taskDigest := []
    signature := [1] }
  delegatorPublicDER := [1]

def leafHop : RecordEnvelope where
  record := {
    tenantID := bytes "a"
    delegatorID := bytes "agent"
    delegatorKey := { id := bytes "agent-key", algorithm := bytes "ECDSA-P256" }
    delegateID := bytes "helper"
    delegateKeyThumbprint := []
    authority := readAuthority (bytes "/data/reports") 0
    depthRemaining := 0
    validity := { notBefore := 0, notAfter := 0 }
    rootAnchor := false
    parentDigest := List.replicate 32 1
    taskDigest := []
    signature := [1] }
  delegatorPublicDER := [2]

/-- The theorem at the chain of the two hops. -/
theorem authority_narrows_along_chain_two_hops :
    withinParent (readAuthority (bytes "/data/reports") 0) (readAuthority (bytes "/data") 1)
        none = true ∧ [rootHop, leafHop].length ≤ 1 + 1 := by
  obtain ⟨narrows, depth⟩ := authority_narrows_along_chain fixedCrypto globalConfig (bytes "a") 0
    [rootHop, leafHop] (List.replicate 32 1, bytes "fido2:1") (by decide) (by decide)
  exact ⟨narrows 0 1 rootHop leafHop (by decide) rfl rfl, (depth rootHop rfl).1⟩

end Trstctl.Agentid.Delegation
