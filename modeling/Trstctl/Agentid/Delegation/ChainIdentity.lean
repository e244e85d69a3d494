import Mathlib.Data.List.Forall2
import Trstctl.Agentid.Delegation.Encoding
import Trstctl.Agentid.Delegation.Narrowing
import Trstctl.Go.Hash

/-!
# The head of a chain determines the chain

A hop signs the digest of the hop before it, so the digest of the last hop is
the end of a hash chain.  The encoding of a record determines whether it is a
root and which parent it names; with a hash that binds the records, one head is
the head of one chain.
-/

namespace Trstctl.Agentid.Delegation

open Go (Bytes bytes bigEndian64)

section Hops

variable {crypto : Crypto} {registry : ToolRegistry}

/-- Hops from the last to the first: each names the digest of the next, and the
first is a root. -/
def Descends (crypto : Crypto) (registry : ToolRegistry) : List RecordEnvelope → Prop
  | [] => False
  | [root] => root.record.linkage = none
  | hop :: previous :: rest =>
      hop.record.linkage = some (previous.record.digest crypto registry) ∧
        Descends crypto registry (previous :: rest)

/-- The strings hashed for the hops of a chain. -/
def recordInputs (registry : ToolRegistry) (chain : List RecordEnvelope) : Set Bytes :=
  {text | ∃ hop ∈ chain, hop.record.canonicalBytes registry = text}

theorem recordInputs_subset {chain others : List RecordEnvelope}
    (members : ∀ hop ∈ chain, hop ∈ others) :
    recordInputs registry chain ⊆ recordInputs registry others := by
  intro text found
  obtain ⟨hop, member, same⟩ := found
  exact ⟨hop, members hop member, same⟩

theorem canonicalBytes_eq_of_digest_eq
    {hop other : RecordEnvelope} {rest otherRest : List RecordEnvelope}
    (descends : Descends crypto registry (hop :: rest))
    (otherDescends : Descends crypto registry (other :: otherRest))
    (binds : Hash.Binds crypto.sha256Sum (recordInputs registry (hop :: rest)))
    (addressable : ∀ earlier ∈ hop :: rest,
      (earlier.record.canonicalBytes registry).length < 2 ^ 63)
    (digests : hop.record.digest crypto registry = other.record.digest crypto registry) :
    List.Forall₂
      (fun first second : RecordEnvelope =>
        first.record.canonicalBytes registry = second.record.canonicalBytes registry)
      (hop :: rest) (other :: otherRest) := by
  induction rest generalizing hop other otherRest with
  | nil =>
      have same := binds.eq_of_hash_eq _ ⟨hop, List.mem_cons_self, rfl⟩ _ digests.symm
      have linkage := linkage_eq_of_canonicalBytes_eq (addressable hop List.mem_cons_self) same.symm
      cases otherRest with
      | nil => exact List.Forall₂.cons same.symm List.Forall₂.nil
      | cons otherPrevious otherRest =>
          -- a root is no linked hop
          rw [show hop.record.linkage = none from descends, otherDescends.1] at linkage
          cases linkage
  | cons previous rest ih =>
      have same := binds.eq_of_hash_eq _ ⟨hop, List.mem_cons_self, rfl⟩ _ digests.symm
      have linkage := linkage_eq_of_canonicalBytes_eq (addressable hop List.mem_cons_self) same.symm
      cases otherRest with
      | nil =>
          rw [descends.1, show other.record.linkage = none from otherDescends] at linkage
          cases linkage
      | cons otherPrevious otherRest =>
          rw [descends.1, otherDescends.1] at linkage
          refine List.Forall₂.cons same.symm ?_
          exact ih descends.2 otherDescends.2
            (binds.mono (recordInputs_subset fun _ member => List.mem_cons_of_mem _ member))
            (fun earlier member => addressable earlier (List.mem_cons_of_mem _ member))
            (Option.some.inj linkage)

end Hops

section Accepted

variable {crypto : Crypto} {config : Config} {tenantID : Bytes} {now : Int64}

theorem linkage_of_checkRootLinkage {record : Record}
    (accepted : checkRootLinkage record = .ok ()) :
    record.linkage = none := by
  unfold checkRootLinkage at accepted
  split at accepted
  · cases accepted
  · split at accepted
    · cases accepted
    · rename_i anchored
      rw [Record.linkage, if_pos (by simpa using anchored)]

theorem linkage_of_checkLinkage
    {index : Nat} {previous : Record} {parentDigest : Bytes} {hop : RecordEnvelope}
    (accepted : checkLinkage crypto index previous parentDigest hop = .ok ()) :
    hop.record.linkage = some parentDigest := by
  unfold checkLinkage at accepted
  split at accepted
  · cases accepted
  · split at accepted
    · cases accepted
    · rename_i unanchored
      split at accepted
      · cases accepted
      · rename_i same
        rw [Record.linkage, if_neg unanchored, not_not.mp same]

theorem descends_of_verifyHops
    {index : Nat} {previous : RecordEnvelope} {done rest : List RecordEnvelope} {head : Bytes}
    (descends : Descends crypto config.tools (previous :: done))
    (accepted : verifyHops crypto config tenantID now index previous rest = .ok head) :
    ∃ last before, rest.reverse ++ previous :: done = last :: before ∧
      Descends crypto config.tools (last :: before) ∧
      last.record.digest crypto config.tools = head := by
  induction rest generalizing index previous done with
  | nil => exact ⟨previous, done, rfl, descends, Except.ok.inj accepted⟩
  | cons hop rest ih =>
      rw [verifyHops] at accepted
      split at accepted
      · cases accepted
      · rename_i checked
        obtain ⟨checkedLinkage, linkage, later⟩ := Result.bind_eq_ok.mp checked
        have next := ih
          (show Descends crypto config.tools (hop :: previous :: done) from
            ⟨linkage_of_checkLinkage linkage, descends⟩) accepted
        rwa [List.reverse_cons, List.append_assoc, List.singleton_append]

theorem descends_of_verifyChain {chain : List RecordEnvelope} {head authRef : Bytes}
    (nonempty : chain ≠ [])
    (accepted : verifyChain crypto config tenantID chain now = .ok (head, authRef)) :
    ∃ last before, chain.reverse = last :: before ∧
      Descends crypto config.tools (last :: before) ∧
      last.record.digest crypto config.tools = head := by
  obtain ⟨root, rest, rfl⟩ := List.exists_cons_of_ne_nil nonempty
  rw [verifyChain] at accepted
  split at accepted
  · cases accepted
  · rename_i rootAccepted
    split at accepted
    · cases accepted
    · rename_i hopsAccepted
      obtain ⟨rfl, -⟩ := Prod.mk.inj (Except.ok.inj accepted)
      obtain ⟨checkedLinkage, linkage, later⟩ := Result.bind_eq_ok.mp rootAccepted
      rw [List.reverse_cons]
      exact descends_of_verifyHops (linkage_of_checkRootLinkage linkage) hopsAccepted

/-- Two accepted chains with one head have as many hops, and hop by hop the
same canonical bytes. -/
theorem verifyChain_head_determines_chain
    {otherConfig : Config} {otherTenantID : Bytes} {otherNow : Int64}
    {chain others : List RecordEnvelope} {head authRef otherHead otherAuthRef : Bytes}
    (nonempty : chain ≠ [])
    (othersNonempty : others ≠ [])
    (registries : otherConfig.tools = config.tools)
    (accepted : verifyChain crypto config tenantID chain now = .ok (head, authRef))
    (otherAccepted : verifyChain crypto otherConfig otherTenantID others otherNow =
      .ok (otherHead, otherAuthRef))
    (binds : Hash.Binds crypto.sha256Sum (recordInputs config.tools chain))
    (addressable : ∀ hop ∈ chain, (hop.record.canonicalBytes config.tools).length < 2 ^ 63)
    (heads : head = otherHead) :
    chain.length = others.length ∧
      List.Forall₂
        (fun hop other : RecordEnvelope =>
          hop.record.canonicalBytes config.tools = other.record.canonicalBytes config.tools)
        chain others := by
  obtain ⟨last, before, reversed, descends, digest⟩ := descends_of_verifyChain nonempty accepted
  obtain ⟨otherLast, otherBefore, otherReversed, otherDescends, otherDigest⟩ :=
    descends_of_verifyChain othersNonempty otherAccepted
  rw [registries] at otherDescends otherDigest
  have members : ∀ hop ∈ last :: before, hop ∈ chain :=
    fun hop member => List.mem_reverse.mp (reversed ▸ member)
  have backwards := canonicalBytes_eq_of_digest_eq descends otherDescends
    (binds.mono (recordInputs_subset members))
    (fun hop member => addressable hop (members hop member))
    (digest.trans (heads.trans otherDigest.symm))
  rw [← reversed, ← otherReversed, List.forall₂_reverse_iff] at backwards
  exact ⟨backwards.length_eq, backwards⟩

end Accepted

/-- A root hop that delegates to the key with the third number. -/
def committedHop : RecordEnvelope :=
  { rootHop with record := { rootHop.record with delegateKeyThumbprint := Hash.digestOf 2 } }

/-- A hop that names the first number as its parent. -/
def linkedHop : RecordEnvelope :=
  { leafHop with record := { leafHop.record with parentDigest := Hash.digestOf 0 } }

/-- A hop with another signature. -/
def resigned (hop : RecordEnvelope) : RecordEnvelope :=
  { hop with record := { hop.record with signature := [2] } }

/-- A hash that numbers the records of the two hops. -/
def numberedCrypto : Crypto where
  sha256Sum := Hash.numbering
    [committedHop.record.canonicalBytes none, linkedHop.record.canonicalBytes none]
  verifyMessage _ _ _ := true

theorem binds_numberedCrypto :
    Hash.Binds numberedCrypto.sha256Sum
      (recordInputs globalConfig.tools [committedHop, linkedHop]) := by
  refine (Hash.numbering_binds
    [committedHop.record.canonicalBytes none, linkedHop.record.canonicalBytes none]
    (by decide)).mono ?_
  intro text found
  obtain ⟨hop, member, same⟩ := found
  rcases List.mem_pair.mp member with rfl | rfl
  · exact List.mem_pair.mpr (.inl same.symm)
  · exact List.mem_pair.mpr (.inr same.symm)

theorem verifyChain_linkedHop :
    verifyChain numberedCrypto globalConfig (bytes "a") [committedHop, linkedHop] 0 =
      .ok (Hash.digestOf 1, bytes "fido2:1") := by
  decide +kernel

theorem verifyChain_resigned :
    verifyChain numberedCrypto globalConfig (bytes "b")
        [resigned committedHop, resigned linkedHop] 7 =
      .ok (Hash.digestOf 1, bytes "fido2:1") := by
  decide +kernel

theorem addressable_linkedHop :
    ∀ hop ∈ [committedHop, linkedHop],
      (hop.record.canonicalBytes globalConfig.tools).length < 2 ^ 63 := by
  decide +kernel

/-- The theorem at a chain of two hops and the chain with other signatures. -/
theorem verifyChain_head_determines_chain_resigned :
    [committedHop, linkedHop].length = [resigned committedHop, resigned linkedHop].length ∧
      List.Forall₂
        (fun hop other : RecordEnvelope =>
          hop.record.canonicalBytes globalConfig.tools =
            other.record.canonicalBytes globalConfig.tools)
        [committedHop, linkedHop] [resigned committedHop, resigned linkedHop] :=
  verifyChain_head_determines_chain (List.cons_ne_nil _ _) (List.cons_ne_nil _ _) rfl
    verifyChain_linkedHop verifyChain_resigned binds_numberedCrypto addressable_linkedHop rfl

end Trstctl.Agentid.Delegation
