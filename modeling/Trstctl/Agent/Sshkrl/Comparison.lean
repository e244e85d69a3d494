import Mathlib.Data.Set.Card
import Trstctl.Agent.Sshkrl.Revocations

/-!
# What a replacement would stop revoking

Before a list replaces another, the two are compared by what they revoke: a
certificate under an authority by the scope of the authority or by the scope of
any authority, the other kinds as they are.  The comparison finds nothing
exactly when the replacement revokes all that the installed list does, and its
counts are those of the sets of dropped revocations.
-/

namespace Trstctl.Sshkrl

open Go (Bytes MapOf)
open Trstctl.Span (union)

structure DropError where
  serials : Nat
  keyIDs : Nat
  keys : Nat
  fingerprints : Nat
deriving DecidableEq

namespace DropError

/-- `DropError{}`. -/
def zero : DropError where
  serials := 0
  keyIDs := 0
  keys := 0
  fingerprints := 0

/-- Nothing is dropped. -/
def Empty (drop : DropError) : Prop :=
  drop = zero

instance (drop : DropError) : Decidable drop.Empty :=
  inferInstanceAs (Decidable (drop = zero))

end DropError

def hasKey (scope : Option CertRevocations) (id : Bytes) : Bool :=
  match scope with
  | none => false
  | some scope => id ∈ scope.keyIDs

def missing (want held : Finset Bytes) : Nat :=
  (want.filter fun blob => blob ∉ held).card

namespace Revocations

/-- The scopes that keep a revocation under an authority: its own, and the one
of any authority. -/
def keeping (candidate : Revocations) (ca : Bytes) :
    Option CertRevocations × Option CertRevocations :=
  (candidate.certs.lookup ca, if ca ≠ [] then candidate.certs.lookup [] else none)

/-- The serial ranges of both scopes. -/
def covering (candidate : Revocations) (ca : Bytes) : List Span :=
  ((candidate.keeping ca).1.map CertRevocations.serials).getD [] ++
    ((candidate.keeping ca).2.map CertRevocations.serials).getD []

/-- The key IDs of a scope of the installed list that neither scope keeps. -/
def unkeptKeyIDs (candidate : Revocations) (binding : Bytes × CertRevocations) : Finset Bytes :=
  binding.2.keyIDs.filter fun id =>
    !hasKey (candidate.keeping binding.1).1 id && !hasKey (candidate.keeping binding.1).2 id

/-- What is dropped of one scope of the installed list. -/
def dropScope (candidate : Revocations) (drop : DropError) (binding : Bytes × CertRevocations) :
    DropError :=
  { drop with
    serials := saturatingAdd drop.serials
      (uncoveredSerials binding.2.serials (mergeSerialRanges (candidate.covering binding.1)))
    keyIDs := drop.keyIDs + (candidate.unkeptKeyIDs binding).card }

def dropped (candidate installed : Revocations) : DropError :=
  { installed.certs.foldl candidate.dropScope .zero with
    keys := missing installed.keys candidate.keys
    fingerprints :=
      missing installed.sha1 candidate.sha1 + missing installed.sha256 candidate.sha256 }

def revokesNothing (revocations : Revocations) : Bool :=
  revocations.certs.all (fun binding => binding.2.serials.isEmpty && binding.2.keyIDs = ∅) &&
    revocations.keys = ∅ && revocations.sha1 = ∅ && revocations.sha256 = ∅

/-- A certificate with the serial, signed by the authority, is revoked. -/
def RevokesSerial (revocations : Revocations) (ca : Bytes) (serial : Nat) : Prop :=
  serial ∈ union (revocations.scope ca).serials ∨ serial ∈ union (revocations.scope []).serials

/-- A certificate with the key ID, signed by the authority, is revoked. -/
def RevokesKeyID (revocations : Revocations) (ca id : Bytes) : Prop :=
  id ∈ (revocations.scope ca).keyIDs ∨ id ∈ (revocations.scope []).keyIDs

/-- A list revokes everything that another does. -/
structure Retains (candidate installed : Revocations) : Prop where
  serial : ∀ ca serial, installed.RevokesSerial ca serial → candidate.RevokesSerial ca serial
  keyID : ∀ ca id, installed.RevokesKeyID ca id → candidate.RevokesKeyID ca id
  key : ∀ blob ∈ installed.keys, blob ∈ candidate.keys
  sha1 : ∀ hash ∈ installed.sha1, hash ∈ candidate.sha1
  sha256 : ∀ hash ∈ installed.sha256, hash ∈ candidate.sha256

theorem Retains.refl (revocations : Revocations) : revocations.Retains revocations where
  serial _ _ := id
  keyID _ _ := id
  key _ := id
  sha1 _ := id
  sha256 _ := id

theorem Retains.trans {last between first : Revocations} (later : last.Retains between)
    (earlier : between.Retains first) :
    last.Retains first where
  serial ca serial revoked := later.serial ca serial (earlier.serial ca serial revoked)
  keyID ca id revoked := later.keyID ca id (earlier.keyID ca id revoked)
  key blob member := later.key blob (earlier.key blob member)
  sha1 hash member := later.sha1 hash (earlier.sha1 hash member)
  sha256 hash member := later.sha256 hash (earlier.sha256 hash member)

/-- The pairs of an authority and a serial in its scope that the candidate does
not revoke. -/
def droppedSerials (candidate installed : Revocations) : Set (Bytes × Nat) :=
  {pair | pair.2 ∈ union (installed.scope pair.1).serials ∧
    ¬ candidate.RevokesSerial pair.1 pair.2}

/-- The pairs of an authority and a key ID in its scope that the candidate does
not revoke. -/
def droppedKeyIDs (candidate installed : Revocations) : Set (Bytes × Bytes) :=
  {pair | pair.2 ∈ (installed.scope pair.1).keyIDs ∧ ¬ candidate.RevokesKeyID pair.1 pair.2}

end Revocations

section Pairs

variable {Key Value β : Type} [DecidableEq Key] [DecidableEq β]

/-- The pairs of a key and a member of the part that belongs to its binding. -/
def pairsOf (part : Key × Value → Finset β) : MapOf Key Value → Finset (Key × β)
  | [] => ∅
  | binding :: rest => (part binding).image (Prod.mk binding.1) ∪ pairsOf part rest

theorem mem_pairsOf {part : Key × Value → Finset β} {map : MapOf Key Value} {pair : Key × β} :
    pair ∈ pairsOf part map ↔ ∃ binding ∈ map, binding.1 = pair.1 ∧ pair.2 ∈ part binding := by
  induction map with
  | nil => simp [pairsOf]
  | cons binding rest ih =>
      rw [pairsOf, Finset.mem_union, ih, List.exists_mem_cons_iff]
      refine or_congr ?_ Iff.rfl
      obtain ⟨key, member⟩ := pair
      simp only [Finset.mem_image, Prod.mk.injEq]
      constructor
      · rintro ⟨found, foundMember, rfl, rfl⟩
        exact ⟨rfl, foundMember⟩
      · rintro ⟨rfl, foundMember⟩
        exact ⟨member, foundMember, rfl, rfl⟩

theorem card_pairsOf (part : Key × Value → Finset β) {map : MapOf Key Value}
    (nodup : (map.map Prod.fst).Nodup) :
    (pairsOf part map).card = (map.map fun binding => (part binding).card).sum := by
  induction map with
  | nil => rfl
  | cons binding rest ih =>
      obtain ⟨fresh, restNodup⟩ := List.nodup_cons.mp nodup
      have apart : Disjoint ((part binding).image (Prod.mk binding.1)) (pairsOf part rest) := by
        rw [Finset.disjoint_left]
        intro pair first later
        obtain ⟨member, -, rfl⟩ := Finset.mem_image.mp first
        obtain ⟨other, otherMember, same, -⟩ := mem_pairsOf.mp later
        exact fresh (List.mem_map.mpr ⟨other, otherMember, same⟩)
      rw [pairsOf, Finset.card_union_of_disjoint apart,
        Finset.card_image_of_injective _ (Prod.mk_right_injective binding.1),
        ih restNodup, List.map_cons, List.sum_cons]

end Pairs

namespace Revocations

variable {candidate installed : Revocations}

theorem exists_binding_iff (wellFormed : WellFormed installed) (property : CertRevocations → Prop)
    (nothing : ¬ property .empty) (ca : Bytes) :
    property (installed.scope ca) ↔
      ∃ binding ∈ installed.certs, binding.1 = ca ∧ property binding.2 := by
  unfold scope
  constructor
  · intro holds
    cases found : installed.certs.lookup ca with
    | none =>
        rw [found] at holds
        exact absurd holds nothing
    | some scope =>
        rw [found] at holds
        exact ⟨(ca, scope), (MapOf.lookup_eq_some_iff wellFormed.nodup).mp found, rfl, holds⟩
  · rintro ⟨binding, member, rfl, holds⟩
    rw [(MapOf.lookup_eq_some_iff wellFormed.nodup).mpr member]
    exact holds

theorem mem_union_covering {ca : Bytes} {serial : Nat} :
    serial ∈ union (candidate.covering ca) ↔ candidate.RevokesSerial ca serial := by
  have ranges : ∀ key, ((candidate.certs.lookup key).map CertRevocations.serials).getD [] =
      (candidate.scope key).serials := by
    intro key
    unfold scope
    cases candidate.certs.lookup key with
    | none => rfl
    | some scope => rfl
  rw [covering, keeping, RevokesSerial, Span.union_append, Finset.mem_union, ranges]
  by_cases any : ca = []
  · rw [if_neg (not_not.mpr any), any]
    simp
  · rw [if_pos any, ranges]

theorem accepted_covering (wellFormed : WellFormed candidate) (ca : Bytes) :
    ∀ range ∈ candidate.covering ca, Accepted range := by
  have ranges : ∀ key, ∀ range ∈ ((candidate.certs.lookup key).map CertRevocations.serials).getD [],
      Accepted range := by
    intro key range member
    cases found : candidate.certs.lookup key with
    | none =>
        rw [found] at member
        exact absurd member List.not_mem_nil
    | some scope =>
        rw [found] at member
        have merged := wellFormed.merged (key, scope)
          ((MapOf.lookup_eq_some_iff wellFormed.nodup).mp found)
        exact ⟨merged.positive range member, merged.nonempty range member,
          merged.word range member⟩
  intro range member
  rcases List.mem_append.mp member with own | any
  · exact ranges ca range own
  · unfold keeping at any
    dsimp only at any
    split_ifs at any
    · exact ranges [] range any
    · exact absurd any List.not_mem_nil

/-- The serials of a binding that the candidate does not revoke. -/
def uncovered (candidate : Revocations) (binding : Bytes × CertRevocations) : Finset Nat :=
  union binding.2.serials \ union (candidate.covering binding.1)

theorem foldl_dropScope_serials {certs : Go.Map CertRevocations} {drop : DropError}
    (wellFormed : WellFormed candidate) (merged : ∀ binding ∈ certs, Merged binding.2.serials)
    (bounded : drop.serials ≤ maxUint64) :
    (certs.foldl candidate.dropScope drop).serials =
      min (drop.serials + (certs.map fun binding => (candidate.uncovered binding).card).sum)
        maxUint64 := by
  induction certs generalizing drop with
  | nil => simpa using bounded
  | cons binding rest ih =>
      obtain ⟨first, others⟩ := List.forall_mem_cons.mp merged
      obtain ⟨covers, kept⟩ := mergeSerialRanges_spec (accepted_covering wellFormed binding.1)
      have step : (candidate.dropScope drop binding).serials =
          min (drop.serials + (candidate.uncovered binding).card) maxUint64 := by
        change saturatingAdd _ _ = _
        rw [saturatingAdd_eq, uncoveredSerials_eq first covers.toAscending, kept]
        unfold uncovered
        omega
      rw [List.foldl_cons, ih others (step ▸ Nat.min_le_right _ _), step,
        List.map_cons, List.sum_cons]
      omega

theorem droppedSerials_eq (wellFormed : WellFormed installed) :
    candidate.droppedSerials installed = ↑(pairsOf candidate.uncovered installed.certs) := by
  ext pair
  rw [droppedSerials, Set.mem_ofPred_eq, exists_binding_iff wellFormed
    (fun scope => pair.2 ∈ union scope.serials) (by simp [CertRevocations.empty]),
    Finset.mem_coe, mem_pairsOf]
  constructor
  · rintro ⟨⟨binding, member, same, listed⟩, kept⟩
    refine ⟨binding, member, same, Finset.mem_sdiff.mpr ⟨listed, ?_⟩⟩
    rwa [mem_union_covering, same]
  · rintro ⟨binding, member, same, uncovered⟩
    obtain ⟨listed, kept⟩ := Finset.mem_sdiff.mp uncovered
    refine ⟨⟨binding, member, same, listed⟩, ?_⟩
    rwa [mem_union_covering, same] at kept

theorem dropped_serials (candidateWellFormed : WellFormed candidate)
    (installedWellFormed : WellFormed installed) :
    (candidate.dropped installed).serials =
      min (candidate.droppedSerials installed).ncard maxUint64 := by
  rw [droppedSerials_eq installedWellFormed, Set.ncard_coe_finset,
    card_pairsOf _ installedWellFormed.nodup]
  change (installed.certs.foldl candidate.dropScope .zero).serials = _
  rw [foldl_dropScope_serials candidateWellFormed installedWellFormed.merged (Nat.zero_le _)]
  simp [DropError.zero]

theorem hasKey_keeping {ca id : Bytes} :
    (hasKey (candidate.keeping ca).1 id || hasKey (candidate.keeping ca).2 id) = true ↔
      candidate.RevokesKeyID ca id := by
  have has : ∀ key, hasKey (candidate.certs.lookup key) id = true ↔
      id ∈ (candidate.scope key).keyIDs := by
    intro key
    unfold scope
    cases candidate.certs.lookup key with
    | none => simp [hasKey, CertRevocations.empty]
    | some scope => simp [hasKey]
  rw [keeping, RevokesKeyID, Bool.or_eq_true, has]
  by_cases any : ca = []
  · rw [if_neg (not_not.mpr any), any]
    simp [hasKey]
  · rw [if_pos any, has]

theorem mem_unkeptKeyIDs {binding : Bytes × CertRevocations} {id : Bytes} :
    id ∈ candidate.unkeptKeyIDs binding ↔
      id ∈ binding.2.keyIDs ∧ ¬ candidate.RevokesKeyID binding.1 id := by
  rw [unkeptKeyIDs, Finset.mem_filter, ← Bool.not_or, Bool.not_eq_true', ← hasKey_keeping,
    Bool.not_eq_true]

theorem foldl_dropScope_keyIDs (certs : Go.Map CertRevocations) (drop : DropError) :
    (certs.foldl candidate.dropScope drop).keyIDs =
      drop.keyIDs + (certs.map fun binding => (candidate.unkeptKeyIDs binding).card).sum := by
  induction certs generalizing drop with
  | nil => rfl
  | cons binding rest ih =>
      rw [List.foldl_cons, ih, List.map_cons, List.sum_cons, ← Nat.add_assoc]
      rfl

theorem droppedKeyIDs_eq (wellFormed : WellFormed installed) :
    candidate.droppedKeyIDs installed = ↑(pairsOf candidate.unkeptKeyIDs installed.certs) := by
  ext pair
  rw [droppedKeyIDs, Set.mem_ofPred_eq, exists_binding_iff wellFormed
    (fun scope => pair.2 ∈ scope.keyIDs) (by simp [CertRevocations.empty]),
    Finset.mem_coe, mem_pairsOf]
  constructor
  · rintro ⟨⟨binding, member, same, listed⟩, kept⟩
    refine ⟨binding, member, same, mem_unkeptKeyIDs.mpr ⟨listed, ?_⟩⟩
    rwa [same]
  · rintro ⟨binding, member, same, unkept⟩
    obtain ⟨listed, kept⟩ := mem_unkeptKeyIDs.mp unkept
    rw [same] at kept
    exact ⟨⟨binding, member, same, listed⟩, kept⟩

theorem dropped_keyIDs (wellFormed : WellFormed installed) :
    (candidate.dropped installed).keyIDs = (candidate.droppedKeyIDs installed).ncard := by
  rw [droppedKeyIDs_eq wellFormed, Set.ncard_coe_finset, card_pairsOf _ wellFormed.nodup]
  change (installed.certs.foldl candidate.dropScope .zero).keyIDs = _
  rw [foldl_dropScope_keyIDs]
  simp [DropError.zero]

theorem missing_eq_zero_iff {want held : Finset Bytes} :
    missing want held = 0 ↔ ∀ blob ∈ want, blob ∈ held := by
  rw [missing, Finset.card_eq_zero, Finset.filter_eq_empty_iff]
  simp only [not_not]

theorem kept_under_all_iff {listed kept : Bytes → Prop} :
    (∀ ca, listed ca → kept ca ∨ kept []) ↔
      ∀ ca, listed ca ∨ listed [] → kept ca ∨ kept [] := by
  constructor
  · rintro keeps ca (own | any)
    · exact keeps ca own
    · rcases keeps [] any with same | same
      · exact .inr same
      · exact .inr same
  · exact fun keeps ca own => keeps ca (.inl own)

theorem dropped_serials_eq_zero_iff (candidateWellFormed : WellFormed candidate)
    (installedWellFormed : WellFormed installed) :
    (candidate.dropped installed).serials = 0 ↔
      ∀ ca serial, installed.RevokesSerial ca serial → candidate.RevokesSerial ca serial := by
  have finite : (candidate.droppedSerials installed).Finite := by
    rw [droppedSerials_eq installedWellFormed]
    exact Finset.finite_toSet _
  have least : min (candidate.droppedSerials installed).ncard maxUint64 = 0 ↔
      (candidate.droppedSerials installed).ncard = 0 := by
    unfold maxUint64
    omega
  rw [dropped_serials candidateWellFormed installedWellFormed, least,
    Set.ncard_eq_zero finite, Set.eq_empty_iff_forall_notMem, forall_comm]
  simp only [droppedSerials, Set.mem_ofPred_eq, Prod.forall, not_and, not_not]
  constructor
  · intro kept serial
    exact kept_under_all_iff.mp fun ca => kept ca serial
  · intro kept ca serial listed
    exact kept serial ca (.inl listed)

theorem dropped_keyIDs_eq_zero_iff (wellFormed : WellFormed installed) :
    (candidate.dropped installed).keyIDs = 0 ↔
      ∀ ca id, installed.RevokesKeyID ca id → candidate.RevokesKeyID ca id := by
  have finite : (candidate.droppedKeyIDs installed).Finite := by
    rw [droppedKeyIDs_eq wellFormed]
    exact Finset.finite_toSet _
  rw [dropped_keyIDs wellFormed, Set.ncard_eq_zero finite, Set.eq_empty_iff_forall_notMem,
    forall_comm]
  simp only [droppedKeyIDs, Set.mem_ofPred_eq, Prod.forall, not_and, not_not]
  constructor
  · intro kept id
    exact kept_under_all_iff.mp fun ca => kept ca id
  · intro kept ca id listed
    exact kept id ca (.inl listed)

theorem dropped_empty_iff (candidateWellFormed : WellFormed candidate)
    (installedWellFormed : WellFormed installed) :
    (candidate.dropped installed).Empty ↔ candidate.Retains installed := by
  have counts : (candidate.dropped installed).Empty ↔
      (candidate.dropped installed).serials = 0 ∧ (candidate.dropped installed).keyIDs = 0 ∧
        missing installed.keys candidate.keys = 0 ∧
        missing installed.sha1 candidate.sha1 + missing installed.sha256 candidate.sha256 = 0 := by
    rw [DropError.Empty, DropError.zero, DropError.mk.injEq]
    rfl
  rw [counts, dropped_serials_eq_zero_iff candidateWellFormed installedWellFormed,
    dropped_keyIDs_eq_zero_iff installedWellFormed, Nat.add_eq_zero_iff, missing_eq_zero_iff,
    missing_eq_zero_iff, missing_eq_zero_iff]
  constructor
  · rintro ⟨serial, keyID, key, sha1, sha256⟩
    exact ⟨serial, keyID, key, sha1, sha256⟩
  · rintro ⟨serial, keyID, key, sha1, sha256⟩
    exact ⟨serial, keyID, key, sha1, sha256⟩

end Revocations
end Trstctl.Sshkrl
