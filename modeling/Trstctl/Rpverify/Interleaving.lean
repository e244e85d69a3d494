import Trstctl.Library.Register
import Trstctl.Rpverify.Posture

/-!
# Overlapping verifications of one identity

`Verify` and `VerifyRecovery` read the epoch that was accepted last, check what
they were given and then overwrite it.  Calls that overlap are callers of one
register, the store's entry for the identity: the stored epoch goes down when a
call is overtaken by one with a higher head between its read and its write.
-/

namespace Trstctl.Rpverify

open Go (Bytes bytes Map)
open Result (bind_eq_ok isOk_iff)
open Register (AtMost NeverDecreases AcceptsInOrder NoneOvertaken Protocol)
open Succession (headPosture SuccessionRecord)
open Succession.Recovery (RecoveryRecord)

instance preorderUInt64 : Preorder UInt64 where
  le_refl := UInt64.le_refl
  le_trans _ _ _ := UInt64.le_trans
  lt_iff_le_not_ge first second := by
    rw [UInt64.not_le]
    exact ⟨fun less => ⟨UInt64.le_of_lt less, less⟩, fun both => both.2⟩

/-- A store that keeps what was written last. -/
def overwriting : EpochStore (Map UInt64) where
  lastAccepted state identity := .ok (state.lookup identity)
  setLastAccepted state identity epoch := .ok (state.set identity epoch)

/-- A call of the relying party. -/
inductive Call where
  | verify (input : Input) (options : Options)
  | recovery (record : RecoveryRecord) (options : RecoveryOptions)

namespace Call

def identity : Call → Bytes
  | .verify input _ => input.genesis.identityID
  | .recovery record _ => record.fields.identityID

/-- The epoch at the head of what is presented. -/
def epoch : Call → UInt64
  | .verify input _ => (headPosture input.genesis.posture input.chain).epoch
  | .recovery record _ => record.fields.epoch

/-- Whether a call that reads the given epoch goes on to write. -/
def passes (primitives : Primitives) (decodeProof : Bytes → Option Translog.Proof) (call : Call)
    (last : Option UInt64) : Bool :=
  match call with
  | .verify input options =>
      (checkGenesis primitives input options).isOk &&
        (selectPosture primitives input options (last.getD 0)).isOk
  | .recovery record options =>
      (checkRecovery primitives decodeProof record options).isOk &&
        (checkRecoveryEpoch record last).isOk && (confirm options).isOk

end Call

variable {decodeProof : Bytes → Option Translog.Proof}

/-- `Verify` over a store that keeps what was written last: it passes on what it
reads, and writes the epoch of the head. -/
theorem verify_overwriting {primitives : Primitives} {input : Input} {options : Options}
    {state state' : Map UInt64} {posture : Succession.Posture} :
    verify primitives input (some overwriting) options state = .ok (posture, state') ↔
      (Call.verify input options).passes primitives decodeProof
          (state.lookup (Call.verify input options).identity) = true ∧
        posture = headPosture input.genesis.posture input.chain ∧
        state' = state.set (Call.verify input options).identity
          (Call.verify input options).epoch := by
  have head : ∀ last selected, selectPosture primitives input options last = .ok selected →
      selected = headPosture input.genesis.posture input.chain := by
    intro last selected select
    simp only [selectPosture, bind_eq_ok, Result.guard_eq_ok] at select
    obtain ⟨-, -, -, -, -, selected_eq⟩ := select
    exact (Except.ok.inj selected_eq).symm
  have read : readLast (some overwriting) state input.genesis.identityID =
      .ok ((state.lookup input.genesis.identityID).getD 0) := rfl
  simp only [verify, bind_eq_ok, Call.passes, Call.identity, Call.epoch, Bool.and_eq_true,
    isOk_iff, read]
  constructor
  · rintro ⟨⟨⟩, genesis, last, last_eq, selected, select, written, write, result⟩
    obtain rfl := Except.ok.inj last_eq
    obtain ⟨rfl, rfl⟩ := Prod.mk.inj (Except.ok.inj result)
    obtain rfl := head _ _ select
    exact ⟨⟨⟨(), genesis⟩, _, select⟩, rfl, (Except.ok.inj write).symm⟩
  · rintro ⟨⟨⟨⟨⟩, genesis⟩, selected, select⟩, rfl, rfl⟩
    obtain rfl := head _ _ select
    exact ⟨(), genesis, _, rfl, _, select, _, rfl, rfl⟩

theorem verifyRecovery_overwriting
    {primitives : Primitives} {record : RecoveryRecord} {options : RecoveryOptions}
    {state state' : Map UInt64} :
    verifyRecovery primitives decodeProof record (some overwriting) options state = .ok state' ↔
      (Call.recovery record options).passes primitives decodeProof
          (state.lookup (Call.recovery record options).identity) = true ∧
        state' = state.set (Call.recovery record options).identity
          (Call.recovery record options).epoch := by
  have read : (overwriting.lastAccepted state record.fields.identityID).mapError
      RecoveryRejection.store = .ok (state.lookup record.fields.identityID) := rfl
  simp only [verifyRecovery, bind_eq_ok, Call.passes, Call.identity, Call.epoch,
    Bool.and_eq_true, isOk_iff, read]
  constructor
  · rintro ⟨⟨⟩, checked, last, last_eq, ⟨⟩, fresh, ⟨⟩, confirmed, written⟩
    obtain rfl := Except.ok.inj last_eq
    exact ⟨⟨⟨⟨(), checked⟩, (), fresh⟩, (), confirmed⟩, (Except.ok.inj written).symm⟩
  · rintro ⟨⟨⟨⟨⟨⟩, checked⟩, ⟨⟩, fresh⟩, ⟨⟩, confirmed⟩, rfl⟩
    exact ⟨(), checked, _, rfl, (), fresh, (), confirmed, rfl⟩

theorem atMost_of_passes {primitives : Primitives} {call : Call} {last : Option UInt64}
    (passes : call.passes primitives decodeProof last = true) :
    AtMost last (some call.epoch) := by
  rintro epoch rfl
  refine ⟨call.epoch, rfl, ?_⟩
  cases call with
  | verify input options =>
      simp only [Call.passes, Bool.and_eq_true, isOk_iff, selectPosture, bind_eq_ok,
        Result.mapError_eq_ok] at passes
      obtain ⟨-, selected, ⟨⟩, verified, -⟩ := passes
      have newer := (Succession.verifyChain_eq_ok.mp verified).newer
      by_cases positive : 0 < epoch
      · exact UInt64.le_of_lt (newer positive)
      · have zero : epoch = 0 := by
          apply UInt64.toNat_inj.mp
          have := UInt64.lt_iff_toNat_lt.not.mp positive
          simp at this ⊢
          omega
        rw [zero]
        exact UInt64.zero_le
  | recovery record options =>
      simp only [Call.passes, Bool.and_eq_true, isOk_iff, checkRecoveryEpoch] at passes
      obtain ⟨⟨-, ⟨⟩, fresh⟩, -⟩ := passes
      split_ifs at fresh with stale
      exact UInt64.le_of_lt (UInt64.not_le.mp stale)

section

variable (primitives : Primitives) (decodeProof : Bytes → Option Translog.Proof)

/-- The epochs accepted after a call, which a failed one leaves as they are. -/
def Call.after (state : Map UInt64) : Call → Map UInt64
  | .verify input options =>
      match Rpverify.verify primitives input (some overwriting) options state with
      | .ok (_, state) => state
      | .error _ => state
  | .recovery record options =>
      match verifyRecovery primitives decodeProof record (some overwriting) options state with
      | .ok state => state
      | .error _ => state

theorem Call.after_cases (state : Map UInt64) (call : Call) :
    call.after primitives decodeProof state = state ∨
      call.passes primitives decodeProof (state.lookup call.identity) = true ∧
        call.after primitives decodeProof state = state.set call.identity call.epoch := by
  cases call with
  | verify input options =>
      cases verified : Rpverify.verify primitives input (some overwriting) options state with
      | error rejection => exact .inl (by rw [after, verified])
      | ok accepted =>
          obtain ⟨passes, -, written⟩ := verify_overwriting.mp verified
          exact .inr ⟨passes, by rw [after, verified]; exact written⟩
  | recovery record options =>
      cases verified : verifyRecovery primitives decodeProof record (some overwriting) options
          state with
      | error rejection => exact .inl (by rw [after, verified])
      | ok accepted =>
          obtain ⟨passes, written⟩ := verifyRecovery_overwriting.mp verified
          exact .inr ⟨passes, by rw [after, verified]; exact written⟩

/-- In calls one after the other, for any identities, no epoch that was accepted
for one goes down, whether they are successions or recoveries. -/
theorem lastAccepted_rises (calls : List Call) (state : Map UInt64) (identity : Bytes) :
    AtMost (state.lookup identity)
      ((calls.foldl (fun state call => call.after primitives decodeProof state) state).lookup
        identity) := by
  induction calls generalizing state with
  | nil => exact AtMost.refl _
  | cons call calls ih =>
      refine AtMost.trans ?_ (ih (call.after primitives decodeProof state))
      rcases call.after_cases primitives decodeProof state with same | ⟨passes, written⟩
      · rw [same]
        exact AtMost.refl _
      · rw [written, Go.MapOf.lookup_set]
        by_cases own : identity = call.identity
        · rw [if_pos own, own]
          exact atMost_of_passes passes
        · rw [if_neg own]
          exact AtMost.refl _

end

/-- Calls for one identity. -/
structure Callers (identity : Bytes) (ι : Type) where
  call : ι → Call
  sameIdentity : ∀ caller, (call caller).identity = identity

/-- The calls as callers of the store's entry for their identity. -/
def Callers.protocol {identity : Bytes} {ι : Type} (primitives : Primitives)
    (decodeProof : Bytes → Option Translog.Proof)
    (callers : Callers identity ι) : Protocol ι UInt64 where
  value caller := (callers.call caller).epoch
  check caller := (callers.call caller).passes primitives decodeProof

/-- In every interleaving of calls for one identity the stored epoch never
decreases, and no call accepts below an epoch that was accepted before, exactly
when no call is overtaken by one with a higher head between its read and its
write. -/
theorem epochs_inOrder_iff_noneOvertaken
    (primitives : Primitives)
    (decodeProof : Bytes → Option Translog.Proof)
    {ι : Type}
    [DecidableEq ι]
    (identity : Bytes)
    (callers : Callers identity ι)
    (initial : Option UInt64)
    (schedule : List ι) :
    NeverDecreases (callers.protocol primitives decodeProof) initial schedule ∧
        AcceptsInOrder (callers.protocol primitives decodeProof) initial schedule ↔
      NoneOvertaken (callers.protocol primitives decodeProof) initial schedule :=
  Register.inOrder_iff_noneOvertaken fun _ _ => atMost_of_passes

/-- The succession from the second to the third key. -/
def nextRecord : SuccessionRecord :=
  Succession.signedRecord
    { Succession.successionFields (bytes "spiffe://one") (bytes "a") with
      predecessorEpoch := 1
      epoch := 2
      predecessorAlg := bytes "ML-DSA-65"
      predecessorPub := bytes "K1"
      successorPub := bytes "K2" }

/-- One call presents the chain up to epoch 1, the other one up to epoch 2. -/
def twoPresentations : Callers (bytes "spiffe://one/db") Bool where
  call longer :=
    .verify
      (presentation (if longer then [Succession.ownRecord, nextRecord]
        else [Succession.ownRecord]))
      tenantOptions
  sameIdentity _ := rfl

/-- The shorter chain is read before and written after the longer one: it is
accepted, and the stored epoch goes back from 2 to 1. -/
theorem epoch_decreases_twoPresentations :
    let protocol := twoPresentations.protocol plainPrimitives fun _ => none
    (Register.run protocol none [false, true, true]).2.stored = some 2 ∧
      (Register.run protocol none [false, true, true, false]).2.stored = some 1 ∧
      (Register.run protocol none [false, true, true, false]).1 =
        [.read false, .read true, .accept true, .accept false] ∧
      ¬NeverDecreases protocol none [false, true, true, false] ∧
      ¬AcceptsInOrder protocol none [false, true, true, false] := by
  intro protocol
  have longer : (Register.run protocol none [false, true, true]).2.stored = some 2 := by
    decide +kernel
  have shorter : (Register.run protocol none [false, true, true, false]).2.stored = some 1 := by
    decide +kernel
  have events : (Register.run protocol none [false, true, true, false]).1 =
      [.read false, .read true, .accept true, .accept false] := by
    decide +kernel
  refine ⟨longer, shorter, events, ?_, ?_⟩
  · intro keeps
    have bound := keeps [false, true, true] [false, true, true, false] (by decide) (by decide)
    rw [longer, shorter, Register.atMost_some] at bound
    exact absurd bound (by decide)
  · intro inOrder
    rw [AcceptsInOrder, events] at inOrder
    have bound : protocol.value true ≤ protocol.value false :=
      (List.pairwise_cons.mp inOrder).1 false List.mem_cons_self
    exact absurd bound (by decide +kernel)

end Trstctl.Rpverify
