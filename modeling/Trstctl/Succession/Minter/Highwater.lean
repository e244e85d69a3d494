import Trstctl.Library.Program
import Trstctl.Succession.Record

/-!
# The hardened epoch floor

`HighWater` (`internal/succession/minter/highwater.go`): the floor of an identity
is the greater of its sealed epoch and the value of a hardware counter.  Signed
checkpoints are presented to it, quorums of instances acknowledge advances, and
an identity marked after a restore stays closed until a fresh checkpoint is
reconciled.  Whatever the counter fails at, floors do not fall.
-/

namespace Trstctl.Succession

open Go (Bytes bytes Map decimal)
open Program (triple_reading triple_pure triple_update triple_throw outcome_bind)

def checkpointDomain : Bytes :=
  bytes "trstctl/pcas/succession/epoch-checkpoint/v1"

structure SignedEpochCheckpoint where
  deploymentScope : Bytes
  identityID : Bytes
  tenantID : Bytes
  epoch : UInt64
  algorithm : Bytes
  publicKeyDER : Bytes
  logTreeSize : UInt64
  logRootHash : Bytes
  issuedAt : Int
  signature : Bytes
  signerPublicDER : Bytes

def SignedEpochCheckpoint.encode (checkpoint : SignedEpochCheckpoint) : Bytes :=
  writeField checkpointDomain ++ writeField checkpoint.deploymentScope ++
    writeField checkpoint.identityID ++ writeField checkpoint.tenantID ++
    writeUint checkpoint.epoch ++ writeField checkpoint.algorithm ++
    writeField checkpoint.publicKeyDER ++ writeUint checkpoint.logTreeSize ++
    writeField checkpoint.logRootHash ++ writeInt checkpoint.issuedAt

/-- The errors of `VerifyEpochCheckpoint`. -/
inductive CheckpointError where
  | unsigned
  | signerMismatch
  | badSignature
deriving DecidableEq

/-- `VerifyEpochCheckpoint`.  `verifyMessage` takes a public key, a message and
a signature. -/
def verifyEpochCheckpoint (verifyMessage : Bytes → Bytes → Bytes → Bool) (signerPubDER : Bytes)
    (checkpoint : SignedEpochCheckpoint) :
    Except CheckpointError Unit :=
  if checkpoint.signature = [] then .error .unsigned
  else if checkpoint.signerPublicDER ≠ [] ∧ checkpoint.signerPublicDER ≠ signerPubDER then
    .error .signerMismatch
  else if verifyMessage signerPubDER checkpoint.encode checkpoint.signature then .ok ()
  else .error .badSignature

namespace Minter

/-- `MonotonicCounter`: the value of each slot of a device, the two operations,
and what they promise.  Either may fail, and a failed `Bump` may have advanced
the slot. -/
structure MonotonicCounter (Device : Type) where
  current : Device → Bytes → UInt64
  value : Bytes → Device → Except Bytes UInt64 × Device
  bump : Bytes → UInt64 → Device → Except Bytes UInt64 × Device
  value_current : ∀ {slot device result}, (value slot device).1 = .ok result →
    result = current (value slot device).2 slot
  value_keeps : ∀ slot device other, current device other ≤ current (value slot device).2 other
  bump_reaches : ∀ {slot least device result}, (bump slot least device).1 = .ok result →
    least ≤ current (bump slot least device).2 slot
  bump_keeps : ∀ slot least device other,
    current device other ≤ current (bump slot least device).2 other

/-- What the options of `NewHighWater` set. -/
structure HighWaterConfig (Device : Type) where
  counter : Option (MonotonicCounter Device)
  checkpointKeyDER : Bytes
  freshness : Int
  quorumSize : Int

/-- The state of a `HighWater`, with the device of its counter. -/
structure HighWater (Device : Type) where
  sealed : Map UInt64
  needsReconcile : Map Bool
  acks : Map (Map Bool)
  device : Device

/-- The errors of a `HighWater`. -/
inductive HighWaterError where
  | regress (identityID : Bytes) (epoch floor : UInt64)
  | checkpointUnverified (cause : CheckpointError)
  | noCheckpointKey
  | stalePresentation (issuedAt now bound : Int)
  | notReconciled (identityID : Bytes)
  | counterRead (cause : Bytes)
  | counterBump (cause : Bytes)
deriving DecidableEq

namespace HighWater

variable {Device : Type}

/-- A computation on a `HighWater`. -/
abbrev Action (Device α : Type) := Program (HighWater Device) HighWaterError α

/-- `h.sealed[identityID]`. -/
def sealedAt (state : HighWater Device) (identityID : Bytes) : UInt64 :=
  (state.sealed.lookup identityID).getD 0

/-- `h.needsReconcile[identityID]`. -/
def closed (state : HighWater Device) (identityID : Bytes) : Bool :=
  (state.needsReconcile.lookup identityID).getD false

def newHighWater (sealed : Map UInt64) (device : Device) : HighWater Device :=
  ⟨sealed, [], [], device⟩

/-- A call to the counter. -/
def onDevice (failed : Bytes → HighWaterError) (operation : Device → Except Bytes UInt64 × Device) :
    Action Device UInt64 :=
  ExceptT.mk fun state =>
    ((operation state.device).1.mapError failed,
      { state with device := (operation state.device).2 })

def floorLocked (config : HighWaterConfig Device) (identityID : Bytes) : Action Device UInt64 := do
  let sealed ← Program.reading fun state => .ok (state.sealedAt identityID)
  match config.counter with
  | none => pure sealed
  | some counter =>
      let value ← onDevice .counterRead (counter.value identityID)
      pure (if value > sealed then value else sealed)

def adoptLocked (config : HighWaterConfig Device) (identityID : Bytes) (epoch : UInt64) :
    Action Device Unit := do
  Program.update fun state =>
    if epoch > state.sealedAt identityID then
      { state with sealed := state.sealed.set identityID epoch }
    else state
  match config.counter with
  | none => pure ()
  | some counter =>
      let _ ← onDevice .counterBump (counter.bump identityID epoch)
      pure ()

def verifyLocked (verifyMessage : Bytes → Bytes → Bytes → Bool) (config : HighWaterConfig Device)
    (checkpoint : SignedEpochCheckpoint) :
    Except HighWaterError Unit :=
  if config.checkpointKeyDER = [] then .error .noCheckpointKey
  else
    (verifyEpochCheckpoint verifyMessage config.checkpointKeyDER checkpoint).mapError
      .checkpointUnverified

/-- The end of `SealAdvance` and of `ProposeAdvance`. -/
def advanceLocked (config : HighWaterConfig Device) (identityID : Bytes) (epoch : UInt64) :
    Action Device Unit := do
  let floor ← floorLocked config identityID
  if epoch < floor then throw (.regress identityID epoch floor)
  else adoptLocked config identityID epoch

def sealAdvance (config : HighWaterConfig Device) (identityID : Bytes) (epoch : UInt64) :
    Action Device Unit := do
  let closed ← Program.reading fun state => .ok (state.closed identityID)
  if closed then throw (.notReconciled identityID)
  else advanceLocked config identityID epoch

def adoptPresented (verifyMessage : Bytes → Bytes → Bytes → Bool) (config : HighWaterConfig Device)
    (checkpoint : SignedEpochCheckpoint) :
    Action Device Unit := do
  Program.reading fun _ => verifyLocked verifyMessage config checkpoint
  let floor ← floorLocked config checkpoint.identityID
  if checkpoint.epoch ≤ floor then pure ()
  else adoptLocked config checkpoint.identityID checkpoint.epoch

/-- The difference of two 64-bit times. -/
def elapsed (now issuedAt : Int) : Int :=
  (now - issuedAt).bmod (2 ^ 64)

/-- A fresh checkpoint clears the mark of its identity. -/
def reconcile (verifyMessage : Bytes → Bytes → Bytes → Bool) (config : HighWaterConfig Device)
    (checkpoint : SignedEpochCheckpoint) (now : Int) :
    Action Device Unit := do
  Program.reading fun _ => verifyLocked verifyMessage config checkpoint
  if config.freshness > 0 ∧ elapsed now checkpoint.issuedAt > config.freshness then
    throw (.stalePresentation checkpoint.issuedAt now config.freshness)
  else
    let floor ← floorLocked config checkpoint.identityID
    if checkpoint.epoch > floor then
      adoptLocked config checkpoint.identityID checkpoint.epoch
    Program.update fun state =>
      { state with needsReconcile := state.needsReconcile.delete checkpoint.identityID }

/-- The key of an advance among the acknowledgements. -/
def ackKey (identityID : Bytes) (epoch : UInt64) : Bytes :=
  identityID ++ bytes "@" ++ decimal epoch.toNat

/-- The instances that acknowledged an advance. -/
def acked (state : HighWater Device) (key : Bytes) : Map Bool :=
  (state.acks.lookup key).getD []

/-- The acknowledgements an advance needs. -/
def needed (config : HighWaterConfig Device) : Int :=
  if config.quorumSize < 1 then 1 else config.quorumSize

def proposeAdvance (config : HighWaterConfig Device) (identityID : Bytes) (epoch : UInt64)
    (member : Bytes) :
    Action Device Bool := do
  let closed ← Program.reading fun state => .ok (state.closed identityID)
  if closed then throw (.notReconciled identityID)
  else
    let key := ackKey identityID epoch
    Program.update fun state =>
      { state with acks := state.acks.set key ((state.acked key).set member true) }
    let acked ← Program.reading fun state => .ok (state.acked key)
    if acked.length < needed config then pure false
    else
      advanceLocked config identityID epoch
      Program.update fun state => { state with acks := state.acks.delete key }
      pure true

def markNeedsReconcile (identityIDs : List Bytes) : Action Device Unit :=
  Program.update fun state =>
    { state with
      needsReconcile := identityIDs.foldl (fun marks id => marks.set id true) state.needsReconcile }

def floor (config : HighWaterConfig Device) (identityID : Bytes) : Action Device UInt64 :=
  floorLocked config identityID

/-- A call on a `HighWater`. -/
inductive Call where
  | floor (identityID : Bytes)
  | sealAdvance (identityID : Bytes) (epoch : UInt64)
  | adoptPresented (checkpoint : SignedEpochCheckpoint)
  | reconcile (checkpoint : SignedEpochCheckpoint) (now : Int)
  | proposeAdvance (identityID : Bytes) (epoch : UInt64) (member : Bytes)
  | markNeedsReconcile (identityIDs : List Bytes)

/-- What a call does. -/
def Call.action (verifyMessage : Bytes → Bytes → Bytes → Bool) (config : HighWaterConfig Device) :
    Call → Action Device Unit
  | .floor identityID => do
      let _ ← HighWater.floor config identityID
      pure ()
  | .sealAdvance identityID epoch => HighWater.sealAdvance config identityID epoch
  | .adoptPresented checkpoint => HighWater.adoptPresented verifyMessage config checkpoint
  | .reconcile checkpoint now => HighWater.reconcile verifyMessage config checkpoint now
  | .proposeAdvance identityID epoch member => do
      let _ ← HighWater.proposeAdvance config identityID epoch member
      pure ()
  | .markNeedsReconcile identityIDs => HighWater.markNeedsReconcile identityIDs

/-- The state calls leave. -/
def run (verifyMessage : Bytes → Bytes → Bytes → Bool) (config : HighWaterConfig Device)
    (start : HighWater Device) (calls : List Call) :
    HighWater Device :=
  calls.foldl (fun state call => ((call.action verifyMessage config).outcome state).2) start

/-! ## What the operations keep

Epochs are only sealed above what is sealed, and the counter only rises.  A
property of the state that survives these changes, and any acknowledgement,
survives every operation but the two that mark and clear identities. -/

variable {verifyMessage : Bytes → Bytes → Bytes → Bool} {config : HighWaterConfig Device}

/-- A property that operations keep. -/
structure Stable (config : HighWaterConfig Device) (invariant : HighWater Device → Prop) :
    Prop where
  seals : ∀ {state identityID epoch}, state.sealedAt identityID < epoch → invariant state →
    invariant { state with sealed := state.sealed.set identityID epoch }
  counts : ∀ {state counter device}, config.counter = some counter →
    (∀ slot, counter.current state.device slot ≤ counter.current device slot) →
    invariant state → invariant { state with device := device }
  acknowledges : ∀ {state} acks, invariant state → invariant { state with acks := acks }

/-- The greater of the sealed floor and the counter. -/
def adoptedFloor (config : HighWaterConfig Device) (state : HighWater Device) (identityID : Bytes) :
    UInt64 :=
  match config.counter with
  | none => state.sealedAt identityID
  | some counter =>
      if counter.current state.device identityID > state.sealedAt identityID then
        counter.current state.device identityID
      else state.sealedAt identityID

section Triples

variable {invariant : HighWater Device → Prop}

theorem triple_onDevice
    {before failed : HighWater Device → Prop} {after : UInt64 → HighWater Device → Prop}
    {wrap : Bytes → HighWaterError} {operation : Device → Except Bytes UInt64 × Device}
    (returns : ∀ state result, before state → (operation state.device).1 = .ok result →
      after result { state with device := (operation state.device).2 })
    (fails : ∀ state, before state → failed { state with device := (operation state.device).2 }) :
    Program.Triple before (onDevice wrap operation) after failed := by
  intro state holds
  have outcome : (onDevice wrap operation).outcome state =
      ((operation state.device).1.mapError wrap,
        { state with device := (operation state.device).2 }) := rfl
  rw [outcome]
  cases answered : (operation state.device).1 with
  | ok result => exact returns state result holds answered
  | error cause => exact fails state holds

theorem triple_reading_kept {α : Type} (compute : HighWater Device → Except HighWaterError α) :
    Program.Triple invariant (Program.reading compute) (fun _ => invariant) invariant :=
  triple_reading (fun _ _ holds _ => holds) fun _ holds => holds

variable (stable : Stable config invariant)

include stable

theorem Stable.triple_floorLocked (identityID : Bytes) :
    Program.Triple invariant (floorLocked config identityID)
      (fun floor state => invariant state ∧ floor = adoptedFloor config state identityID)
      invariant := by
  have reads : Program.Triple invariant
      (Program.reading fun state => .ok (state.sealedAt identityID) : Action Device UInt64)
      (fun sealed state => invariant state ∧ sealed = state.sealedAt identityID) invariant :=
    triple_reading (fun state sealed holds read => ⟨holds, (Except.ok.inj read).symm⟩)
      fun state holds => holds
  refine reads.bind fun sealed => ?_
  cases counted : config.counter with
  | none =>
      refine triple_pure fun state ⟨holds, read⟩ => ⟨holds, ?_⟩
      rw [adoptedFloor, counted, read]
  | some counter =>
      have counts : Program.Triple
          (fun state => invariant state ∧ sealed = state.sealedAt identityID)
          (onDevice .counterRead (counter.value identityID))
          (fun value state => invariant state ∧ sealed = state.sealedAt identityID ∧
            value = counter.current state.device identityID) invariant :=
        triple_onDevice
          (fun state value ⟨holds, read⟩ answered =>
            ⟨stable.counts counted (counter.value_keeps identityID state.device) holds, read,
              counter.value_current answered⟩)
          fun state ⟨holds, _⟩ =>
            stable.counts counted (counter.value_keeps identityID state.device) holds
      refine counts.bind fun value => ?_
      refine triple_pure fun state ⟨holds, read, current⟩ => ⟨holds, ?_⟩
      rw [adoptedFloor, counted, read, current]

/-- Sealing an epoch raises what is sealed, and a failed `Bump` does not take
it back. -/
theorem Stable.triple_adoptLocked (identityID : Bytes) (epoch : UInt64) :
    Program.Triple invariant (adoptLocked config identityID epoch) (fun _ => invariant)
      invariant := by
  have seals : Program.Triple invariant
      (Program.update fun state =>
        if epoch > state.sealedAt identityID then
          { state with sealed := state.sealed.set identityID epoch }
        else state : Action Device Unit) (fun _ => invariant) invariant := by
    refine triple_update fun state holds => ?_
    by_cases raised : epoch > state.sealedAt identityID
    · rw [if_pos raised]
      exact stable.seals raised holds
    · rw [if_neg raised]
      exact holds
  refine seals.bind fun _ => ?_
  cases counted : config.counter with
  | none => exact triple_pure fun state holds => holds
  | some counter =>
      have bumps : Program.Triple invariant
          (onDevice .counterBump (counter.bump identityID epoch)) (fun _ => invariant) invariant :=
        triple_onDevice
          (fun state _ holds _ =>
            stable.counts counted (counter.bump_keeps identityID epoch state.device) holds)
          fun state holds =>
            stable.counts counted (counter.bump_keeps identityID epoch state.device) holds
      exact bumps.bind fun _ => triple_pure fun state holds => holds

theorem Stable.triple_advanceLocked (identityID : Bytes) (epoch : UInt64) :
    Program.Triple invariant (advanceLocked config identityID epoch) (fun _ => invariant)
      invariant := by
  refine (stable.triple_floorLocked identityID).bind fun floor => ?_
  refine Program.Triple.ite (fun _ => triple_throw fun state known => known.1) fun _ => ?_
  exact (stable.triple_adoptLocked identityID epoch).strengthen fun state known => known.1

theorem Stable.triple_sealAdvance (identityID : Bytes) (epoch : UInt64) :
    Program.Triple invariant (sealAdvance config identityID epoch) (fun _ => invariant)
      invariant := by
  refine (triple_reading_kept _).bind fun closed => ?_
  refine Program.Triple.ite (fun _ => triple_throw fun state holds => holds) fun _ => ?_
  exact stable.triple_advanceLocked identityID epoch

theorem Stable.triple_adoptPresented (checkpoint : SignedEpochCheckpoint) :
    Program.Triple invariant (adoptPresented verifyMessage config checkpoint) (fun _ => invariant)
      invariant := by
  refine (triple_reading_kept _).bind fun _ => ?_
  refine (stable.triple_floorLocked checkpoint.identityID).bind fun floor => ?_
  refine Program.Triple.ite (fun _ => triple_pure fun state known => known.1) fun _ => ?_
  exact (stable.triple_adoptLocked _ _).strengthen fun state known => known.1

theorem Stable.triple_reconcile (checkpoint : SignedEpochCheckpoint) (now : Int) :
    Program.Triple invariant (reconcile verifyMessage config checkpoint now)
      (fun _ state => ∃ marked, invariant marked ∧ state =
        { marked with needsReconcile := marked.needsReconcile.delete checkpoint.identityID })
      invariant := by
  refine (triple_reading_kept _).bind fun _ => ?_
  refine Program.Triple.ite (fun _ => triple_throw fun state holds => holds) fun _ => ?_
  refine (stable.triple_floorLocked checkpoint.identityID).bind fun floor => ?_
  have clears : Program.Triple invariant
      (Program.update fun state =>
        { state with needsReconcile := state.needsReconcile.delete checkpoint.identityID } :
        Action Device Unit)
      (fun _ state => ∃ marked, invariant marked ∧ state =
        { marked with needsReconcile := marked.needsReconcile.delete checkpoint.identityID })
      invariant :=
    triple_update fun state holds => ⟨state, holds, rfl⟩
  refine Program.Triple.ite (fun _ => ?_) fun _ => ?_
  · refine Program.Triple.bind ?_ fun _ => clears
    exact (stable.triple_adoptLocked _ _).strengthen fun state known => known.1
  · exact clears.strengthen fun state known => known.1

theorem Stable.triple_proposeAdvance (identityID : Bytes) (epoch : UInt64) (member : Bytes) :
    Program.Triple invariant (proposeAdvance config identityID epoch member) (fun _ => invariant)
      invariant := by
  refine (triple_reading_kept _).bind fun closed => ?_
  refine Program.Triple.ite (fun _ => triple_throw fun state holds => holds) fun _ => ?_
  have acknowledges : ∀ change : HighWater Device → Map (Map Bool), Program.Triple invariant
      (Program.update fun state => { state with acks := change state } : Action Device Unit)
      (fun _ => invariant) invariant :=
    fun change => triple_update fun state holds => stable.acknowledges _ holds
  refine (acknowledges _).bind fun _ => ?_
  refine (triple_reading_kept _).bind fun acked => ?_
  refine Program.Triple.ite (fun _ => triple_pure fun state holds => holds) fun _ => ?_
  refine (stable.triple_advanceLocked identityID epoch).bind fun _ => ?_
  exact (acknowledges _).bind fun _ => triple_pure fun state holds => holds

end Triples

/-- No sealed epoch and no slot of the counter is lower than at the start. -/
structure Rises (config : HighWaterConfig Device) (start state : HighWater Device) : Prop where
  sealed : ∀ identityID, start.sealedAt identityID ≤ state.sealedAt identityID
  counted : ∀ counter, config.counter = some counter →
    ∀ slot, counter.current start.device slot ≤ counter.current state.device slot

theorem Rises.refl (state : HighWater Device) : Rises config state state where
  sealed _ := UInt64.le_refl _
  counted _ _ _ := UInt64.le_refl _

theorem Rises.trans {first second third : HighWater Device} (front : Rises config first second)
    (back : Rises config second third) :
    Rises config first third where
  sealed identityID := UInt64.le_trans (front.sealed identityID) (back.sealed identityID)
  counted counter counts slot :=
    UInt64.le_trans (front.counted counter counts slot) (back.counted counter counts slot)

theorem sealedAt_set (state : HighWater Device) (identityID : Bytes) (epoch : UInt64)
    (other : Bytes) :
    ({ state with sealed := state.sealed.set identityID epoch }).sealedAt other =
      if other = identityID then epoch else state.sealedAt other := by
  rw [sealedAt, Go.MapOf.lookup_set]
  split
  · rfl
  · rfl

variable (start : HighWater Device)

theorem stable_rises : Stable config (Rises config start) where
  seals {state identityID epoch} raised rises := by
    refine ⟨fun other => ?_, rises.counted⟩
    rw [sealedAt_set]
    by_cases own : other = identityID
    · rw [if_pos own, own]
      exact UInt64.le_trans (rises.sealed identityID) (UInt64.le_of_lt raised)
    · rw [if_neg own]
      exact rises.sealed other
  counts {state counter device} counted risen rises := by
    refine ⟨rises.sealed, fun other otherCounted slot => ?_⟩
    cases Option.some.inj (counted.symm.trans otherCounted)
    exact UInt64.le_trans (rises.counted counter counted slot) (risen slot)
  acknowledges _ rises := ⟨rises.sealed, rises.counted⟩

variable {state : HighWater Device}

theorem Rises.adoptedFloor_le {start : HighWater Device} (rises : Rises config start state)
    (identityID : Bytes) :
    adoptedFloor config start identityID ≤ adoptedFloor config state identityID := by
  have sealed := rises.sealed identityID
  unfold adoptedFloor
  cases counted : config.counter with
  | none => exact sealed
  | some counter =>
      have current := rises.counted counter counted identityID
      simp only [UInt64.le_iff_toNat_le, gt_iff_lt, UInt64.lt_iff_toNat_lt] at *
      split <;> split <;> omega

theorem Stable.triple_action {invariant : HighWater Device → Prop}
    (stable : Stable config invariant) {call : Call}
    (marks : ∀ identityIDs state, call = .markNeedsReconcile identityIDs → invariant state →
      invariant ((markNeedsReconcile identityIDs).outcome state).2)
    (clears : ∀ checkpoint now state, call = .reconcile checkpoint now → invariant state →
      invariant { state with
        needsReconcile := state.needsReconcile.delete checkpoint.identityID }) :
    Program.Triple invariant (call.action verifyMessage config) (fun _ => invariant)
      invariant := by
  cases call with
  | floor identityID =>
      refine (stable.triple_floorLocked identityID).bind fun _ => ?_
      exact triple_pure fun state known => known.1
  | sealAdvance identityID epoch => exact stable.triple_sealAdvance identityID epoch
  | adoptPresented checkpoint => exact stable.triple_adoptPresented checkpoint
  | reconcile checkpoint now =>
      refine (stable.triple_reconcile checkpoint now).weaken (fun _ holds => holds) ?_
      rintro _ state ⟨marked, holds, rfl⟩
      exact clears checkpoint now marked rfl holds
  | proposeAdvance identityID epoch member =>
      refine (stable.triple_proposeAdvance identityID epoch member).bind fun _ => ?_
      exact triple_pure fun state holds => holds
  | markNeedsReconcile identityIDs => exact fun state => marks identityIDs state rfl

theorem rises_call (call : Call) (state : HighWater Device) :
    Rises config state ((call.action verifyMessage config).outcome state).2 := by
  refine ((stable_rises state).triple_action ?_ ?_).leaves (Rises.refl state)
  · intro identityIDs state _ rises
    exact ⟨rises.sealed, rises.counted⟩
  · intro checkpoint now state _ rises
    exact ⟨rises.sealed, rises.counted⟩

theorem run_append (front back : List Call) :
    run verifyMessage config start (front ++ back) =
      run verifyMessage config (run verifyMessage config start front) back :=
  List.foldl_append

theorem run_cons (call : Call) (calls : List Call) :
    run verifyMessage config start (call :: calls) =
      run verifyMessage config ((call.action verifyMessage config).outcome start).2 calls := rfl

theorem run_concat (calls : List Call) (call : Call) :
    run verifyMessage config start (calls ++ [call]) =
      ((call.action verifyMessage config).outcome (run verifyMessage config start calls)).2 :=
  List.foldl_concat ..

theorem rises_run (calls : List Call) :
    Rises config start (run verifyMessage config start calls) := by
  induction calls using List.reverseRecOn with
  | nil => exact Rises.refl start
  | append_singleton calls call ih =>
      rw [run_concat]
      exact ih.trans (rises_call call _)

variable {identityID : Bytes}

theorem sealAdvance_of_closed (closed : state.closed identityID = true) (epoch : UInt64) :
    (sealAdvance config identityID epoch).outcome state =
      (.error (.notReconciled identityID), state) := by
  rw [sealAdvance, outcome_bind]
  change (if state.closed identityID = true then throw (.notReconciled identityID)
    else advanceLocked config identityID epoch : Action Device Unit).outcome state = _
  rw [if_pos closed]
  rfl

theorem proposeAdvance_of_closed (closed : state.closed identityID = true) (epoch : UInt64)
    (member : Bytes) :
    (proposeAdvance config identityID epoch member).outcome state =
      (.error (.notReconciled identityID), state) := by
  rw [proposeAdvance, outcome_bind]
  change (if state.closed identityID = true then throw (.notReconciled identityID)
    else _ : Action Device Bool).outcome state = _
  rw [if_pos closed]
  rfl

theorem stable_closed (identityID : Bytes) :
    Stable config fun state => state.closed identityID = true where
  seals _ closed := closed
  counts _ _ closed := closed
  acknowledges _ closed := closed

theorem lookup_foldl_mark (identityIDs : List Bytes) (marks : Map Bool) (identityID : Bytes) :
    (identityIDs.foldl (fun marks id => marks.set id true) marks).lookup identityID =
      if identityID ∈ identityIDs then some true else marks.lookup identityID := by
  induction identityIDs generalizing marks with
  | nil => rfl
  | cons first rest ih =>
      rw [List.foldl_cons, ih, Go.MapOf.lookup_set]
      by_cases later : identityID ∈ rest
      · rw [if_pos later, if_pos (List.mem_cons_of_mem _ later)]
      · rw [if_neg later]
        simp only [List.mem_cons, later, or_false]

theorem closed_mark (identityIDs : List Bytes) (state : HighWater Device) (identityID : Bytes) :
    ((markNeedsReconcile identityIDs).outcome state).2.closed identityID =
      (decide (identityID ∈ identityIDs) || state.closed identityID) := by
  change (List.lookup identityID (identityIDs.foldl _ state.needsReconcile)).getD false = _
  rw [lookup_foldl_mark]
  by_cases marked : identityID ∈ identityIDs
  · simp [marked]
  · simp [marked, closed]

theorem closed_delete {other : Bytes} (different : other ≠ identityID) :
    ({ state with needsReconcile := state.needsReconcile.delete identityID }).closed other =
      state.closed other := by
  rw [closed, Go.MapOf.lookup_delete, if_neg different]
  rfl

theorem closed_call (closed : state.closed identityID = true) {call : Call}
    (unreconciled : ∀ checkpoint now, call = .reconcile checkpoint now →
      checkpoint.identityID = identityID →
      ∃ error, ((reconcile verifyMessage config checkpoint now).outcome state).1 = .error error) :
    ((call.action verifyMessage config).outcome state).2.closed identityID = true := by
  by_cases own : ∃ checkpoint now, call = .reconcile checkpoint now ∧
      checkpoint.identityID = identityID
  · obtain ⟨checkpoint, now, rfl, same⟩ := own
    obtain ⟨error, refused⟩ := unreconciled checkpoint now rfl same
    exact ((stable_closed identityID).triple_reconcile checkpoint now).fails closed refused
  · refine ((stable_closed identityID).triple_action ?_ ?_).leaves closed
    · intro identityIDs marked _ before
      rw [closed_mark, before, Bool.or_true]
    · intro checkpoint now marked reconciles before
      rw [closed_delete fun same => own ⟨checkpoint, now, reconciles, same.symm⟩]
      exact before

theorem closed_run {start : HighWater Device} (closed : start.closed identityID = true)
    {calls : List Call}
    (unreconciled : ∀ front checkpoint now back,
      calls = front ++ .reconcile checkpoint now :: back → checkpoint.identityID = identityID →
      ∃ error, ((reconcile verifyMessage config checkpoint now).outcome
        (run verifyMessage config start front)).1 = .error error) :
    (run verifyMessage config start calls).closed identityID = true := by
  induction calls using List.reverseRecOn with
  | nil => exact closed
  | append_singleton calls call ih =>
      rw [run_concat]
      refine closed_call (ih ?_) ?_
      · intro front checkpoint now back split own
        refine unreconciled front checkpoint now (back ++ [call]) ?_ own
        rw [split, List.append_assoc, List.cons_append]
      · intro checkpoint now reconciles own
        exact unreconciled calls checkpoint now [] (by rw [reconciles]) own

theorem verified_of_reconcile {checkpoint : SignedEpochCheckpoint} {now : Int}
    (succeeds : ((reconcile verifyMessage config checkpoint now).outcome state).1 = .ok ()) :
    config.checkpointKeyDER ≠ [] ∧
      verifyEpochCheckpoint verifyMessage config.checkpointKeyDER checkpoint = .ok () := by
  rw [reconcile, outcome_bind, Program.outcome_reading] at succeeds
  cases verified : verifyLocked verifyMessage config checkpoint with
  | error error =>
      rw [verified] at succeeds
      cases succeeds
  | ok value =>
      unfold verifyLocked at verified
      split at verified
      next => cases verified
      next key =>
        refine ⟨key, ?_⟩
        cases checked : verifyEpochCheckpoint verifyMessage config.checkpointKeyDER checkpoint with
        | error cause =>
            rw [checked] at verified
            cases verified
        | ok value => rfl

theorem eq_adoptedFloor_of_floor (verifyMessage : Bytes → Bytes → Bytes → Bool) {value : UInt64}
    (returned : ((floor config identityID).outcome state).1 = .ok value) :
    value = adoptedFloor config
      (((Call.floor identityID).action verifyMessage config).outcome state).2 identityID := by
  have reads := ((stable_rises state).triple_floorLocked identityID).succeeds (Rises.refl state)
    returned
  rw [Call.action, outcome_bind]
  revert reads returned
  rw [floor]
  rcases (floorLocked config identityID).outcome state with ⟨result, next⟩
  rintro rfl reads
  exact reads.2

/-- Along every run, whatever the counter fails at, floors do not fall, and a
marked identity does not advance until a verified checkpoint of its own is
reconciled. -/
theorem floor_rises_and_fails_closed
    (verifyMessage : Bytes → Bytes → Bytes → Bool)
    (config : HighWaterConfig Device)
    (start : HighWater Device) :
    (∀ before after identityID,
      adoptedFloor config (run verifyMessage config start before) identityID ≤
        adoptedFloor config (run verifyMessage config start (before ++ after)) identityID) ∧
    (∀ before between identityID first second,
      ((floor config identityID).outcome (run verifyMessage config start before)).1 = .ok first →
      ((floor config identityID).outcome (run verifyMessage config start
        (before ++ .floor identityID :: between))).1 = .ok second →
      first ≤ second) ∧
    (∀ before identityIDs between identityID, identityID ∈ identityIDs →
      (∀ front checkpoint now back, between = front ++ .reconcile checkpoint now :: back →
        checkpoint.identityID = identityID →
        ∃ error, ((reconcile verifyMessage config checkpoint now).outcome
          (run verifyMessage config start
            (before ++ .markNeedsReconcile identityIDs :: front))).1 = .error error) →
      ∀ epoch member, ∀ state, state = run verifyMessage config start
          (before ++ .markNeedsReconcile identityIDs :: between) →
        (sealAdvance config identityID epoch).outcome state =
          (.error (.notReconciled identityID), state) ∧
        (proposeAdvance config identityID epoch member).outcome state =
          (.error (.notReconciled identityID), state)) ∧
    (∀ state checkpoint now,
      ((reconcile verifyMessage config checkpoint now).outcome state).1 = .ok () →
      config.checkpointKeyDER ≠ [] ∧
        verifyEpochCheckpoint verifyMessage config.checkpointKeyDER checkpoint = .ok ()) := by
  refine ⟨?_, ?_, ?_, fun state checkpoint now => verified_of_reconcile⟩
  · intro before after identityID
    rw [run_append]
    exact (rises_run _ after).adoptedFloor_le identityID
  · intro before between identityID first second readFirst readSecond
    rw [eq_adoptedFloor_of_floor verifyMessage readFirst,
      eq_adoptedFloor_of_floor verifyMessage readSecond, run_append]
    refine Rises.adoptedFloor_le ?_ identityID
    exact (rises_run _ between).trans (rises_call (.floor identityID) _)
  · intro before identityIDs between identityID marked unreconciled epoch member state isState
    have closed : state.closed identityID = true := by
      rw [isState, run_append, run_cons]
      refine closed_run ?_ ?_
      · exact (closed_mark ..).trans (by rw [decide_eq_true marked, Bool.true_or])
      · intro front checkpoint now back split own
        have refused := unreconciled front checkpoint now back split own
        rwa [run_append] at refused
    exact ⟨sealAdvance_of_closed closed epoch, proposeAdvance_of_closed closed epoch member⟩

/-- A counter kept in memory, as the tests of the source use it. -/
def fakeCounter : MonotonicCounter (Map UInt64) where
  current device slot := (device.lookup slot).getD 0
  value slot device := (.ok ((device.lookup slot).getD 0), device)
  bump slot least device :=
    let next := if least > (device.lookup slot).getD 0 then device.set slot least else device
    (.ok ((next.lookup slot).getD 0), next)
  value_current answered := (Except.ok.inj answered).symm
  value_keeps _ _ _ := UInt64.le_refl _
  bump_reaches {slot least device _} _ := by
    dsimp only
    split
    next => simp [Go.MapOf.lookup_set]
    next below => exact UInt64.not_lt.mp below
  bump_keeps slot least device other := by
    dsimp only
    split
    next above =>
      rw [Go.MapOf.lookup_set]
      split
      next own => exact own ▸ UInt64.le_of_lt above
      next => exact UInt64.le_refl _
    next => exact UInt64.le_refl _

def checkpointOf (identityID : Bytes) (epoch : UInt64) : SignedEpochCheckpoint :=
  ⟨[], identityID, [], epoch, [], [], 0, [], 0, [1], []⟩

/-- A floor backed by a counter that is marked after an advance to the fifth
epoch: a presented checkpoint raises it, and it does not advance. -/
theorem floor_after_a_mark :
    let config : HighWaterConfig (Map UInt64) := ⟨some fakeCounter, [1], 0, 1⟩
    let start := newHighWater [] []
    let advance := Call.sealAdvance [7] 5
    let mark := Call.markNeedsReconcile [[7]]
    let present := Call.adoptPresented (checkpointOf [7] 6)
    let state := run (fun _ _ _ => true) config start ([advance] ++ mark :: [present])
    adoptedFloor config (run (fun _ _ _ => true) config start [advance]) [7] = 5 ∧
      5 ≤ adoptedFloor config state [7] ∧
      (sealAdvance config [7] 8).outcome state = (.error (.notReconciled [7]), state) := by
  intro config start advance mark present state
  have five : adoptedFloor config (run (fun _ _ _ => true) config start [advance]) [7] = 5 := by
    decide +kernel
  obtain ⟨rises, -, closed, -⟩ := floor_rises_and_fails_closed (fun _ _ _ => true) config start
  refine ⟨five, ?_, ?_⟩
  · exact five ▸ rises [advance] (mark :: [present]) [7]
  · refine (closed [advance] [[7]] [present] [7] List.mem_cons_self ?_ 8 [] state rfl).1
    intro front checkpoint now back split
    have member : Call.reconcile checkpoint now ∈ [present] :=
      split ▸ List.mem_append_right front List.mem_cons_self
    have same : Call.reconcile checkpoint now = .adoptPresented (checkpointOf [7] 6) :=
      List.mem_singleton.mp member
    cases same

section Restore

variable {counter : MonotonicCounter Device}

theorem triple_adoptLocked_counts (counted : config.counter = some counter) (identityID : Bytes)
    (epoch : UInt64) :
    Program.Triple (fun _ => True) (adoptLocked config identityID epoch)
      (fun _ state => epoch ≤ counter.current state.device identityID) fun _ => True := by
  have seals : Program.Triple (fun _ => True)
      (Program.update fun state =>
        if epoch > state.sealedAt identityID then
          { state with sealed := state.sealed.set identityID epoch }
        else state : Action Device Unit) (fun _ _ => True) fun _ => True :=
    triple_update fun _ _ => trivial
  rw [adoptLocked, counted]
  refine seals.bind fun _ => ?_
  refine Program.Triple.bind ?_ fun _ => triple_pure fun _ reached => reached
  exact triple_onDevice (fun _ _ _ answered => counter.bump_reaches answered) fun _ _ => trivial

theorem triple_sealAdvance_counts (counted : config.counter = some counter) (identityID : Bytes)
    (epoch : UInt64) :
    Program.Triple (fun _ => True) (sealAdvance config identityID epoch)
      (fun _ state => epoch ≤ counter.current state.device identityID) fun _ => True := by
  have anything : Stable config fun _ => True := ⟨fun _ => id, fun _ _ => id, fun _ => id⟩
  refine (triple_reading_kept _).bind fun closed => ?_
  refine Program.Triple.ite (fun _ => triple_throw fun _ _ => trivial) fun _ => ?_
  refine (anything.triple_floorLocked identityID).bind fun floor => ?_
  refine Program.Triple.ite (fun _ => triple_throw fun _ _ => trivial) fun _ => ?_
  exact (triple_adoptLocked_counts counted identityID epoch).strengthen fun _ _ => trivial

/-- Whatever map is restored, the floor stays at the sealed epoch or above. -/
theorem le_adoptedFloor_of_restored (counted : config.counter = some counter)
    {state : HighWater Device} {identityID : Bytes} {epoch : UInt64}
    (succeeds : ((sealAdvance config identityID epoch).outcome state).1 = .ok ())
    (restored : Map UInt64) (since later : List Call) :
    epoch ≤ adoptedFloor config
      (run verifyMessage config
        (newHighWater restored (run verifyMessage config
          ((sealAdvance config identityID epoch).outcome state).2 since).device) later)
      identityID := by
  have reached := (triple_sealAdvance_counts counted identityID epoch).succeeds trivial succeeds
  have kept : counter.current ((sealAdvance config identityID epoch).outcome state).2.device
      identityID ≤ counter.current (run verifyMessage config
        ((sealAdvance config identityID epoch).outcome state).2 since).device identityID :=
    (rises_run _ since).counted counter counted identityID
  refine UInt64.le_trans ?_ ((rises_run _ later).adoptedFloor_le identityID)
  have current := UInt64.le_trans reached kept
  rw [adoptedFloor, counted]
  dsimp only
  split
  next => exact current
  next below => exact UInt64.le_trans current (UInt64.not_lt.mp below)

/-- A counter that was bumped to the fifth epoch, under an empty restored map. -/
theorem le_adoptedFloor_of_restored_empty :
    let config : HighWaterConfig (Map UInt64) := ⟨some fakeCounter, [1], 0, 1⟩
    let state := ((sealAdvance config [7] 5).outcome (newHighWater [] [])).2
    5 ≤ adoptedFloor config (newHighWater [] state.device) [7] :=
  @le_adoptedFloor_of_restored _ (fun _ _ _ => true) ⟨some fakeCounter, [1], 0, 1⟩ fakeCounter rfl
    (newHighWater [] []) [7] 5 (by decide +kernel) [] [] []

end Restore

end HighWater
end Minter
end Trstctl.Succession
