import Mathlib.Data.List.Induction
import Mathlib.Order.MinMax
import Trstctl.Go.Encoding

/-!
# Stores of epoch floors

`HistoryFloorStore` (`internal/succession/minter/floor_history.go`) keeps every
epoch an identity advanced to and derives the floor from them;
`DurableFloorStore` (`floorstore_durable.go`) keeps the floor itself and skips
advances that do not raise it.  Both give the greatest epoch advanced to.
-/

namespace Trstctl.Succession.Minter

open Go (Bytes bytes Map)

/-- A call of `Advance`. -/
structure Advance where
  identityID : Bytes
  epoch : UInt64

/-- `HistoryFloorStore`: the recorded epochs, oldest first. -/
structure HistoryFloorStore where
  history : Map (List UInt64) := []

namespace HistoryFloorStore

/-- The loop of `Load` over a history. -/
def greatest (epochs : List UInt64) : UInt64 :=
  epochs.foldl (fun greatest epoch => if epoch > greatest then epoch else greatest) 0

def recorded (store : HistoryFloorStore) (identityID : Bytes) : List UInt64 :=
  (store.history.lookup identityID).getD []

def load (store : HistoryFloorStore) : Map UInt64 :=
  store.history.map fun (identityID, epochs) => (identityID, greatest epochs)

def advance (store : HistoryFloorStore) (call : Advance) : HistoryFloorStore :=
  ⟨store.history.set call.identityID (store.recorded call.identityID ++ [call.epoch])⟩

def recordedTransition (store : HistoryFloorStore) (identityID : Bytes) (epoch : UInt64) : Bool :=
  (store.recorded identityID).any fun recorded => recorded ≥ epoch

end HistoryFloorStore

/-- `DurableFloorStore`, with the floors it holds in memory. -/
structure DurableFloorStore where
  floors : Map UInt64 := []

namespace DurableFloorStore

def load (store : DurableFloorStore) : Map UInt64 :=
  store.floors

/-- `DurableFloorStore.Advance`, with the store it leaves.  A failed write
leaves the floors as they are. -/
def advance (writeAtomic : Map UInt64 → Except Bytes Unit) (store : DurableFloorStore)
    (call : Advance) : Except Bytes Unit × DurableFloorStore :=
  if call.epoch ≤ (store.floors.lookup call.identityID).getD 0 then (.ok (), store)
  else
    let next := store.floors.set call.identityID call.epoch
    match writeAtomic next with
    | .error cause => (.error cause, store)
    | .ok () => (.ok (), ⟨next⟩)

end DurableFloorStore

def epochsOf (calls : List Advance) (identityID : Bytes) : List UInt64 :=
  (calls.filter fun call => call.identityID = identityID).map Advance.epoch

/-- The greatest epoch an identity advances to, zero when it never does. -/
def greatestEpoch (calls : List Advance) (identityID : Bytes) : Nat :=
  ((epochsOf calls identityID).map UInt64.toNat).foldr max 0

variable (calls : List Advance)

theorem epochsOf_concat (call : Advance) (identityID : Bytes) :
    epochsOf (calls ++ [call]) identityID =
      epochsOf calls identityID ++ if call.identityID = identityID then [call.epoch] else [] := by
  by_cases own : call.identityID = identityID
  · simp [epochsOf, List.filter_append, own]
  · simp [epochsOf, List.filter_append, own]

theorem foldr_max_concat (values : List Nat) (value : Nat) :
    (values ++ [value]).foldr max 0 = max (values.foldr max 0) value := by
  induction values with
  | nil => simp
  | cons first rest ih =>
      rw [List.cons_append, List.foldr_cons, List.foldr_cons, ih, Nat.max_assoc]

theorem greatestEpoch_concat (call : Advance) (identityID : Bytes) :
    greatestEpoch (calls ++ [call]) identityID =
      if call.identityID = identityID then max (greatestEpoch calls identityID) call.epoch.toNat
      else greatestEpoch calls identityID := by
  rw [greatestEpoch, epochsOf_concat]
  by_cases own : call.identityID = identityID
  · rw [if_pos own, if_pos own, List.map_append, List.map_singleton, foldr_max_concat]
    rfl
  · rw [if_neg own, if_neg own, List.append_nil]
    rfl

def HistoryFloorStore.run (calls : List Advance) : HistoryFloorStore :=
  calls.foldl HistoryFloorStore.advance {}

def DurableFloorStore.run (writeAtomic : Map UInt64 → Except Bytes Unit) (calls : List Advance) :
    DurableFloorStore :=
  calls.foldl (fun store call => (store.advance writeAtomic call).2) {}

theorem HistoryFloorStore.recorded_run (identityID : Bytes) :
    (run calls).recorded identityID = epochsOf calls identityID := by
  induction calls using List.reverseRecOn with
  | nil => rfl
  | append_singleton calls call ih =>
      rw [run, List.foldl_concat, epochsOf_concat, ← ih]
      change ((Go.MapOf.set _ _ _).lookup identityID).getD [] = _
      rw [Go.MapOf.lookup_set]
      by_cases own : identityID = call.identityID
      · rw [if_pos own, if_pos own.symm, own]
        rfl
      · rw [if_neg own, if_neg (Ne.symm own), List.append_nil]
        rfl

theorem HistoryFloorStore.toNat_greatest (epochs : List UInt64) :
    (greatest epochs).toNat = (epochs.map UInt64.toNat).foldr max 0 := by
  induction epochs using List.reverseRecOn with
  | nil => rfl
  | append_singleton epochs epoch ih =>
      rw [greatest, List.foldl_concat, List.map_append, List.map_singleton, foldr_max_concat,
        ← ih]
      change (if epoch > greatest epochs then epoch else greatest epochs).toNat = _
      by_cases above : epoch > greatest epochs
      · rw [if_pos above, Nat.max_eq_right (UInt64.lt_iff_toNat_lt.mp above).le]
      · rw [if_neg above, Nat.max_eq_left (UInt64.le_iff_toNat_le.mp (UInt64.not_lt.mp above))]

theorem HistoryFloorStore.toNat_load_run (identityID : Bytes) :
    (((run calls).load.lookup identityID).getD 0).toNat = greatestEpoch calls identityID := by
  have loaded : ((run calls).load.lookup identityID).getD 0 =
      greatest ((run calls).recorded identityID) := by
    rw [load, Go.MapOf.lookup_map, recorded]
    cases (run calls).history.lookup identityID with
    | none => rfl
    | some epochs => rfl
  rw [loaded, recorded_run, toNat_greatest, greatestEpoch]

theorem DurableFloorStore.toNat_load_run {writeAtomic : Map UInt64 → Except Bytes Unit}
    (succeeds : ∀ floors, writeAtomic floors = .ok ()) (calls : List Advance) (identityID : Bytes) :
    (((run writeAtomic calls).load.lookup identityID).getD 0).toNat =
      greatestEpoch calls identityID := by
  induction calls using List.reverseRecOn generalizing identityID with
  | nil => rfl
  | append_singleton calls call ih =>
      have own := ih call.identityID
      rw [run, List.foldl_concat, greatestEpoch_concat, ← ih identityID]
      change (((advance writeAtomic (run writeAtomic calls) call).2.load.lookup identityID).getD
        0).toNat = _
      by_cases kept : call.epoch ≤ ((run writeAtomic calls).floors.lookup call.identityID).getD 0
      · rw [advance, if_pos kept]
        split
        · rename_i same
          rw [← same]
          exact (Nat.max_eq_left (UInt64.le_iff_toNat_le.mp kept)).symm
        · rfl
      · rw [advance, if_neg kept]
        simp only [succeeds, load, Go.MapOf.lookup_set]
        by_cases same : identityID = call.identityID
        · rw [if_pos same, if_pos same.symm, same]
          have above := UInt64.lt_iff_toNat_lt.mp (UInt64.not_le.mp kept)
          exact (Nat.max_eq_right above.le).symm
        · rw [if_neg same, if_neg (Ne.symm same)]

theorem le_foldr_max_iff {values : List Nat} {bound : Nat} (positive : 1 ≤ bound) :
    bound ≤ values.foldr max 0 ↔ ∃ value ∈ values, bound ≤ value := by
  induction values with
  | nil => simp; omega
  | cons first rest ih =>
      rw [List.foldr_cons, le_max_iff, ih, List.exists_mem_cons_iff]

theorem HistoryFloorStore.recordedTransition_run (identityID : Bytes) {epoch : UInt64}
    (positive : 1 ≤ epoch) :
    (run calls).recordedTransition identityID epoch = true ↔
      epoch.toNat ≤ greatestEpoch calls identityID := by
  rw [recordedTransition, recorded_run, greatestEpoch,
    le_foldr_max_iff (UInt64.le_iff_toNat_le.mp positive), List.any_eq_true]
  constructor
  · rintro ⟨recorded, member, reaches⟩
    exact ⟨recorded.toNat, List.mem_map_of_mem member,
      UInt64.le_iff_toNat_le.mp (of_decide_eq_true reaches)⟩
  · rintro ⟨value, member, reaches⟩
    obtain ⟨recorded, recordedMember, rfl⟩ := List.mem_map.mp member
    exact ⟨recorded, recordedMember, decide_eq_true (UInt64.le_iff_toNat_le.mpr reaches)⟩

/-- The derived and the stored floor of every identity are the greatest epoch it
advanced to, and the recorded transitions are those up to it. -/
theorem floors_indistinguishable
    {writeAtomic : Map UInt64 → Except Bytes Unit}
    (succeeds : ∀ floors, writeAtomic floors = .ok ())
    (calls : List Advance)
    (identityID : Bytes) :
    ((HistoryFloorStore.run calls).load.lookup identityID).getD 0 =
        ((DurableFloorStore.run writeAtomic calls).load.lookup identityID).getD 0 ∧
      (((HistoryFloorStore.run calls).load.lookup identityID).getD 0).toNat =
        greatestEpoch calls identityID ∧
      ∀ epoch, 1 ≤ epoch →
        ((HistoryFloorStore.run calls).recordedTransition identityID epoch = true ↔
          epoch ≤ ((HistoryFloorStore.run calls).load.lookup identityID).getD 0) := by
  have derived := HistoryFloorStore.toNat_load_run calls identityID
  have stored := DurableFloorStore.toNat_load_run succeeds calls identityID
  refine ⟨UInt64.toNat_inj.mp (derived.trans stored.symm), derived, ?_⟩
  intro epoch positive
  rw [HistoryFloorStore.recordedTransition_run calls identityID positive, UInt64.le_iff_toNat_le,
    derived]

/-- An identity that advances to 3, back to 2 and to 3 again. -/
theorem floors_after_a_regression :
    ((HistoryFloorStore.run [⟨bytes "db", 3⟩, ⟨bytes "db", 2⟩, ⟨bytes "db", 3⟩]).load.lookup
        (bytes "db")).getD 0 =
      ((DurableFloorStore.run (fun _ => .ok ())
        [⟨bytes "db", 3⟩, ⟨bytes "db", 2⟩, ⟨bytes "db", 3⟩]).load.lookup (bytes "db")).getD 0 :=
  (floors_indistinguishable (fun _ => rfl) _ _).1

end Trstctl.Succession.Minter
