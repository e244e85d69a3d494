import Mathlib.Logic.Function.Basic
import Trstctl.Go.Encoding
import Trstctl.Library.Codes

/-!
# The idempotency store in memory

`Memory.Do` of `internal/idem/idem.go`, called any number of times at once.
The two sections under the lock are atomic; between them the callback runs
while other calls go on.  Callbacks return, with bytes and perhaps an error.
-/

namespace Trstctl.Idem

open Go (Bytes bytes Map MapOf)

/-- The error of a call: `ErrInProgress` or one of the callback. -/
inductive DoError (ε : Type) where
  | inProgress
  | callback (error : ε)

/-- The results stored and the keys claimed. -/
structure Memory where
  done : Map Bytes
  inflight : Map Bool

def newMemory : Memory where
  done := []
  inflight := []

/-- Where a call is: before its first section, in its callback, between the
callback and its second section, or back with what it returns. -/
inductive Phase (ε : Type) where
  | waiting
  | running
  | returned (res : Bytes) (err : Option ε)
  | finished (res : Bytes) (err : Option (DoError ε))

variable {ε ι : Type}

/-- The key of a result. -/
def full (arguments : Bytes × Bytes) : Bytes :=
  arguments.1 ++ bytes "|" ++ arguments.2

/-- The first section of `Do`. -/
def claim (memory : Memory) (key : Bytes) : Memory × Phase ε :=
  match memory.done.lookup key with
  | some res => (memory, .finished res none)
  | none =>
      if (memory.inflight.lookup key).getD false then (memory, .finished [] (some .inProgress))
      else ({ memory with inflight := MapOf.set memory.inflight key true }, .running)

/-- The second section of `Do`. -/
def settle (memory : Memory) (key res : Bytes) (err : Option ε) : Memory × Phase ε :=
  let memory := { memory with inflight := MapOf.delete memory.inflight key }
  match err with
  | none => ({ memory with done := MapOf.set memory.done key res }, .finished res none)
  | some error => (memory, .finished res (some (.callback error)))

/-- The store, the calls, and what the callbacks have returned so far. -/
structure System (ε ι : Type) where
  memory : Memory
  phase : ι → Phase ε
  outcome : ι → Option (Bytes × Option ε)

/-- What happens next: a call enters its first section, a callback returns, or a
call enters its second section. -/
inductive Turn (ε ι : Type) where
  | claims (call : ι)
  | returns (call : ι) (res : Bytes) (err : Option ε)
  | settles (call : ι)

/-- Before the first call. -/
def start : System ε ι where
  memory := newMemory
  phase _ := .waiting
  outcome _ := none

variable [DecidableEq ι]

/-- One turn.  A turn of a call that is elsewhere changes nothing. -/
def step (arguments : ι → Bytes × Bytes) (system : System ε ι) : Turn ε ι → System ε ι
  | .claims call =>
      match system.phase call with
      | .waiting =>
          let next := claim system.memory (full (arguments call))
          { system with memory := next.1, phase := Function.update system.phase call next.2 }
      | _ => system
  | .returns call res err =>
      match system.phase call with
      | .running =>
          { system with
            phase := Function.update system.phase call (.returned res err)
            outcome := Function.update system.outcome call (some (res, err)) }
      | _ => system
  | .settles call =>
      match system.phase call with
      | .returned res err =>
          let next := settle system.memory (full (arguments call)) res err
          { system with memory := next.1, phase := Function.update system.phase call next.2 }
      | _ => system

/-- The calls after some turns. -/
def run (arguments : ι → Bytes × Bytes) (turns : List (Turn ε ι)) : System ε ι :=
  turns.foldl (step arguments) start

/-- A call that holds the claim on its key. -/
def Phase.Active : Phase ε → Prop
  | .running => True
  | .returned _ _ => True
  | _ => False

/-- What holds after every turn.  A call with the claim keeps its key out of the
recorded results and other claims, so that one callback succeeds, and what is
recorded is what it returned. -/
structure Sound (arguments : ι → Bytes × Bytes) (system : System ε ι) : Prop where
  claimed : ∀ call, (system.phase call).Active →
    system.memory.inflight.lookup (full (arguments call)) = some true ∧
      system.memory.done.lookup (full (arguments call)) = none
  alone : ∀ call other, (system.phase call).Active → (system.phase other).Active →
    full (arguments call) = full (arguments other) → call = other
  returned : ∀ call res err, system.phase call = .returned res err →
    system.outcome call = some (res, err)
  succeeded : ∀ call res, system.outcome call = some (res, none) →
    system.phase call = .returned res none ∨
      system.memory.done.lookup (full (arguments call)) = some res
  once : ∀ call other res otherRes, system.outcome call = some (res, none) →
    system.outcome other = some (otherRes, none) →
    full (arguments call) = full (arguments other) → call = other
  recorded : ∀ key res, system.memory.done.lookup key = some res →
    ∃ call, full (arguments call) = key ∧ system.outcome call = some (res, none)
  finished : ∀ call res, system.phase call = .finished res none →
    system.memory.done.lookup (full (arguments call)) = some res

omit [DecidableEq ι] in
theorem sound_start (arguments : ι → Bytes × Bytes) :
    Sound arguments (start : System ε ι) where
  claimed _ active := active.elim
  alone _ _ active := active.elim
  returned _ _ _ pending := nomatch pending
  succeeded _ _ success := nomatch success
  once _ _ _ _ success := nomatch success
  recorded _ _ stored := nomatch stored
  finished _ _ replied := nomatch replied

variable {arguments : ι → Bytes × Bytes} {system : System ε ι} {call : ι}

section Step

variable (sound : Sound arguments system)

include sound

theorem Sound.finish (idle : system.phase call = .waiting) {res : Bytes} {err : Option (DoError ε)}
    (replayed : err = none → system.memory.done.lookup (full (arguments call)) = some res) :
    Sound arguments
      { system with phase := Function.update system.phase call (.finished res err) } where
  claimed other active := by
    have := sound.claimed other
    grind [Phase.Active, Function.update_apply]
  alone other third active := by
    have := sound.alone other third
    grind [Phase.Active, Function.update_apply]
  returned other := by
    have := sound.returned other
    grind [Function.update_apply]
  succeeded other := by
    have := sound.succeeded other
    grind [Function.update_apply]
  once := sound.once
  recorded := sound.recorded
  finished other := by
    have := sound.finished other
    grind [Function.update_apply]

theorem Sound.claim (idle : system.phase call = .waiting)
    (unrecorded : system.memory.done.lookup (full (arguments call)) = none)
    (unclaimed : ¬ (system.memory.inflight.lookup (full (arguments call))).getD false = true) :
    Sound arguments
      { system with
        memory := { system.memory with
          inflight := MapOf.set system.memory.inflight (full (arguments call)) true }
        phase := Function.update system.phase call .running } := by
  -- Another call with the claim on this key would have been found in flight.
  have free : ∀ other, (system.phase other).Active →
      full (arguments other) ≠ full (arguments call) := by
    intro other active same
    rw [← same, (sound.claimed other active).1] at unclaimed
    exact unclaimed rfl
  exact {
    claimed := fun other => by
      have := sound.claimed other
      grind [Phase.Active, Function.update_apply, MapOf.lookup_set]
    alone := fun other third => by
      have := sound.alone other third
      grind [Phase.Active, Function.update_apply]
    returned := fun other => by
      have := sound.returned other
      grind [Function.update_apply]
    succeeded := fun other => by
      have := sound.succeeded other
      grind [Function.update_apply]
    once := sound.once
    recorded := sound.recorded
    finished := fun other => by
      have := sound.finished other
      grind [Function.update_apply] }

theorem Sound.return (running : system.phase call = .running) (res : Bytes) (err : Option ε) :
    Sound arguments
      { system with
        phase := Function.update system.phase call (.returned res err)
        outcome := Function.update system.outcome call (some (res, err)) } := by
  have active : (system.phase call).Active := by
    rw [running]
    trivial
  -- A callback that succeeded on this key has its result recorded, or its call has the claim.
  have first : ∀ other otherRes, system.outcome other = some (otherRes, none) →
      full (arguments other) = full (arguments call) → other = call := by
    intro other otherRes success same
    rcases sound.succeeded other otherRes success with pending | stored
    · refine sound.alone other call ?_ active same
      rw [pending]
      trivial
    · rw [same, (sound.claimed call active).2] at stored
      cases stored
  exact {
    claimed := fun other => by
      have := sound.claimed other
      grind [Function.update_apply]
    alone := fun other third => by
      have := sound.alone other third
      grind [Function.update_apply]
    returned := fun other => by
      have := sound.returned other
      grind [Function.update_apply]
    succeeded := fun other => by
      have := sound.succeeded other
      grind [Function.update_apply]
    once := fun other third => by
      have := sound.once other third
      grind [Function.update_apply]
    recorded := fun key res stored => by
      -- The key is recorded, so it is not the key of the call that had the claim.
      obtain ⟨executed, same, success⟩ := sound.recorded key res stored
      have := (sound.claimed call active).2
      exact ⟨executed, same, by grind [Function.update_apply]⟩
    finished := fun other => by
      have := sound.finished other
      grind [Function.update_apply] }

theorem Sound.release {res : Bytes} {error : ε}
    (pending : system.phase call = .returned res (some error)) :
    Sound arguments
      { system with
        memory := { system.memory with
          inflight := MapOf.delete system.memory.inflight (full (arguments call)) }
        phase := Function.update system.phase call (.finished res (some (.callback error))) } := by
  have active : (system.phase call).Active := by
    rw [pending]
    trivial
  exact {
    claimed := fun other => by
      have := sound.claimed other
      have := sound.alone call other
      grind [Phase.Active, Function.update_apply, MapOf.lookup_delete]
    alone := fun other third => by
      have := sound.alone other third
      grind [Phase.Active, Function.update_apply]
    returned := fun other => by
      have := sound.returned other
      grind [Function.update_apply]
    succeeded := fun other => by
      have := sound.succeeded other
      have := sound.returned call
      grind [Function.update_apply]
    once := sound.once
    recorded := sound.recorded
    finished := fun other => by
      have := sound.finished other
      grind [Function.update_apply] }

theorem Sound.record {res : Bytes} (pending : system.phase call = .returned res none) :
    Sound arguments
      { system with
        memory := {
          done := MapOf.set system.memory.done (full (arguments call)) res
          inflight := MapOf.delete system.memory.inflight (full (arguments call)) }
        phase := Function.update system.phase call (.finished res none) } := by
  have active : (system.phase call).Active := by
    rw [pending]
    trivial
  have success := sound.returned call res none pending
  have unrecorded := (sound.claimed call active).2
  exact {
    claimed := fun other => by
      have := sound.claimed other
      have := sound.alone call other
      grind [Phase.Active, Function.update_apply, MapOf.lookup_set, MapOf.lookup_delete]
    alone := fun other third => by
      have := sound.alone other third
      grind [Phase.Active, Function.update_apply]
    returned := fun other => by
      have := sound.returned other
      grind [Function.update_apply]
    succeeded := fun other => by
      have := sound.succeeded other
      have := sound.once call other
      grind [Function.update_apply, MapOf.lookup_set]
    once := sound.once
    recorded := fun key => by
      have := sound.recorded key
      grind [MapOf.lookup_set]
    finished := fun other => by
      have := sound.finished other
      grind [Function.update_apply, MapOf.lookup_set] }

/-- Every turn keeps the invariant. -/
theorem Sound.step (turn : Turn ε ι) :
    Sound arguments (step arguments system turn) := by
  cases turn with
  | claims call =>
      rw [Idem.step]
      split
      · rename_i idle
        rcases stored : system.memory.done.lookup (full (arguments call)) with _ | res
        · by_cases taken : (system.memory.inflight.lookup (full (arguments call))).getD false = true
          · simp only [Idem.claim, stored, if_pos taken]
            exact sound.finish idle fun none => nomatch none
          · simp only [Idem.claim, stored, if_neg taken]
            exact sound.claim idle stored taken
        · simp only [Idem.claim, stored]
          exact sound.finish idle fun _ => stored
      · exact sound
  | returns call res err =>
      rw [Idem.step]
      split
      · rename_i running
        exact sound.return running res err
      · exact sound
  | settles call =>
      rw [Idem.step]
      split
      · rename_i res err pending
        cases err with
        | none => exact sound.record pending
        | some error => exact sound.release pending
      · exact sound

end Step

theorem sound_run (turns : List (Turn ε ι)) : Sound arguments (run arguments turns) := by
  have general (system : System ε ι) (sound : Sound arguments system) :
      Sound arguments (turns.foldl (step arguments) system) := by
    induction turns generalizing system with
    | nil => exact sound
    | cons turn turns ih => exact ih _ (sound.step turn)
  exact general start (sound_start arguments)

theorem full_injective {first second : Bytes × Bytes} (plain : 0x7C ∉ first.1)
    (otherPlain : 0x7C ∉ second.1) (same : full first = full second) :
    first = second := by
  have bar : bytes "|" = [0x7C] := by decide
  simp only [full, bar, List.append_assoc, List.singleton_append] at same
  have parts := Separator.eq_of_append_cons_eq plain otherPlain same
  exact Prod.ext parts.1 parts.2

/-- In every schedule of any number of calls, at most one callback for a tenant
and key returns without error, and every call that returns without error returns
the bytes of that callback. -/
theorem do_runs_once
    (plain : ∀ call, 0x7C ∉ (arguments call).1)
    (turns : List (Turn ε ι)) :
    (∀ call other res otherRes, arguments call = arguments other →
        (run arguments turns).outcome call = some (res, none) →
        (run arguments turns).outcome other = some (otherRes, none) → call = other) ∧
      ∀ call res, (run arguments turns).phase call = .finished res none →
        ∃ executed, arguments executed = arguments call ∧
          (run arguments turns).outcome executed = some (res, none) := by
  have sound : Sound arguments (run arguments turns) := sound_run turns
  constructor
  · intro call other res otherRes same success otherSuccess
    exact sound.once call other res otherRes success otherSuccess (congrArg full same)
  · intro call res replied
    obtain ⟨executed, same, success⟩ := sound.recorded _ _ (sound.finished call res replied)
    exact ⟨executed, full_injective (plain executed) (plain call) same, success⟩

/-- Two calls to rotate and one to revoke. -/
def threeCalls : Option Bool → Bytes × Bytes
  | none => (bytes "acme", bytes "revoke")
  | some _ => (bytes "acme", bytes "rotate")

/-- The callbacks of a rotation and of the revocation overlap, and the rotation is
called again. -/
def overlapping : List (Turn String (Option Bool)) :=
  [.claims (some true), .claims none, .returns (some true) [7] none, .returns none [8] none,
    .settles none, .settles (some true), .claims (some false)]

/-- The second rotation gets the bytes of the first. -/
theorem do_runs_once_overlapping :
    (run threeCalls overlapping).phase (some false) = .finished [7] none ∧
      ∃ executed, threeCalls executed = (bytes "acme", bytes "rotate") ∧
        (run threeCalls overlapping).outcome executed = some ([7], none) :=
  ⟨rfl, (do_runs_once (fun call => by
    cases call with
    | none => decide
    | some again => cases again <;> decide) _).2 (some false) [7] rfl⟩

end Trstctl.Idem
