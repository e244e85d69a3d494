import Trstctl.Library.Result
import Trstctl.Transit.Keyring

/-!
# What a step of a call does to the keys

The versions that the keyrings hold, by the name of the key and the number of the
version.  A step makes one version, takes one back, saves all of them or leaves
them as they are.
-/

namespace Trstctl.Transit

open Go (Bytes bytes)
open Interaction (Obeys Pool)

/-- The version of a key under its number, with the kind of the key. -/
def Rings.find (rings : Rings) (place : KeyName × Nat) : Option (Kind × KeyVersion) :=
  (rings.lookup place.1).bind fun key =>
    (key.version place.2).map fun version => (key.kind, version)

section Find

variable {rings : Rings} {name : KeyName} {key : NamedKey} {version : KeyVersion}

theorem NamedKey.version_push (number : Nat) :
    (key.push version).version number =
      if number = key.latest + 1 then some version else key.version number := by
  unfold NamedKey.version NamedKey.push NamedKey.latest
  dsimp only
  by_cases zero : number = 0
  · subst zero
    simp
  rw [if_neg zero, if_neg zero]
  split_ifs with last
  · subst last
    simp
  · rcases Nat.lt_or_ge (number - 1) key.versions.length with inside | outside
    · rw [List.getElem?_append_left inside]
    · rw [List.getElem?_eq_none outside, List.getElem?_eq_none]
      rw [List.length_append, List.length_singleton]
      omega

theorem NamedKey.version_pop (several : 1 < key.latest) (number : Nat) :
    (key.pop several).version number =
      if number = key.latest then none else key.version number := by
  have positive := key.latest_pos
  unfold NamedKey.version NamedKey.pop NamedKey.latest
  unfold NamedKey.latest at positive
  dsimp only
  by_cases zero : number = 0
  · subst zero
    rw [if_pos rfl, if_pos rfl, ite_self]
  rw [if_neg zero, if_neg zero, List.getElem?_dropLast]
  split_ifs with inside last last
  · omega
  · rfl
  · rfl
  · rw [List.getElem?_eq_none]
    omega

theorem NamedKey.version_eq_none_iff (number : Nat) :
    key.version number = none ↔ number = 0 ∨ key.latest < number := by
  unfold NamedKey.version NamedKey.latest
  split_ifs with zero
  · simp [zero]
  · rw [List.getElem?_eq_none_iff]
    omega

theorem find_of_lookup (stored : rings.lookup name = some key) (number : Nat) :
    Rings.find rings (name, number) =
      (key.version number).map fun version => (key.kind, version) := by
  change (rings.lookup name).bind _ = _
  rw [stored]
  rfl

theorem find_of_absent (absent : rings.lookup name = none) (number : Nat) :
    Rings.find rings (name, number) = none := by
  change (rings.lookup name).bind _ = _
  rw [absent]
  rfl

theorem find_eq_update {changed : Rings} {number : Nat} {value : Option (Kind × KeyVersion)}
    (others : ∀ other, other ≠ name → changed.lookup other = rings.lookup other)
    (own : ∀ version, Rings.find changed (name, version) =
      if version = number then value else Rings.find rings (name, version)) :
    Rings.find changed = Function.update (Rings.find rings) (name, number) value := by
  funext place
  obtain ⟨other, version⟩ := place
  by_cases same : other = name
  · subst same
    rw [own]
    by_cases last : version = number
    · subst last
      rw [if_pos rfl, Function.update_self]
    · rw [if_neg last, Function.update_of_ne]
      intro both
      exact last (congrArg Prod.snd both)
  · rw [Function.update_of_ne fun both => same (congrArg Prod.fst both)]
    change (changed.lookup other).bind _ = (rings.lookup other).bind _
    rw [others other same]

theorem lookup_set_of_ne {other : KeyName} (different : other ≠ name) :
    (rings.set name key).lookup other = rings.lookup other := by
  rw [Go.MapOf.lookup_set, if_neg different]

theorem lookup_set_self : (rings.set name key).lookup name = some key := by
  rw [Go.MapOf.lookup_set, if_pos rfl]

theorem find_push (stored : rings.lookup name = some key) :
    Rings.find (rings.set name (key.push version)) =
      Function.update (Rings.find rings) (name, key.latest + 1) (some (key.kind, version)) := by
  apply find_eq_update fun other => lookup_set_of_ne
  intro number
  rw [find_of_lookup lookup_set_self, find_of_lookup stored, NamedKey.version_push]
  split_ifs
  · rfl
  · rfl

theorem find_created {kind : Kind} (absent : rings.lookup name = none) :
    Rings.find (rings.set name ⟨kind, [version], List.cons_ne_nil version []⟩) =
      Function.update (Rings.find rings) (name, 1) (some (kind, version)) := by
  apply find_eq_update fun other => lookup_set_of_ne
  intro number
  rw [find_of_lookup lookup_set_self, find_of_absent absent]
  split_ifs with first
  · rw [first]
    rfl
  · rw [Option.map_eq_none_iff, NamedKey.version_eq_none_iff]
    change number = 0 ∨ 1 < number
    omega

theorem find_popped (stored : rings.lookup name = some key) (several : 1 < key.latest) :
    Rings.find (rings.set name (key.pop several)) =
      Function.update (Rings.find rings) (name, key.latest) none := by
  apply find_eq_update fun other => lookup_set_of_ne
  intro number
  rw [find_of_lookup lookup_set_self, find_of_lookup stored, NamedKey.version_pop]
  split_ifs
  · rfl
  · rfl

theorem find_deleted (stored : rings.lookup name = some key) (only : key.latest = 1) :
    Rings.find (rings.delete name) = Function.update (Rings.find rings) (name, 1) none := by
  apply find_eq_update
  · intro other different
    rw [Go.MapOf.lookup_delete, if_neg different]
  · intro number
    have absent : (rings.delete name).lookup name = none := by
      rw [Go.MapOf.lookup_delete, if_pos rfl]
    rw [find_of_absent absent, find_of_lookup stored]
    split_ifs with first
    · rfl
    · rw [eq_comm, Option.map_eq_none_iff, NamedKey.version_eq_none_iff]
      omega

end Find

/-- How far a call has come with the version that it has made. -/
inductive Phase where
  | idle
  | owns (place : KeyName × Nat)
  | failed (place : KeyName × Nat)

/-- The version that a call still has to have saved or to take back. -/
def Phase.owned : Phase → Option (KeyName × Nat)
  | .idle => none
  | .owns place => some place
  | .failed place => some place

/-- A call makes one version, asks for one checkpoint, and takes the version
back when the checkpoint fails. -/
def discipline : Interaction.Discipline Op Answer Phase where
  fresh := .idle
  allows phase op :=
    match phase, op with
    | .idle, .create _ _ => True
    | .idle, .rotate _ => True
    | .owns place, .kind name => name = place.1
    | .owns _, .checkpoint => True
    | .failed place, .discardKey name => place = (name, 1)
    | .failed place, .discardVersion name version => place = (name, version) ∧ 1 < version
    | _, _ => False
  advance phase op answer :=
    match phase, op, answer with
    | _, .create name _, .ok () => .owns (name, 1)
    | _, .rotate name, .ok version => .owns (name, version)
    | _, .kind _, .error _ => .idle
    | _, .checkpoint, .ok () => .idle
    | .owns place, .checkpoint, .error _ => .failed place
    | _, .discardKey _, _ => .idle
    | _, .discardVersion _ _, _ => .idle
    | phase, _, _ => phase

/-- The version that a rollback is to take back. -/
def Op.rollback : Op → Option (KeyName × Nat)
  | .discardKey name => some (name, 1)
  | .discardVersion name version => some (name, version)
  | _ => none

theorem rotate_eq_ok {rings changed : Rings} {name : KeyName} {fate : Fate} {number : Nat}
    (rotated : rotate rings name fate = .ok (changed, number)) :
    ∃ key version, rings.lookup name = some key ∧ number = key.latest + 1 ∧
      changed = rings.set name (key.push version) := by
  unfold rotate at rotated
  cases stored : rings.lookup name with
  | none =>
      rw [stored] at rotated
      cases rotated
  | some key =>
      simp only [stored, Result.bind_eq_ok] at rotated
      obtain ⟨factID, -, material, -, returned⟩ := rotated
      cases returned
      refine ⟨key, ⟨material, factID⟩, rfl, ?_, rfl⟩
      change (key.versions ++ [_]).length = key.versions.length + 1
      simp

theorem createKey_eq_ok {rings changed : Rings} {name : KeyName} {kind : Bytes} {fate : Fate}
    (created : createKey rings name kind fate = .ok changed) :
    rings.lookup name = none ∧ ∃ known version,
      changed = rings.set name ⟨known, [version], List.cons_ne_nil version []⟩ := by
  unfold createKey at created
  cases stored : rings.lookup name with
  | some key =>
      rw [stored] at created
      cases created
  | none =>
      simp only [stored, Result.bind_eq_ok] at created
      obtain ⟨factID, -, created⟩ := created
      cases known : kindOf kind with
      | none =>
          rw [known] at created
          cases created
      | some found =>
          simp only [known, Result.bind_eq_ok] at created
          obtain ⟨material, -, returned⟩ := created
          cases returned
          exact ⟨rfl, found, _, rfl⟩

theorem one_lt_of_rotated {memory : Memory} {name : KeyName} {fate : Fate} {number : Nat}
    (answered : environment.answer memory (.rotate name) fate = .ok number) :
    1 < number := by
  change (rotate memory.rings name fate).map Prod.snd = .ok number at answered
  cases rotated : rotate memory.rings name fate with
  | error error =>
      rw [rotated] at answered
      cases answered
  | ok result =>
      rw [rotated] at answered
      cases answered
      obtain ⟨key, version, _, number_eq, _⟩ := rotate_eq_ok rotated
      have positive := key.latest_pos
      omega

theorem obeys_rotate (name : KeyName) :
    Obeys environment discipline .idle (Service.rotate name) := by
  refine ⟨trivial, ?_⟩
  intro memory fate
  have later := fun number => @one_lt_of_rotated memory name fate number
  generalize environment.answer memory (.rotate name) fate = answer at later ⊢
  cases answer with
  | error error => exact trivial
  | ok number =>
      refine ⟨rfl, ?_⟩
      intro memory fate
      generalize environment.answer memory (.kind name) fate = answer
      cases answer with
      | error error => exact trivial
      | ok kind =>
          refine ⟨trivial, ?_⟩
          intro memory fate
          generalize environment.answer memory .checkpoint fate = answer
          cases answer with
          | error cause => exact ⟨⟨rfl, later number rfl⟩, fun _ _ => trivial⟩
          | ok saved => exact trivial

theorem obeys_createKey (name : KeyName) (kind : Bytes) :
    Obeys environment discipline .idle (Service.createKey name kind) := by
  refine ⟨trivial, ?_⟩
  intro memory fate
  generalize environment.answer memory (.create name kind) fate = answer
  cases answer with
  | error error => exact trivial
  | ok created =>
      refine ⟨trivial, ?_⟩
      intro memory fate
      generalize environment.answer memory .checkpoint fate = answer
      cases answer with
      | error cause => exact ⟨rfl, fun _ _ => trivial⟩
      | ok saved => exact trivial

/-- A call that has returned has nothing to be saved or taken back. -/
def Phase.Closed (phase : Phase) : Prop :=
  phase.owned = none

theorem endsIn_createKey (name : KeyName) (kind : Bytes) :
    Interaction.EndsIn environment discipline Phase.Closed .idle
      (Service.createKey name kind) := by
  intro memory fate
  generalize environment.answer memory (.create name kind) fate = answer
  cases answer with
  | error error => exact rfl
  | ok created =>
      intro memory fate
      generalize environment.answer memory .checkpoint fate = answer
      cases answer with
      | error cause => exact fun _ _ => rfl
      | ok saved => exact rfl

theorem endsIn_rotate (name : KeyName) :
    Interaction.EndsIn environment discipline Phase.Closed .idle (Service.rotate name) := by
  intro memory fate
  generalize environment.answer memory (.rotate name) fate = answer
  cases answer with
  | error error => exact rfl
  | ok version =>
      intro memory fate
      generalize environment.answer memory (.kind name) fate = answer
      cases answer with
      | error error => exact rfl
      | ok kind =>
          intro memory fate
          generalize environment.answer memory .checkpoint fate = answer
          cases answer with
          | error cause => exact fun _ _ => rfl
          | ok saved => exact rfl

/-- A step that writes the whole state. -/
def Saves (op : Op) (fate : Fate) : Prop :=
  op = .checkpoint ∧ fate.failure = none

/-- A rollback that leaves its version in the ring, since another is the latest. -/
def Skips (memory : Memory) (op : Op) (place : KeyName × Nat) : Prop :=
  op.rollback = some place ∧
    ∃ key, memory.rings.lookup place.1 = some key ∧ key.latest ≠ place.2

/-- The effects that a step of a call can have. -/
inductive Effect (memory : Memory) (op : Op) (fate : Fate) (phase : Phase)
    (after : Memory) (next : Phase) : Prop where
  | quiet
      (silent : ¬ Saves op fate)
      (acts : ∀ place, ¬ Skips memory op place)
      (rings_eq : after.rings.find = memory.rings.find)
      (saved_eq : after.saved = memory.saved)
      (owned_eq : next.owned = phase.owned)
  | claim
      (place : KeyName × Nat)
      (value : Kind × KeyVersion)
      (silent : ¬ Saves op fate)
      (acts : ∀ place, ¬ Skips memory op place)
      (free : phase.owned = none)
      (absent : memory.rings.find place = none)
      (rings_eq : after.rings.find = Function.update memory.rings.find place (some value))
      (saved_eq : after.saved = memory.saved)
      (owned_eq : next.owned = some place)
  | save
      (saves : Saves op fate)
      (acts : ∀ place, ¬ Skips memory op place)
      (rings_eq : after.rings = memory.rings)
      (saved_eq : after.saved = memory.rings)
      (closed : next.owned = none)
  | discard
      (place : KeyName × Nat)
      (silent : ¬ Saves op fate)
      (acts : ∀ place, ¬ Skips memory op place)
      (owner : phase.owned = some place)
      (rings_eq : after.rings.find = Function.update memory.rings.find place none)
      (saved_eq : after.saved = memory.saved)
      (closed : next.owned = none)
  | skip
      (place : KeyName × Nat)
      (silent : ¬ Saves op fate)
      (skips : Skips memory op place)
      (owner : phase.owned = some place)
      (after_eq : after = memory)
      (closed : next.owned = none)

section Effects

variable {memory : Memory} {fate : Fate} {phase : Phase} {name : KeyName}

theorem effect_create (kind : Bytes) :
    Effect memory (.create name kind) fate .idle
      (environment.after memory (.create name kind) fate)
      (discipline.advance .idle (.create name kind)
        (environment.answer memory (.create name kind) fate)) := by
  have silent : ¬ Saves (.create name kind) fate := fun saves => by cases saves.1
  have acts : ∀ place, ¬ Skips memory (.create name kind) place :=
    fun place skips => by cases skips.1
  dsimp only [environment]
  cases created : createKey memory.rings name kind fate with
  | error error => exact .quiet silent acts rfl rfl rfl
  | ok changed =>
      obtain ⟨absent, known, version, rfl⟩ := createKey_eq_ok created
      exact .claim (name, 1) (known, version) silent acts rfl (find_of_absent absent 1)
        (find_created absent) rfl rfl

theorem effect_rotate :
    Effect memory (.rotate name) fate .idle
      (environment.after memory (.rotate name) fate)
      (discipline.advance .idle (.rotate name)
        (environment.answer memory (.rotate name) fate)) := by
  have silent : ¬ Saves (.rotate name) fate := fun saves => by cases saves.1
  have acts : ∀ place, ¬ Skips memory (.rotate name) place :=
    fun place skips => by cases skips.1
  dsimp only [environment]
  cases rotated : rotate memory.rings name fate with
  | error error => exact .quiet silent acts rfl rfl rfl
  | ok result =>
      obtain ⟨changed, number⟩ := result
      obtain ⟨key, version, stored, rfl, rfl⟩ := rotate_eq_ok rotated
      refine .claim (name, key.latest + 1) (key.kind, version) silent acts rfl ?_
        (find_push stored) rfl rfl
      rw [find_of_lookup stored, Option.map_eq_none_iff, NamedKey.version_eq_none_iff]
      omega

theorem effect_kind {number : Nat} (held : memory.rings.find (name, number) ≠ none) :
    Effect memory (.kind name) fate (.owns (name, number))
      (environment.after memory (.kind name) fate)
      (discipline.advance (.owns (name, number)) (.kind name)
        (environment.answer memory (.kind name) fate)) := by
  have silent : ¬ Saves (.kind name) fate := fun saves => by cases saves.1
  have acts : ∀ place, ¬ Skips memory (.kind name) place :=
    fun place skips => by cases skips.1
  dsimp only [environment, kind]
  cases stored : memory.rings.lookup name with
  | none => exact absurd (find_of_absent stored number) held
  | some key => exact .quiet silent acts rfl rfl rfl

theorem effect_checkpoint (place : KeyName × Nat) :
    Effect memory .checkpoint fate (.owns place)
      (environment.after memory .checkpoint fate)
      (discipline.advance (.owns place) .checkpoint
        (environment.answer memory .checkpoint fate)) := by
  have acts : ∀ place, ¬ Skips memory .checkpoint place := fun place skips => by cases skips.1
  dsimp only [environment]
  cases failure : fate.failure with
  | none => exact .save ⟨rfl, failure⟩ acts rfl rfl rfl
  | some cause =>
      refine .quiet ?_ acts rfl rfl rfl
      rintro ⟨_, succeeds⟩
      rw [failure] at succeeds
      cases succeeds

theorem not_skips_of_latest {op : Op} {key : NamedKey} (place : KeyName × Nat)
    (stored : memory.rings.lookup place.1 = some key) (last : key.latest = place.2)
    (rollback : op.rollback = some place) (other : KeyName × Nat) :
    ¬ Skips memory op other := by
  rintro ⟨rollback_eq, otherKey, otherStored, different⟩
  rw [rollback] at rollback_eq
  cases rollback_eq
  rw [stored] at otherStored
  cases otherStored
  exact different last

theorem effect_discardKey (held : memory.rings.find (name, 1) ≠ none) :
    Effect memory (.discardKey name) fate (.failed (name, 1))
      (environment.after memory (.discardKey name) fate)
      (discipline.advance (.failed (name, 1)) (.discardKey name)
        (environment.answer memory (.discardKey name) fate)) := by
  have silent : ¬ Saves (.discardKey name) fate := fun saves => by cases saves.1
  cases stored : memory.rings.lookup name with
  | none => exact absurd (find_of_absent stored 1) held
  | some key =>
      dsimp only [environment, discardUnpersistedKey]
      rw [stored]
      dsimp only
      split_ifs with later
      · exact .skip (name, 1) silent ⟨rfl, key, stored, later⟩ rfl rfl rfl
      · have only := not_not.mp later
        exact .discard (name, 1) silent
          (not_skips_of_latest (name, 1) stored only rfl) rfl (find_deleted stored only)
          rfl rfl

theorem effect_discardVersion {version : Nat} (held : memory.rings.find (name, version) ≠ none)
    (rotated : 1 < version) :
    Effect memory (.discardVersion name version) fate (.failed (name, version))
      (environment.after memory (.discardVersion name version) fate)
      (discipline.advance (.failed (name, version)) (.discardVersion name version)
        (environment.answer memory (.discardVersion name version) fate)) := by
  have silent : ¬ Saves (.discardVersion name version) fate := fun saves => by cases saves.1
  cases stored : memory.rings.lookup name with
  | none => exact absurd (find_of_absent stored version) held
  | some key =>
      dsimp only [environment, discardUnpersistedVersion]
      rw [stored]
      dsimp only
      split_ifs with later
      · have different : key.latest ≠ version := by omega
        exact .skip (name, version) silent ⟨rfl, key, stored, different⟩ rfl rfl rfl
      · have last : key.latest = version := by omega
        subst last
        exact .discard (name, key.latest) silent
          (not_skips_of_latest (name, key.latest) stored rfl rfl) rfl
          (find_popped stored rotated) rfl rfl

/-- Every step of a call has one of the effects. -/
theorem effect_of_allows {op : Op}
    (held : ∀ place, phase.owned = some place → memory.rings.find place ≠ none)
    (allowed : discipline.allows phase op) :
    Effect memory op fate phase (environment.after memory op fate)
      (discipline.advance phase op (environment.answer memory op fate)) := by
  cases phase with
  | idle =>
      cases op with
      | create name kind => exact effect_create kind
      | rotate name => exact effect_rotate
      | kind name => exact allowed.elim
      | checkpoint => exact allowed.elim
      | discardKey name => exact allowed.elim
      | discardVersion name version => exact allowed.elim
  | owns place =>
      cases op with
      | create name kind => exact allowed.elim
      | rotate name => exact allowed.elim
      | kind name =>
          cases allowed
          exact effect_kind (held place rfl)
      | checkpoint => exact effect_checkpoint place
      | discardKey name => exact allowed.elim
      | discardVersion name version => exact allowed.elim
  | failed place =>
      cases op with
      | create name kind => exact allowed.elim
      | rotate name => exact allowed.elim
      | kind name => exact allowed.elim
      | checkpoint => exact allowed.elim
      | discardKey name =>
          cases allowed
          exact effect_discardKey (held (name, 1) rfl)
      | discardVersion name version =>
          obtain ⟨rfl, rotated⟩ := allowed
          exact effect_discardVersion (held (name, version) rfl) rotated

end Effects

end Trstctl.Transit
