import Trstctl.Transit.Steps

/-!
# Versions that outlive their failed checkpoint

Calls of `CreateKey` and `Rotate` in any interleaving of their steps.  A rollback
that finds a later version leaves its own in the ring and relies on the later
call.  When no call is under way, the versions in memory are all saved exactly
when every version left behind in that way was saved already or was saved by a
later checkpoint.
-/

namespace Trstctl.Transit

open Go (Bytes bytes)
open Interaction (Obeys Pool)

section Runs

variable {ι : Type} [DecidableEq ι] {memory after : Memory} {phases : ι → Phase} {caller : ι}
  {op : Op} {fate : Fate} {next : Phase}

/-- The versions that calls answer for are in memory, each with one call. -/
structure Owned (memory : Memory) (phases : ι → Phase) : Prop where
  held : ∀ caller place, (phases caller).owned = some place → memory.rings.find place ≠ none
  single : ∀ caller other place, (phases caller).owned = some place →
    (phases other).owned = some place → caller = other

/-- Every version in memory is saved, or some call still answers for it. -/
def Settled (memory : Memory) (phases : ι → Phase) : Prop :=
  ∀ place, memory.rings.find place ≠ none →
    memory.saved.find place = memory.rings.find place ∨
      ∃ caller, (phases caller).owned = some place

theorem owned_update (other : ι) (place : KeyName × Nat) :
    (Function.update phases caller next other).owned = some place ↔
      other = caller ∧ next.owned = some place ∨
        other ≠ caller ∧ (phases other).owned = some place := by
  by_cases same : other = caller
  · subst same
    simp
  · simp [same]

theorem owned_update_quiet (owned_eq : next.owned = (phases caller).owned) (other : ι) :
    (Function.update phases caller next other).owned = (phases other).owned := by
  by_cases same : other = caller
  · rw [same, Function.update_self, owned_eq]
  · rw [Function.update_of_ne same]

theorem owned_update_closed (closed : next.owned = none) (other : ι) (place : KeyName × Nat) :
    (Function.update phases caller next other).owned = some place ↔
      other ≠ caller ∧ (phases other).owned = some place := by
  rw [owned_update, closed]
  simp

theorem Owned.release (owned : Owned memory phases) (closed : next.owned = none)
    (kept : ∀ other place, other ≠ caller → (phases other).owned = some place →
      after.rings.find place = memory.rings.find place) :
    Owned after (Function.update phases caller next) := by
  constructor
  · intro other place owns
    obtain ⟨different, earlier⟩ := (owned_update_closed closed other place).mp owns
    rw [kept other place different earlier]
    exact owned.held other place earlier
  · intro first second place ownsFirst ownsSecond
    have earlierFirst := (owned_update_closed closed first place).mp ownsFirst
    have earlierSecond := (owned_update_closed closed second place).mp ownsSecond
    exact owned.single first second place earlierFirst.2 earlierSecond.2

theorem Owned.claim {place : KeyName × Nat} {value : Kind × KeyVersion}
    (owned : Owned memory phases) (absent : memory.rings.find place = none)
    (rings_eq : after.rings.find = Function.update memory.rings.find place (some value))
    (owned_eq : next.owned = some place) :
    Owned after (Function.update phases caller next) := by
  have others : ∀ other held, (phases other).owned = some held → held ≠ place := by
    rintro other held owns rfl
    exact owned.held other held owns absent
  constructor
  · intro other held owns
    rw [rings_eq]
    rcases (owned_update other held).mp owns with ⟨_, mine⟩ | ⟨_, earlier⟩
    · rw [owned_eq] at mine
      cases mine
      rw [Function.update_self]
      exact Option.some_ne_none value
    · rw [Function.update_of_ne (others other held earlier)]
      exact owned.held other held earlier
  · intro first second held ownsFirst ownsSecond
    rcases (owned_update first held).mp ownsFirst with ⟨firstIs, mine⟩ | ⟨_, earlierFirst⟩ <;>
      rcases (owned_update second held).mp ownsSecond with ⟨secondIs, its⟩ | ⟨_, earlierSecond⟩
    · rw [firstIs, secondIs]
    · rw [owned_eq] at mine
      cases mine
      exact absurd rfl (others second place earlierSecond)
    · rw [owned_eq] at its
      cases its
      exact absurd rfl (others first place earlierFirst)
    · exact owned.single first second held earlierFirst earlierSecond

theorem Owned.step (owned : Owned memory phases)
    (effect : Effect memory op fate (phases caller) after next) :
    Owned after (Function.update phases caller next) := by
  cases effect with
  | quiet silent acts rings_eq saved_eq owned_eq =>
      constructor
      · intro other place owns
        rw [owned_update_quiet owned_eq] at owns
        rw [rings_eq]
        exact owned.held other place owns
      · intro first second place ownsFirst ownsSecond
        rw [owned_update_quiet owned_eq] at ownsFirst ownsSecond
        exact owned.single first second place ownsFirst ownsSecond
  | claim place value silent acts free absent rings_eq saved_eq owned_eq =>
      exact owned.claim absent rings_eq owned_eq
  | save saves acts rings_eq saved_eq closed =>
      exact owned.release closed fun other place different owns => by rw [rings_eq]
  | discard place silent acts owner rings_eq saved_eq closed =>
      apply owned.release closed
      intro other held different owns
      rw [rings_eq, Function.update_of_ne]
      rintro rfl
      exact different (owned.single other caller held owns owner)
  | skip place silent skips owner after_eq closed =>
      exact owned.release closed fun other place different owns => by rw [after_eq]

section Settling

variable {place : KeyName × Nat}

theorem settled_claim {value : Kind × KeyVersion} (free : (phases caller).owned = none)
    (absent : memory.rings.find place = none)
    (rings_eq : after.rings.find = Function.update memory.rings.find place (some value))
    (saved_eq : after.saved = memory.saved) (owned_eq : next.owned = some place) :
    Settled after (Function.update phases caller next) ↔ Settled memory phases := by
  constructor
  · intro settled held holds
    have different : held ≠ place := by
      rintro rfl
      exact holds absent
    have later := settled held
    rw [rings_eq, Function.update_of_ne different, saved_eq] at later
    refine (later holds).imp_right ?_
    rintro ⟨other, owns⟩
    rcases (owned_update other held).mp owns with ⟨_, mine⟩ | ⟨_, earlier⟩
    · rw [owned_eq] at mine
      cases mine
      exact absurd rfl different
    · exact ⟨other, earlier⟩
  · intro settled held holds
    by_cases same : held = place
    · exact .inr ⟨caller, by rw [Function.update_self, owned_eq, same]⟩
    · rw [rings_eq, Function.update_of_ne same] at holds ⊢
      rw [saved_eq]
      refine (settled held holds).imp_right ?_
      rintro ⟨other, owns⟩
      refine ⟨other, (owned_update other held).mpr (.inr ⟨?_, owns⟩)⟩
      rintro rfl
      rw [free] at owns
      cases owns

theorem settled_discard (owner : (phases caller).owned = some place)
    (rings_eq : after.rings.find = Function.update memory.rings.find place none)
    (saved_eq : after.saved = memory.saved) (closed : next.owned = none) :
    Settled after (Function.update phases caller next) ↔ Settled memory phases := by
  constructor
  · intro settled held holds
    by_cases same : held = place
    · exact .inr ⟨caller, by rw [owner, same]⟩
    · have later := settled held
      rw [rings_eq, Function.update_of_ne same, saved_eq] at later
      refine (later holds).imp_right ?_
      rintro ⟨other, owns⟩
      exact ⟨other, ((owned_update_closed closed other held).mp owns).2⟩
  · intro settled held holds
    have different : held ≠ place := by
      rintro rfl
      rw [rings_eq, Function.update_self] at holds
      exact holds rfl
    rw [rings_eq, Function.update_of_ne different] at holds ⊢
    rw [saved_eq]
    refine (settled held holds).imp_right ?_
    rintro ⟨other, owns⟩
    refine ⟨other, (owned_update_closed closed other held).mpr ⟨?_, owns⟩⟩
    rintro rfl
    rw [owner] at owns
    cases owns
    exact different rfl

theorem settled_skip (owned : Owned memory phases) (owner : (phases caller).owned = some place)
    (closed : next.owned = none) :
    Settled memory (Function.update phases caller next) ↔
      Settled memory phases ∧ memory.saved.find place = memory.rings.find place := by
  constructor
  · intro settled
    constructor
    · intro held holds
      refine (settled held holds).imp_right ?_
      rintro ⟨other, owns⟩
      exact ⟨other, ((owned_update_closed closed other held).mp owns).2⟩
    · rcases settled place (owned.held caller place owner) with saved | ⟨other, owns⟩
      · exact saved
      · obtain ⟨different, earlier⟩ := (owned_update_closed closed other place).mp owns
        exact absurd (owned.single other caller place earlier owner) different
  · rintro ⟨settled, saved⟩ held holds
    rcases settled held holds with kept | ⟨other, owns⟩
    · exact .inl kept
    · by_cases same : other = caller
      · rw [same, owner] at owns
        cases owns
        exact .inl saved
      · exact .inr ⟨other, (owned_update_closed closed other held).mpr ⟨same, owns⟩⟩

end Settling

/-- A step settles everything by a save.  Otherwise it unsettles only the version
that a skipped rollback leaves behind unsaved. -/
theorem settled_step (owned : Owned memory phases)
    (effect : Effect memory op fate (phases caller) after next) :
    Settled after (Function.update phases caller next) ↔
      Saves op fate ∨ Settled memory phases ∧ ∀ place, Skips memory op place →
        memory.saved.find place = memory.rings.find place := by
  cases effect with
  | quiet silent acts rings_eq saved_eq owned_eq =>
      have same : Settled after (Function.update phases caller next) ↔
          Settled memory phases := by
        unfold Settled
        simp only [owned_update_quiet owned_eq, rings_eq, saved_eq]
      rw [same, or_iff_right silent, and_iff_left fun place skips => absurd skips (acts place)]
  | claim place value silent acts free absent rings_eq saved_eq owned_eq =>
      rw [settled_claim free absent rings_eq saved_eq owned_eq, or_iff_right silent,
        and_iff_left fun place skips => absurd skips (acts place)]
  | save saves acts rings_eq saved_eq closed =>
      simp only [saves, true_or, iff_true]
      intro place holds
      rw [rings_eq, saved_eq]
      exact .inl rfl
  | discard place silent acts owner rings_eq saved_eq closed =>
      rw [settled_discard owner rings_eq saved_eq closed, or_iff_right silent,
        and_iff_left fun place skips => absurd skips (acts place)]
  | skip place silent skips owner after_eq closed =>
      subst after_eq
      rw [settled_skip owned owner closed, or_iff_right silent]
      apply and_congr_right
      intro _
      constructor
      · intro saved skipped skipsIt
        have same : skipped = place := Option.some.inj (skipsIt.1.symm.trans skips.1)
        rw [same]
        exact saved
      · exact fun saved => saved place skips

/-- Calls that share the keyrings. -/
abbrev Calls (ι : Type) := Pool Op Answer (Except TransitError KeyInfo) Memory Phase ι

/-- Calls that nobody has begun, over a restored checkpoint. -/
def service (saved : Rings) (calls : ι → Call) : Calls ι :=
  Pool.start discipline (restored saved) fun caller => (calls caller).method

/-- A turn in which a checkpoint succeeds. -/
def TurnSaves (pool : Calls ι) (turn : ι × Fate) : Prop :=
  ∃ op next, pool.remaining turn.1 = .ask op next ∧ Saves op turn.2

/-- A turn in which a rollback leaves its version behind. -/
def TurnSkips (pool : Calls ι) (turn : ι × Fate) (place : KeyName × Nat) : Prop :=
  ∃ op next, pool.remaining turn.1 = .ask op next ∧ Skips pool.state op place

/-- Some checkpoint of a schedule succeeds. -/
def SavesIn (pool : Calls ι) : List (ι × Fate) → Prop
  | [] => False
  | turn :: rest =>
      TurnSaves pool turn ∨ SavesIn (pool.step environment discipline turn) rest

/-- Every version that a rollback leaves behind is saved by then, or some later
checkpoint succeeds. -/
def DeferralsSaved (pool : Calls ι) : List (ι × Fate) → Prop
  | [] => True
  | turn :: rest =>
      (∀ place, TurnSkips pool turn place →
        pool.state.saved.find place = pool.state.rings.find place ∨
          SavesIn (pool.step environment discipline turn) rest) ∧
      DeferralsSaved (pool.step environment discipline turn) rest

/-- No call is under way. -/
def Quiet (calls : ι → Call) (pool : Calls ι) : Prop :=
  ∀ caller, (∃ result, pool.remaining caller = .done result) ∨
    pool.remaining caller = (calls caller).method

/-- Every version of every key in memory is in the last successful checkpoint. -/
def Durable (memory : Memory) : Prop :=
  ∀ place, memory.rings.find place ≠ none →
    memory.saved.find place = memory.rings.find place

variable {pool : Calls ι}

theorem owned_turn (sound : pool.Sound environment discipline Owned) (turn : ι × Fate) :
    (pool.step environment discipline turn).Sound environment discipline Owned := by
  apply sound.step
  intro op next remaining allowed
  exact sound.holds.step (effect_of_allows (sound.holds.held turn.1) allowed)

theorem settled_turn (sound : pool.Sound environment discipline Owned) (turn : ι × Fate) :
    Settled (pool.step environment discipline turn).state
        (pool.step environment discipline turn).memory ↔
      TurnSaves pool turn ∨ Settled pool.state pool.memory ∧ ∀ place, TurnSkips pool turn place →
        pool.state.saved.find place = pool.state.rings.find place := by
  unfold Pool.step TurnSaves TurnSkips
  cases remaining : pool.remaining turn.1 with
  | done result => simp
  | ask op next =>
      have obeys := sound.obeys turn.1
      rw [remaining] at obeys
      have effect : Effect pool.state op turn.2 (pool.memory turn.1) _ _ :=
        effect_of_allows (sound.holds.held turn.1) obeys.1
      dsimp only
      rw [settled_step sound.holds effect]
      simp only [Interaction.ask.injEq]
      constructor
      · rintro (saves | ⟨settled, saved⟩)
        · exact .inl ⟨op, next, ⟨rfl, HEq.rfl⟩, saves⟩
        · refine .inr ⟨settled, ?_⟩
          rintro place ⟨other, otherNext, ⟨rfl, _⟩, skips⟩
          exact saved place skips
      · rintro (⟨other, otherNext, ⟨rfl, _⟩, saves⟩ | ⟨settled, saved⟩)
        · exact .inl saves
        · exact .inr ⟨settled, fun place skips => saved place ⟨op, next, ⟨rfl, HEq.rfl⟩, skips⟩⟩

omit [DecidableEq ι] in
theorem not_turnSkips_of_turnSaves {turn : ι × Fate} (saves : TurnSaves pool turn)
    (place : KeyName × Nat) :
    ¬ TurnSkips pool turn place := by
  rintro ⟨op, next, remaining, rollback, _⟩
  obtain ⟨other, otherNext, otherRemaining, rfl, _⟩ := saves
  rw [otherRemaining] at remaining
  cases remaining
  cases rollback

theorem savesIn_cons (turn : ι × Fate) (rest : List (ι × Fate)) :
    SavesIn pool (turn :: rest) ↔
      TurnSaves pool turn ∨ SavesIn (pool.step environment discipline turn) rest :=
  Iff.rfl

theorem deferralsSaved_cons (turn : ι × Fate) (rest : List (ι × Fate)) :
    DeferralsSaved pool (turn :: rest) ↔
      (∀ place, TurnSkips pool turn place →
        pool.state.saved.find place = pool.state.rings.find place ∨
          SavesIn (pool.step environment discipline turn) rest) ∧
      DeferralsSaved (pool.step environment discipline turn) rest :=
  Iff.rfl

theorem settled_run (sound : pool.Sound environment discipline Owned) (schedule : List (ι × Fate)) :
    Settled (pool.run environment discipline schedule).state
        (pool.run environment discipline schedule).memory ↔
      (SavesIn pool schedule ∨ Settled pool.state pool.memory) ∧ DeferralsSaved pool schedule := by
  induction schedule generalizing pool with
  | nil => simp [Pool.run, SavesIn, DeferralsSaved]
  | cons turn rest ih =>
      have later := ih (owned_turn sound turn)
      rw [settled_turn sound turn] at later
      refine later.trans ?_
      rw [savesIn_cons, deferralsSaved_cons]
      by_cases savesLater : SavesIn (pool.step environment discipline turn) rest
      · simp [savesLater]
      · simp only [savesLater, or_false, false_or]
        by_cases saves : TurnSaves pool turn
        · simp [saves, not_turnSkips_of_turnSaves saves]
        · simp only [saves, false_or]
          rw [and_assoc]

omit [DecidableEq ι] in
theorem sound_service (saved : Rings) (calls : ι → Call) :
    (service saved calls).Sound environment discipline Owned := by
  constructor
  · intro caller
    change Obeys environment discipline .idle (calls caller).method
    cases calls caller with
    | createKey name kind => exact obeys_createKey name kind
    | rotate name => exact obeys_rotate name
  · constructor
    · intro caller place owns
      cases owns
    · intro caller other place owns
      cases owns

theorem sound_run (sound : pool.Sound environment discipline Owned) (schedule : List (ι × Fate)) :
    (pool.run environment discipline schedule).Sound environment discipline Owned := by
  induction schedule generalizing pool with
  | nil => exact sound
  | cons turn rest ih => exact ih (owned_turn sound turn)

theorem owned_eq_none_of_quiet {saved : Rings} {calls : ι → Call} {schedule : List (ι × Fate)}
    (quiet : Quiet calls ((service saved calls).run environment discipline schedule)) (caller : ι) :
    (((service saved calls).run environment discipline schedule).memory caller).owned = none := by
  have starts : ∀ other, Interaction.EndsIn environment discipline Phase.Closed
      ((service saved calls).memory other) ((service saved calls).remaining other) := by
    intro other
    change Interaction.EndsIn environment discipline Phase.Closed .idle (calls other).method
    cases calls other with
    | createKey name kind => exact endsIn_createKey name kind
    | rotate name => exact endsIn_rotate name
  rcases quiet caller with ⟨result, returned⟩ | unbegun
  · have ends := Pool.endsIn_run starts schedule caller
    rw [returned] at ends
    exact ends
  · have obeys := (sound_run (sound_service saved calls) schedule).obeys caller
    rw [unbegun] at obeys
    generalize ((service saved calls).run environment discipline schedule).memory caller = phase
      at obeys
    cases phase with
    | idle => rfl
    | owns place =>
        cases call : calls caller <;>
          · rw [call] at obeys
            exact obeys.1.elim
    | failed place =>
        cases call : calls caller <;>
          · rw [call] at obeys
            exact obeys.1.elim

/-- Where no call is under way, everything in memory is saved exactly when every
version left behind is. -/
theorem durable_iff_deferralsSaved
    (saved : Rings)
    (calls : ι → Call)
    (schedule : List (ι × Fate))
    (quiet : Quiet calls ((service saved calls).run environment discipline schedule)) :
    Durable ((service saved calls).run environment discipline schedule).state ↔
      DeferralsSaved (service saved calls) schedule := by
  have start : Settled (service saved calls).state (service saved calls).memory :=
    fun place holds => .inl rfl
  have settled := settled_run (sound_service saved calls) schedule
  simp only [start, or_true, true_and] at settled
  rw [← settled]
  constructor
  · intro durable place holds
    exact .inl (durable place holds)
  · intro settled place holds
    rcases settled place holds with kept | ⟨caller, owns⟩
    · exact kept
    · rw [owned_eq_none_of_quiet quiet caller] at owns
      cases owns

end Runs

/-- A key of one tenant. -/
def sampleName : KeyName :=
  (bytes "t1", bytes "orders")

/-- A checkpoint with the first version of that key. -/
def sampleSaved : Rings :=
  [(sampleName, ⟨.aead, [⟨[1], []⟩], List.cons_ne_nil _ _⟩)]

def twoRotations : Bool → Call := fun _ => .rotate sampleName

/-- Both callers rotate before either asks for its checkpoint. -/
def together (second : Option Bytes) : List (Bool × Fate) :=
  [(true, ⟨.ok [], .ok [2], none⟩), (false, ⟨.ok [], .ok [3], none⟩),
    (true, {}), (true, { failure := some [] }), (true, {}),
    (false, {}), (false, { failure := second }), (false, {})]

theorem quiet_together (second : Option Bytes) :
    Quiet twoRotations
      ((service sampleSaved twoRotations).run environment discipline (together second)) := by
  intro caller
  cases second with
  | none =>
      cases caller with
      | true => exact .inl ⟨_, rfl⟩
      | false => exact .inl ⟨_, rfl⟩
  | some cause =>
      cases caller with
      | true => exact .inl ⟨_, rfl⟩
      | false => exact .inl ⟨_, rfl⟩

/-- The second checkpoint saves the version that the first caller left behind. -/
theorem durable_iff_deferralsSaved_together :
    Durable ((service sampleSaved twoRotations).run environment discipline
      (together none)).state ↔
      DeferralsSaved (service sampleSaved twoRotations) (together none) :=
  durable_iff_deferralsSaved sampleSaved twoRotations (together none) (quiet_together none)

/-- Both checkpoints fail, and the first caller's version stays. -/
theorem version_outlives_failed_checkpoint :
    ¬ ∀ (saved : Rings) (calls : Bool → Call) (schedule : List (Bool × Fate)),
      Quiet calls ((service saved calls).run environment discipline schedule) →
      Durable ((service saved calls).run environment discipline schedule).state := by
  intro durable
  have kept := durable sampleSaved twoRotations (together (some [])) (quiet_together (some []))
  have held : Rings.find ((service sampleSaved twoRotations).run environment discipline
      (together (some []))).state.rings (sampleName, 2) = some (.aead, ⟨[2], []⟩) := by
    decide +kernel
  have unsaved : Rings.find ((service sampleSaved twoRotations).run environment discipline
      (together (some []))).state.saved (sampleName, 2) = none := by
    decide +kernel
  have same := kept (sampleName, 2) (by rw [held]; exact Option.some_ne_none _)
  rw [held, unsaved] at same
  cases same

end Trstctl.Transit
