import Trstctl.Library.Wildcard
import Trstctl.Cloudentitlements.Awspolicy.Match

/-!
# The wildcard matcher of AWS policies

`evaluation.glob` keeps only its last star.  The loop compares a rune of the
pattern with the value before it asks whether that rune is a star, so a star
of the pattern that meets the rune `*` in the value takes that rune alone and
is forgotten.  A call in which no star meets that rune decides exactly whether
the pattern matches, and every value with the rune has a pattern on which the
call is wrong.
-/

namespace Trstctl.Cloudentitlements.Awspolicy

open Go (Bytes bytes Rune runes)
open Truth Wildcard

/-- A rune of a pattern. -/
def token (rune : Rune) : Token Rune :=
  if rune = starRune then .star else if rune = anyRune then .any else .literal rune

/-- The tokens of a pattern. -/
def tokens (pattern : List Rune) : List (Token Rune) :=
  pattern.map token

/-- The pattern matches the value, both as they are compared. -/
def GlobMatches (fold : Bool) (pattern value : Bytes) : Prop :=
  Matches (tokens (runes (folded fold pattern))) (runes (folded fold value))

/-- A call of the matcher is exact: where the pattern has no policy variable
and the budget lasts, it answers yes on a match and no otherwise. -/
def GlobExact (fold : Bool) (pattern value : Bytes) (state : State) : Prop :=
  Go.contains pattern [0x24, 0x7B] = false →
  ((glob pattern value fold).run state).2.exhausted = false →
    (((glob pattern value fold).run state).1 = yes ↔ GlobMatches fold pattern value) ∧
    (((glob pattern value fold).run state).1 = no ↔ ¬ GlobMatches fold pattern value)

/-- Within these steps no star of the pattern is held against the rune `*` of
the value.  The cursors are those of `globLoop`. -/
def starsApart : Nat → List Rune → List Rune → Option (List Rune × List Rune) → Bool
  | _, _, [], _ => true
  | 0, _, _ :: _, _ => true
  | steps + 1, pattern, rune :: rest, star =>
      let backtrack :=
        match star with
        | some (afterStar, marked) =>
            starsApart steps afterStar marked.tail (some (afterStar, marked.tail))
        | none => true
      match pattern with
      | first :: later =>
          if first = starRune ∧ rune = starRune then false
          else if first = anyRune ∨ first = rune then starsApart steps later rest star
          else if first = starRune then
            starsApart steps later (rune :: rest) (some (later, rune :: rest))
          else backtrack
      | [] => backtrack

variable {rune : Rune}

theorem token_eq_star_iff : token rune = .star ↔ rune = starRune := by
  unfold token
  split <;> rename_i star
  · simp [star]
  · split <;> simp [star]

theorem token_takes_iff {first : Rune} (fixed : first ≠ starRune) :
    (token first).Takes rune ↔ first = anyRune ∨ first = rune := by
  unfold token
  rw [if_neg fixed]
  by_cases any : first = anyRune
  · simp [any, Token.Takes]
  · simp [any, Token.Takes]

variable {later : List Rune}

variable {rest : List Rune}

theorem matches_tokens_cons_iff {first : Rune} (fixed : first ≠ starRune) :
    Matches (tokens (first :: later)) (rune :: rest) ↔
      (first = anyRune ∨ first = rune) ∧ Matches (tokens later) rest := by
  have notStar : token first ≠ .star := fun star => fixed (token_eq_star_iff.mp star)
  simp only [tokens, List.map_cons, matches_cons_iff notStar, List.cons.injEq]
  constructor
  · rintro ⟨_, _, ⟨rfl, rfl⟩, takes, matched⟩
    exact ⟨(token_takes_iff fixed).mp takes, matched⟩
  · rintro ⟨takes, matched⟩
    exact ⟨rune, rest, ⟨rfl, rfl⟩, (token_takes_iff fixed).mpr takes, matched⟩

variable {value : List Rune}

theorem matches_tokens_star_iff :
    Matches (tokens (starRune :: later)) value ↔
      ∃ count, Matches (tokens later) (value.drop count) :=
  matches_star_iff

variable {pattern : List Rune}

theorem matches_tokens_nil_iff :
    Matches (tokens pattern) [] ↔ (pattern.all fun rune => rune == starRune) = true := by
  simp [tokens, matches_nil_right_iff, token_eq_star_iff]

/-- What the loop still has to decide: the rest of the value matches the rest
of the pattern, or the last star can take more. -/
def Pending (pattern value : List Rune) : Option (List Rune × List Rune) → Prop
  | none => Matches (tokens pattern) value
  | some (afterStar, marked) =>
      Matches (tokens pattern) value ∨
        ∃ count, Matches (tokens afterStar) (marked.drop (count + 1))

/-- Since the last star every rune of the pattern took one rune of the value. -/
def Aligned (pattern value : List Rune) : Option (List Rune × List Rune) → Prop
  | none => True
  | some (afterStar, marked) =>
      ∃ fixed consumed : List Rune,
        afterStar = fixed ++ pattern ∧ marked = consumed ++ value ∧
          fixed.length = consumed.length ∧ starRune ∉ fixed

theorem Aligned.matches_drop {afterStar marked : List Rune}
    (aligned : Aligned pattern value (some (afterStar, marked))) {count : Nat}
    (matched : Matches (tokens afterStar) (marked.drop count)) :
    Matches (tokens pattern) (value.drop count) := by
  obtain ⟨fixed, consumed, rfl, rfl, lengths, noStar⟩ := aligned
  rw [tokens, List.map_append] at matched
  refine matches_drop_of_fixed (by simpa using lengths) ?_ matched
  intro token member star
  obtain ⟨rune, runeMember, rfl⟩ := List.mem_map.mp member
  exact noStar (token_eq_star_iff.mp star ▸ runeMember)

variable {star : Option (List Rune × List Rune)}

theorem Aligned.take {first : Rune}
    (aligned : Aligned (first :: later) (rune :: rest) star) (fixed : first ≠ starRune) :
    Aligned later rest star := by
  cases star with
  | none => trivial
  | some lastStar =>
      obtain ⟨taken, consumed, afterStar, marked, lengths, noStar⟩ := aligned
      exact ⟨taken ++ [first], consumed ++ [rune], by simpa using afterStar,
        by simpa using marked, by simp [lengths], by simp [noStar, Ne.symm fixed]⟩

theorem pending_nil_iff (aligned : Aligned pattern [] star) :
    Pending pattern [] star ↔ Matches (tokens pattern) [] := by
  cases star with
  | none => exact Iff.rfl
  | some lastStar =>
      refine ⟨fun pending => pending.elim id ?_, Or.inl⟩
      rintro ⟨count, matched⟩
      simpa using aligned.matches_drop matched

theorem pending_star_iff (aligned : Aligned (starRune :: later) value star) :
    Pending (starRune :: later) value star ↔ Pending later value (some (later, value)) := by
  have renewed : Pending later value (some (later, value)) ↔
      Matches (tokens (starRune :: later)) value := by
    rw [matches_tokens_star_iff]
    constructor
    · rintro (matched | ⟨count, matched⟩)
      · exact ⟨0, matched⟩
      · exact ⟨count + 1, matched⟩
    · rintro ⟨count, matched⟩
      cases count with
      | zero => exact Or.inl matched
      | succ count => exact Or.inr ⟨count, matched⟩
  rw [renewed]
  cases star with
  | none => exact Iff.rfl
  | some lastStar =>
      refine ⟨fun pending => pending.elim id ?_, Or.inl⟩
      rintro ⟨count, matched⟩
      exact matches_star_of_drop (aligned.matches_drop matched)

theorem pending_take_iff {first : Rune} (fixed : first ≠ starRune)
    (takes : first = anyRune ∨ first = rune) :
    Pending (first :: later) (rune :: rest) star ↔ Pending later rest star := by
  cases star with
  | none => simp only [Pending, matches_tokens_cons_iff fixed, takes, true_and]
  | some lastStar => simp only [Pending, matches_tokens_cons_iff fixed, takes, true_and]

theorem pending_backtrack_iff {afterStar marked : List Rune}
    (mismatch : ¬ Matches (tokens pattern) value) :
    Pending pattern value (some (afterStar, marked)) ↔
      Pending afterStar marked.tail (some (afterStar, marked.tail)) := by
  simp only [Pending, mismatch, false_or, ← List.drop_one, List.drop_drop]
  constructor
  · rintro ⟨count, matched⟩
    cases count with
    | zero => exact Or.inl matched
    | succ count => exact Or.inr ⟨count, by rwa [Nat.add_comm 1]⟩
  · rintro (matched | ⟨count, matched⟩)
    · exact ⟨0, matched⟩
    · exact ⟨count + 1, by rwa [Nat.add_comm 1] at matched⟩

/-- A truth value that decides a proposition. -/
def Decides (result : Truth) (proposition : Prop) : Prop :=
  (result = yes ↔ proposition) ∧ (result = no ↔ ¬ proposition)

theorem decides_ofBool {condition : Bool} {proposition : Prop}
    (decided : proposition ↔ condition = true) :
    Decides (ofBool condition) proposition := by
  cases condition with
  | true => simp [Decides, decided, ofBool]
  | false => simp [Decides, decided, ofBool]

theorem aligned_renew (later value : List Rune) :
    Aligned later value (some (later, value)) :=
  ⟨[], [], rfl, rfl, rfl, List.not_mem_nil⟩

/-- With this many steps, the loop decides what is pending where the stars stay
apart. -/
def LoopDecides (steps : Nat) : Prop :=
  ∀ (pattern value : List Rune) (star : Option (List Rune × List Rune)),
    starsApart steps pattern value star = true → Aligned pattern value star →
      ∀ result left, globLoop steps pattern value star = some (result, left) →
        Decides result (Pending pattern value star)

theorem decides_of_mismatch {steps left : Nat} {result : Truth} (decides : LoopDecides steps)
    (run :
      (match star with
        | some (afterStar, marked) =>
            globLoop steps afterStar marked.tail (some (afterStar, marked.tail))
        | none => some (no, steps)) = some (result, left))
    (apart : ∀ afterStar marked, star = some (afterStar, marked) →
      starsApart steps afterStar marked.tail (some (afterStar, marked.tail)) = true)
    (mismatch : ¬ Matches (tokens pattern) value) :
    Decides result (Pending pattern value star) := by
  cases star with
  | none =>
      obtain ⟨rfl, -⟩ := Prod.mk.inj (Option.some.inj run)
      simp [Decides, Pending, mismatch]
  | some lastStar =>
      rw [pending_backtrack_iff mismatch]
      exact decides _ _ _ (apart _ _ rfl) (aligned_renew _ _) _ _ run

/-- Where the stars stay apart, the loop decides what is pending. -/
theorem globLoop_decides (steps : Nat) :
    LoopDecides steps := by
  induction steps with
  | zero =>
      intro pattern value star apart aligned result left run
      cases value with
      | nil =>
          obtain ⟨rfl, -⟩ := Prod.mk.inj (Option.some.inj run)
          exact decides_ofBool ((pending_nil_iff aligned).trans matches_tokens_nil_iff)
      | cons rune rest => cases run
  | succ steps ih =>
      intro pattern value star apart aligned result left run
      cases value with
      | nil =>
          obtain ⟨rfl, -⟩ := Prod.mk.inj (Option.some.inj run)
          exact decides_ofBool ((pending_nil_iff aligned).trans matches_tokens_nil_iff)
      | cons rune rest =>
          cases pattern with
          | nil =>
              refine decides_of_mismatch ih run ?_ ?_
              · rintro afterStar marked rfl
                exact apart
              · simp [tokens, matches_nil_iff]
          | cons first later =>
              simp only [globLoop] at run
              simp only [starsApart] at apart
              by_cases met : first = starRune ∧ rune = starRune
              · rw [if_pos met] at apart
                cases apart
              · rw [if_neg met] at apart
                by_cases takes : first = anyRune ∨ first = rune
                · have fixed : first ≠ starRune := by
                    rintro rfl
                    rcases takes with any | same
                    · exact absurd any (by decide)
                    · exact met ⟨rfl, same.symm⟩
                  rw [if_pos takes] at run apart
                  rw [pending_take_iff fixed takes]
                  exact ih _ _ _ apart (aligned.take fixed) _ _ run
                · rw [if_neg takes] at run apart
                  by_cases isStar : first = starRune
                  · subst isStar
                    rw [if_pos rfl] at run apart
                    rw [pending_star_iff aligned]
                    exact ih _ _ _ apart (aligned_renew _ _) _ _ run
                  · rw [if_neg isStar] at run apart
                    refine decides_of_mismatch ih run ?_ (fun matched => ?_)
                    · rintro afterStar marked rfl
                      exact apart
                    · exact takes ((matches_tokens_cons_iff isStar).mp matched).1

/-- The runes of the pattern that the loop misjudges on a value with the rune
`*` after `before` runes and `after` runes behind it. -/
def misjudged (before after : Nat) : List Rune :=
  List.replicate before anyRune ++ starRune :: List.replicate (after + 1) anyRune

theorem globLoop_any (taken : List Rune) :
    ∀ (steps : Nat) (pattern value : List Rune),
      globLoop (steps + taken.length) (List.replicate taken.length anyRune ++ pattern)
        (taken ++ value) none = globLoop steps pattern value none := by
  induction taken with
  | nil => intro steps pattern value; rfl
  | cons rune taken ih =>
      intro steps pattern value
      rw [List.length_cons, List.replicate_succ, ← Nat.add_assoc]
      simp only [List.cons_append, globLoop, true_or, if_true]
      exact ih steps pattern value

theorem globLoop_misjudged (before after : List Rune) :
    globLoop (before ++ starRune :: after).length (misjudged before.length after.length)
      (before ++ starRune :: after) none = some (no, 0) := by
  have lengths : (before ++ starRune :: after).length =
      (0 + after.length + 1) + before.length := by
    simp only [List.length_append, List.length_cons]
    omega
  rw [lengths, misjudged, globLoop_any]
  simp only [globLoop, or_true, if_true]
  rw [List.replicate_succ']
  have consumed := globLoop_any after 0 [anyRune] []
  rw [List.append_nil] at consumed
  rw [consumed]
  rfl

theorem matches_replicate_any (count : Nat) :
    ∀ {pattern : List Rune} {taken value : List Rune}, taken.length = count →
      Matches (tokens pattern) value →
        Matches (tokens (List.replicate count anyRune ++ pattern)) (taken ++ value) := by
  induction count with
  | zero =>
      intro pattern taken value length matched
      rw [List.length_eq_zero_iff.mp length]
      exact matched
  | succ count ih =>
      intro pattern taken value length matched
      cases taken with
      | nil => cases length
      | cons rune taken =>
          rw [List.replicate_succ, List.cons_append, List.cons_append]
          exact (matches_tokens_cons_iff (by decide)).mpr
            ⟨Or.inl rfl, ih (Nat.succ.inj length) matched⟩

theorem matches_misjudged (before after : List Rune) :
    Matches (tokens (misjudged before.length after.length)) (before ++ starRune :: after) := by
  refine matches_replicate_any before.length rfl (matches_tokens_star_iff.mpr ⟨0, ?_⟩)
  have whole := @matches_replicate_any (after.length + 1) [] (starRune :: after) [] rfl Matches.nil
  rwa [List.append_nil, List.append_nil] at whole

/-- The bytes of that pattern. -/
def misjudgedPattern (before after : Nat) : Bytes :=
  List.replicate before 0x3F ++ 0x2A :: List.replicate (after + 1) 0x3F

theorem mem_misjudgedPattern {before after : Nat} {byte : UInt8}
    (member : byte ∈ misjudgedPattern before after) :
    byte = 0x3F ∨ byte = 0x2A := by
  rcases List.mem_append.mp member with first | second
  · exact Or.inl (List.eq_of_mem_replicate first)
  · rcases List.mem_cons.mp second with star | last
    · exact Or.inr star
    · exact Or.inl (List.eq_of_mem_replicate last)

theorem runes_misjudgedPattern (before after : Nat) :
    runes (misjudgedPattern before after) = misjudged before after := by
  rw [Go.runes_of_ascii]
  · simp [misjudgedPattern, misjudged, anyRune, starRune]
  · intro byte member
    rcases mem_misjudgedPattern member with rfl | rfl <;> decide

theorem folded_misjudgedPattern (fold : Bool) (before after : Nat) :
    folded fold (misjudgedPattern before after) = misjudgedPattern before after := by
  have anyLower : Go.encodeRune (Go.lowerRune anyRune) = [0x3F] := by decide
  have starLower : Go.encodeRune (Go.lowerRune starRune) = [0x2A] := by decide
  cases fold with
  | false => rfl
  | true =>
      rw [folded, if_pos rfl, Go.toLower, runes_misjudgedPattern, misjudged, misjudgedPattern]
      simp [List.flatMap_append, List.flatMap_replicate, anyLower, starLower]

theorem contains_variable_of_not_mem {text : Bytes} (noDollar : (0x24 : UInt8) ∉ text) :
    Go.contains text [0x24, 0x7B] = false := by
  induction text with
  | nil => rfl
  | cons byte rest ih =>
      obtain ⟨first, others⟩ := not_or.mp (mt List.mem_cons.mpr noDollar)
      simp [Go.contains, List.isPrefixOf, first, ih others]

theorem glob_eq_of_not_exhausted {pattern value : Bytes} {fold : Bool} {state : State}
    (noVariable : Go.contains pattern [0x24, 0x7B] = false)
    (lasting : ((glob pattern value fold).run state).2.exhausted = false) :
    ∃ left, globLoop state.steps (runes (folded fold pattern))
      (runes (folded fold value)) none =
      some (((glob pattern value fold).run state).1, left) := by
  simp only [glob, noVariable, Bool.false_eq_true, if_false] at lasting ⊢
  split at lasting
  · rename_i result left run
    exact ⟨left, run⟩
  · cases lasting

theorem exists_not_globExact {fold : Bool} {value : Bytes}
    (member : starRune ∈ runes (folded fold value)) :
    ∃ (pattern : Bytes) (state : State), ¬ GlobExact fold pattern value state := by
  obtain ⟨before, after, split⟩ := List.append_of_mem member
  refine ⟨misjudgedPattern before.length after.length,
    ⟨(before ++ starRune :: after).length, false, [], 0⟩, fun exactly => ?_⟩
  have noVariable : Go.contains (misjudgedPattern before.length after.length)
      [0x24, 0x7B] = false := by
    refine contains_variable_of_not_mem fun dollar => ?_
    rcases mem_misjudgedPattern dollar with any | star
    · exact absurd any (by decide)
    · exact absurd star (by decide)
  have run : (glob (misjudgedPattern before.length after.length) value fold).run
      ⟨(before ++ starRune :: after).length, false, [], 0⟩ = (no, ⟨0, false, [], 0⟩) := by
    simp only [glob, noVariable, folded_misjudgedPattern, runes_misjudgedPattern, split,
      globLoop_misjudged, Bool.false_eq_true, if_false]
  have refused := (exactly noVariable (by rw [run])).2.mp (by rw [run])
  rw [GlobMatches, folded_misjudgedPattern, runes_misjudgedPattern, split] at refused
  exact refused (matches_misjudged before after)

/-- A call is exact where no star of its pattern is held against the rune `*`
of its value, and every value with that rune has a pattern and a budget on
which the call is not exact. -/
theorem globExact_of_starsApart (fold : Bool) (value : Bytes) :
    (∀ (pattern : Bytes) (state : State),
        starsApart state.steps (runes (folded fold pattern)) (runes (folded fold value))
          none = true →
        GlobExact fold pattern value state) ∧
      (starRune ∈ runes (folded fold value) →
        ∃ (pattern : Bytes) (state : State), ¬ GlobExact fold pattern value state) := by
  refine ⟨fun pattern state apart noVariable lasting => ?_, exists_not_globExact⟩
  obtain ⟨left, run⟩ := glob_eq_of_not_exhausted noVariable lasting
  exact globLoop_decides state.steps _ _ none apart trivial _ left run

/-- The theorem at the value `ab*`: the pattern `a*`, whose star never meets the
last rune, is answered exactly. -/
theorem globExact_of_starsApart_behind :
    GlobExact false (bytes "a*") (bytes "ab*") ⟨1000000, false, [], 0⟩ :=
  (globExact_of_starsApart false (bytes "ab*")).1 (bytes "a*") ⟨1000000, false, [], 0⟩
    (by decide +kernel)

/-- The pattern `*` is refused on the value `*a`, which it matches. -/
theorem not_globExact_star_value :
    ¬ GlobExact false (bytes "*") (bytes "*a") ⟨1000000, false, [], 0⟩ := by
  intro exactly
  have refused := (exactly (by decide +kernel) (by decide +kernel)).2.mp (by decide +kernel)
  have pattern : tokens (runes (folded false (bytes "*"))) = [.star] := by decide +kernel
  rw [GlobMatches, pattern] at refused
  exact refused (matches_star_iff.mpr ⟨2, matches_nil_iff.mpr (by decide +kernel)⟩)

end Trstctl.Cloudentitlements.Awspolicy
