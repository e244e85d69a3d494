import Mathlib.Data.List.Basic

/-!
# Regular expressions with groups

A pattern matches the start of a list of symbols in several ways, in an order
of preference: the first alternative before the second, the longer run before
the shorter.  The match of a pattern is its most preferred way.
-/

namespace Trstctl

/-- A pattern over symbols of a type. -/
inductive Regex (α : Type) where
  /-- The empty pattern. -/
  | empty
  /-- The end of the text. -/
  | ends
  /-- One symbol of a class. -/
  | symbol (accepts : α → Bool)
  /-- As many symbols of a class as possible. -/
  | many (accepts : α → Bool)
  | seq (first second : Regex α)
  /-- The first pattern, or else the second. -/
  | either (first second : Regex α)
  /-- A numbered group. -/
  | group (number : Nat) (inner : Regex α)

namespace Regex

variable {α : Type}

/-- Patterns one after the other. -/
def sequence : List (Regex α) → Regex α
  | [] => empty
  | first :: rest => first.seq (sequence rest)

/-- One given symbol. -/
def literal [BEq α] (wanted : α) : Regex α :=
  symbol (· == wanted)

/-- A match: what was taken, what is left, and what each group took. -/
structure Match (α : Type) where
  taken : List α
  rest : List α
  groups : List (Nat × List α)

/-- Every start of a text with symbols of a class, the longest first. -/
def runs (accepts : α → Bool) : List α → List (Match α)
  | [] => [⟨[], [], []⟩]
  | first :: rest =>
      (if accepts first then
        (runs accepts rest).map fun later => { later with taken := first :: later.taken }
      else []) ++ [⟨[], first :: rest, []⟩]

/-- The ways in which a pattern matches the start of a text. -/
def ways : Regex α → List α → List (Match α)
  | empty, text => [⟨[], text, []⟩]
  | ends, [] => [⟨[], [], []⟩]
  | ends, _ :: _ => []
  | symbol _, [] => []
  | symbol accepts, first :: rest => if accepts first then [⟨[first], rest, []⟩] else []
  | many accepts, text => runs accepts text
  | seq first second, text =>
      (first.ways text).flatMap fun before =>
        (second.ways before.rest).map fun after =>
          ⟨before.taken ++ after.taken, after.rest, before.groups ++ after.groups⟩
  | either first second, text => first.ways text ++ second.ways text
  | group number inner, text =>
      (inner.ways text).map fun found =>
        { found with groups := found.groups ++ [(number, found.taken)] }

/-- The match at the start of a text. -/
def find (pattern : Regex α) (text : List α) : Option (Match α) :=
  (pattern.ways text).head?

/-- What a group took, nothing when it took no part. -/
def Match.submatch (found : Match α) (number : Nat) : List α :=
  (found.groups.lookup number).getD []

/-- The parts of a text between the matches of a pattern.  `pending` counts the
symbols of the current match that are still to be passed, and `part` is what
stands behind the last match, the last symbol first. -/
def splitFrom (pattern : Regex α) : Nat → List α → List α → List (List α)
  | _, part, [] => [part.reverse]
  | pending + 1, part, _ :: rest => splitFrom pattern pending part rest
  | 0, part, first :: rest =>
      match pattern.find (first :: rest) with
      | some ⟨_ :: more, _, _⟩ => part.reverse :: splitFrom pattern more.length [] rest
      | _ => splitFrom pattern 0 (first :: part) rest

/-- A text taken apart at every match of a pattern. -/
def split (pattern : Regex α) (text : List α) : List (List α) :=
  pattern.splitFrom 0 [] text

variable {accepts : α → Bool} {text : List α} {found : Match α}

theorem ways_symbol_cons (accepts : α → Bool) (first : α) (rest : List α) :
    (symbol accepts).ways (first :: rest) =
      if accepts first then [⟨[first], rest, []⟩] else [] :=
  rfl

theorem ways_seq (first second : Regex α) (text : List α) :
    (first.seq second).ways text =
      (first.ways text).flatMap fun before =>
        (second.ways before.rest).map fun after =>
          ⟨before.taken ++ after.taken, after.rest, before.groups ++ after.groups⟩ :=
  rfl

theorem ways_either (first second : Regex α) (text : List α) :
    (first.either second).ways text = first.ways text ++ second.ways text :=
  rfl

theorem ways_group (number : Nat) (inner : Regex α) (text : List α) :
    (group number inner).ways text =
      (inner.ways text).map fun found =>
        { found with groups := found.groups ++ [(number, found.taken)] } :=
  rfl

/-- The texts that a pattern can take. -/
def Spells : Regex α → List α → Prop
  | empty, text => text = []
  | ends, text => text = []
  | symbol accepts, text => ∃ only, accepts only = true ∧ text = [only]
  | many accepts, text => ∀ symbol ∈ text, accepts symbol = true
  | seq first second, text =>
      ∃ front back, first.Spells front ∧ second.Spells back ∧ text = front ++ back
  | either first second, text => first.Spells text ∨ second.Spells text
  | group _ inner, text => inner.Spells text

theorem split_of_mem_runs (member : found ∈ runs accepts text) :
    text = found.taken ++ found.rest ∧ ∀ symbol ∈ found.taken, accepts symbol = true := by
  induction text generalizing found with
  | nil =>
      rw [List.mem_singleton.mp member]
      exact ⟨rfl, List.forall_mem_nil _⟩
  | cons first rest ih =>
      rcases List.mem_append.mp member with longer | shortest
      · split at longer
        · rename_i accepted
          obtain ⟨later, laterMember, rfl⟩ := List.mem_map.mp longer
          obtain ⟨whole, laterAccepted⟩ := ih laterMember
          exact ⟨congrArg (first :: ·) whole, List.forall_mem_cons.mpr ⟨accepted, laterAccepted⟩⟩
        · cases longer
      · rw [List.mem_singleton.mp shortest]
        exact ⟨rfl, List.forall_mem_nil _⟩

variable {pattern : Regex α}

/-- A match takes a text of the pattern's language off the start and leaves the
rest. -/
theorem split_of_mem_ways (member : found ∈ pattern.ways text) :
    text = found.taken ++ found.rest ∧ pattern.Spells found.taken := by
  induction pattern generalizing text found with
  | empty =>
      rw [List.mem_singleton.mp member]
      exact ⟨rfl, rfl⟩
  | ends =>
      cases text with
      | nil =>
          rw [List.mem_singleton.mp member]
          exact ⟨rfl, rfl⟩
      | cons first rest => cases member
  | symbol accepts =>
      cases text with
      | nil => cases member
      | cons first rest =>
          rw [ways_symbol_cons] at member
          split at member
          · rename_i accepted
            rw [List.mem_singleton.mp member]
            exact ⟨rfl, first, accepted, rfl⟩
          · cases member
  | many accepts => exact split_of_mem_runs member
  | seq first second firstHypothesis secondHypothesis =>
      obtain ⟨before, beforeMember, later⟩ := List.mem_flatMap.mp member
      obtain ⟨after, afterMember, rfl⟩ := List.mem_map.mp later
      obtain ⟨front, firstSpells⟩ := firstHypothesis beforeMember
      obtain ⟨back, secondSpells⟩ := secondHypothesis afterMember
      refine ⟨?_, before.taken, after.taken, firstSpells, secondSpells, rfl⟩
      rw [front, back, List.append_assoc]
  | either first second firstHypothesis secondHypothesis =>
      rcases List.mem_append.mp member with inFirst | inSecond
      · exact (firstHypothesis inFirst).imp_right Or.inl
      · exact (secondHypothesis inSecond).imp_right Or.inr
  | group number inner ih =>
      obtain ⟨whole, wholeMember, rfl⟩ := List.mem_map.mp member
      have taken := ih wholeMember
      exact taken

theorem append_of_mem_ways (member : found ∈ pattern.ways text) :
    found.taken ++ found.rest = text :=
  (split_of_mem_ways member).1.symm

theorem spells_of_mem_ways (member : found ∈ pattern.ways text) :
    pattern.Spells found.taken :=
  (split_of_mem_ways member).2

theorem append_of_find (finds : pattern.find text = some found) :
    found.taken ++ found.rest = text :=
  append_of_mem_ways (List.mem_of_mem_head? finds)

/-- The pattern takes at least one symbol. -/
def takes : Regex α → Bool
  | empty => false
  | ends => false
  | symbol _ => true
  | many _ => false
  | seq first second => first.takes || second.takes
  | either first second => first.takes && second.takes
  | group _ inner => inner.takes

theorem ne_nil_of_spells (takes : pattern.takes = true) (spells : pattern.Spells text) :
    text ≠ [] := by
  induction pattern generalizing text with
  | empty => cases takes
  | ends => cases takes
  | symbol accepts =>
      obtain ⟨only, -, rfl⟩ := spells
      exact List.cons_ne_nil _ _
  | many accepts => cases takes
  | seq first second firstHypothesis secondHypothesis =>
      obtain ⟨front, back, firstSpells, secondSpells, rfl⟩ := spells
      rcases (Bool.or_eq_true _ _).mp takes with firstTakes | secondTakes
      · exact List.append_ne_nil_of_left_ne_nil (firstHypothesis firstTakes firstSpells) _
      · exact List.append_ne_nil_of_right_ne_nil _ (secondHypothesis secondTakes secondSpells)
  | either first second firstHypothesis secondHypothesis =>
      obtain ⟨firstTakes, secondTakes⟩ := (Bool.and_eq_true _ _).mp takes
      rcases spells with inFirst | inSecond
      · exact firstHypothesis firstTakes inFirst
      · exact secondHypothesis secondTakes inSecond
  | group number inner ih => exact ih takes spells

theorem taken_ne_nil_of_mem_ways (takes : pattern.takes = true)
    (member : found ∈ pattern.ways text) :
    found.taken ≠ [] :=
  ne_nil_of_spells takes (spells_of_mem_ways member)

theorem find_ends : (ends : Regex α).find [] = some ⟨[], [], []⟩ :=
  rfl

theorem find_symbol {first : α} (accepted : accepts first = true) (rest : List α) :
    (symbol accepts).find (first :: rest) = some ⟨[first], rest, []⟩ := by
  rw [find, ways_symbol_cons, if_pos accepted]
  rfl

theorem find_literal [BEq α] [ReflBEq α] (wanted : α) (rest : List α) :
    (literal wanted).find (wanted :: rest) = some ⟨[wanted], rest, []⟩ :=
  find_symbol BEq.rfl rest

theorem find_many {run rest : List α} (accepted : ∀ symbol ∈ run, accepts symbol = true)
    (stops : ∀ symbol ∈ rest.head?, accepts symbol = false) :
    (many accepts).find (run ++ rest) = some ⟨run, rest, []⟩ := by
  change (runs accepts (run ++ rest)).head? = _
  induction run with
  | nil =>
      cases rest with
      | nil => rfl
      | cons first rest =>
          have stopped : accepts first = false := stops first rfl
          rw [List.nil_append, runs, stopped]
          rfl
  | cons first run ih =>
      have longer := ih fun symbol member =>
        accepted symbol (List.mem_cons_of_mem first member)
      rw [List.cons_append, runs, if_pos (accepted first List.mem_cons_self),
        List.head?_append, List.head?_map, longer]
      rfl

theorem find_seq {first second : Regex α} {before after : Match α}
    (firstFinds : first.find text = some before)
    (secondFinds : second.find before.rest = some after) :
    (first.seq second).find text =
      some ⟨before.taken ++ after.taken, after.rest, before.groups ++ after.groups⟩ := by
  obtain ⟨others, ways_eq⟩ := List.head?_eq_some_iff.mp firstFinds
  rw [find, ways_seq, ways_eq, List.flatMap_cons, List.head?_append, List.head?_map,
    ← find, secondFinds]
  rfl

theorem find_sequence_nil (text : List α) :
    (sequence ([] : List (Regex α))).find text = some ⟨[], text, []⟩ :=
  rfl

theorem find_sequence_cons {first : Regex α} {later : List (Regex α)} {before after : Match α}
    (firstFinds : first.find text = some before)
    (laterFinds : (sequence later).find before.rest = some after) :
    (sequence (first :: later)).find text =
      some ⟨before.taken ++ after.taken, after.rest, before.groups ++ after.groups⟩ :=
  find_seq firstFinds laterFinds

theorem find_either_of_first {first : Regex α} (finds : first.find text = some found)
    (second : Regex α) :
    (first.either second).find text = some found := by
  rw [find, ways_either, List.head?_append, ← find, finds]
  rfl

theorem find_either_of_second {first : Regex α} (fails : first.ways text = []) (second : Regex α) :
    (first.either second).find text = second.find text := by
  rw [find, ways_either, fails, List.nil_append, find]

theorem find_group {inner : Regex α} (finds : inner.find text = some found) (number : Nat) :
    (group number inner).find text =
      some { found with groups := found.groups ++ [(number, found.taken)] } := by
  rw [find, ways_group, List.head?_map, ← find, finds]
  rfl

theorem ways_sequence_of_other [BEq α] {wanted : α}
    (other : ∀ symbol ∈ text.head?, (symbol == wanted) = false) (later : List (Regex α)) :
    (sequence (literal wanted :: later)).ways text = [] := by
  cases text with
  | nil => rfl
  | cons first rest =>
      rw [sequence, ways_seq, literal, ways_symbol_cons, other first rfl]
      rfl

theorem spells_of_find (finds : pattern.find text = some found) :
    pattern.Spells found.taken :=
  spells_of_mem_ways (List.mem_of_mem_head? finds)

theorem exists_of_spells_sequence (items : List (Regex α)) {later : List (Regex α)}
    (spells : (sequence (items ++ later)).Spells text) :
    ∃ front back, text = front ++ back ∧ (sequence later).Spells back := by
  induction items generalizing text with
  | nil => exact ⟨[], text, rfl, spells⟩
  | cons first items ih =>
      obtain ⟨start, rest, -, restSpells, rfl⟩ := spells
      obtain ⟨front, back, rfl, backSpells⟩ := ih restSpells
      exact ⟨start ++ front, back, (List.append_assoc _ _ _).symm, backSpells⟩

theorem rest_of_mem_ways_sequence (items : List (Regex α))
    (member : found ∈ (sequence (items ++ [ends])).ways text) :
    found.rest = [] := by
  induction items generalizing text found with
  | nil =>
      obtain ⟨before, beforeMember, later⟩ := List.mem_flatMap.mp member
      cases text with
      | nil =>
          rw [List.mem_singleton.mp beforeMember] at later
          rw [List.mem_singleton.mp later]
      | cons first rest => cases beforeMember
  | cons first items ih =>
      obtain ⟨before, -, later⟩ := List.mem_flatMap.mp member
      obtain ⟨after, afterMember, rfl⟩ := List.mem_map.mp later
      have left := ih afterMember
      exact left

theorem spells_literal_iff [BEq α] [LawfulBEq α] {wanted : α} :
    (literal wanted).Spells text ↔ text = [wanted] := by
  simp [literal, Spells]

/-- No match takes the symbol, and none depends on the end of the text. -/
def Avoids (barrier : α) : Regex α → Prop
  | empty => True
  | ends => False
  | symbol accepts => accepts barrier = false
  | many accepts => accepts barrier = false
  | seq first second => first.Avoids barrier ∧ second.Avoids barrier
  | either first second => first.Avoids barrier ∧ second.Avoids barrier
  | group _ inner => inner.Avoids barrier

/-- A match with more text behind it. -/
def Match.followedBy (found : Match α) (more : List α) : Match α :=
  { found with rest := found.rest ++ more }

variable {barrier : α}

theorem runs_append_barrier (rejected : accepts barrier = false) (text more : List α) :
    runs accepts (text ++ barrier :: more) =
      (runs accepts text).map (·.followedBy (barrier :: more)) := by
  induction text with
  | nil =>
      change (if accepts barrier then _ else []) ++ _ = _
      rw [rejected]
      rfl
  | cons first rest ih =>
      rw [List.cons_append, runs, runs, ih, List.map_append]
      split
      · rw [List.map_map, List.map_map]
        rfl
      · rfl

/-- A pattern matches the text in front of a symbol that it avoids as it matches
that text alone. -/
theorem ways_append_barrier (avoids : pattern.Avoids barrier) (text more : List α) :
    pattern.ways (text ++ barrier :: more) =
      (pattern.ways text).map (·.followedBy (barrier :: more)) := by
  induction pattern generalizing text with
  | empty => rfl
  | ends => cases avoids
  | symbol accepts =>
      have rejected : accepts barrier = false := avoids
      cases text with
      | nil =>
          change (if accepts barrier then [_] else []) = []
          rw [rejected]
          rfl
      | cons first rest =>
          rw [List.cons_append, ways_symbol_cons, ways_symbol_cons]
          split
          · rfl
          · rfl
  | many accepts => exact runs_append_barrier avoids text more
  | seq first second firstHypothesis secondHypothesis =>
      rw [ways_seq, ways_seq, firstHypothesis avoids.1, List.flatMap_map, List.map_flatMap]
      refine List.flatMap_congr fun before _ => ?_
      rw [Match.followedBy, secondHypothesis avoids.2, List.map_map, List.map_map]
      rfl
  | either first second firstHypothesis secondHypothesis =>
      rw [ways_either, ways_either, firstHypothesis avoids.1, secondHypothesis avoids.2,
        List.map_append]
  | group number inner ih =>
      rw [ways_group, ways_group, ih avoids, List.map_map, List.map_map]
      rfl

theorem find_append_barrier (avoids : pattern.Avoids barrier) (text more : List α) :
    pattern.find (text ++ barrier :: more) =
      (pattern.find text).map (·.followedBy (barrier :: more)) := by
  rw [find, ways_append_barrier avoids, List.head?_map, find]

/-- The parts of two texts, the last of the one joined to the first of the other. -/
def weld : List (List α) → List (List α) → List (List α)
  | [], later => later
  | [last], [] => [last]
  | [last], first :: later => (last ++ first) :: later
  | part :: next :: rest, later => part :: weld (next :: rest) later

theorem weld_cons (part : List α) {rest : List (List α)} (proper : rest ≠ [])
    (later : List (List α)) :
    weld (part :: rest) later = part :: weld rest later := by
  obtain ⟨next, rest, rfl⟩ := List.exists_cons_of_ne_nil proper
  rfl

theorem splitFrom_ne_nil (pattern : Regex α) (pending : Nat) (part text : List α) :
    pattern.splitFrom pending part text ≠ [] := by
  fun_induction splitFrom pattern pending part text with
  | case1 => exact List.cons_ne_nil _ _
  | case2 pending part first rest ih => exact ih
  | case3 => exact List.cons_ne_nil _ _
  | case4 part first rest none ih => exact ih

theorem splitFrom_append (pattern : Regex α) (part before text : List α) :
    pattern.splitFrom 0 (part ++ before) text =
      weld [before.reverse] (pattern.splitFrom 0 part text) := by
  induction text generalizing part with
  | nil => rw [splitFrom, splitFrom, List.reverse_append, weld]
  | cons first rest ih =>
      rw [splitFrom, splitFrom]
      split
      · rw [List.reverse_append, weld]
      · rw [← List.cons_append, ih]

theorem splitFrom_part (pattern : Regex α) (part text : List α) :
    pattern.splitFrom 0 part text = weld [part.reverse] (pattern.split text) :=
  splitFrom_append pattern [] part text

theorem find_nil_of_takes (takes : pattern.takes = true) :
    pattern.find [] = none := by
  rw [Option.eq_none_iff_forall_ne_some]
  intro found finds
  have parts := append_of_find finds
  exact taken_ne_nil_of_mem_ways takes (List.mem_of_mem_head? finds)
    (List.append_eq_nil_iff.mp parts).1

theorem splitFrom_append_barrier (takes : pattern.takes = true) (avoids : pattern.Avoids barrier)
    {pending : Nat} (part : List α) (enough : pending ≤ text.length) (more : List α) :
    pattern.splitFrom pending part (text ++ barrier :: more) =
      weld (pattern.splitFrom pending part text) (weld [[barrier]] (pattern.split more)) := by
  induction text generalizing pending part with
  | nil =>
      have none : pending = 0 := Nat.le_zero.mp enough
      have nowhere : pattern.find (barrier :: more) = .none := by
        rw [← List.nil_append (barrier :: more), find_append_barrier avoids,
          find_nil_of_takes takes]
        rfl
      rw [none, List.nil_append, splitFrom.eq_3, nowhere]
      dsimp only
      rw [← List.singleton_append, splitFrom_append, splitFrom_part, splitFrom]
      rfl
  | cons first rest ih =>
      cases pending with
      | succ pending => exact ih part (Nat.le_of_succ_le_succ enough)
      | zero =>
          have same := find_append_barrier avoids (first :: rest) more
          rw [List.cons_append] at same
          rw [List.cons_append, splitFrom, splitFrom, same]
          cases found : pattern.find (first :: rest) with
          | none => exact ih (first :: part) (Nat.zero_le _)
          | some way =>
              obtain ⟨taken, left, groups⟩ := way
              cases taken with
              | nil => exact ih (first :: part) (Nat.zero_le _)
              | cons start more =>
                  have parts := congrArg List.length (append_of_find found)
                  rw [List.length_append, List.length_cons, List.length_cons] at parts
                  dsimp only [Option.map_some, Match.followedBy]
                  rw [ih [] (by omega), weld_cons _ (splitFrom_ne_nil _ _ _ _)]

theorem split_append_barrier (takes : pattern.takes = true) (avoids : pattern.Avoids barrier)
    (text more : List α) :
    pattern.split (text ++ barrier :: more) =
      weld (pattern.split text) (weld [[barrier]] (pattern.split more)) :=
  splitFrom_append_barrier takes avoids [] (Nat.zero_le _) more

theorem suffix_of_mem_getLast_splitFrom (pattern : Regex α) {pending : Nat} {part last : List α}
    (between : pending = 0 ∨ part = [])
    (member : last ∈ (pattern.splitFrom pending part text).getLast?) :
    last <:+ part.reverse ++ text := by
  fun_induction splitFrom pattern pending part text with
  | case1 pending part =>
      rw [← Option.some.inj member, List.append_nil]
      exact List.suffix_rfl
  | case2 pending part first rest ih =>
      obtain rfl := between.resolve_left (Nat.succ_ne_zero pending)
      have shorter := ih (Or.inr rfl) member
      exact shorter.trans (List.suffix_cons first rest)
  | case3 part first rest start more left groups found ih =>
      rw [List.getLast?_cons_of_ne_nil (splitFrom_ne_nil _ _ _ _)] at member
      have shorter := ih (Or.inr rfl) member
      exact (shorter.trans (List.suffix_cons first rest)).trans (List.suffix_append _ _)
  | case4 part first rest none ih =>
      have whole := ih (Or.inl rfl) member
      rwa [List.reverse_cons, List.append_assoc, List.singleton_append] at whole

theorem suffix_of_mem_getLast_split {last : List α}
    (member : last ∈ (pattern.split text).getLast?) :
    last <:+ text :=
  suffix_of_mem_getLast_splitFrom pattern (Or.inl rfl) member

theorem mem_of_mem_splitFrom {pending : Nat} {part piece : List α}
    (member : piece ∈ pattern.splitFrom pending part text) :
    ∀ symbol ∈ piece, symbol ∈ part ∨ symbol ∈ text := by
  intro symbol inside
  fun_induction splitFrom pattern pending part text with
  | case1 pending part =>
      rw [List.mem_singleton.mp member] at inside
      exact Or.inl (List.mem_reverse.mp inside)
  | case2 pending part first rest ih =>
      exact (ih member).imp_right (List.mem_cons_of_mem first)
  | case3 part first rest start more left groups found ih =>
      rcases List.mem_cons.mp member with rfl | later
      · exact Or.inl (List.mem_reverse.mp inside)
      · rcases ih later with empty | behind
        · cases empty
        · exact Or.inr (List.mem_cons_of_mem first behind)
  | case4 part first rest none ih =>
      rcases ih member with here | behind
      · rcases List.mem_cons.mp here with rfl | before
        · exact Or.inr List.mem_cons_self
        · exact Or.inl before
      · exact Or.inr (List.mem_cons_of_mem first behind)

theorem mem_of_mem_split {piece : List α} (member : piece ∈ pattern.split text) {symbol : α}
    (inside : symbol ∈ piece) :
    symbol ∈ text :=
  (mem_of_mem_splitFrom member symbol inside).resolve_left List.not_mem_nil

theorem eq_of_splitFrom_eq_singleton {part only : List α}
    (single : pattern.splitFrom 0 part text = [only]) :
    only = part.reverse ++ text := by
  induction text generalizing part with
  | nil =>
      rw [List.append_nil]
      exact (List.cons.inj single).1.symm
  | cons first rest ih =>
      rw [splitFrom] at single
      split at single
      · exact absurd (List.cons.inj single).2 (splitFrom_ne_nil _ _ _ _)
      · rw [ih single, List.reverse_cons, List.append_assoc,
          List.singleton_append]

theorem exists_of_split_ne_singleton (parted : pattern.split text ≠ [text]) :
    ∃ first second later, pattern.split text = first :: second :: later := by
  obtain ⟨first, rest, split_eq⟩ := List.exists_cons_of_ne_nil (splitFrom_ne_nil pattern 0 [] text)
  cases rest with
  | nil =>
      have whole := eq_of_splitFrom_eq_singleton split_eq
      rw [List.reverse_nil, List.nil_append] at whole
      rw [whole] at split_eq
      exact absurd split_eq parted
  | cons second later => exact ⟨first, second, later, split_eq⟩

end Regex
end Trstctl
