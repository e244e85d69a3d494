import Trstctl.Accessrules.Ssh.Words

/-!
# Command positions

The rule follows the shell from token to token: its flags say where the shell
is.  It loses the command position at the operators `>|`, `<&` and `>&`, whose
second byte it reads as a separator, at a reserved word after the end of a
group, and at joints between tokens, which it reads as a word.  It does not see
the program in a quoted word that looks like an assignment or has a joint
inside double quotes.
-/

namespace Trstctl.Accessrules.Ssh

open Go (Bytes bytes)
open Shell (Blank Control Part Piece Redirection Spaced State Token Word digitByte glued programs)

/-- The second byte of the operator separates commands. -/
def separates : Redirection → Bool
  | .clobber => true
  | .duplicateInput => true
  | .duplicateOutput => true
  | _ => false

/-- The shell may find an assignment, a redirection or a program here. -/
def commandState : State → Bool
  | .start => true
  | .begun => true
  | _ => false

/-- A brace by itself that opens or closes a group. -/
def groupBrace (state : State) (word : Word) : Bool :=
  (state == .start && word.parts == [.byte 0x7B]) ||
    ((state == .start || state == .closed) && word.parts == [.byte 0x7D])

/-- A token that the rule reads otherwise than the shell. -/
def misread (state : State) : Token → Bool
  | .word word =>
      !(whole word || groupBrace state word) ||
        (commandState state && !word.assigns &&
          (sshAssignment (scanned word) || quotedJoint word)) ||
        (state == .closed && word.bare.any (· ∈ Shell.continuers))
  | .redirection _ operator => commandState state && separates operator
  | .control _ => false
  | .joints _ => commandState state || state == .target

/-- The joints inside an operator, which the rule reads as a word, and the
tokens themselves. -/
def misreadPiece (state : State) (piece : Piece) : Bool :=
  misread state piece.token || piece.text != piece.token.render

/-- No token is misread. -/
def aligned : State → List Piece → Bool
  | _, [] => true
  | state, piece :: rest =>
      !misreadPiece state piece &&
        match Shell.step state piece.token with
        | some (next, _) => aligned next rest
        | none => true

section

variable {flags later last : Flags} {text rest : Bytes} {byte : UInt8}

/-- The loop passes a text, reports programs in it and goes on with other
flags. -/
def Passes (flags : Flags) (text : Bytes) (found : List (Option Bytes)) (later : Flags)
    (rest : Bytes) : Prop :=
  scanFrom flags text = (scanFrom later rest).map (found ++ ·)

theorem passes_refl (flags : Flags) (text : Bytes) : Passes flags text [] flags text := by
  simp [Passes]

theorem Passes.trans {found others : List (Option Bytes)} {after : Bytes}
    (first : Passes flags text found later rest) (second : Passes later rest others last after) :
    Passes flags text (found ++ others) last after := by
  unfold Passes at *
  rw [first, second, Option.map_map]
  congr 1
  funext reports
  simp

theorem passes_of_iteration {more : Nat} {found : Option Bytes}
    (passes : iteration flags text = some ⟨more, later, found⟩) :
    Passes flags text [found] later (text.drop (more + 1)) := by
  cases text with
  | nil => cases passes
  | cons byte text =>
      unfold Passes scanFrom
      rw [Scanner.scan_cons, passes, Option.bind_some, List.drop_succ_cons,
        Scanner.scan_behind 0 later _ [] (text.drop more)]
      rfl

theorem scanFrom_eq_none (nonempty : text ≠ []) (stops : iteration flags text = none) :
    scanFrom flags text = none := by
  cases text with
  | nil => exact absurd rfl nonempty
  | cons byte text =>
      unfold scanFrom
      rw [Scanner.scan_cons, stops]
      rfl

theorem passes_blanks (flags : Flags) (blanks : List Blank) (rest : Bytes) :
    ∃ found, Passes flags (blanks.map Blank.render ++ rest) found flags rest := by
  induction blanks with
  | nil => exact ⟨[], passes_refl flags rest⟩
  | cons blank blanks ih =>
      obtain ⟨found, later⟩ := ih
      have passes : iteration flags (blank.render :: (blanks.map Blank.render ++ rest)) =
          some ⟨0, flags, none⟩ := by
        cases blank <;> rfl
      exact ⟨[none] ++ found, (passes_of_iteration passes).trans later⟩

/-- The flags after a byte that separates commands. -/
def separated : Flags :=
  { command := true, redirect := false }

theorem passes_separator (flags : Flags)
    (isSeparator : (bytes "\n;|&(\x7b").contains byte = true)
    (rest : Bytes) :
    Passes flags (byte :: rest) [none] separated rest := by
  have notBlank : ¬ (byte = 0x20 ∨ byte = 0x09 ∨ byte = 0x0D) := by
    rintro (rfl | rfl | rfl) <;> revert isSeparator <;> decide
  have passes : iteration flags (byte :: rest) = some ⟨0, separated, none⟩ := by
    rw [iteration, if_neg notBlank, if_pos isSeparator]
    rfl
  exact passes_of_iteration passes

theorem passes_closer (flags : Flags) (isCloser : byte = 0x29 ∨ byte = 0x7D) (rest : Bytes) :
    Passes flags (byte :: rest) [none] { flags with command := false } rest := by
  have passes : iteration flags (byte :: rest) =
      some ⟨0, { flags with command := false }, none⟩ := by
    rcases isCloser with rfl | rfl <;> rfl
  exact passes_of_iteration passes

def afterControl (flags : Flags) : Control → Flags
  | .closes => { flags with command := false }
  | _ => separated

theorem passes_control (flags : Flags) (operator : Control) (rest : Bytes) :
    ∃ found, Passes flags (operator.render ++ rest) found (afterControl flags operator) rest := by
  cases operator with
  | semicolon => exact ⟨_, passes_separator flags (by decide) rest⟩
  | ampersand => exact ⟨_, passes_separator flags (by decide) rest⟩
  | both =>
      exact ⟨_, (passes_separator flags (by decide) _).trans
        (passes_separator separated (by decide) rest)⟩
  | either =>
      exact ⟨_, (passes_separator flags (by decide) _).trans
        (passes_separator separated (by decide) rest)⟩
  | pipe => exact ⟨_, passes_separator flags (by decide) rest⟩
  | newline => exact ⟨_, passes_separator flags (by decide) rest⟩
  | opens => exact ⟨_, passes_separator flags (by decide) rest⟩
  | closes => exact ⟨_, passes_closer flags (.inl rfl) rest⟩

/-- The bytes at which the loop does not look for a redirection or a word. -/
def stops : Bytes :=
  bytes " \t\r\n;|&(\x7b)\x7d#"

theorem iteration_eq (notStop : byte ∉ stops) :
    iteration flags (byte :: rest) = redirectionOrWord flags (byte :: rest) := by
  have other : ∀ sign ∈ stops, byte ≠ sign := fun sign member same => notStop (same ▸ member)
  have notBlank : ¬ (byte = 0x20 ∨ byte = 0x09 ∨ byte = 0x0D) := by
    simp [other 0x20 (by decide), other 0x09 (by decide), other 0x0D (by decide)]
  have notSeparator : (bytes "\n;|&(\x7b").contains byte = false := by
    rw [Bool.eq_false_iff]
    intro isSeparator
    have within : ∀ sign ∈ bytes "\n;|&(\x7b", sign ∈ stops := by
      decide +kernel
    exact notStop (within byte (by simpa using isSeparator))
  have notCloser : ¬ (byte = 0x29 ∨ byte = 0x7D) := by
    simp [other 0x29 (by decide), other 0x7D (by decide)]
  have notComment : byte ≠ 0x23 := other 0x23 (by decide)
  rw [iteration, if_neg notBlank, notSeparator, if_neg (by simp), if_neg notCloser,
    if_neg notComment]

theorem not_digit_of_break (isBreak : breakByte byte = true) :
    ¬ pgDigit byte = true := by
  have others : ∀ sign ∈ bytes " \t\r\n;|&()\x7b\x7d<>", ¬ pgDigit sign = true := by
    decide +kernel
  exact others byte (by simpa [breakByte] using isBreak)

theorem not_mem_stops_of_digit (isDigit : pgDigit byte = true) : byte ∉ stops := by
  intro member
  have others : ∀ sign ∈ stops, pgDigit sign = false := by
    decide +kernel
  rw [others byte member] at isDigit
  cases isDigit

/-- An angle bracket. -/
def angle (byte : UInt8) : Prop :=
  byte = 0x3C ∨ byte = 0x3E

instance (byte : UInt8) : Decidable (angle byte) :=
  inferInstanceAs (Decidable (_ ∨ _))

theorem not_digit_of_angle (isAngle : angle byte) : pgDigit byte = false := by
  rcases isAngle with rfl | rfl <;> rfl

/-- The iteration at a redirection, with its descriptor in command position. -/
theorem iteration_redirection (flags : Flags) (rest : Bytes) {digits : Bytes}
    (areDigits : ∀ digit ∈ digits, pgDigit digit = true) (isAngle : angle byte)
    (noDocument : ¬ (byte = 0x3C ∧ rest.head? = some 0x3C))
    (inCommand : digits ≠ [] → flags.command = true) :
    iteration flags (digits ++ byte :: rest) =
      some
        { more := digits.length + (if rest.head? = some byte then 1 else 0)
          state := { flags with redirect := true }
          report := none } := by
  have dropped : (digits ++ byte :: rest).dropWhile pgDigit = byte :: rest := by
    rw [List.dropWhile_append_of_pos areDigits, List.dropWhile_cons_of_neg]
    simp [not_digit_of_angle isAngle]
  have taken : (digits ++ byte :: rest).takeWhile pgDigit = digits := by
    rw [List.takeWhile_append_of_pos areDigits, List.takeWhile_cons_of_neg, List.append_nil]
    simp [not_digit_of_angle isAngle]
  have found : descriptor flags (digits ++ byte :: rest) = digits.length := by
    unfold descriptor
    dsimp only
    rw [dropped, taken]
    split_ifs with known
    · rfl
    · cases digits with
      | nil => rfl
      | cons first others =>
          refine absurd ⟨inCommand (by simp), ?_⟩ known
          exact isAngle.imp (congrArg some) (congrArg some)
  have start : iteration flags (digits ++ byte :: rest) =
      redirectionOrWord flags (digits ++ byte :: rest) := by
    cases digits with
    | nil =>
        refine iteration_eq ?_
        rcases isAngle with rfl | rfl <;> decide
    | cons first others =>
        exact iteration_eq (not_mem_stops_of_digit (areDigits first List.mem_cons_self))
  rw [start, redirectionOrWord, found, List.drop_left]
  have known : byte = 0x3C ∨ byte = 0x3E := isAngle
  dsimp only
  rw [if_pos known, if_neg noDocument]

def afterRedirection (flags : Flags) (operator : Redirection) : Flags :=
  if separates operator then separated else { flags with redirect := true }

theorem pgDigit_digitByte (digit : Fin 10) : pgDigit (digitByte digit) = true := by
  revert digit
  decide

theorem passes_angle (flags : Flags) (rest : Bytes) {digits : Bytes}
    (areDigits : ∀ digit ∈ digits, pgDigit digit = true) (isAngle : angle byte)
    (single : rest.head? ≠ some byte) (inCommand : digits ≠ [] → flags.command = true) :
    Passes flags (digits ++ byte :: rest) [none] { flags with redirect := true } rest := by
  have noDocument : ¬ (byte = 0x3C ∧ rest.head? = some 0x3C) := by
    rintro ⟨rfl, document⟩
    exact single document
  have step := passes_of_iteration
    (iteration_redirection flags rest areDigits isAngle noDocument inCommand)
  rwa [if_neg single, Nat.add_zero, ← List.drop_drop, List.drop_left, List.drop_one,
    List.tail_cons] at step

/-- The loop passes a redirection operator, with its descriptor in command
position. -/
theorem passes_redirection (flags : Flags) {digits : Bytes}
    (areDigits : ∀ digit ∈ digits, pgDigit digit = true) (operator : Redirection)
    (follows : ∀ other, rest.head? = some other → ¬ angle other)
    (inCommand : digits ≠ [] → flags.command = true) :
    ∃ found, Passes flags (digits ++ operator.render ++ rest) found
      (afterRedirection flags operator) rest := by
  have noInput : rest.head? ≠ some 0x3C := fun starts => follows _ starts (.inl rfl)
  have noOutput : rest.head? ≠ some 0x3E := fun starts => follows _ starts (.inr rfl)
  rw [List.append_assoc]
  cases operator with
  | input => exact ⟨_, passes_angle flags rest areDigits (.inl rfl) noInput inCommand⟩
  | output => exact ⟨_, passes_angle flags rest areDigits (.inr rfl) noOutput inCommand⟩
  | append =>
      have step := passes_of_iteration
        (iteration_redirection flags (0x3E :: rest) areDigits (.inr rfl) (by simp) inCommand)
      rw [List.head?_cons, if_pos rfl, Nat.add_assoc, ← List.drop_drop, List.drop_left] at step
      exact ⟨_, step⟩
  | readWrite =>
      have first := passes_angle flags (0x3E :: rest) areDigits (.inl rfl) (by simp) inCommand
      have noDigits : ∀ digit ∈ [], pgDigit digit = true := by simp
      have second := passes_angle { flags with redirect := true } rest noDigits (.inr rfl) noOutput
        (by simp)
      exact ⟨_, first.trans second⟩
  | clobber =>
      have first := passes_angle flags (0x7C :: rest) areDigits (.inr rfl) (by simp) inCommand
      exact ⟨_, first.trans (passes_separator _ (by decide) rest)⟩
  | duplicateInput =>
      have first := passes_angle flags (0x26 :: rest) areDigits (.inl rfl) (by simp) inCommand
      exact ⟨_, first.trans (passes_separator _ (by decide) rest)⟩
  | duplicateOutput =>
      have first := passes_angle flags (0x26 :: rest) areDigits (.inr rfl) (by simp) inCommand
      exact ⟨_, first.trans (passes_separator _ (by decide) rest)⟩

theorem parts_ne_nil (word : Word) : word.parts ≠ [] := by
  intro empty
  have nonempty := word.nonempty
  rw [empty] at nonempty
  cases nonempty

/-- How a part starts: not with an angle bracket, and with a digit or the sign
of a comment only by itself. -/
theorem part_starts {part : Part} (valid : part.valid = true) :
    ∃ first others, part.render = first :: others ∧ ¬ angle first ∧
      (partWhole part = true → breakByte first = false) ∧
      (pgDigit first = true → part = .byte first) ∧
      (first = 0x23 → part = .byte 0x23) := by
  cases part with
  | byte value =>
      refine ⟨value, [], rfl, ?_, by simp [partWhole], fun _ => rfl, congrArg _⟩
      rintro (rfl | rfl)
      · exact absurd valid (by decide)
      · exact absurd valid (by decide)
  | escaped value =>
      exact ⟨0x5C, [value], rfl, by decide, fun _ => rfl,
        fun isDigit => (by cases isDigit), by simp⟩
  | joint =>
      exact ⟨0x5C, [0x0A], rfl, by decide, fun _ => rfl,
        fun isDigit => (by cases isDigit), by simp⟩
  | single text =>
      exact ⟨0x27, _, rfl, by decide, fun _ => rfl,
        fun isDigit => (by cases isDigit), by simp⟩
  | double parts =>
      exact ⟨0x22, _, rfl, by decide, fun _ => rfl,
        fun isDigit => (by cases isDigit), by simp⟩
  | expansion text =>
      simp only [Part.valid, Shell.expansionText, Bool.and_eq_true, Bool.or_eq_true,
        beq_iff_eq] at valid
      rcases valid.1 with starts | starts
      · obtain ⟨others, rfl⟩ := List.head?_eq_some_iff.mp starts
        exact ⟨0x24, others, rfl, by decide, fun _ => rfl,
        fun isDigit => (by cases isDigit), by simp⟩
      · obtain ⟨others, rfl⟩ := List.head?_eq_some_iff.mp starts
        exact ⟨0x60, others, rfl, by decide, fun _ => rfl,
        fun isDigit => (by cases isDigit), by simp⟩

theorem word_starts (word : Word) :
    ∃ first others, word.render = first :: others ∧ ¬ angle first ∧
      (whole word = true → first ∉ stops) := by
  obtain ⟨part, parts, split⟩ := List.exists_cons_of_ne_nil (parts_ne_nil word)
  have valid := word.valid
  rw [split, List.all_cons, Bool.and_eq_true] at valid
  have notComment : part ≠ .byte 0x23 := by
    rintro rfl
    refine word.notComment ?_
    rw [split]
    rfl
  obtain ⟨first, others, renders, notAngle, noBreak, -, comment⟩ := part_starts valid.1
  refine ⟨first, others ++ parts.flatMap Part.render, ?_, notAngle, ?_⟩
  · rw [Word.render, split, List.flatMap_cons, renders]
    rfl
  · intro isWhole member
    rw [whole, split, List.all_cons, Bool.and_eq_true] at isWhole
    have breaks : ∀ sign ∈ stops, sign = 0x23 ∨ breakByte sign = true := by
      decide +kernel
    rcases breaks first member with isComment | isBreak
    · exact notComment (comment isComment)
    · rw [noBreak isWhole.1] at isBreak
      cases isBreak

theorem digits_of_angle {parts : List Part} (valid : parts.all Part.valid = true) {other : UInt8}
    (starts : ((parts.flatMap Part.render ++ rest).dropWhile pgDigit).head? = some other)
    (isAngle : angle other) :
    (∀ digit ∈ parts.flatMap Part.render, pgDigit digit = true) ∧
      (rest.dropWhile pgDigit).head? = some other := by
  induction parts with
  | nil => exact ⟨by simp, starts⟩
  | cons part parts ih =>
      rw [List.all_cons, Bool.and_eq_true] at valid
      obtain ⟨first, others, renders, notAngle, -, alone, -⟩ := part_starts valid.1
      by_cases isDigit : pgDigit first = true
      · obtain rfl := alone isDigit
        rw [List.flatMap_cons, Part.render, List.singleton_append, List.cons_append,
          List.dropWhile_cons_of_pos isDigit] at starts
        obtain ⟨digits, follows⟩ := ih valid.2 starts
        exact ⟨List.forall_mem_cons.mpr ⟨isDigit, digits⟩, follows⟩
      · rw [List.flatMap_cons, renders, List.cons_append, List.cons_append,
          List.dropWhile_cons_of_neg isDigit] at starts
        obtain rfl : first = other := Option.some.inj starts
        exact absurd isAngle notAngle

theorem descriptor_eq_zero (flags : Flags) {word : Word}
    (breaks : ∀ byte, rest.head? = some byte → breakByte byte = true)
    (apart : flags.command = true → ∀ byte, rest.head? = some byte → angle byte →
      ¬ ∀ digit ∈ word.render, pgDigit digit = true) :
    descriptor flags (word.render ++ rest) = 0 := by
  unfold descriptor
  dsimp only
  rw [if_neg]
  rintro ⟨command, starts⟩
  have ends : ∀ other, ((word.render ++ rest).dropWhile pgDigit).head? = some other →
      ¬ angle other := by
    intro other starts isAngle
    obtain ⟨digits, follows⟩ := digits_of_angle word.valid starts isAngle
    have same : rest.dropWhile pgDigit = rest := by
      cases rest with
      | nil => rfl
      | cons byte rest =>
          rw [List.dropWhile_cons_of_neg]
          exact fun isDigit => not_digit_of_break (breaks byte rfl) isDigit
    rw [same] at follows
    exact apart command other follows isAngle digits
  rcases starts with starts | starts
  · exact ends _ starts (.inl rfl)
  · exact ends _ starts (.inr rfl)

theorem passes_word (flags : Flags) {word : Word} (isWhole : whole word = true)
    (breaks : ∀ byte, rest.head? = some byte → breakByte byte = true)
    (apart : flags.command = true → ∀ byte, rest.head? = some byte → angle byte →
      ¬ ∀ digit ∈ word.render, pgDigit digit = true) :
    scanFrom flags (word.render ++ rest) = none ∨
      ∃ state, Passes flags (word.render ++ rest) [(readWord flags state).2]
          (readWord flags state).1 rest ∧
        (flags.command = true → flags.redirect = false → Captured word state) := by
  obtain ⟨first, others, renders, notAngle, notStop⟩ := word_starts word
  have start : iteration flags (word.render ++ rest) =
      (sshCommandWord (word.render ++ rest) (flags.command && !flags.redirect)).map
        fun read => ⟨read.2 - 1, (readWord flags read.1).1, (readWord flags read.1).2⟩ := by
    have eq : iteration flags (word.render ++ rest) =
        redirectionOrWord flags (word.render ++ rest) := by
      rw [renders]
      exact iteration_eq (notStop isWhole)
    rw [eq, redirectionOrWord, descriptor_eq_zero flags breaks apart, List.drop_zero]
    have known : ¬ (first = 0x3C ∨ first = 0x3E) := notAngle
    rw [renders]
    dsimp only [List.cons_append]
    rw [if_neg known]
  have positive : 0 < word.render.length := by
    rw [renders]
    exact Nat.succ_pos _
  rcases sshCommandWord_of_whole (flags.command && !flags.redirect) isWhole breaks with
    stopped | ⟨state, read, captured⟩
  · refine .inl (scanFrom_eq_none ?_ ?_)
    · rw [renders]
      simp
    · rw [start, stopped]
      rfl
  · refine .inr ⟨state, ?_, fun command redirect => captured (by rw [command, redirect]; rfl)⟩
    rw [read] at start
    have step := passes_of_iteration start
    rwa [Nat.sub_add_cancel positive, List.drop_left] at step

/-- The word of a number. -/
def numberWord (digits : Bytes) (areDigits : ∀ digit ∈ digits, pgDigit digit = true)
    (nonempty : digits ≠ []) : Word where
  parts := digits.map .byte
  valid := by
    have specials : ∀ sign ∈ bytes " \t\n;|&()<>'\"\\$`", pgDigit sign = false := by
      decide +kernel
    rw [List.all_map, List.all_eq_true]
    intro digit member
    have isDigit := areDigits digit member
    simp only [Function.comp_apply, Part.valid, Bool.not_eq_true']
    rw [Bool.eq_false_iff]
    intro isSpecial
    rw [specials digit (by simpa [Shell.special] using isSpecial)] at isDigit
    cases isDigit
  nonempty := by
    cases digits with
    | nil => exact absurd rfl nonempty
    | cons first others => rfl
  notComment := by
    cases digits with
    | nil => exact absurd rfl nonempty
    | cons first others =>
        have isDigit := areDigits first List.mem_cons_self
        intro isComment
        obtain rfl := Part.byte.inj (Option.some.inj isComment)
        cases isDigit

theorem passes_number {digits : Bytes} (areDigits : ∀ digit ∈ digits, pgDigit digit = true)
    (nonempty : digits ≠ []) (breaks : ∀ byte, rest.head? = some byte → breakByte byte = true)
    (outside : flags = { command := false, redirect := false }) :
    scanFrom flags (digits ++ rest) = none ∨
      ∃ found, Passes flags (digits ++ rest) found flags rest := by
  have renders : (numberWord digits areDigits nonempty).render = digits := by
    rw [Word.render, numberWord, List.flatMap_map]
    exact List.flatMap_singleton' digits
  have isWhole : whole (numberWord digits areDigits nonempty) = true := by
    rw [whole, numberWord, List.all_map, List.all_eq_true]
    intro digit member
    simp only [Function.comp_apply, partWhole, Bool.not_eq_true']
    rw [Bool.eq_false_iff]
    exact fun isBreak => not_digit_of_break isBreak (areDigits digit member)
  subst outside
  rcases passes_word { command := false, redirect := false } isWhole breaks (by simp) with
    stopped | ⟨state, passes, -⟩
  · rw [renders] at stopped
    exact .inl stopped
  · rw [renders] at passes
    exact .inr ⟨_, passes⟩

theorem loops_joints (capture : Bool) (state : WordState) (count : Nat) :
    Loops capture none state (List.replicate count Shell.joint).flatten none state := by
  induction count with
  | zero => exact loops_refl none state
  | succ count ih =>
      rw [List.replicate_succ, List.flatten_cons]
      exact (loops_joint capture state).trans ih

/-- The loop reads joints by themselves as a word. -/
theorem passes_joints (flags : Flags) (more : Nat)
    (breaks : ∀ byte, rest.head? = some byte → breakByte byte = true) :
    ∃ state, Passes flags ((Token.joints more).render ++ rest) [(readWord flags state).2]
      (readWord flags state).1 rest := by
  have renders : (Token.joints more).render =
      0x5C :: 0x0A :: (List.replicate more Shell.joint).flatten := rfl
  have read : ∀ capture, sshCommandWord ((Token.joints more).render ++ rest) capture =
      some ({}, (Token.joints more).render.length) := by
    intro capture
    have loops : wordLoop capture none {} ((Token.joints more).render ++ rest) =
        some ({}, (Token.joints more).render.length) := by
      rw [Token.render, loops_joints capture {} (more + 1) rest, wordLoop_of_break _ breaks]
      simp [shift]
    have positive : ¬ ((Token.joints more).render.length = 0 ∨
        ({} : WordState).overflow = true) := by
      rw [renders]
      simp
    rw [sshCommandWord, loops]
    exact if_neg positive
  have start : iteration flags ((Token.joints more).render ++ rest) =
      some ⟨(Token.joints more).render.length - 1, (readWord flags {}).1,
        (readWord flags {}).2⟩ := by
    have undescribed : descriptor flags ((Token.joints more).render ++ rest) = 0 := by
      unfold descriptor
      dsimp only
      rw [renders, List.cons_append, List.dropWhile_cons_of_neg (by decide)]
      exact if_neg (by simp)
    have eq : iteration flags ((Token.joints more).render ++ rest) =
        redirectionOrWord flags ((Token.joints more).render ++ rest) := by
      rw [renders]
      exact iteration_eq (by decide)
    rw [eq, redirectionOrWord, undescribed, List.drop_zero, read]
    rw [renders]
    rfl
  have step := passes_of_iteration start
  have positive : 0 < (Token.joints more).render.length := by
    rw [renders]
    exact Nat.succ_pos _
  rw [Nat.sub_add_cancel positive, List.drop_left] at step
  exact ⟨{}, step⟩

end

end Trstctl.Accessrules.Ssh
