import Trstctl.Accessrules.Ssh.Positions

/-!
# Every program is reported

The flags of the rule agree with the state of the shell over a whole line of
which no token is misread.  The rule then reports every program word of its
vocabulary, or refuses the line.
-/

namespace Trstctl.Accessrules.Ssh

open Go (Bytes bytes)
open Shell (Blank Control Part Piece Redirection Spaced State Token Word digitByte glued programs)

/-- The flags agree with the state of the shell. -/
def Related : State → Flags → Prop
  | .start, flags => flags = separated
  | .begun, flags => flags = separated
  | .target, flags => flags = { command := true, redirect := true }
  | .arguments, flags => flags.redirect = false
  | .argumentTarget, _ => True
  | .closed, flags => flags.redirect = false

/-- What may follow a token. -/
def Follows (rest : Bytes) : Token → Prop
  | .word word =>
      (∀ byte, rest.head? = some byte → breakByte byte = true) ∧
        ∀ byte, rest.head? = some byte → angle byte →
          ¬ ∀ digit ∈ word.render, pgDigit digit = true
  | .redirection _ _ => ∀ byte, rest.head? = some byte → ¬ angle byte
  | .control _ => True
  | .joints _ => ∀ byte, rest.head? = some byte → breakByte byte = true

section

variable {flags : Flags} {rest : Bytes} {next : State} {program : Option Bytes}

/-- The rule follows the shell over a token and reports its program. -/
def Advances (flags : Flags) (text rest : Bytes) (next : State) (program : Option Bytes) : Prop :=
  scanFrom flags text = none ∨
    ∃ found later, Passes flags text found later rest ∧ Related next later ∧
      ∀ value, program = some value → basename value ∈ sshOperationNames →
        some (basename value) ∈ found

theorem advances_of_passes {text : Bytes} {found : List (Option Bytes)} {later : Flags}
    (passes : Passes flags text found later rest) (related : Related next later) :
    Advances flags text rest next none :=
  .inr ⟨found, later, passes, related, by simp⟩

theorem redirect_readWord (flags : Flags) (state : WordState) :
    (readWord flags state).1.redirect = false := by
  unfold readWord
  split_ifs with redirect
  · rfl
  all_goals simpa using redirect

theorem advances_control {operator : Control} (noRedirect : flags.redirect = false)
    (steps : Shell.controlAfter operator = some (next, program)) :
    Advances flags (operator.render ++ rest) rest next program := by
  obtain ⟨found, passes⟩ := passes_control flags operator rest
  cases operator with
  | opens => cases steps
  | closes =>
      obtain ⟨rfl, rfl⟩ := Prod.mk.inj (Option.some.inj steps)
      exact advances_of_passes passes noRedirect
  | _ =>
      obtain ⟨rfl, rfl⟩ := Prod.mk.inj (Option.some.inj steps)
      exact advances_of_passes passes rfl

variable {word : Word}

theorem reports_program {state : WordState} {value : Bytes} (captured : Captured word state)
    (literal : word.value = some value) (unassigned : sshAssignment (scanned word) = false)
    (unjoined : quotedJoint word = false) (known : basename value ∈ sshOperationNames) :
    (readWord separated state).2 = some (basename value) := by
  obtain ⟨spelled, isStatic, -⟩ := captured.literal (by rw [literal]; rfl)
  have plain : ∀ name ∈ sshOperationNames, 0x5C ∉ name := by decide +kernel
  have base : basename (scanned word) = basename value :=
    (drops_word unjoined literal).basename_eq (plain _ known)
  have notKeyword : scanned word ∉ keywords := by
    intro isKeyword
    have others : ∀ keyword ∈ keywords, basename keyword ∉ sshOperationNames := by
      decide +kernel
    exact others _ isKeyword (base ▸ known)
  simp [readWord, separated, spelled, isStatic, unassigned, notKeyword, base, known]

theorem advances_commandWord (isWhole : whole word = true) (follows : Follows rest (.word word))
    (visible : word.assigns = false →
      sshAssignment (scanned word) = false ∧ quotedJoint word = false)
    (steps : Shell.commandWord word = some (next, program)) :
    Advances separated (word.render ++ rest) rest next program := by
  rcases passes_word separated isWhole follows.1 (fun _ => follows.2) with
    stopped | ⟨state, passes, captured⟩
  · exact .inl stopped
  · have captured := captured rfl rfl
    unfold Shell.commandWord at steps
    split_ifs at steps with assigns
    · obtain ⟨rfl, rfl⟩ := Prod.mk.inj (Option.some.inj steps)
      refine advances_of_passes passes ?_
      simp [Related, readWord, separated, captured.assignment assigns]
    · obtain ⟨value, literal, same⟩ := Option.map_eq_some_iff.mp steps
      obtain ⟨rfl, rfl⟩ := Prod.mk.inj same
      refine .inr ⟨_, _, passes, redirect_readWord separated state, ?_⟩
      intro other same known
      obtain rfl := Option.some.inj same
      obtain ⟨unassigned, unjoined⟩ := visible (by simpa using assigns)
      rw [List.mem_singleton]
      exact (reports_program captured literal unassigned unjoined known).symm

theorem spells_of_bare {parts : List Part} {texts : List Bytes}
    (bare : parts.mapM Part.bare = some texts) :
    Spells parts texts.flatten := by
  induction parts generalizing texts with
  | nil =>
      obtain rfl : [] = texts := by simpa using bare
      exact spells_nil
  | cons part parts ih =>
      rw [List.mapM_cons] at bare
      obtain ⟨value, here, bare⟩ := Option.bind_eq_some_iff.mp bare
      obtain ⟨later, there, same⟩ := Option.bind_eq_some_iff.mp bare
      obtain rfl := Option.some.inj same
      cases part with
      | byte byte =>
          obtain rfl := Option.some.inj here
          exact (ih there).cons byte
      | joint =>
          obtain rfl := Option.some.inj here
          exact (ih there).joint
      | escaped => cases here
      | single => cases here
      | double => cases here
      | expansion => cases here

theorem advances_opener {text : Bytes} (isWhole : whole word = true)
    (follows : Follows rest (.word word)) (bare : word.bare = some text)
    (opens : text ∈ Shell.openers) :
    Advances separated (word.render ++ rest) rest .start none := by
  rcases passes_word separated isWhole follows.1 (fun _ => follows.2) with
    stopped | ⟨state, passes, captured⟩
  · exact .inl stopped
  · obtain ⟨texts, texts_eq, rfl⟩ := Option.map_eq_some_iff.mp bare
    have spells := spells_of_bare texts_eq
    have isLiteral : word.value.isSome = true := by
      rw [Word.value, Option.isSome_map]
      exact spells.literal
    obtain ⟨sameWord, -, sameQuoted⟩ := (captured rfl rfl).literal isLiteral
    have spelled : state.word = texts.flatten := sameWord.trans spells.scanned
    have unquoted : state.quoted = false := sameQuoted.trans spells.unquoted
    have isKeyword : texts.flatten ∈ keywords := by
      have others : ∀ opener ∈ Shell.openers, 0x7B ∈ opener ∨ opener ∈ keywords := by decide
      rcases others _ opens with isBrace | isKeyword
      · have broken := List.all_eq_true.mp isWhole _ (spells.bytes 0x7B isBrace)
        cases broken
      · exact isKeyword
    have unassigned : sshAssignment texts.flatten = false := by
      have others : ∀ keyword ∈ keywords, sshAssignment keyword = false := by decide
      exact others _ isKeyword
    refine advances_of_passes passes ?_
    simp [Related, readWord, separated, spelled, unquoted, isKeyword, unassigned]

theorem bare_of_byte {byte : UInt8} (parts : word.parts = [.byte byte]) :
    word.bare = some [byte] := by
  rw [Word.bare, parts]
  rfl

theorem render_of_byte {byte : UInt8} (parts : word.parts = [.byte byte]) :
    word.render = [byte] := by
  rw [Word.render, parts]
  rfl

theorem advances_brace {state : State} (related : Related state flags)
    (isBrace : groupBrace state word = true)
    (steps : Shell.step state (.word word) = some (next, program)) :
    Advances flags (word.render ++ rest) rest next program := by
  simp only [groupBrace, Bool.or_eq_true, Bool.and_eq_true, beq_iff_eq] at isBrace
  rcases isBrace with ⟨rfl, parts⟩ | ⟨rfl | rfl, parts⟩
  · simp only [Shell.step, bare_of_byte parts] at steps
    rw [if_pos (by decide)] at steps
    obtain ⟨rfl, rfl⟩ := Prod.mk.inj (Option.some.inj steps)
    rw [render_of_byte parts]
    exact advances_of_passes (passes_separator flags (by decide) rest) rfl
  · simp only [Shell.step, bare_of_byte parts] at steps
    rw [if_neg (by decide), if_pos (by decide)] at steps
    obtain ⟨rfl, rfl⟩ := Prod.mk.inj (Option.some.inj steps)
    rw [render_of_byte parts]
    refine advances_of_passes (passes_closer flags (.inr rfl) rest) ?_
    rw [show flags = separated from related]
    rfl
  · simp only [Shell.step, bare_of_byte parts] at steps
    rw [if_neg (by decide), if_pos (by decide)] at steps
    obtain ⟨rfl, rfl⟩ := Prod.mk.inj (Option.some.inj steps)
    rw [render_of_byte parts]
    exact advances_of_passes (passes_closer flags (.inr rfl) rest) related

theorem advances_word (flags : Flags) (isWhole : whole word = true)
    (follows : Follows rest (.word word))
    (related : ∀ state, Related next (readWord flags state).1) :
    Advances flags (word.render ++ rest) rest next none := by
  rcases passes_word flags isWhole follows.1 (fun _ => follows.2) with
    stopped | ⟨state, passes, -⟩
  · exact .inl stopped
  · exact advances_of_passes passes (related state)

/-- The rule follows the shell over a word. -/
theorem advances_of_word {state : State} (related : Related state flags)
    (follows : Follows rest (.word word)) (read : misread state (.word word) = false)
    (steps : Shell.step state (.word word) = some (next, program)) :
    Advances flags (word.render ++ rest) rest next program := by
  simp only [misread, Bool.or_eq_false_iff, Bool.not_eq_false', Bool.or_eq_true] at read
  obtain ⟨⟨isWhole, visible⟩, notContinuer⟩ := read
  rcases isWhole with isWhole | isBrace
  · cases state with
    | start =>
        obtain rfl : flags = separated := related
        have unassigned : word.assigns = false →
            sshAssignment (scanned word) = false ∧ quotedJoint word = false := by
          simpa [commandState] using visible
        simp only [Shell.step] at steps
        cases bare : word.bare with
        | none =>
            simp only [bare] at steps
            exact advances_commandWord isWhole follows unassigned steps
        | some text =>
            simp only [bare] at steps
            split_ifs at steps with opens closes reserved
            · obtain ⟨rfl, rfl⟩ := Prod.mk.inj (Option.some.inj steps)
              exact advances_opener isWhole follows bare opens
            · obtain ⟨rfl, rfl⟩ := Prod.mk.inj (Option.some.inj steps)
              exact advances_word separated isWhole follows (redirect_readWord separated)
            · exact advances_commandWord isWhole follows unassigned steps
    | begun =>
        obtain rfl : flags = separated := related
        have unassigned : word.assigns = false →
            sshAssignment (scanned word) = false ∧ quotedJoint word = false := by
          simpa [commandState] using visible
        exact advances_commandWord isWhole follows unassigned steps
    | target =>
        obtain rfl : flags = { command := true, redirect := true } := related
        obtain ⟨rfl, rfl⟩ := Prod.mk.inj (Option.some.inj steps)
        exact advances_word _ isWhole follows fun _ => rfl
    | arguments =>
        obtain ⟨rfl, rfl⟩ := Prod.mk.inj (Option.some.inj steps)
        exact advances_word flags isWhole follows (redirect_readWord flags)
    | argumentTarget =>
        obtain ⟨rfl, rfl⟩ := Prod.mk.inj (Option.some.inj steps)
        exact advances_word flags isWhole follows (redirect_readWord flags)
    | closed =>
        simp only [Shell.step] at steps
        cases bare : word.bare with
        | none =>
            simp only [bare] at steps
            cases steps
        | some text =>
            simp only [bare] at steps
            split_ifs at steps with continues closes
            · simp [bare, continues] at notContinuer
            · obtain ⟨rfl, rfl⟩ := Prod.mk.inj (Option.some.inj steps)
              exact advances_word flags isWhole follows (redirect_readWord flags)
  · exact advances_brace related isBrace steps

variable {operator : Redirection}

theorem advances_prefixRedirection {digits : Bytes}
    (areDigits : ∀ digit ∈ digits, pgDigit digit = true)
    (follows : ∀ byte, rest.head? = some byte → ¬ angle byte) (joined : separates operator = false)
    (steps : some (State.target, none) = some (next, program)) :
    Advances separated (digits ++ operator.render ++ rest) rest next program := by
  obtain ⟨rfl, rfl⟩ := Prod.mk.inj (Option.some.inj steps)
  obtain ⟨found, passes⟩ := passes_redirection separated areDigits operator follows fun _ => rfl
  refine advances_of_passes passes ?_
  rw [afterRedirection, joined]
  rfl

theorem advances_argumentRedirection {digits : Bytes}
    (areDigits : ∀ digit ∈ digits, pgDigit digit = true)
    (follows : ∀ byte, rest.head? = some byte → ¬ angle byte)
    (noRedirect : flags.redirect = false) :
    Advances flags (digits ++ operator.render ++ rest) rest .argumentTarget none := by
  by_cases inCommand : digits ≠ [] → flags.command = true
  · obtain ⟨found, passes⟩ := passes_redirection flags areDigits operator follows inCommand
    exact advances_of_passes passes trivial
  · rw [Classical.not_imp, Bool.not_eq_true] at inCommand
    have outside : flags = { command := false, redirect := false } := by
      obtain ⟨command, redirect⟩ := flags
      obtain rfl : command = false := inCommand.2
      obtain rfl : redirect = false := noRedirect
      rfl
    have breaks : ∀ byte, (operator.render ++ rest).head? = some byte → breakByte byte = true := by
      intro byte starts
      cases operator <;>
        · obtain rfl := Option.some.inj starts
          decide
    have noDigits : ∀ digit ∈ [], pgDigit digit = true := by simp
    obtain ⟨others, second⟩ := passes_redirection flags noDigits operator follows (by simp)
    rw [List.append_assoc]
    rcases passes_number areDigits inCommand.1 breaks outside with stopped | ⟨found, first⟩
    · exact .inl stopped
    · exact advances_of_passes (first.trans second) trivial

theorem advances_of_redirection {state : State} {descriptor : List (Fin 10)}
    (related : Related state flags) (follows : Follows rest (.redirection descriptor operator))
    (read : misread state (.redirection descriptor operator) = false)
    (steps : Shell.step state (.redirection descriptor operator) = some (next, program)) :
    Advances flags (descriptor.map digitByte ++ operator.render ++ rest) rest next program := by
  have areDigits : ∀ digit ∈ descriptor.map digitByte, pgDigit digit = true := by
    intro digit member
    obtain ⟨value, -, rfl⟩ := List.mem_map.mp member
    exact pgDigit_digitByte value
  cases state with
  | start =>
      obtain rfl : flags = separated := related
      exact advances_prefixRedirection areDigits follows
        (by simpa [commandState, misread] using read)
        steps
  | begun =>
      obtain rfl : flags = separated := related
      exact advances_prefixRedirection areDigits follows
        (by simpa [commandState, misread] using read)
        steps
  | target => cases steps
  | arguments =>
      obtain ⟨rfl, rfl⟩ := Prod.mk.inj (Option.some.inj steps)
      exact advances_argumentRedirection areDigits follows related
  | argumentTarget => cases steps
  | closed => cases steps

theorem advances_of_token {state : State} {token : Token} (related : Related state flags)
    (follows : Follows rest token) (read : misread state token = false)
    (steps : Shell.step state token = some (next, program)) :
    Advances flags (token.render ++ rest) rest next program := by
  cases token with
  | word word => exact advances_of_word related follows read steps
  | redirection descriptor operator => exact advances_of_redirection related follows read steps
  | joints more =>
      obtain ⟨rfl, rfl⟩ := Prod.mk.inj (Option.some.inj steps)
      obtain ⟨word, passes⟩ := passes_joints flags more follows
      refine advances_of_passes passes ?_
      cases state with
      | arguments => exact redirect_readWord flags word
      | argumentTarget => trivial
      | closed => exact redirect_readWord flags word
      | _ => cases read
  | control operator =>
      cases state with
      | start =>
          obtain rfl : flags = separated := related
          obtain ⟨found, passes⟩ := passes_control separated operator rest
          cases operator with
          | newline =>
              obtain ⟨rfl, rfl⟩ := Prod.mk.inj (Option.some.inj steps)
              exact advances_of_passes passes rfl
          | opens =>
              obtain ⟨rfl, rfl⟩ := Prod.mk.inj (Option.some.inj steps)
              exact advances_of_passes passes rfl
          | closes =>
              obtain ⟨rfl, rfl⟩ := Prod.mk.inj (Option.some.inj steps)
              exact advances_of_passes passes rfl
          | _ => cases steps
      | begun => cases steps
      | target => cases steps
      | arguments => exact advances_control related steps
      | argumentTarget => cases steps
      | closed => exact advances_control related steps

end

section

variable {flags : Flags} {state next : State} {line rest : List Piece} {piece : Piece}
  {names : List Bytes}

theorem piece_starts (piece : Piece) (rest : Bytes) :
    (piece.blanks ≠ [] ∧
        ∃ first, (piece.render ++ rest).head? = some first ∧ breakByte first = true ∧
          ¬ angle first) ∨
      (piece.blanks = [] ∧ piece.render = piece.text) := by
  obtain ⟨blanks, token, cuts⟩ := piece
  cases blanks with
  | nil => exact .inr ⟨rfl, rfl⟩
  | cons blank blanks =>
      refine .inl ⟨by simp, blank.render, rfl, ?_, ?_⟩
      · cases blank <;> decide
      · cases blank <;> decide

/-- A piece that is not misread has its token as its text. -/
theorem text_of_read (read : aligned state (piece :: rest) = true) :
    misread state piece.token = false ∧ piece.text = piece.token.render := by
  rw [aligned, misreadPiece] at read
  simpa using (Bool.and_eq_true_iff.mp read).1

theorem break_of_control (operator : Control) (rest : Bytes) {byte : UInt8}
    (starts : (operator.render ++ rest).head? = some byte) :
    breakByte byte = true ∧ ¬ angle byte := by
  cases operator <;>
    · obtain rfl := Option.some.inj starts
      decide

theorem break_of_redirection (operator : Redirection) (rest : Bytes) {byte : UInt8}
    (starts : (operator.render ++ rest).head? = some byte) :
    breakByte byte = true := by
  cases operator <;>
    · obtain rfl := Option.some.inj starts
      decide

theorem bare_of_digits {parts : List Part} (valid : parts.all Part.valid = true)
    (digits : ∀ digit ∈ parts.flatMap Part.render, pgDigit digit = true) :
    (parts.mapM Part.bare).map List.flatten = some (parts.flatMap Part.render) := by
  induction parts with
  | nil => rfl
  | cons part parts ih =>
      rw [List.all_cons, Bool.and_eq_true] at valid
      obtain ⟨first, others, renders, -, -, alone, -⟩ := part_starts valid.1
      rw [List.flatMap_cons, renders] at digits
      obtain rfl := alone (digits first (by simp))
      have later := ih valid.2 fun digit member =>
        digits digit (List.mem_append_right _ member)
      obtain ⟨texts, texts_eq, same⟩ := Option.map_eq_some_iff.mp later
      rw [List.mapM_cons, texts_eq, List.flatMap_cons, ← same]
      rfl

/-- What follows a word in a line. -/
theorem follows_word {word : Word} (isWord : piece.token = .word word)
    (spaced : Spaced (piece :: rest)) (read : aligned next rest = true) :
    Follows (Shell.render rest) (.word word) := by
  cases rest with
  | nil =>
      rw [Shell.render, List.flatMap_nil]
      exact ⟨by simp, by simp⟩
  | cons second others =>
      have needed := spaced.1
      rw [isWord] at needed
      rw [Shell.render, List.flatMap_cons]
      rcases piece_starts second (others.flatMap Piece.render) with
        ⟨-, first, starts, isBreak, notAngle⟩ | ⟨noBlanks, renders⟩
      · rw [Follows, starts]
        refine ⟨?_, ?_⟩
        · rintro _ ⟨⟩
          exact isBreak
        · rintro _ ⟨⟩ isAngle
          exact absurd isAngle notAngle
      · have apart : glued (.word word) second.token = false := by
          rw [Bool.eq_false_iff]
          exact fun isGlued => needed isGlued noBlanks
        rw [renders, (text_of_read read).2]
        cases token : second.token with
        | word => rw [token] at apart; cases apart
        | joints => rw [token] at apart; cases apart
        | redirection descriptor operator =>
            rw [token] at apart
            simp only [glued, Bool.or_eq_false_iff, Bool.not_eq_false', List.isEmpty_iff] at apart
            obtain ⟨rfl, notNumber⟩ := apart
            have others : ¬ ∀ digit ∈ word.render, pgDigit digit = true := by
              intro digits
              have bare : word.bare = some word.render := bare_of_digits word.valid digits
              rw [bare] at notNumber
              have isNumber := List.all_eq_true.mpr digits
              exact absurd (isNumber.symm.trans notNumber) (by simp)
            exact ⟨fun byte starts => break_of_redirection operator _ starts,
              fun _ _ _ => others⟩
        | control operator =>
            refine ⟨fun byte starts => (break_of_control operator _ starts).1,
              fun byte starts isAngle => ?_⟩
            exact absurd isAngle (break_of_control operator _ starts).2

/-- What follows joints in a line. -/
theorem follows_joints {more : Nat} (isJoints : piece.token = .joints more)
    (spaced : Spaced (piece :: rest)) (read : aligned next rest = true) :
    Follows (Shell.render rest) (.joints more) := by
  cases rest with
  | nil => simp [Shell.render, Follows]
  | cons second others =>
      have needed := spaced.1
      rw [isJoints] at needed
      intro byte starts
      rw [Shell.render, List.flatMap_cons] at starts
      rcases piece_starts second (others.flatMap Piece.render) with
        ⟨-, first, startsBlank, isBreak, -⟩ | ⟨noBlanks, renders⟩
      · obtain rfl := Option.some.inj (startsBlank.symm.trans starts)
        exact isBreak
      · have apart : glued (.joints more) second.token = false := by
          rw [Bool.eq_false_iff]
          exact fun isGlued => needed isGlued noBlanks
        rw [renders, (text_of_read read).2] at starts
        cases token : second.token with
        | word => rw [token] at apart; cases apart
        | joints => rw [token] at apart; cases apart
        | redirection descriptor operator =>
            rw [token] at apart starts
            simp only [glued, Bool.not_eq_false', List.isEmpty_iff] at apart
            subst apart
            exact break_of_redirection operator _ starts
        | control operator =>
            rw [token] at starts
            exact (break_of_control operator _ starts).1

theorem follows_redirection {descriptor : List (Fin 10)} {operator : Redirection}
    (isTarget : next = .target ∨ next = .argumentTarget)
    (accepted : programs next rest = some names) (read : aligned next rest = true) :
    Follows (Shell.render rest) (.redirection descriptor operator) := by
  cases rest with
  | nil =>
      rcases isTarget with rfl | rfl
      · cases accepted
      · cases accepted
  | cons second others =>
      intro byte starts
      rw [Shell.render, List.flatMap_cons] at starts
      rcases piece_starts second (others.flatMap Piece.render) with
        ⟨-, first, startsBlank, -, notAngle⟩ | ⟨-, renders⟩
      · obtain rfl := Option.some.inj (startsBlank.symm.trans starts)
        exact notAngle
      · rw [programs] at accepted
        obtain ⟨⟨after, program⟩, steps, -⟩ := Option.bind_eq_some_iff.mp accepted
        rw [renders, (text_of_read read).2] at starts
        cases token : second.token with
        | word word =>
            obtain ⟨first, later, wordRenders, notAngle, -⟩ := word_starts word
            rw [token, Token.render, wordRenders] at starts
            obtain rfl := Option.some.inj starts
            exact notAngle
        | joints more =>
            rw [token] at starts
            obtain rfl := Option.some.inj starts
            decide
        | redirection => rw [token] at steps; rcases isTarget with rfl | rfl <;> cases steps
        | control => rw [token] at steps; rcases isTarget with rfl | rfl <;> cases steps

theorem follows_of_spaced (spaced : Spaced (piece :: rest)) {program : Option Bytes}
    (steps : Shell.step state piece.token = some (next, program))
    (accepted : programs next rest = some names) (read : aligned next rest = true) :
    Follows (Shell.render rest) piece.token := by
  cases token : piece.token with
  | word word => exact follows_word token spaced read
  | joints more => exact follows_joints token spaced read
  | redirection descriptor operator =>
      rw [token] at steps
      refine follows_redirection ?_ accepted read
      cases state with
      | start => exact .inl (Prod.mk.inj (Option.some.inj steps)).1.symm
      | begun => exact .inl (Prod.mk.inj (Option.some.inj steps)).1.symm
      | arguments => exact .inr (Prod.mk.inj (Option.some.inj steps)).1.symm
      | _ => cases steps
  | control => trivial

theorem spaced_tail (spaced : Spaced (piece :: rest)) : Spaced rest := by
  cases rest with
  | nil => trivial
  | cons second others => exact spaced.2

/-- The rule over a whole line of which it misreads no token. -/
theorem reads_of_aligned (related : Related state flags) (spaced : Spaced line)
    (accepted : programs state line = some names) (read : aligned state line = true) :
    scanFrom flags (Shell.render line) = none ∨
      ∃ found, scanFrom flags (Shell.render line) = some found ∧
        ∀ value ∈ names, basename value ∈ sshOperationNames → some (basename value) ∈ found := by
  induction line generalizing state flags names with
  | nil =>
      rw [programs] at accepted
      split_ifs at accepted
      obtain rfl := Option.some.inj accepted
      exact .inr ⟨[], Scanner.scan_nil _ _ _, by simp⟩
  | cons piece line ih =>
      rw [programs] at accepted
      obtain ⟨⟨next, program⟩, steps, accepted⟩ := Option.bind_eq_some_iff.mp accepted
      obtain ⟨others, acceptedLater, same⟩ := Option.bind_eq_some_iff.mp accepted
      obtain rfl := Option.some.inj same
      obtain ⟨readToken, tokenText⟩ := text_of_read read
      rw [aligned, steps, Bool.and_eq_true] at read
      have follows := follows_of_spaced spaced steps acceptedLater read.2
      obtain ⟨blanks, passesBlanks⟩ := passes_blanks flags piece.blanks
        (piece.token.render ++ Shell.render line)
      have text : Shell.render (piece :: line) =
          piece.blanks.map Blank.render ++ (piece.token.render ++ Shell.render line) := by
        rw [Shell.render, List.flatMap_cons, Piece.render, tokenText, List.append_assoc]
        rfl
      rw [text, passesBlanks]
      rcases advances_of_token related follows readToken steps with
        stopped | ⟨found, later, passes, relatedLater, reported⟩
      · exact .inl (by rw [stopped]; rfl)
      · rw [passes]
        rcases ih relatedLater (spaced_tail spaced) acceptedLater read.2 with
          stopped | ⟨foundLater, reads, reportedLater⟩
        · exact .inl (by rw [stopped]; rfl)
        · refine .inr ⟨blanks ++ (found ++ foundLater), by rw [reads]; rfl, ?_⟩
          intro value member known
          refine List.mem_append_right _ ?_
          rcases List.mem_append.mp member with member | member
          · exact List.mem_append_left _ (reported value (by simpa using member) known)
          · exact List.mem_append_right _ (reportedLater value member known)

end

/-- Every program word of the vocabulary in a line of the grammar is reported,
or the line is refused. -/
def Reported (line : List Piece) : Prop :=
  Spaced line → ∀ names, programs .start line = some names →
    ∀ value ∈ names, basename value ∈ sshOperationNames →
      sshOperations (Shell.render line) = none ∨
        ∃ operations, sshOperations (Shell.render line) = some operations ∧
          basename value ∈ operations

end Trstctl.Accessrules.Ssh
