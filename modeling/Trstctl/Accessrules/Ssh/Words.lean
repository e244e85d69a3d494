import Trstctl.Accessrules.Ssh.Guard
import Trstctl.Accessrules.Ssh.Shell

/-!
# Words as the SSH rule reads them

The rule ends a word at a brace or a carriage return, and at the blanks and
operators inside an expansion.  Every other word it reads to its end.  What it
takes for the value of a literal word is the value of the shell without some
backslashes, and with the newlines of the joints inside double quotes.
-/

namespace Trstctl.Accessrules.Ssh

open Go (Bytes bytes)
open Shell (Part QuotedPart Word)

/-- A byte at which the rule neither ends a word nor starts quoting. -/
def ordinary (byte : UInt8) : Bool :=
  !breakByte byte && byte != 0x5C && byte != 0x27 && byte != 0x22

/-- The rule does not end the double-quoted text in the part. -/
def quotedWhole : QuotedPart → Bool
  | .expansion text => !text.contains 0x22
  | _ => true

/-- The rule does not end the word in the part. -/
def partWhole : Part → Bool
  | .byte value => !breakByte value
  | .double parts => parts.all quotedWhole
  | .expansion text => text.all ordinary
  | _ => true

/-- The rule reads the word to its end. -/
def whole (word : Word) : Bool :=
  word.parts.all partWhole

/-- What the rule takes for the value of a part of a double-quoted text. -/
def quotedScanned : QuotedPart → Bytes
  | .byte value => [value]
  | .escaped value => [value]
  | .joint => [0x0A]
  | .expansion text => text

/-- What the rule takes for the value of a part. -/
def partScanned : Part → Bytes
  | .byte value => [value]
  | .escaped value => [value]
  | .joint => []
  | .single text => text
  | .double parts => parts.flatMap quotedScanned
  | .expansion text => text

/-- What the rule takes for the value of a word. -/
def scanned (word : Word) : Bytes :=
  word.parts.flatMap partScanned

/-- The part is quoted. -/
def partQuotes : Part → Bool
  | .single _ => true
  | .double _ => true
  | _ => false

/-- The part has a joint inside double quotes. -/
def partJoins : Part → Bool
  | .double parts => parts.contains .joint
  | _ => false

/-- The word has a joint inside double quotes. -/
def quotedJoint (word : Word) : Bool :=
  word.parts.any partJoins

section

variable {capture : Bool} {state later last : WordState} {text rest : Bytes} {byte : UInt8}

/-- `add` for every byte of a text. -/
def WordState.addAll (state : WordState) (capture : Bool) (text : Bytes) : WordState :=
  text.foldl (·.add capture ·) state

/-- What has been read stays read. -/
structure WordState.Extends (state later : WordState) : Prop where
  word : state.word <+: later.word
  overflow : later.overflow = false → state.overflow = false

theorem WordState.extends_refl (state : WordState) : state.Extends state :=
  ⟨List.prefix_refl _, id⟩

theorem WordState.Extends.trans (first : state.Extends later) (second : later.Extends last) :
    state.Extends last :=
  ⟨first.word.trans second.word, fun within => first.overflow (second.overflow within)⟩

theorem WordState.extends_add (state : WordState) (capture : Bool) (byte : UInt8) :
    state.Extends (state.add capture byte) := by
  unfold WordState.add
  split_ifs
  · exact ⟨List.prefix_append _ _, id⟩
  · exact ⟨List.prefix_refl _, by simp⟩
  · exact state.extends_refl

theorem WordState.extends_dynamic (state : WordState) (dynamic : Bool) :
    state.Extends { state with dynamic := dynamic } :=
  ⟨List.prefix_refl _, id⟩

theorem WordState.extends_quoted (state : WordState) (quoted : Bool) :
    state.Extends { state with quoted := quoted } :=
  ⟨List.prefix_refl _, id⟩

theorem WordState.extends_addAll (state : WordState) (capture : Bool) (text : Bytes) :
    state.Extends (state.addAll capture text) := by
  induction text generalizing state with
  | nil => exact state.extends_refl
  | cons byte text ih =>
      exact (state.extends_add capture byte).trans (ih _)

theorem WordState.addAll_append (state : WordState) (first second : Bytes) :
    state.addAll capture (first ++ second) = (state.addAll capture first).addAll capture second :=
  List.foldl_append

@[simp] theorem WordState.add_quoted (state : WordState) (byte : UInt8) (quoted : Bool) :
    { state with quoted := quoted }.add capture byte =
      { state.add capture byte with quoted := quoted } := by
  unfold WordState.add
  split_ifs <;> rfl

@[simp] theorem WordState.addAll_quoted (state : WordState) (text : Bytes) (quoted : Bool) :
    { state with quoted := quoted }.addAll capture text =
      { state.addAll capture text with quoted := quoted } := by
  induction text generalizing state with
  | nil => rfl
  | cons byte text ih =>
      change ({ state with quoted := quoted }.add capture byte).addAll capture text = _
      rw [add_quoted, ih]
      rfl

@[simp] theorem WordState.dynamic_addAll (state : WordState) (text : Bytes) :
    (state.addAll capture text).dynamic = state.dynamic := by
  induction text generalizing state with
  | nil => rfl
  | cons byte text ih =>
      change ((state.add capture byte).addAll capture text).dynamic = _
      rw [ih, WordState.add]
      split_ifs <;> rfl

@[simp] theorem WordState.quoted_addAll (state : WordState) (text : Bytes) :
    (state.addAll capture text).quoted = state.quoted := by
  induction text generalizing state with
  | nil => rfl
  | cons byte text ih =>
      change ((state.add capture byte).addAll capture text).quoted = _
      rw [ih, WordState.add]
      split_ifs <;> rfl

theorem WordState.addAll_unquoted (state : WordState) (capture : Bool) (text : Bytes) :
    { state.addAll capture text with quoted := state.quoted || false } =
      state.addAll capture text := by
  rw [Bool.or_false, ← state.quoted_addAll text]

theorem WordState.word_addAll (within : (state.addAll true text).overflow = false) :
    (state.addAll true text).word = state.word ++ text := by
  induction text generalizing state with
  | nil => exact (List.append_nil _).symm
  | cons byte text ih =>
      have later : ((state.add true byte).addAll true text).word =
          (state.add true byte).word ++ text :=
        ih within
      have first : (state.add true byte).overflow = false :=
        (WordState.extends_addAll _ _ text).overflow within
      change ((state.add true byte).addAll true text).word = _
      rw [later]
      by_cases short : state.word.length < 4096
      · simp [WordState.add, short]
      · simp [WordState.add, short] at first

/-- What a loop returns after further bytes. -/
def shift (count : Nat) (result : WordState × Nat) : WordState × Nat :=
  (result.1, result.2 + count)

theorem map_shift_map (first second : Nat) (result : Option (WordState × Nat)) :
    (result.map (shift first)).map (shift second) = result.map (shift (first + second)) := by
  rw [Option.map_map]
  congr 1
  funext pair
  simp [shift, Nat.add_assoc]

theorem wordLoop_bare (capture : Bool) (state : WordState) (byte : UInt8) (rest : Bytes) :
    wordLoop capture none state (byte :: rest) =
      if breakByte byte then some (state, 0)
      else if byte == 0x5C then
        match rest with
        | [] => none
        | next :: after =>
            (wordLoop capture none (if next == 0x0A then state else state.add capture next)
              after).map (shift 2)
      else if byte == 0x27 || byte == 0x22 then
        (wordLoop capture (some byte) { state with quoted := true } rest).map (shift 1)
      else
        (wordLoop capture none
          ({ state with dynamic := state.dynamic || expands byte }.add capture byte) rest).map
          (shift 1) := by
  cases rest with
  | nil => rfl
  | cons next after => rfl

theorem wordLoop_quoted
    (capture : Bool) (quote : UInt8) (state : WordState) (byte : UInt8) (rest : Bytes) :
    wordLoop capture (some quote) state (byte :: rest) =
      if byte == quote then (wordLoop capture none state rest).map (shift 1)
      else if quote == 0x22 && byte == 0x5C then
        match rest with
        | [] => none
        | next :: after =>
            (wordLoop capture (some quote) (state.add capture next) after).map (shift 2)
      else
        (wordLoop capture (some quote)
          ({ state with dynamic := state.dynamic || (quote == 0x22 && expands byte) }.add capture
            byte) rest).map (shift 1) := by
  cases rest with
  | nil => rfl
  | cons next after => rfl

/-- The loop passes a text and goes on in another state. -/
def Loops (capture : Bool) (quote : Option UInt8) (state : WordState) (text : Bytes)
    (after : Option UInt8) (later : WordState) : Prop :=
  ∀ rest, wordLoop capture quote state (text ++ rest) =
    (wordLoop capture after later rest).map (shift text.length)

theorem loops_refl (quote : Option UInt8) (state : WordState) :
    Loops capture quote state [] quote state := by
  intro rest
  rw [List.nil_append]
  cases wordLoop capture quote state rest with
  | none => rfl
  | some result => rfl

theorem Loops.trans {quote middle after : Option UInt8} {second : Bytes}
    (first : Loops capture quote state text middle later)
    (next : Loops capture middle later second after last) :
    Loops capture quote state (text ++ second) after last := by
  intro rest
  rw [List.append_assoc, first, next, map_shift_map, List.length_append, Nat.add_comm]

theorem loops_ordinary (capture : Bool) (state : WordState) (isOrdinary : ordinary byte = true) :
    Loops capture none state [byte] none
      ({ state with dynamic := state.dynamic || expands byte }.add capture byte) := by
  intro rest
  simp only [ordinary, Bool.and_eq_true, Bool.not_eq_true', bne_iff_ne] at isOrdinary
  obtain ⟨⟨⟨noBreak, noBackslash⟩, noSingle⟩, noDouble⟩ := isOrdinary
  rw [List.singleton_append, wordLoop_bare]
  simp only [noBreak, beq_iff_eq, noBackslash, noSingle, noDouble, Bool.false_eq_true, if_false,
    Bool.or_eq_true, or_self]
  rfl

theorem loops_escaped (notNewline : byte ≠ 0x0A) :
    Loops capture none state [0x5C, byte] none (state.add capture byte) := by
  intro rest
  have noBreak : breakByte 0x5C = false := by decide
  rw [List.cons_append, List.singleton_append, wordLoop_bare]
  simp only [noBreak, beq_self_eq_true, beq_iff_eq, notNewline, Bool.false_eq_true, if_false,
    if_true]
  rfl

theorem loops_joint (capture : Bool) (state : WordState) :
    Loops capture none state Shell.joint none state := by
  intro rest
  have noBreak : breakByte 0x5C = false := by decide
  rw [Shell.joint, List.cons_append, List.singleton_append, wordLoop_bare]
  simp only [noBreak, beq_self_eq_true, Bool.false_eq_true, if_false, if_true]
  rfl

theorem loops_open (capture : Bool) (state : WordState) (isQuote : byte = 0x27 ∨ byte = 0x22) :
    Loops capture none state [byte] (some byte) { state with quoted := true } := by
  intro rest
  have noBreak : breakByte byte = false := by
    rcases isQuote with rfl | rfl <;> decide
  have noBackslash : byte ≠ 0x5C := by
    rcases isQuote with rfl | rfl <;> decide
  rw [List.singleton_append, wordLoop_bare]
  simp only [noBreak, beq_iff_eq, noBackslash, isQuote, Bool.or_eq_true, Bool.false_eq_true,
    if_false, if_true]
  rfl

theorem loops_close (quote : UInt8) :
    Loops capture (some quote) state [quote] none state := by
  intro rest
  rw [List.singleton_append, wordLoop_quoted]
  simp only [beq_self_eq_true, if_true]
  rfl

theorem loops_expansion (capture : Bool) (state : WordState)
    (allOrdinary : text.all ordinary = true) :
    ∃ later, Loops capture none state text none later ∧ state.Extends later := by
  induction text generalizing state with
  | nil => exact ⟨state, loops_refl _ state, state.extends_refl⟩
  | cons byte text ih =>
      rw [List.all_cons, Bool.and_eq_true] at allOrdinary
      obtain ⟨later, loops, extension⟩ := ih
        ({ state with dynamic := state.dynamic || expands byte }.add capture byte) allOrdinary.2
      exact ⟨later, (loops_ordinary capture state allOrdinary.1).trans loops,
        ((state.extends_dynamic _).trans (WordState.extends_add _ capture byte)).trans extension⟩

theorem loops_single (unquoted : 0x27 ∉ text) :
    Loops capture (some 0x27) state text (some 0x27) (state.addAll capture text) := by
  induction text generalizing state with
  | nil => exact loops_refl _ state
  | cons byte text ih =>
      rw [List.mem_cons, not_or] at unquoted
      have first : Loops capture (some 0x27) state [byte] (some 0x27) (state.add capture byte) := by
        intro rest
        have noClose : (byte == 0x27) = false := by simpa using Ne.symm unquoted.1
        have notDouble : ((0x27 : UInt8) == 0x22) = false := rfl
        rw [List.singleton_append, wordLoop_quoted]
        simp only [noClose, notDouble, Bool.false_and, Bool.or_false, Bool.false_eq_true, if_false]
        rfl
      exact first.trans (ih unquoted.2)

theorem loops_quotedByte (capture : Bool) (state : WordState) (noQuote : byte ≠ 0x22)
    (noBackslash : byte ≠ 0x5C) :
    Loops capture (some 0x22) state [byte] (some 0x22)
      ({ state with dynamic := state.dynamic || expands byte }.add capture byte) := by
  intro rest
  have noClose : (byte == 0x22) = false := by simpa using noQuote
  have noEscape : (byte == 0x5C) = false := by simpa using noBackslash
  have isDouble : ((0x22 : UInt8) == 0x22) = true := rfl
  rw [List.singleton_append, wordLoop_quoted]
  simp only [noClose, noEscape, isDouble, Bool.true_and, Bool.false_eq_true, if_false]
  rfl

theorem loops_quotedEscape (state : WordState) (byte : UInt8) :
    Loops capture (some 0x22) state [0x5C, byte] (some 0x22) (state.add capture byte) := by
  intro rest
  have noClose : ((0x5C : UInt8) == 0x22) = false := rfl
  rw [List.cons_append, List.singleton_append, wordLoop_quoted]
  simp only [noClose, beq_self_eq_true, Bool.true_and, Bool.false_eq_true, if_false, if_true]
  rfl

/-- The loop passes an expansion without a quote inside double quotes. -/
theorem loops_quotedExpansion (capture : Bool) (state : WordState) (unquoted : 0x22 ∉ text)
    (complete : text.getLast? ≠ some 0x5C) :
    ∃ later, Loops capture (some 0x22) state text (some 0x22) later ∧ state.Extends later := by
  induction size : text.length using Nat.strong_induction_on generalizing state text with
  | _ length ih =>
    cases text with
    | nil => exact ⟨state, loops_refl _ state, state.extends_refl⟩
    | cons byte text =>
        rw [List.mem_cons, not_or] at unquoted
        by_cases isEscape : byte = 0x5C
        · subst isEscape
          cases text with
          | nil => exact absurd rfl complete
          | cons next text =>
              rw [List.mem_cons, not_or] at unquoted
              have completeLater : text.getLast? ≠ some 0x5C := by
                intro isLast
                refine complete ?_
                rw [List.getLast?_cons, List.getLast?_cons, isLast]
                rfl
              have shorter : text.length < length := by
                rw [← size, List.length_cons, List.length_cons]
                omega
              obtain ⟨later, loops, extension⟩ := ih _ shorter
                (state.add capture next) unquoted.2.2 completeLater rfl
              exact ⟨later, (loops_quotedEscape state next).trans loops,
                (state.extends_add capture next).trans extension⟩
        · have completeLater : text.getLast? ≠ some 0x5C := by
            intro isLast
            refine complete ?_
            rw [List.getLast?_cons, isLast]
            rfl
          have first := loops_quotedByte capture state (Ne.symm unquoted.1) isEscape
          obtain ⟨later, loops, extension⟩ := ih text.length
            (by rw [← size]; simp) _ unquoted.2 completeLater rfl
          exact ⟨later, first.trans loops, ((state.extends_dynamic _).trans
            (WordState.extends_add _ capture byte)).trans extension⟩

theorem loops_quotedPart (capture : Bool) (state : WordState) {part : QuotedPart}
    (valid : part.valid = true) (isWhole : quotedWhole part = true) :
    ∃ later, Loops capture (some 0x22) state part.render (some 0x22) later ∧
      state.Extends later ∧
      (part.value.isSome = true → later = state.addAll capture (quotedScanned part)) := by
  cases part with
  | byte value =>
      have other : ∀ sign, QuotedPart.valid (.byte sign) = false → value ≠ sign := by
        rintro _ invalid rfl
        rw [valid] at invalid
        cases invalid
      have notExpanding : expands value = false := by
        simp [expands, other 0x24 (by decide), other 0x60 (by decide)]
      have loops := loops_quotedByte capture state (other 0x22 (by decide))
        (other 0x5C (by decide))
      rw [notExpanding, Bool.or_false] at loops
      exact ⟨_, loops, state.extends_add capture value, fun _ => rfl⟩
  | escaped value =>
      exact ⟨_, loops_quotedEscape state value, state.extends_add capture value, fun _ => rfl⟩
  | joint =>
      exact ⟨_, loops_quotedEscape state 0x0A, state.extends_add capture 0x0A, fun _ => rfl⟩
  | expansion text =>
      simp only [QuotedPart.valid, Shell.expansionText, Bool.and_eq_true, bne_iff_ne] at valid
      have unquoted : 0x22 ∉ text := by simpa [quotedWhole] using isWhole
      obtain ⟨later, loops, extension⟩ := loops_quotedExpansion capture state unquoted valid.2
      exact ⟨later, loops, extension, fun isLiteral => by cases isLiteral⟩

theorem isSome_of_mapM_cons {α β : Type} {f : α → Option β} {first : α} {others : List α}
    (isSome : ((first :: others).mapM f).isSome = true) :
    (f first).isSome = true ∧ (others.mapM f).isSome = true := by
  rw [List.mapM_cons] at isSome
  cases here : f first with
  | none =>
      rw [here] at isSome
      cases isSome
  | some value =>
      cases later : others.mapM f with
      | none =>
          rw [here, later] at isSome
          cases isSome
      | some values => exact ⟨rfl, rfl⟩

theorem loops_quotedParts (capture : Bool) (state : WordState) {parts : List QuotedPart}
    (valid : parts.all QuotedPart.valid = true) (isWhole : parts.all quotedWhole = true) :
    ∃ later, Loops capture (some 0x22) state (parts.flatMap QuotedPart.render) (some 0x22) later ∧
      state.Extends later ∧
      ((parts.mapM QuotedPart.value).isSome = true →
        later = state.addAll capture (parts.flatMap quotedScanned)) := by
  induction parts generalizing state with
  | nil => exact ⟨state, loops_refl _ state, state.extends_refl, fun _ => rfl⟩
  | cons part parts ih =>
      rw [List.all_cons, Bool.and_eq_true] at valid isWhole
      obtain ⟨middle, first, extension, exact⟩ :=
        loops_quotedPart capture state valid.1 isWhole.1
      obtain ⟨later, rest, extensionLater, exactLater⟩ :=
        ih middle valid.2 isWhole.2
      refine ⟨later, first.trans rest, extension.trans extensionLater, fun isLiteral => ?_⟩
      obtain ⟨literalFirst, literalLater⟩ := isSome_of_mapM_cons isLiteral
      rw [exactLater literalLater, exact literalFirst, List.flatMap_cons, WordState.addAll_append]

/-- The loop passes a part of a word. -/
theorem loops_part (capture : Bool) (state : WordState) {part : Part} (valid : part.valid = true)
    (isWhole : partWhole part = true) :
    ∃ later, Loops capture none state part.render none later ∧ state.Extends later ∧
      (part.value.isSome = true →
        later = { state.addAll capture (partScanned part) with
          quoted := state.quoted || partQuotes part }) := by
  cases part with
  | byte value =>
      have other : ∀ sign, Part.valid (.byte sign) = false → value ≠ sign := by
        rintro _ invalid rfl
        rw [valid] at invalid
        cases invalid
      have isOrdinary : ordinary value = true := by
        have noBreak : breakByte value = false := by simpa [partWhole] using isWhole
        simp [ordinary, noBreak, other 0x5C (by decide), other 0x27 (by decide),
          other 0x22 (by decide)]
      have notExpanding : expands value = false := by
        simp [expands, other 0x24 (by decide), other 0x60 (by decide)]
      have loops := loops_ordinary capture state isOrdinary
      rw [notExpanding, Bool.or_false] at loops
      exact ⟨_, loops, state.extends_add capture value,
        fun _ => (state.addAll_unquoted capture [value]).symm⟩
  | escaped value =>
      have notNewline : value ≠ 0x0A := by simpa [Part.valid] using valid
      exact ⟨_, loops_escaped notNewline, state.extends_add capture value,
        fun _ => (state.addAll_unquoted capture [value]).symm⟩
  | joint =>
      exact ⟨state, loops_joint capture state, state.extends_refl,
        fun _ => (state.addAll_unquoted capture []).symm⟩
  | single text =>
      have unquoted : 0x27 ∉ text := by simpa [Part.valid] using valid
      have loops := ((loops_open capture state (.inl rfl)).trans (loops_single unquoted)).trans
        (loops_close 0x27)
      refine ⟨_, loops, (state.extends_quoted true).trans (WordState.extends_addAll _ _ _), ?_⟩
      intro _
      simp [partScanned, partQuotes]
  | double parts =>
      obtain ⟨later, inside, extension, exact⟩ :=
        loops_quotedParts capture { state with quoted := true } valid isWhole
      have loops := ((loops_open capture state (.inr rfl)).trans inside).trans (loops_close 0x22)
      refine ⟨later, loops, (state.extends_quoted true).trans extension, fun isLiteral => ?_⟩
      rw [exact (by simpa [Part.value] using isLiteral)]
      simp [partScanned, partQuotes]
  | expansion text =>
      obtain ⟨later, loops, extension⟩ := loops_expansion capture state isWhole
      exact ⟨later, loops, extension, fun isLiteral => by cases isLiteral⟩

variable {parts : List Part}

theorem loops_parts (capture : Bool) (state : WordState)
    (valid : parts.all Part.valid = true) (isWhole : parts.all partWhole = true) :
    ∃ later, Loops capture none state (parts.flatMap Part.render) none later ∧
      state.Extends later ∧
      ((parts.mapM Part.value).isSome = true →
        later = { state.addAll capture (parts.flatMap partScanned) with
          quoted := state.quoted || parts.any partQuotes }) := by
  induction parts generalizing state with
  | nil =>
      exact ⟨state, loops_refl _ state, state.extends_refl,
        fun _ => (state.addAll_unquoted capture []).symm⟩
  | cons part parts ih =>
      rw [List.all_cons, Bool.and_eq_true] at valid isWhole
      obtain ⟨middle, first, extension, exact⟩ := loops_part capture state valid.1 isWhole.1
      obtain ⟨later, rest, extensionLater, exactLater⟩ :=
        ih middle valid.2 isWhole.2
      refine ⟨later, first.trans rest, extension.trans extensionLater, fun isLiteral => ?_⟩
      obtain ⟨literalFirst, literalLater⟩ := isSome_of_mapM_cons isLiteral
      rw [exactLater literalLater, exact literalFirst, List.flatMap_cons,
        WordState.addAll_append, WordState.addAll_quoted, List.any_cons, ← Bool.or_assoc]

theorem wordLoop_of_break (state : WordState)
    (breaks : ∀ byte, rest.head? = some byte → breakByte byte = true) :
    wordLoop capture none state rest = some (state, 0) := by
  cases rest with
  | nil => rfl
  | cons byte rest =>
      rw [wordLoop_bare, breaks byte rfl, if_pos rfl]

/-- Parts without any quoting, and what they spell. -/
structure Spells (parts : List Part) (text : Bytes) : Prop where
  literal : (parts.mapM Part.value).isSome = true
  scanned : parts.flatMap partScanned = text
  unquoted : parts.any partQuotes = false
  bytes : ∀ byte ∈ text, Part.byte byte ∈ parts

theorem spells_nil : Spells [] [] :=
  ⟨rfl, rfl, rfl, by simp⟩

theorem isSome_mapM_cons {α β : Type} {f : α → Option β} {first : α} {others : List α}
    (here : (f first).isSome = true) (later : (others.mapM f).isSome = true) :
    ((first :: others).mapM f).isSome = true := by
  obtain ⟨value, value_eq⟩ := Option.isSome_iff_exists.mp here
  obtain ⟨values, values_eq⟩ := Option.isSome_iff_exists.mp later
  rw [List.mapM_cons, value_eq, values_eq]
  rfl

theorem Spells.cons (spells : Spells parts text) (byte : UInt8) :
    Spells (.byte byte :: parts) (byte :: text) where
  literal := isSome_mapM_cons rfl spells.literal
  scanned := by rw [List.flatMap_cons, spells.scanned]; rfl
  unquoted := spells.unquoted
  bytes := by
    intro other member
    rcases List.mem_cons.mp member with rfl | member
    · exact List.mem_cons_self
    · exact List.mem_cons_of_mem _ (spells.bytes other member)

theorem Spells.joint (spells : Spells parts text) :
    Spells (.joint :: parts) text where
  literal := isSome_mapM_cons rfl spells.literal
  scanned := by rw [List.flatMap_cons, spells.scanned]; rfl
  unquoted := spells.unquoted
  bytes := fun byte member => List.mem_cons_of_mem _ (spells.bytes byte member)

/-- The parts in front of the value of an assignment spell its name and the
equals sign. -/
theorem assignedName_split {name : Bytes} (assigned : Word.assignedName parts = some name) :
    ∃ front value, parts = front ++ value ∧ Spells front (name ++ [0x3D]) ∧ 0x3D ∉ name := by
  fun_induction Word.assignedName parts generalizing name with
  | case1 rest =>
      obtain rfl := Option.some.inj assigned
      exact ⟨[.byte 0x3D], rest, rfl, spells_nil.cons 0x3D, by simp⟩
  | case2 byte rest different ih =>
      obtain ⟨later, assignedLater, rfl⟩ := Option.map_eq_some_iff.mp assigned
      obtain ⟨front, value, rfl, spells, absent⟩ := ih assignedLater
      refine ⟨.byte byte :: front, value, rfl, spells.cons byte, ?_⟩
      rw [List.mem_cons, not_or]
      exact ⟨Ne.symm different, absent⟩
  | case3 rest ih =>
      obtain ⟨front, value, rfl, spells, absent⟩ := ih assigned
      exact ⟨.joint :: front, value, rfl, spells.joint, absent⟩
  | case4 => cases assigned

theorem sshAssignment_of_prefix {name word : Bytes} (isName : isName name = true)
    (absent : 0x3D ∉ name) (isPrefix : name ++ [0x3D] <+: word) :
    sshAssignment word = true := by
  obtain ⟨value, rfl⟩ := isPrefix
  have taken : (name ++ [0x3D] ++ value).takeWhile (· != 0x3D) = name := by
    rw [List.append_assoc, List.takeWhile_append_of_pos]
    · simp
    · intro byte member
      simpa using ne_of_mem_of_not_mem member absent
  rw [sshAssignment, taken, isName]
  simp

/-- What the rule has read of a word in command position. -/
structure Captured (word : Word) (state : WordState) : Prop where
  literal : word.value.isSome = true →
    state.word = scanned word ∧ state.dynamic = false ∧
      state.quoted = word.parts.any partQuotes
  assignment : word.assigns = true → sshAssignment state.word = true

variable {word : Word}

theorem isName_of_assigns (assigns : word.assigns = true) :
    ∃ name, Word.assignedName word.parts = some name ∧ isName name = true := by
  unfold Word.assigns at assigns
  split at assigns
  · next first others assigned =>
      refine ⟨first :: others, assigned, ?_⟩
      simp only [Word.nameStart, Bool.and_eq_true, List.all_eq_true] at assigns
      simp only [isName, nameByte, pgDigit, Bool.and_eq_true, List.all_eq_true]
      refine ⟨?_, fun byte member => ?_⟩
      · have starts := assigns.1
        simp only [Bool.or_eq_true] at starts ⊢
        tauto
      · have continues := assigns.2 byte member
        simp only [Bool.or_eq_true, Bool.not_false, Bool.true_and] at continues ⊢
        tauto
  · cases assigns

theorem sshAssignment_of_loop (isWhole : whole word = true)
    (breaks : ∀ byte, rest.head? = some byte → breakByte byte = true)
    (assigns : word.assigns = true)
    (read : wordLoop true none {} (word.render ++ rest) = some (state, word.render.length))
    (within : state.overflow = false) :
    sshAssignment state.word = true := by
  obtain ⟨name, assigned, named⟩ := isName_of_assigns assigns
  obtain ⟨front, value, split, spells, absent⟩ := assignedName_split assigned
  have valid := word.valid
  rw [whole, split, List.all_append, Bool.and_eq_true] at isWhole
  rw [split, List.all_append, Bool.and_eq_true] at valid
  obtain ⟨middle, first, -, exact⟩ := loops_parts true {} valid.1 isWhole.1
  obtain ⟨later, second, extension, -⟩ := loops_parts true middle valid.2 isWhole.2
  have loops := first.trans second
  rw [← List.flatMap_append, ← split] at loops
  rw [Word.render, loops rest, wordLoop_of_break later breaks] at read
  obtain rfl : later = state := congrArg Prod.fst (Option.some.inj read)
  refine sshAssignment_of_prefix named absent ?_
  have same := exact spells.literal
  rw [spells.scanned] at same
  have captured : middle.word = name ++ [0x3D] := by
    have shorter := extension.overflow within
    subst same
    exact (WordState.word_addAll shorter).trans (List.nil_append _)
  rw [← captured]
  exact extension.word

theorem sshCommandWord_of_whole (capture : Bool) (isWhole : whole word = true)
    (breaks : ∀ byte, rest.head? = some byte → breakByte byte = true) :
    sshCommandWord (word.render ++ rest) capture = none ∨
      ∃ state, sshCommandWord (word.render ++ rest) capture = some (state, word.render.length) ∧
        (capture = true → Captured word state) := by
  obtain ⟨state, loops, -, exact⟩ := loops_parts capture {} word.valid isWhole
  have read : wordLoop capture none {} (word.render ++ rest) =
      some (state, word.render.length) := by
    rw [Word.render, loops rest, wordLoop_of_break state breaks]
    simp [shift]
  unfold sshCommandWord
  rw [read]
  dsimp only
  split_ifs with refused
  · exact .inl rfl
  · rw [not_or, Bool.not_eq_true] at refused
    refine .inr ⟨state, rfl, ?_⟩
    rintro rfl
    refine ⟨fun isLiteral => ?_, fun assigns => ?_⟩
    · have same := exact (by simpa [Word.value] using isLiteral)
      subst same
      refine ⟨?_, by simp, by simp⟩
      exact (WordState.word_addAll refused.2).trans (List.nil_append _)
    · exact sshAssignment_of_loop isWhole breaks assigns read refused.2

end

/-- A value without some backslashes. -/
inductive Drops : Bytes → Bytes → Prop where
  | nil : Drops [] []
  | keep
      (byte : UInt8)
      {value less : Bytes}
      (drops : Drops value less) :
      Drops (byte :: value) (byte :: less)
  | drop
      (byte : UInt8)
      {value less : Bytes}
      (drops : Drops value less) :
      Drops (0x5C :: byte :: value) (byte :: less)

section

variable {value less : Bytes}

theorem drops_refl (value : Bytes) : Drops value value := by
  induction value with
  | nil => exact .nil
  | cons byte value ih => exact .keep byte ih

theorem Drops.append {other lessOther : Bytes} (first : Drops value less)
    (second : Drops other lessOther) :
    Drops (value ++ other) (less ++ lessOther) := by
  induction first with
  | nil => exact second
  | keep byte _ ih => exact .keep byte ih
  | drop byte _ ih => exact .drop byte ih

theorem Drops.mem_iff (drops : Drops value less) : 0x2F ∈ value ↔ 0x2F ∈ less := by
  induction drops with
  | nil => rfl
  | keep byte _ ih => simp [ih]
  | drop byte _ ih => simp [ih]

theorem basename_of_not_mem (absent : 0x2F ∉ value) : basename value = value := by
  rw [basename, List.takeWhile_eq_self_iff.mpr, List.reverse_reverse]
  intro byte member
  simpa using ne_of_mem_of_not_mem (List.mem_reverse.mp member) absent

theorem basename_cons (byte : UInt8) (value : Bytes) :
    basename (byte :: value) =
      if 0x2F ∈ value then basename value else if byte = 0x2F then value else byte :: value := by
  split_ifs with isPath isSlash
  · have stops : (value.reverse.takeWhile (· != 0x2F)).length ≠ value.reverse.length := by
      intro same
      have full := (List.takeWhile_prefix _).eq_of_length same
      have every := List.takeWhile_eq_self_iff.mp full 0x2F (List.mem_reverse.mpr isPath)
      simp at every
    rw [basename, List.reverse_cons, List.takeWhile_append, if_neg stops]
    rfl
  · have every : ∀ other ∈ value.reverse, (other != 0x2F) = true := by
      intro other member
      simpa using ne_of_mem_of_not_mem (List.mem_reverse.mp member) isPath
    rw [basename, List.reverse_cons, List.takeWhile_append_of_pos every, isSlash]
    simp
  · refine basename_of_not_mem ?_
    rw [List.mem_cons, not_or]
    exact ⟨Ne.symm isSlash, isPath⟩

theorem Drops.basename_cons_eq (drops : Drops value less) (byte : UInt8)
    (same : 0x5C ∉ basename value → basename less = basename value)
    (plain : 0x5C ∉ basename (byte :: value)) :
    basename (byte :: less) = basename (byte :: value) := by
  by_cases isPath : 0x2F ∈ value
  · rw [basename_cons, if_pos isPath] at plain
    rw [basename_cons, basename_cons, if_pos isPath, if_pos (drops.mem_iff.mp isPath), same plain]
  · have lessAbsent : 0x2F ∉ less := fun member => isPath (drops.mem_iff.mpr member)
    have valuePlain : 0x5C ∉ basename value := by
      rw [basename_of_not_mem isPath]
      intro member
      rw [basename_cons, if_neg isPath] at plain
      split_ifs at plain
      · exact plain member
      · exact plain (List.mem_cons_of_mem _ member)
    have equal := same valuePlain
    rw [basename_of_not_mem isPath, basename_of_not_mem lessAbsent] at equal
    rw [equal]

theorem Drops.basename_eq (drops : Drops value less) (plain : 0x5C ∉ basename value) :
    basename less = basename value := by
  induction drops with
  | nil => rfl
  | keep byte drops ih =>
      exact drops.basename_cons_eq byte ih plain
  | @drop byte value less drops ih =>
      have isPath : 0x2F ∈ byte :: value := by
        by_contra absent
        rw [basename_cons, if_neg absent, if_neg (by decide)] at plain
        exact plain List.mem_cons_self
      rw [basename_cons 0x5C, if_pos isPath] at plain ⊢
      exact drops.basename_cons_eq byte ih plain

theorem drops_quotedPart {part : QuotedPart} (apart : part ≠ .joint)
    (literal : part.value = some value) :
    Drops value (quotedScanned part) := by
  cases part with
  | joint => exact absurd rfl apart
  | byte byte =>
      obtain rfl := Option.some.inj literal
      exact drops_refl _
  | escaped byte =>
      simp only [QuotedPart.value, Option.some.injEq] at literal
      subst literal
      split_ifs
      · exact drops_refl _
      · exact .drop byte .nil
  | expansion text => cases literal

theorem drops_flatten {α : Type} {f : α → Option Bytes} {g : α → Bytes} {items : List α}
    (drops : ∀ item ∈ items, ∀ value, f item = some value → Drops value (g item))
    {values : List Bytes} (literal : items.mapM f = some values) :
    Drops values.flatten (items.flatMap g) := by
  induction items generalizing values with
  | nil =>
      obtain rfl : [] = values := by simpa using literal
      exact .nil
  | cons item items ih =>
      rw [List.mapM_cons] at literal
      obtain ⟨value, here, literal⟩ := Option.bind_eq_some_iff.mp literal
      obtain ⟨later, there, same⟩ := Option.bind_eq_some_iff.mp literal
      obtain rfl := Option.some.inj same
      rw [List.forall_mem_cons] at drops
      exact (drops.1 value here).append (ih drops.2 there)

theorem drops_part {part : Part} (apart : partJoins part = false)
    (literal : part.value = some value) :
    Drops value (partScanned part) := by
  cases part with
  | joint =>
      obtain rfl := Option.some.inj literal
      exact .nil
  | byte byte =>
      obtain rfl := Option.some.inj literal
      exact drops_refl _
  | escaped byte =>
      obtain rfl := Option.some.inj literal
      exact drops_refl _
  | single text =>
      obtain rfl := Option.some.inj literal
      exact drops_refl _
  | double parts =>
      obtain ⟨values, same, rfl⟩ := Option.map_eq_some_iff.mp literal
      have noJoint : QuotedPart.joint ∉ parts := by simpa [partJoins] using apart
      refine drops_flatten (fun part member _ => drops_quotedPart ?_) same
      exact ne_of_mem_of_not_mem member noJoint
  | expansion text => cases literal

theorem drops_word {word : Word} (apart : quotedJoint word = false)
    (literal : word.value = some value) :
    Drops value (scanned word) := by
  obtain ⟨values, same, rfl⟩ := Option.map_eq_some_iff.mp literal
  refine drops_flatten (fun part member _ => drops_part ?_) same
  exact Bool.eq_false_iff.mpr (List.any_eq_false.mp apart part member)

end

end Trstctl.Accessrules.Ssh
