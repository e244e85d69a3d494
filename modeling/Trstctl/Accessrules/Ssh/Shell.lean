import Trstctl.Go.Strings

/-!
# Shell lines

What a POSIX shell reads a line as.  A line is made of tokens with blanks
between them: words, redirections and control operators.  A small machine over
the tokens finds the program words: simple commands with leading assignments
and redirections, their separators, the two kinds of groups, and the reserved
words of conditionals and loops.  Groups need not match, so that every line of
the grammar is among the lines that the machine accepts.  A backslash before a
newline joins two lines and means nothing, wherever it stands: between tokens,
in a word, inside double quotes or inside an operator.
-/

namespace Trstctl.Accessrules.Shell

open Go (Bytes bytes)

/-- A byte that is quoted to be part of a word: blanks, operators, quotes, the
backslash and the starts of expansions. -/
def special (byte : UInt8) : Bool :=
  (bytes " \t\n;|&()<>'\"\\$`").contains byte

/-- A backslash and a newline, which join two lines. -/
def joint : Bytes :=
  [0x5C, 0x0A]

/-- A part of a double-quoted text. -/
inductive QuotedPart where
  | byte (value : UInt8)
  | escaped (value : UInt8)
  | joint
  | expansion (text : Bytes)
deriving DecidableEq

/-- A part of a word.  An expansion is given by its whole text. -/
inductive Part where
  | byte (value : UInt8)
  | escaped (value : UInt8)
  | joint
  | single (text : Bytes)
  | double (parts : List QuotedPart)
  | expansion (text : Bytes)
deriving DecidableEq

/-- The text of an expansion starts with a dollar sign or a backquote, and does
not end with a backslash. -/
def expansionText (text : Bytes) : Bool :=
  (text.head? == some 0x24 || text.head? == some 0x60) && text.getLast? != some 0x5C

namespace QuotedPart

/-- A quote, a backslash or an expansion is not a byte of a double-quoted text
by itself. -/
def valid : QuotedPart → Bool
  | .byte value => !(bytes "\"\\$`").contains value
  | .escaped value => value != 0x0A
  | .joint => true
  | .expansion text => expansionText text

/-- The text of the part. -/
def render : QuotedPart → Bytes
  | .byte value => [value]
  | .escaped value => [0x5C, value]
  | .joint => Shell.joint
  | .expansion text => text

/-- The value of a part without expansions: the backslash is kept except before
a dollar sign, a backquote, a double quote or a backslash. -/
def value : QuotedPart → Option Bytes
  | .byte value => some [value]
  | .escaped value =>
      some (if (bytes "\"\\$`").contains value then [value] else [0x5C, value])
  | .joint => some []
  | .expansion _ => none

end QuotedPart

namespace Part

/-- What the part may hold. -/
def valid : Part → Bool
  | .byte value => !special value
  | .escaped value => value != 0x0A
  | .joint => true
  | .single text => !text.contains 0x27
  | .double parts => parts.all QuotedPart.valid
  | .expansion text => expansionText text

/-- The text of the part. -/
def render : Part → Bytes
  | .byte value => [value]
  | .escaped value => [0x5C, value]
  | .joint => Shell.joint
  | .single text => 0x27 :: text ++ [0x27]
  | .double parts => 0x22 :: parts.flatMap QuotedPart.render ++ [0x22]
  | .expansion text => text

/-- The value of a part without expansions. -/
def value : Part → Option Bytes
  | .byte value => some [value]
  | .escaped value => some [value]
  | .joint => some []
  | .single text => some text
  | .double parts => (parts.mapM QuotedPart.value).map List.flatten
  | .expansion _ => none

/-- The text of an unquoted part. -/
def bare : Part → Option Bytes
  | .byte value => some [value]
  | .joint => some []
  | _ => none

end Part

/-- A word: it has a part that is not a joint, and the first of these does not
start a comment. -/
structure Word where
  parts : List Part
  valid : parts.all Part.valid = true
  nonempty : parts.any (· != .joint) = true
  notComment : parts.find? (· != .joint) ≠ some (.byte 0x23)

namespace Word

/-- The text of the word. -/
def render (word : Word) : Bytes :=
  word.parts.flatMap Part.render

/-- The value of a literal word. -/
def value (word : Word) : Option Bytes :=
  (word.parts.mapM Part.value).map List.flatten

/-- The text of a word without any quoting. -/
def bare (word : Word) : Option Bytes :=
  (word.parts.mapM Part.bare).map List.flatten

/-- A letter or an underscore, the start of a name. -/
def nameStart (byte : UInt8) : Bool :=
  byte == 0x5F || (0x41 ≤ byte && byte ≤ 0x5A) || (0x61 ≤ byte && byte ≤ 0x7A)

/-- The name in front of an unquoted equals sign. -/
def assignedName : List Part → Option Bytes
  | .byte value :: rest =>
      if value = 0x3D then some [] else (assignedName rest).map (value :: ·)
  | .joint :: rest => assignedName rest
  | _ => none

/-- The word is an assignment: a name, an equals sign and any value. -/
def assigns (word : Word) : Bool :=
  match assignedName word.parts with
  | some (first :: rest) =>
      nameStart first && rest.all fun byte => nameStart byte || (0x30 ≤ byte && byte ≤ 0x39)
  | _ => false

end Word

/-- The redirection operators. -/
inductive Redirection where
  | input
  | output
  | append
  | readWrite
  | clobber
  | duplicateInput
  | duplicateOutput

/-- The text of an operator. -/
def Redirection.render : Redirection → Bytes
  | .input => bytes "<"
  | .output => bytes ">"
  | .append => bytes ">>"
  | .readWrite => bytes "<>"
  | .clobber => bytes ">|"
  | .duplicateInput => bytes "<&"
  | .duplicateOutput => bytes ">&"

/-- The control operators. -/
inductive Control where
  | semicolon
  | ampersand
  | both
  | either
  | pipe
  | newline
  | opens
  | closes

/-- The text of an operator. -/
def Control.render : Control → Bytes
  | .semicolon => bytes ";"
  | .ampersand => bytes "&"
  | .both => bytes "&&"
  | .either => bytes "||"
  | .pipe => bytes "|"
  | .newline => bytes "\n"
  | .opens => bytes "("
  | .closes => bytes ")"

/-- The byte of a digit. -/
def digitByte (digit : Fin 10) : UInt8 :=
  0x30 + digit.val.toUInt8

/-- The tokens of a line.  A redirection may have a file descriptor.  One or
more joints that no word is next to stand like a token. -/
inductive Token where
  | word (word : Word)
  | redirection (descriptor : List (Fin 10)) (operator : Redirection)
  | control (operator : Control)
  | joints (more : Nat)

/-- The text of a token. -/
def Token.render : Token → Bytes
  | .word spelled => spelled.render
  | .redirection descriptor operator => descriptor.map digitByte ++ operator.render
  | .control operator => operator.render
  | .joints more => (List.replicate (more + 1) joint).flatten

/-- An operator, with the descriptor of a redirection. -/
def Token.isOperator : Token → Bool
  | .redirection _ _ => true
  | .control _ => true
  | _ => false

/-- A text with joints in front of its bytes. -/
def cut : List Nat → Bytes → Bytes
  | count :: cuts, byte :: rest =>
      (List.replicate count joint).flatten ++ byte :: cut cuts rest
  | _, text => text

/-- The blanks. -/
inductive Blank where
  | space
  | tab

/-- The byte of a blank. -/
def Blank.render : Blank → UInt8
  | .space => 0x20
  | .tab => 0x09

/-- A token with the blanks in front of it, and the joints in the text of an
operator. -/
structure Piece where
  blanks : List Blank
  token : Token
  cuts : List Nat

/-- The text of the token with its joints. -/
def Piece.text (piece : Piece) : Bytes :=
  if piece.token.isOperator then cut piece.cuts piece.token.render else piece.token.render

/-- The text of a piece. -/
def Piece.render (piece : Piece) : Bytes :=
  piece.blanks.map Blank.render ++ piece.text

/-- The text of a line. -/
def render (line : List Piece) : Bytes :=
  line.flatMap Piece.render

/-- Two tokens that would be read as one without a blank: two words, a word and
the descriptor of a redirection, a number and a redirection.  Joints next to a
word or to a descriptor are part of it, and joints in a row are one token. -/
def glued : Token → Token → Bool
  | .word _, .word _ => true
  | .word word, .redirection descriptor _ =>
      !descriptor.isEmpty ||
        word.bare.any fun text => text.all fun byte => 0x30 ≤ byte && byte ≤ 0x39
  | .word _, .joints _ => true
  | .joints _, .word _ => true
  | .joints _, .joints _ => true
  | .joints _, .redirection descriptor _ => !descriptor.isEmpty
  | _, _ => false

/-- Blanks stand where they are needed. -/
def Spaced : List Piece → Prop
  | first :: second :: rest =>
      (glued first.token second.token = true → second.blanks ≠ []) ∧ Spaced (second :: rest)
  | _ => True

instance decidableSpaced : ∀ line, Decidable (Spaced line)
  | [] => isTrue trivial
  | [_] => isTrue trivial
  | first :: second :: rest =>
      have := decidableSpaced (second :: rest)
      inferInstanceAs (Decidable ((glued first.token second.token = true → second.blanks ≠ []) ∧ _))

/-- Where the shell is in a line: where a command may start, after an assignment
or a redirection of a command, before the target of a redirection, after the
program word, before a target there, or after a group, a conditional or a
loop. -/
inductive State where
  | start
  | begun
  | target
  | arguments
  | argumentTarget
  | closed
deriving DecidableEq

/-- Reserved words after which a command follows. -/
def openers : List Bytes :=
  ["if", "then", "elif", "else", "while", "until", "do", "\x7b", "!"].map bytes

/-- Reserved words that go on with a conditional or a loop. -/
def continuers : List Bytes :=
  ["then", "elif", "else", "do"].map bytes

/-- Reserved words that end a group, a conditional or a loop. -/
def closers : List Bytes :=
  ["\x7d", "fi", "done"].map bytes

/-- Reserved words of other commands. -/
def otherReserved : List Bytes :=
  ["case", "esac", "for", "in"].map bytes

/-- An assignment, or the program word of a simple command, which is literal. -/
def commandWord (word : Word) : Option (State × Option Bytes) :=
  if word.assigns then some (.begun, none)
  else word.value.map fun value => (.arguments, some value)

/-- A control operator after a command. -/
def controlAfter : Control → Option (State × Option Bytes)
  | .closes => some (.closed, none)
  | .opens => none
  | _ => some (.start, none)

/-- One token: the state after it and the value of a program word, or `none`
where the line is not of the grammar.  Joints change nothing. -/
def step : State → Token → Option (State × Option Bytes)
  | state, .joints _ => some (state, none)
  | .start, .word word =>
      match word.bare with
      | some text =>
          if text ∈ openers then some (.start, none)
          else if text ∈ closers then some (.closed, none)
          else if text ∈ otherReserved then none
          else commandWord word
      | none => commandWord word
  | .start, .control operator =>
      match operator with
      | .newline => some (.start, none)
      | .opens => some (.start, none)
      | .closes => some (.closed, none)
      | _ => none
  | .start, .redirection _ _ => some (.target, none)
  | .begun, .word word => commandWord word
  | .begun, .redirection _ _ => some (.target, none)
  | .begun, .control _ => none
  | .target, .word _ => some (.begun, none)
  | .target, _ => none
  | .arguments, .word _ => some (.arguments, none)
  | .arguments, .redirection _ _ => some (.argumentTarget, none)
  | .arguments, .control operator => controlAfter operator
  | .argumentTarget, .word _ => some (.arguments, none)
  | .argumentTarget, _ => none
  | .closed, .word word =>
      match word.bare with
      | some text =>
          if text ∈ continuers then some (.start, none)
          else if text ∈ closers then some (.closed, none)
          else none
      | none => none
  | .closed, .redirection _ _ => none
  | .closed, .control operator => controlAfter operator

/-- A line may end where no command is begun. -/
def final : State → Bool
  | .start => true
  | .arguments => true
  | .closed => true
  | _ => false

/-- The program words of a line from a state on, or `none` when the line is not
of the grammar. -/
def programs : State → List Piece → Option (List Bytes)
  | state, [] => if final state then some [] else none
  | state, piece :: rest => do
      let (next, program) ← step state piece.token
      let later ← programs next rest
      return program.toList ++ later

end Trstctl.Accessrules.Shell
