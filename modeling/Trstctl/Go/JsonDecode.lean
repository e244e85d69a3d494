import Trstctl.Go.JsonUnescape
import Trstctl.Library.Scanner

/-!
# Taking JSON texts apart

What `encoding/json` reads from a valid text: its lexemes, the value of a
string, and the members of an object or the items of an array with their raw
texts.  Names and values keep their order, and nothing is merged.
-/

namespace Trstctl.Go.Json

/-- White space between lexemes. -/
def isSpaceByte (byte : UInt8) : Bool :=
  byte == 0x20 || byte == 0x09 || byte == 0x0D || byte == 0x0A

/-- A decimal digit. -/
def isDigitByte (byte : UInt8) : Bool :=
  0x30 ≤ byte && byte ≤ 0x39

/-- The letters that may follow a backslash, other than `u`. -/
def isEscapeLetter (byte : UInt8) : Bool :=
  (bytes "bfnrt\\/\"").contains byte

/-- The number of bytes of a string after its opening quote. -/
def quotedLength : Bytes → Option Nat
  | [] => none
  | byte :: rest =>
      if byte = 0x22 then some 1
      else if byte < 0x20 then none
      else if byte = 0x5C then
        match rest with
        | letter :: a :: b :: c :: d :: more =>
            if letter = 0x75 then
              if (hexDecode [a, b, c, d]).isSome then (quotedLength more).map (· + 6) else none
            else if isEscapeLetter letter then
              (quotedLength (a :: b :: c :: d :: more)).map (· + 2)
            else none
        | letter :: more =>
            if isEscapeLetter letter then (quotedLength more).map (· + 2) else none
        | [] => none
      else (quotedLength rest).map (· + 1)

/-- The number of digits at the start. -/
def digitsLength (text : Bytes) : Nat :=
  (text.takeWhile isDigitByte).length

/-- The length of the part after the point, or zero without one. -/
def fractionLength (text : Bytes) : Option Nat :=
  match text with
  | 0x2E :: rest => if digitsLength rest = 0 then none else some (1 + digitsLength rest)
  | _ => some 0

/-- The length of the exponent, or zero without one. -/
def exponentLength (text : Bytes) : Option Nat :=
  match text with
  | [] => some 0
  | letter :: rest =>
      if letter = 0x65 ∨ letter = 0x45 then
        let sign := if rest.head? = some 0x2B ∨ rest.head? = some 0x2D then 1 else 0
        if digitsLength (rest.drop sign) = 0 then none
        else some (1 + sign + digitsLength (rest.drop sign))
      else some 0

def numberLength (text : Bytes) : Option Nat := do
  let sign := if text.head? = some 0x2D then 1 else 0
  let unsigned := text.drop sign
  let whole := if unsigned.head? = some 0x30 then 1 else digitsLength unsigned
  if whole = 0 then none
  let fraction ← fractionLength (unsigned.drop whole)
  let exponent ← exponentLength (unsigned.drop (whole + fraction))
  return sign + whole + fraction + exponent

/-- The length of the lexeme at the start. -/
def lexemeLength (text : Bytes) : Option Nat :=
  match text with
  | [] => none
  | byte :: rest =>
      if isSpaceByte byte then some (1 + (rest.takeWhile isSpaceByte).length)
      else if (bytes "\x7b\x7d[]:,").contains byte then some 1
      else if byte = 0x22 then (quotedLength rest).map (· + 1)
      else if hasPrefix text (bytes "true") || hasPrefix text (bytes "null") then some 4
      else if hasPrefix text (bytes "false") then some 5
      else numberLength text

/-- The lexemes of a text with the white space between them, or `none` where
one is malformed. -/
def lexemes (text : Bytes) : Option (List Bytes) :=
  Scanner.scan
    (fun _ _ ahead => (lexemeLength ahead).map fun length => ⟨length - 1, (), ahead.take length⟩)
    0 () [] text

def isSpaceLexeme (lexeme : Bytes) : Bool :=
  lexeme.all isSpaceByte

/-- The number that four hexadecimal digits stand for. -/
def codeUnit (digits : Bytes) : Nat :=
  ((hexDecode digits).getD []).foldl (fun value byte => value * 256 + byte.toNat) 0

/-- The rune of an escape `\\u`, from the text after its backslash, and the
number of bytes it takes there.  A surrogate that is not followed by its pair
stands for U+FFFD. -/
def unicodeEscape (text : Bytes) : Rune × Nat :=
  let first := codeUnit ((text.drop 1).take 4)
  if 0xD800 ≤ first ∧ first < 0xE000 then
    let second := codeUnit ((text.drop 7).take 4)
    if first < 0xDC00 ∧ (text.drop 5).take 2 = bytes "\\u" ∧ 0xDC00 ≤ second ∧
        second < 0xE000 then
      (0x10000 + (first - 0xD800) * 0x400 + (second - 0xDC00), 11)
    else (runeError, 5)
  else (first, 5)

/-- The inside of a string, after `pending` bytes of the current escape. -/
def unquoteFrom : Nat → Bytes → Bytes
  | _, [] => []
  | pending + 1, _ :: rest => unquoteFrom pending rest
  | 0, byte :: rest =>
      if byte = 0x5C then
        match rest with
        | [] => []
        | letter :: _ =>
            if letter = 0x75 then
              encodeRune (unicodeEscape rest).1 ++ unquoteFrom (unicodeEscape rest).2 rest
            else letterMeaning letter :: unquoteFrom 1 rest
      else byte :: unquoteFrom 0 rest

/-- The text of a string with its quotes. -/
def unquote (lexeme : Bytes) : Bytes :=
  unquoteFrom 0 (lexeme.drop 1).dropLast

/-- The raw text of lexemes, without the white space around it. -/
def rawText (part : List Bytes) : Bytes :=
  ((part.dropWhile isSpaceLexeme).rdropWhile isSpaceLexeme).flatten

/-- The lexemes between the outermost brackets, cut at the commas of that
level: the depth, the current part and the parts before it, last first. -/
def cutLexeme (state : Nat × List Bytes × List (List Bytes)) (lexeme : Bytes) :
    Nat × List Bytes × List (List Bytes) :=
  let (depth, part, parts) := state
  if lexeme = [0x7B] ∨ lexeme = [0x5B] then
    (depth + 1, if depth = 0 then part else lexeme :: part, parts)
  else if lexeme = [0x7D] ∨ lexeme = [0x5D] then
    (depth - 1, if depth ≤ 1 then part else lexeme :: part, parts)
  else if lexeme = [0x2C] ∧ depth = 1 then (depth, [], part.reverse :: parts)
  else if depth = 0 then state
  else (depth, lexeme :: part, parts)

/-- The parts between the outermost brackets; none between empty ones. -/
def parts (text : List Bytes) : List (List Bytes) :=
  let (_, last, before) := text.foldl cutLexeme (0, [], [])
  if before.isEmpty && last.all isSpaceLexeme then [] else (last.reverse :: before).reverse

/-- The raw texts of the items of an array. -/
def items (text : Bytes) : Option (List Bytes) := do
  let all ← lexemes text
  if (all.dropWhile isSpaceLexeme).head? = some [0x5B] then return (parts all).map rawText
  else none

/-- The name and the raw value of one member. -/
def member (part : List Bytes) : Option (Bytes × Bytes) :=
  match part.dropWhile isSpaceLexeme with
  | [] => none
  | name :: rest => some (unquote name, rawText ((rest.dropWhile isSpaceLexeme).drop 1))

/-- The members of an object in their order. -/
def members (text : Bytes) : Option (List (Bytes × Bytes)) := do
  let all ← lexemes text
  if (all.dropWhile isSpaceLexeme).head? = some [0x7B] then (parts all).mapM member
  else none

/-- The value of a string. -/
def stringOf (text : Bytes) : Option Bytes :=
  if text.head? = some 0x22 then some (unquote text) else none

/-- The literal `null`. -/
def null : Bytes :=
  bytes "null"

end Trstctl.Go.Json
