import Trstctl.Accessrules.Rule

/-!
# Two lexers for PostgreSQL

What the server reads a statement as, for either value of
`standard_conforming_strings`: comments to the end of the line, nested block
comments, strings with and without escapes, quoted identifiers, dollar quotes,
words, and single bytes.  A string that is continued after white space with a
newline keeps the escapes of its first segment; a comment to the end of the
line is white space there.

What the rule reads it as, `PostgresOperations`
(`internal/accessrules/postgres.go`): the operation keywords outside values,
quoted identifiers, dollar-quoted bodies and comments.  The statement is read
twice, with ordinary strings that take a backslash as an escape and with
ordinary strings that do not.
-/

namespace Trstctl.Accessrules

open Go (Bytes bytes upperByte)

namespace Server

/-- White space. -/
def space (byte : UInt8) : Bool :=
  (0x09 ≤ byte && byte ≤ 0x0D) || byte == 0x20

/-- The end of a line. -/
def newline (byte : UInt8) : Bool :=
  byte == 0x0A || byte == 0x0D

/-- A digit. -/
def digit (byte : UInt8) : Bool :=
  0x30 ≤ byte && byte ≤ 0x39

/-- The start of a word or of the tag of a dollar quote: a letter, an
underscore or a byte above ASCII. -/
def letter (byte : UInt8) : Bool :=
  (0x41 ≤ byte && byte ≤ 0x5A) || (0x61 ≤ byte && byte ≤ 0x7A) || byte == 0x5F || 0x80 ≤ byte

/-- A byte of the tag of a dollar quote. -/
def tagByte (byte : UInt8) : Bool :=
  letter byte || digit byte

/-- A byte of a word. -/
def wordByte (byte : UInt8) : Bool :=
  letter byte || digit byte || byte == 0x24

/-- The bytes up to the end of nested block comments. -/
def commentEnd : Nat → Bytes → Option Nat
  | 0, _ => some 0
  | depth + 1, byte :: next :: rest =>
      if byte = 0x2F ∧ next = 0x2A then (commentEnd (depth + 2) rest).map (· + 2)
      else if byte = 0x2A ∧ next = 0x2F then (commentEnd depth rest).map (· + 2)
      else (commentEnd (depth + 1) (next :: rest)).map (· + 1)
  | _ + 1, _ => none

/-- The bytes up to and with the quote that ends a quoted text.  A doubled
quote is part of the text, and so is what follows a backslash in a text with
escapes. -/
def quotedEnd (quote : UInt8) (escapes : Bool) : Bytes → Option Nat
  | [] => none
  | [byte] => if byte = quote then some 1 else none
  | byte :: next :: rest =>
      if escapes = true ∧ byte = 0x5C then (quotedEnd quote escapes rest).map (· + 2)
      else if byte = quote then
        if next = quote then (quotedEnd quote escapes rest).map (· + 2) else some 1
      else (quotedEnd quote escapes (next :: rest)).map (· + 1)

/-- The tag of a dollar quote that starts here, after its dollar sign. -/
def dollarTag (rest : Bytes) : Option Bytes :=
  let tag := rest.takeWhile tagByte
  if (rest.drop tag.length).head? = some 0x24 ∧ tag.head?.all letter then some tag else none

/-- The kinds of tokens.  A string has escapes or not, and starts with an `E`
or not. -/
inductive Kind where
  | lineComment
  | blockComment
  | string (escapes prefixed : Bool)
  | identifier
  | dollarQuote (tag : Bytes)
  | word
  | other
deriving DecidableEq

/-- A token in its text: what is behind its start, the last byte first, what is
ahead of it, and how many bytes it has after its first. -/
structure Token where
  kind : Kind
  behind : Bytes
  ahead : Bytes
  more : Nat
deriving DecidableEq

/-- The bytes of a token. -/
def Token.text (token : Token) : Bytes :=
  token.ahead.take (token.more + 1)

/-- What a quote may continue: a string with or without escapes, after white
space in which a newline has or has not been seen. -/
inductive Continuation where
  | nothing
  | string (escapes newlineSeen : Bool)

/-- Whether a string that starts with a quote has escapes. -/
def Continuation.escapes (continuation : Continuation) (standardConforming : Bool) : Bool :=
  match continuation with
  | .string escapes true => escapes
  | _ => !standardConforming

/-- What may be continued after a token.  A comment to the end of the line is
white space, and the newline after it is a token of its own. -/
def Continuation.after (continuation : Continuation) (kind : Kind) (first : UInt8) :
    Continuation :=
  match kind with
  | .string escapes _ => .string escapes false
  | .lineComment => continuation
  | .other =>
      match continuation with
      | .string escapes seen =>
          if space first then .string escapes (seen || newline first) else .nothing
      | .nothing => .nothing
  | _ => .nothing

/-- The token that starts here: its kind and the bytes after its first. -/
def token (standardConforming : Bool) (continuation : Continuation) :
    Bytes → Option (Kind × Nat)
  | [] => none
  | byte :: rest =>
      if byte = 0x2D ∧ rest.head? = some 0x2D then
        some (.lineComment, 1 + (rest.tail.takeWhile fun byte => !newline byte).length)
      else if byte = 0x2F ∧ rest.head? = some 0x2A then
        (commentEnd 1 rest.tail).map fun length => (.blockComment, 1 + length)
      else if byte = 0x27 then
        let escapes := continuation.escapes standardConforming
        (quotedEnd 0x27 escapes rest).map fun length => (.string escapes false, length)
      else if (byte = 0x45 ∨ byte = 0x65) ∧ rest.head? = some 0x27 then
        (quotedEnd 0x27 true rest.tail).map fun length => (.string true true, 1 + length)
      else if byte = 0x22 then
        (quotedEnd 0x22 false rest).map fun length => (.identifier, length)
      else if byte = 0x24 then
        match dollarTag rest with
        | some tag =>
            (Go.index (0x24 :: tag ++ [0x24]) (rest.drop (tag.length + 1))).map fun start =>
              (.dollarQuote tag, tag.length + 1 + start + (tag.length + 2))
        | none => some (.other, 0)
      else if letter byte then some (.word, (rest.takeWhile wordByte).length)
      else some (.other, 0)

/-- The lexeme that starts here, with what may be continued after it. -/
def next (standardConforming : Bool) (continuation : Continuation)
    (behind ahead : Bytes) : Option (Lexeme Continuation Token) :=
  (token standardConforming continuation ahead).map fun (kind, more) =>
    { more := more
      state := continuation.after kind (ahead.headD 0)
      report := { kind := kind, behind := behind, ahead := ahead, more := more } }

/-- The tokens of a text, when it lexes to its end. -/
def lex (standardConforming : Bool) (text : Bytes) : Option (List Token) :=
  Scanner.scan (next standardConforming) 0 .nothing [] text

end Server

namespace Postgres

/-- The operations that the rule knows. -/
def postgresOperationNames : List Bytes :=
  ["ALTER", "ANALYZE", "BEGIN", "CALL", "CLUSTER", "COMMENT", "COMMIT", "COPY", "CREATE",
    "DELETE", "DISCARD", "DO", "DROP", "EXECUTE", "EXPLAIN", "GRANT", "INSERT", "LOCK", "MERGE",
    "PREPARE", "REFRESH", "REINDEX", "RESET", "REVOKE", "ROLLBACK", "SELECT", "SET", "TRUNCATE",
    "UPDATE", "VACUUM", "WITH"].map bytes

/-- A byte that the rule takes for one of a tag. -/
def pgDollarTag (byte : UInt8) : Bool :=
  (pgWordStart byte && byte < 0x80) || pgDigit byte

/-- The bytes up to the end of a block comment from a depth, which may not
exceed 64. -/
def blockComment : Nat → Bytes → Option Nat
  | 0, _ => some 0
  | _ + 1, [] => none
  | _ + 1, [_] => none
  | depth + 1, byte :: next :: rest =>
      if byte = 0x2F ∧ next = 0x2A then
        if depth + 2 > 64 then none else (blockComment (depth + 2) rest).map (· + 2)
      else if byte = 0x2A ∧ next = 0x2F then (blockComment depth rest).map (· + 2)
      else (blockComment (depth + 1) (next :: rest)).map (· + 1)

/-- `pgQuotedEnd`: the bytes up to and with the closing quote. -/
def pgQuotedEnd (quote : UInt8) (escaped : Bool) : Bytes → Option Nat
  | [] => none
  | byte :: rest =>
      if escaped && byte == 0x5C then
        match rest with
        | [] => none
        | _ :: after => (pgQuotedEnd quote escaped after).map (· + 2)
      else if byte == quote then
        match rest with
        | [] => some 1
        | next :: after =>
            if next == quote then (pgQuotedEnd quote escaped after).map (· + 2) else some 1
      else (pgQuotedEnd quote escaped rest).map (· + 1)

/-- The quote opens an escape string: an `E` is before it, and no byte of a word
before that. -/
def escapePrefix : Bytes → Bool
  | [] => false
  | [last] => last == 0x65 || last == 0x45
  | last :: previous :: _ => (last == 0x65 || last == 0x45) && !pgWord previous

/-- A tag between its dollar signs. -/
def dollarDelimiter (tag : Bytes) : Bytes :=
  0x24 :: tag ++ [0x24]

/-- The bytes after a dollar sign that belong to it: those of a dollar quote, or
none. -/
def dollarQuote (rest : Bytes) : Option Nat :=
  let tag := (rest.take 256).takeWhile pgDollarTag
  if (rest.drop tag.length).head? = some 0x24 ∧ ¬ tag.head?.any pgDigit then
    (Go.index (dollarDelimiter tag) (rest.drop (tag.length + 1))).map fun start =>
      tag.length + 1 + start + (dollarDelimiter tag).length
  else if tag.length + 1 > 256 then none
  else some 0

/-- The operation that a word names, by `postgresOperationIndex` of its upper
case. -/
def operation (word : Bytes) : Option Bytes :=
  if word.length ≤ 32 ∧ word.all (· < 0x80) ∧ word.map upperByte ∈ postgresOperationNames then
    some (word.map upperByte)
  else none

/-- One iteration of the loop of `postgresOperations`: the bytes it passes and
the operation it finds. -/
def iteration (backslash : Bool) (behind : Bytes) :
    Bytes → Option (Lexeme Unit (Option Bytes))
  | [] => none
  | byte :: rest =>
      if byte = 0x2D ∧ rest.head? = some 0x2D then
        some ⟨1 + lineComment rest.tail, (), none⟩
      else if byte = 0x2F ∧ rest.head? = some 0x2A then
        (blockComment 1 rest.tail).map fun length => ⟨1 + length, (), none⟩
      else if byte = 0x27 ∨ byte = 0x22 then
        let escaped := byte == 0x27 && (backslash || escapePrefix behind)
        (pgQuotedEnd byte escaped rest).map fun length => ⟨length, (), none⟩
      else if byte = 0x24 then
        (dollarQuote rest).map fun length => ⟨length, (), none⟩
      else if pgWordStart byte then
        let word := byte :: rest.takeWhile pgWord
        some ⟨word.length - 1, (), operation word⟩
      else some ⟨0, (), none⟩

/-- `postgresOperations`. -/
def operationsWith (backslash : Bool) (sql : Bytes) : Option (List Bytes) :=
  (Scanner.scan (fun _ => iteration backslash) 0 () [] sql).map collect

/-- `PostgresOperations`, with `none` for `ErrUninspectable`. -/
def postgresOperations (sql : Bytes) : Option (List Bytes) :=
  if Uninspectable maxStatementBytes sql then none
  else
    match operationsWith false sql, operationsWith true sql with
    | none, none => none
    | first, second =>
        some (Go.compact ((first.getD [] ++ second.getD []).insertionSort (· ≤ ·)))

end Postgres

end Trstctl.Accessrules
