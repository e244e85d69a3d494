import Trstctl.Accessrules.Postgres.Lexers

/-!
# Two lexers for MySQL

What the server reads a statement as, for either value of
`NO_BACKSLASH_ESCAPES`: comments that run to the line feed, block comments,
executable comments, strings in three kinds of quotes, words, and single bytes.
The body of an executable comment is read like the text around it, until a
`*/` that is not part of another token.

What the rule reads it as, `MySQLOperations` (`internal/accessrules/mysql.go`):
the operation keywords outside quoted values and comments.  The body of an
executable comment is read on its own, up to the first `*/`.  The statement is
read twice, with and without the backslash as an escape in strings.
-/

namespace Trstctl.Accessrules.Mysql

open Go (Bytes bytes upperByte)

namespace Server

/-- A space or a control character. -/
def blank (byte : UInt8) : Bool :=
  byte ≤ 0x20 || byte == 0x7F

/-- A byte of a word: a letter, a digit, an underscore, a dollar sign or a byte
above ASCII. -/
def wordByte (byte : UInt8) : Bool :=
  Accessrules.Server.letter byte || Accessrules.Server.digit byte || byte == 0x24

/-- The kinds of tokens.  A string has a quote, and escapes or not. -/
inductive Kind where
  | lineComment
  | blockComment
  | executableStart
  | executableEnd
  | string (quote : UInt8) (escapes : Bool)
  | word
  | other
deriving DecidableEq

/-- A token in its text: whether it is in an executable comment, what is ahead
of its start, and how many bytes it has after its first. -/
structure Token where
  kind : Kind
  executable : Bool
  ahead : Bytes
  more : Nat
deriving DecidableEq

/-- The bytes of a token. -/
def Token.text (token : Token) : Bytes :=
  token.ahead.take (token.more + 1)

/-- A comment to the end of the line starts here. -/
def lineCommentStarts (byte : UInt8) (rest : Bytes) : Bool :=
  byte == 0x23 || (byte == 0x2D && rest.head? == some 0x2D && rest.tail.head?.any blank)

/-- The token that starts here: its kind and the bytes after its first. -/
def token (noBackslashEscapes executable : Bool) : Bytes → Option (Kind × Nat)
  | [] => none
  | byte :: rest =>
      if lineCommentStarts byte rest then
        some (.lineComment, (rest.takeWhile (· != 0x0A)).length)
      else if byte = 0x2F ∧ rest.head? = some 0x2A then
        if rest.tail.head? = some 0x21 then
          some (.executableStart, 2 + (rest.tail.tail.takeWhile Accessrules.Server.digit).length)
        else (Go.index [0x2A, 0x2F] rest.tail).map fun length => (.blockComment, length + 3)
      else if executable = true ∧ byte = 0x2A ∧ rest.head? = some 0x2F then
        some (.executableEnd, 1)
      else if byte = 0x27 ∨ byte = 0x22 ∨ byte = 0x60 then
        let escapes := !noBackslashEscapes && byte != 0x60
        (Accessrules.Server.quotedEnd byte escapes rest).map fun length =>
          (.string byte escapes, length)
      else if wordByte byte then some (.word, (rest.takeWhile wordByte).length)
      else some (.other, 0)

/-- What follows a token is in an executable comment. -/
def executableAfter (executable : Bool) : Kind → Bool
  | .executableStart => true
  | .executableEnd => false
  | _ => executable

/-- The lexeme that starts here.  An executable comment ends before its text. -/
def next (noBackslashEscapes executable : Bool) (ahead : Bytes) : Option (Lexeme Bool Token) :=
  (token noBackslashEscapes executable ahead).bind fun (kind, more) =>
    let following := executableAfter executable kind
    if following = true ∧ ahead.drop (more + 1) = [] then none
    else
      some
        { more := more
          state := following
          report := { kind := kind, executable := executable, ahead := ahead, more := more } }

/-- The tokens of a text, when it lexes to its end. -/
def lex (noBackslashEscapes : Bool) (text : Bytes) : Option (List Token) :=
  Scanner.scan (fun executable _ => next noBackslashEscapes executable) 0 false [] text

end Server

/-- The operations that a rule may name. -/
def mysqlOperationNames : List Bytes :=
  ["ALTER", "ANALYZE", "BEGIN", "CALL", "COMMIT", "CREATE", "DELETE", "DO", "DROP", "EXPLAIN",
    "FLUSH", "GRANT", "INSERT", "KILL", "LOCK", "OPTIMIZE", "RENAME", "REPAIR", "REPLACE",
    "RESET", "REVOKE", "ROLLBACK", "SELECT", "SET", "SHOW", "START", "TRUNCATE", "UNLOCK",
    "UPDATE", "USE"].map bytes

/-- The words that the rule reports. -/
def mysqlClassifierNames : List Bytes :=
  mysqlOperationNames ++ ["PREPARE", "EXECUTE", "DEALLOCATE", "LOAD"].map bytes

/-- The bytes `*/`. -/
def commentClose : Bytes :=
  [0x2A, 0x2F]

/-- A comment to the end of the line starts here. -/
def opensLineComment (byte : UInt8) (rest : Bytes) : Bool :=
  byte == 0x23 || (byte == 0x2D && rest.head? == some 0x2D && rest.tail.head?.any (· ≤ 0x20))

/-- A quote of one of the three kinds. -/
def quoteByte (byte : UInt8) : Bool :=
  byte == 0x27 || byte == 0x22 || byte == 0x60

/-- The bytes up to and with the closing quote. -/
def quoted (quote : UInt8) (escaped : Bool) : Bytes → Option Nat
  | [] => none
  | byte :: rest =>
      if byte == quote then
        match rest with
        | [] => some 1
        | next :: after =>
            if next == quote then (quoted quote escaped after).map (· + 2) else some 1
      else if escaped && byte == 0x5C then
        match rest with
        | [] => none
        | _ :: after => (quoted quote escaped after).map (· + 2)
      else (quoted quote escaped rest).map (· + 1)

/-- The operations in the body of a block comment: of an executable one those
after its version, by `inner`. -/
def executed (inner : Bytes → Option (List Bytes)) (body : Bytes) : Option (List Bytes) :=
  if body.head? = some 0x21 then inner (body.tail.dropWhile pgDigit) else some []

/-- The operation that a word names, if any. -/
def operation (word : Bytes) : List Bytes :=
  if word.length ≤ 32 ∧ word.map upperByte ∈ mysqlClassifierNames then [word.map upperByte]
  else []

/-- One iteration of the loop of `mysqlOperations`: the bytes it passes and the
operations it finds. -/
def iteration (inner : Bytes → Option (List Bytes)) (backslash : Bool) :
    Bytes → Option (Lexeme Unit (List Bytes))
  | [] => none
  | byte :: rest =>
      if opensLineComment byte rest then
        some ⟨lineComment rest, (), []⟩
      else if byte = 0x2F ∧ rest.head? = some 0x2A then
        (Go.index commentClose rest.tail).bind fun length =>
          (executed inner (rest.tail.take length)).map fun found => ⟨length + 3, (), found⟩
      else if quoteByte byte then
        (quoted byte (backslash && byte != 0x60) rest).map fun length => ⟨length, (), []⟩
      else if pgWordStart byte then
        let word := byte :: rest.takeWhile pgWord
        some ⟨word.length - 1, (), operation word⟩
      else some ⟨0, (), []⟩

/-- The loop of `mysqlOperations`, with `inner` for the bodies of executable
comments. -/
def scanWith (inner : Bytes → Option (List Bytes)) (backslash : Bool) (raw : Bytes) :
    Option (List (List Bytes)) :=
  Scanner.scan (fun _ _ => iteration inner backslash) 0 () [] raw

/-- `mysqlOperations`, with the number of levels it may still nest. -/
def operationsWith : Nat → Bool → Bytes → Option (List Bytes)
  | 0, _, _ => none
  | levels + 1, backslash, raw =>
      (scanWith (operationsWith levels backslash) backslash raw).map List.flatten

/-- `MySQLOperations`, with `none` for `ErrUninspectable`.  The depths from zero
to eight are nine levels. -/
def mysqlOperations (raw : Bytes) : Option (List Bytes) :=
  if Uninspectable maxStatementBytes raw then none
  else
    match operationsWith 9 false raw, operationsWith 9 true raw with
    | none, none => none
    | first, second =>
        some ((mysqlClassifierNames.filter fun name =>
          name ∈ first.getD [] || name ∈ second.getD []).insertionSort (· ≤ ·))

end Trstctl.Accessrules.Mysql
