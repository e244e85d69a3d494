import Trstctl.Accessrules.Mysql.Constructs

/-!
# The MySQL rule against the server

The rule reports what the server executes as long as both find the same
boundaries.  It reads the end of some line comments as code: what follows a
carriage return, comments after `--` and a delete character, and what follows a
`*/` in a line comment of an executable comment.  It refuses block comments and
strings with a `*/` in an executable comment.  Over every other token it follows
the server from boundary to boundary.
-/

namespace Trstctl.Accessrules.Mysql

open Go (Bytes index)
open Accessrules.Server (quotedEnd digit letter)
open Mysql.Server (Kind Token wordByte)
open Postgres (takeWhile_run)

/-- The part of a line comment that the rule reads as code. -/
def readAsCode : Bytes → Bytes
  | [] => []
  | byte :: rest =>
      if opensLineComment byte rest then rest.dropWhile (· != 0x0D) else byte :: rest

/-- Nothing in a text opens a string or a block comment. -/
def plain (text : Bytes) : Bool :=
  !text.any quoteByte && (index [0x2F, 0x2A] text).isNone

/-- A token of the server that the rule in one of its modes ends elsewhere, or
reads as code. -/
def misread (backslash : Bool) (token : Token) : Bool :=
  match token.kind with
  | .lineComment =>
      !plain (readAsCode token.text) ||
        (token.executable && (index commentClose token.text).isSome)
  | .blockComment => token.executable && (token.text.drop 2).head? == some 0x2F
  | .string quote escapes =>
      quotedEnd quote (backslash && quote != 0x60) (token.ahead.drop 1) !=
        quotedEnd quote escapes (token.ahead.drop 1)
  | _ => false

/-- A token at which the rule refuses the text: the `*/` that ends the body of
an executable comment for the rule is in the token. -/
def refused (token : Token) : Bool :=
  token.executable &&
    match token.kind with
    | .blockComment => (token.text.drop 2).head? != some 0x2F
    | .executableStart => true
    | .string _ _ => (index commentClose token.text).isSome
    | _ => false

section

variable {inner : Bytes → Option (List Bytes)} {backslash : Bool} {text rest after : Bytes}
  {byte : UInt8}

/-- The loop passes a text, finds operations in it and goes on with the rest. -/
def Passes (inner : Bytes → Option (List Bytes)) (backslash : Bool) (text : Bytes)
    (found : List (List Bytes)) (rest : Bytes) : Prop :=
  scanWith inner backslash text = (scanWith inner backslash rest).map (found ++ ·)

theorem passes_refl (text : Bytes) : Passes inner backslash text [] text := by
  simp [Passes]

theorem Passes.trans {found later : List (List Bytes)}
    (first : Passes inner backslash text found rest)
    (second : Passes inner backslash rest later after) :
    Passes inner backslash text (found ++ later) after := by
  unfold Passes at *
  rw [first, second, Option.map_map]
  congr 1
  funext reports
  simp

theorem passes_of_iteration {more : Nat} {found : List Bytes}
    (passes : iteration inner backslash (byte :: text) = some ⟨more, (), found⟩) :
    Passes inner backslash (byte :: text) [found] (text.drop more) := by
  unfold Passes scanWith
  rw [Scanner.scan_cons, passes, Option.bind_some,
    Scanner.scan_behind 0 () _ [] (text.drop more)]
  rfl

theorem scanWith_eq_none (stops : iteration inner backslash (byte :: text) = none) :
    scanWith inner backslash (byte :: text) = none := by
  unfold scanWith
  rw [Scanner.scan_cons, stops]
  rfl

theorem takeWhile_append_of_stop {property : UInt8 → Bool}
    (stops : ∀ other, rest.head? = some other → property other = false) :
    (text ++ rest).takeWhile property = text.takeWhile property := by
  obtain ⟨run, remaining, rfl, same, holds, ends⟩ := exists_run property text
  rw [same, List.append_assoc]
  refine takeWhile_run holds ?_
  intro other starts
  cases remaining with
  | nil => exact stops other starts
  | cons head others => exact ends other starts

theorem plain_cons (isPlain : plain (byte :: text) = true) :
    quoteByte byte = false ∧ ¬ (byte = 0x2F ∧ text.head? = some 0x2A) := by
  unfold plain at isPlain
  rw [index_pair_cons] at isPlain
  split_ifs at isPlain with opens
  · simp at isPlain
  · simp only [List.any_cons, Bool.not_or, Bool.and_eq_true, Bool.not_eq_true'] at isPlain
    exact ⟨isPlain.1.1, opens⟩

theorem plain_drop (isPlain : plain text = true) (count : Nat) :
    plain (text.drop count) = true := by
  simp only [plain, Bool.and_eq_true, Bool.not_eq_true', List.any_eq_false,
    Option.isNone_iff_eq_none] at *
  exact ⟨fun byte member => isPlain.1 byte (List.mem_of_mem_drop member),
    index_pair_drop isPlain.2 count⟩

theorem iteration_plain (inner : Bytes → Option (List Bytes)) (backslash : Bool)
    (isPlain : plain (byte :: text) = true)
    (ends : ∀ other, rest.head? = some other → other = 0x0A) :
    ∃ more found, more ≤ text.length ∧
      iteration inner backslash (byte :: (text ++ rest)) = some ⟨more, (), found⟩ := by
  obtain ⟨noQuote, noBlock⟩ := plain_cons isPlain
  have notBlock : ¬ (byte = 0x2F ∧ (text ++ rest).head? = some 0x2A) := by
    rintro ⟨rfl, star⟩
    cases text with
    | nil => cases ends _ star
    | cons next others => exact noBlock ⟨rfl, star⟩
  simp only [iteration, if_neg notBlock, noQuote, Bool.false_eq_true, if_false]
  split_ifs with comment word
  · refine ⟨_, _, ?_, rfl⟩
    rw [lineComment, takeWhile_append_of_stop]
    · exact (List.takeWhile_prefix _).length_le
    · intro other starts
      rw [ends other starts]
      rfl
  · refine ⟨_, _, ?_, rfl⟩
    rw [takeWhile_append_of_stop]
    · simpa using (List.takeWhile_prefix _).length_le
    · intro other starts
      rw [ends other starts]
      rfl
  · exact ⟨0, [], Nat.zero_le _, rfl⟩

theorem passes_plain (inner : Bytes → Option (List Bytes)) (backslash : Bool)
    (isPlain : plain text = true) (ends : ∀ other, rest.head? = some other → other = 0x0A) :
    ∃ found, Passes inner backslash (text ++ rest) found rest := by
  induction size : text.length using Nat.strong_induction_on generalizing text with
  | _ length ih =>
    cases text with
    | nil => exact ⟨[], passes_refl rest⟩
    | cons byte text =>
        obtain ⟨more, first, within, passes⟩ := iteration_plain inner backslash isPlain ends
        have shorter : (text.drop more).length < length := by
          rw [List.length_drop, ← size, List.length_cons]
          omega
        obtain ⟨found, later⟩ :=
          ih _ shorter (plain_drop isPlain (more + 1)) rfl
        have step := passes_of_iteration passes
        rw [List.drop_append_of_le_length within] at step
        exact ⟨[first] ++ found, step.trans later⟩

theorem pgWord_eq : pgWord = wordByte := Postgres.pgWord_eq

theorem head?_of_startsWith {window remaining : Bytes} (isPrefix : window <+: remaining)
    (starts : window.head? = some byte) :
    remaining.head? = some byte := by
  obtain ⟨beyond, rfl⟩ := isPrefix
  rw [List.head?_append, starts]
  rfl

theorem iteration_wordByte (inner : Bytes → Option (List Bytes)) (backslash : Bool) (rest : Bytes)
    (isWord : wordByte byte = true) :
    iteration inner backslash (byte :: rest) =
      if pgWordStart byte then
        some ⟨(rest.takeWhile wordByte).length, (), operation (byte :: rest.takeWhile wordByte)⟩
      else some ⟨0, (), []⟩ := by
  have other : ∀ sign, wordByte sign = false → byte ≠ sign := by
    rintro _ noWord rfl
    rw [isWord] at noWord
    cases noWord
  simp [iteration, opensLineComment, quoteByte, pgWord_eq, other 0x23 rfl, other 0x2D rfl,
    other 0x2F rfl, other 0x27 rfl, other 0x22 rfl, other 0x60 rfl]

theorem passes_word (inner : Bytes → Option (List Bytes)) (backslash : Bool) {run : Bytes}
    (continues : ∀ other ∈ run, wordByte other = true)
    (ends : ∀ other, rest.head? = some other → wordByte other = false) :
    ∃ found, Passes inner backslash (run ++ rest) found rest ∧
      (run.head?.any pgWordStart = true → operation run ∈ found) := by
  induction run with
  | nil => exact ⟨[], passes_refl rest, by simp⟩
  | cons byte run ih =>
      rw [List.forall_mem_cons] at continues
      have same : (run ++ rest).takeWhile wordByte = run := takeWhile_run continues.2 ends
      have passes := iteration_wordByte inner backslash (run ++ rest) continues.1
      rw [same] at passes
      split_ifs at passes with starts
      · refine ⟨[operation (byte :: run)], ?_, fun _ => List.mem_singleton_self _⟩
        have step := passes_of_iteration passes
        rwa [List.drop_left] at step
      · obtain ⟨found, later, -⟩ := ih continues.2
        refine ⟨[[]] ++ found, (passes_of_iteration passes).trans later, ?_⟩
        intro isStart
        exact absurd isStart starts

theorem opensLineComment_append (opens : opensLineComment byte text = true) (rest : Bytes) :
    opensLineComment byte (text ++ rest) = true := by
  unfold opensLineComment at *
  cases text with
  | nil =>
      rw [(by simpa using opens : byte = 0x23)]
      rfl
  | cons first text =>
      cases text with
      | nil =>
          rw [(by simpa using opens : byte = 0x23)]
          rfl
      | cons second text => exact opens

theorem lineCommentStarts_of_opens (opens : opensLineComment byte text = true) :
    Server.lineCommentStarts byte text = true := by
  simp only [opensLineComment, Server.lineCommentStarts, Bool.or_eq_true, Bool.and_eq_true] at *
  refine opens.imp_right fun dashes => ⟨dashes.1, ?_⟩
  obtain ⟨third, starts, low⟩ := (Option.any_eq_true _ _).mp dashes.2
  refine (Option.any_eq_true _ _).mpr ⟨third, starts, ?_⟩
  simp only [Server.blank, Bool.or_eq_true]
  exact .inl low

/-- The loop passes a line comment of which it reads nothing but plain text as
code. -/
theorem passes_lineComment (inner : Bytes → Option (List Bytes)) (backslash : Bool) {line : Bytes}
    (inLine : ∀ other ∈ line, other ≠ 0x0A) (ends : ∀ other, rest.head? = some other → other = 0x0A)
    (isPlain : plain (readAsCode (byte :: line)) = true) :
    ∃ found, Passes inner backslash (byte :: line ++ rest) found rest := by
  rw [readAsCode] at isPlain
  split_ifs at isPlain with opens
  · obtain ⟨run, remaining, rfl, same, holds, stops⟩ := exists_run (· != 0x0D) line
    have dropped : (run ++ remaining).dropWhile (· != 0x0D) = remaining := by
      have split : (run ++ remaining).takeWhile (· != 0x0D) ++
          (run ++ remaining).dropWhile (· != 0x0D) = run ++ remaining :=
        List.takeWhile_append_dropWhile
      rw [same] at split
      exact List.append_cancel_left split
    rw [dropped] at isPlain
    have passed : lineComment (run ++ remaining ++ rest) = run.length := by
      rw [lineComment, List.append_assoc, takeWhile_run]
      · intro other member
        simpa [inLine other (List.mem_append_left _ member)] using holds other member
      · intro other starts
        cases remaining with
        | nil => simp [ends other starts]
        | cons head others => simp [stops other starts]
    have passes : iteration inner backslash (byte :: (run ++ remaining ++ rest)) =
        some ⟨run.length, (), []⟩ := by
      rw [iteration, if_pos (opensLineComment_append opens rest), passed]
    have step := passes_of_iteration passes
    rw [List.append_assoc, List.drop_left] at step
    obtain ⟨found, later⟩ := passes_plain inner backslash isPlain ends
    refine ⟨[[]] ++ found, ?_⟩
    rw [List.cons_append, List.append_assoc]
    exact step.trans later
  · exact passes_plain inner backslash isPlain ends

theorem iteration_block (rest : Bytes) :
    iteration inner backslash (0x2F :: 0x2A :: rest) =
      (index commentClose rest).bind fun length =>
        (executed inner (rest.take length)).map fun found => ⟨length + 3, (), found⟩ := by
  simp [iteration, opensLineComment]

theorem passes_blockComment {body : Bytes} (notExecutable : (body ++ [0x2A]).head? ≠ some 0x21)
    (first : index commentClose body = none) :
    Passes inner backslash (0x2F :: 0x2A :: (body ++ commentClose) ++ rest) [[]] rest := by
  have closes : index commentClose (body ++ commentClose ++ rest) = some body.length := by
    rw [List.append_assoc, commentClose, index_pair_append first (by simp), List.cons_append,
      index_pair_cons, if_pos ⟨rfl, rfl⟩]
    simp
  have skipped : executed inner body = some [] := by
    rw [executed, if_neg]
    cases body with
    | nil => simp
    | cons head others => simpa using notExecutable
  have passes : iteration inner backslash (0x2F :: 0x2A :: (body ++ commentClose ++ rest)) =
      some ⟨body.length + 3, (), []⟩ := by
    rw [iteration_block, closes, Option.bind_some, List.append_assoc, List.take_left, skipped]
    rfl
  have step := passes_of_iteration passes
  have dropped : (0x2A :: (body ++ commentClose ++ rest)).drop (body.length + 3) = rest := by
    simp [commentClose, List.drop_append]
  rwa [dropped] at step

theorem ne_backslash_of_quoteByte (isQuote : quoteByte byte = true) : byte ≠ 0x5C := by
  rintro rfl
  cases isQuote

theorem iteration_quote (isQuote : quoteByte byte = true) :
    iteration inner backslash (byte :: rest) =
      (quoted byte (backslash && byte != 0x60) rest).map fun length => ⟨length, (), []⟩ := by
  have other : ∀ sign, quoteByte sign = false → byte ≠ sign := by
    rintro _ noQuote rfl
    rw [isQuote] at noQuote
    cases noQuote
  simp [iteration, opensLineComment, isQuote, other 0x23 rfl, other 0x2D rfl, other 0x2F rfl]

/-- The loop passes a string that ends in its mode where it ends for the
server. -/
theorem passes_string {quote : UInt8} {body remaining : Bytes} (isQuote : quoteByte quote = true)
    (ends : quotedEnd quote (backslash && quote != 0x60) (body ++ remaining) = some body.length)
    (isPrefix : rest <+: remaining) :
    Passes inner backslash (quote :: body ++ rest) [[]] rest := by
  have notBackslash := ne_backslash_of_quoteByte isQuote
  have alone : quotedEnd quote (backslash && quote != 0x60) body = some body.length :=
    quotedEnd_of_append ends (Nat.le_refl _)
  have apart : rest.head? ≠ some quote := by
    intro starts
    have follows := head?_of_quotedEnd ends
    rw [List.drop_left] at follows
    exact follows (head?_of_startsWith isPrefix starts)
  have passes : iteration inner backslash (quote :: (body ++ rest)) =
      some ⟨body.length, (), []⟩ := by
    have closes := quotedEnd_append notBackslash alone apart
    rw [← quoted_eq notBackslash] at closes
    rw [iteration_quote isQuote, closes]
    rfl
  have step := passes_of_iteration passes
  rwa [List.drop_left] at step

theorem passes_other {remaining : Bytes} (noLine : Server.lineCommentStarts byte remaining = false)
    (noBlock : ¬ (byte = 0x2F ∧ remaining.head? = some 0x2A)) (noQuote : quoteByte byte = false)
    (noWord : wordByte byte = false) (isPrefix : rest <+: remaining) :
    Passes inner backslash (byte :: rest) [[]] rest := by
  have notLine : opensLineComment byte rest = false := by
    by_contra opens
    obtain ⟨beyond, rfl⟩ := isPrefix
    have starts := lineCommentStarts_of_opens
      (opensLineComment_append (by simpa using opens) beyond)
    rw [noLine] at starts
    cases starts
  have notBlock : ¬ (byte = 0x2F ∧ rest.head? = some 0x2A) :=
    fun opens => noBlock ⟨opens.1, head?_of_startsWith isPrefix opens.2⟩
  have notStart : pgWordStart byte = false := by
    rw [Postgres.pgWordStart_eq]
    simp only [wordByte, Bool.or_eq_false_iff] at noWord
    exact noWord.1.1
  have passes : iteration inner backslash (byte :: rest) = some ⟨0, (), []⟩ := by
    simp [iteration, notLine, notBlock, noQuote, notStart]
  exact passes_of_iteration passes

variable {noBackslashEscapes executable : Bool} {kind : Kind} {remaining : Bytes}

/-- The token of a split. -/
def tokenAt (kind : Kind) (executable : Bool) (text remaining : Bytes) : Token :=
  ⟨kind, executable, text ++ remaining, text.length - 1⟩

theorem Splits.ne_nil (splits : Splits noBackslashEscapes executable kind text remaining) :
    text ≠ [] := by
  cases splits <;> simp [commentClose]

theorem Splits.text_tokenAt (splits : Splits noBackslashEscapes executable kind text remaining) :
    (tokenAt kind executable text remaining).text = text := by
  have positive : 0 < text.length := List.length_pos_iff.mpr splits.ne_nil
  rw [Token.text, tokenAt, Nat.sub_add_cancel positive, List.take_left]

/-- The operations of a word are among the names. -/
def Named (names : List Bytes) (token : Token) : Prop :=
  token.kind = .word → token.text.head?.any pgWordStart = true → operation token.text ⊆ names

theorem named_of_ne_word {names : List Bytes} {token : Token} (other : token.kind ≠ .word) :
    Named names token :=
  fun isWord => absurd isWord other

theorem Named.mono {names more : List Bytes} {token : Token} (named : Named names token)
    (within : names ⊆ more) :
    Named more token :=
  fun isWord isStart => List.Subset.trans (named isWord isStart) within

/-- The rule follows the server over a token that it does not misread, when it
sees the text up to the end of a window that holds the token. -/
theorem passes_of_splits (inner : Bytes → Option (List Bytes))
    (splits : Splits noBackslashEscapes executable kind text remaining)
    (aligned : misread backslash (tokenAt kind executable text remaining) = false)
    (isPrefix : rest <+: remaining) (notStart : kind ≠ .executableStart)
    (notEnd : kind ≠ .executableEnd) :
    ∃ found, Passes inner backslash (text ++ rest) found rest ∧
      Named found.flatten (tokenAt kind executable text remaining) := by
  have sameText := splits.text_tokenAt
  cases splits with
  | @lineComment byte line _ starts inLine ends =>
      have isPlain : plain (readAsCode (byte :: line)) = true := by
        have both : (!plain (readAsCode (tokenAt .lineComment executable (byte :: line)
          remaining).text) || _) = false := aligned
        rw [sameText, Bool.or_eq_false_iff] at both
        simpa using both.1
      obtain ⟨found, passes⟩ := passes_lineComment inner backslash inLine
        (fun other starts => ends other (head?_of_startsWith isPrefix starts)) isPlain
      exact ⟨found, passes, named_of_ne_word (by simp [tokenAt])⟩
  | blockComment notExecutable first =>
      exact ⟨_, passes_blockComment notExecutable first, named_of_ne_word (by simp [tokenAt])⟩
  | executableStart => exact absurd rfl notStart
  | executableEnd => exact absurd rfl notEnd
  | string isQuote ends =>
      have same := bne_eq_false_iff_eq.mp aligned
      exact ⟨_, passes_string isQuote (same.trans ends) isPrefix,
        named_of_ne_word (by simp [tokenAt])⟩
  | @word byte run _ starts continues ends =>
      have holds : ∀ other ∈ byte :: run, wordByte other = true :=
        List.forall_mem_cons.mpr ⟨starts, continues⟩
      obtain ⟨found, passes, reported⟩ := passes_word inner backslash holds
        (fun other starts => ends other (head?_of_startsWith isPrefix starts))
      refine ⟨found, passes, fun _ isStart => ?_⟩
      rw [sameText] at isStart ⊢
      exact (List.sublist_flatten_of_mem (reported isStart)).subset
  | other noLine noBlock _ noQuote noWord =>
      exact ⟨_, passes_other noLine noBlock noQuote noWord isPrefix,
        named_of_ne_word (by simp [tokenAt])⟩

/-- A token in an executable comment, neither refused nor misread, leaves the
`*/` that ends the comment to what remains. -/
theorem apart_of_splits (splits : Splits noBackslashEscapes true kind text remaining)
    (aligned : misread backslash (tokenAt kind true text remaining) = false)
    (accepted : refused (tokenAt kind true text remaining) = false)
    (notEnd : kind ≠ .executableEnd) :
    index commentClose text = none ∧
      (text.getLast? = some 0x2A → remaining.head? ≠ some 0x2F) := by
  have sameText := splits.text_tokenAt
  cases splits with
  | @lineComment byte line _ starts inLine ends =>
      have both : (_ || (true && (index commentClose (tokenAt .lineComment true (byte :: line)
        remaining).text).isSome)) = false := aligned
      rw [sameText, Bool.or_eq_false_iff, Bool.true_and, Option.isSome_eq_false_iff,
        Option.isNone_iff_eq_none] at both
      refine ⟨both.2, fun _ slash => ?_⟩
      cases ends _ slash
  | blockComment notExecutable first =>
      have slash : ((tokenAt .blockComment true _ remaining).text.drop 2).head? = some 0x2F :=
        bne_eq_false_iff_eq.mp accepted
      have noSlash : ((tokenAt .blockComment true _ remaining).text.drop 2).head? ≠ some 0x2F :=
        beq_eq_false_iff_ne.mp aligned
      exact absurd slash noSlash
  | executableStart => cases accepted
  | executableEnd => exact absurd rfl notEnd
  | @string quote body _ isQuote ends =>
      have absent : (index commentClose (tokenAt (.string quote
        (!noBackslashEscapes && quote != 0x60)) true (quote :: body) remaining).text).isSome =
          false := accepted
      rw [sameText, Option.isSome_eq_false_iff, Option.isNone_iff_eq_none] at absent
      refine ⟨absent, fun star => ?_⟩
      have last := Postgres.getLast?_of_quotedEnd ends
      rw [List.take_left] at last
      rw [List.getLast?_cons, last] at star
      obtain rfl : quote = 0x2A := Option.some.inj star
      cases isQuote
  | @word byte run _ starts continues ends =>
      have noStar : 0x2A ∉ byte :: run := by
        have holds : ∀ other ∈ byte :: run, wordByte other = true :=
          List.forall_mem_cons.mpr ⟨starts, continues⟩
        intro member
        cases holds _ member
      exact ⟨index_pair_of_not_mem noStar, fun star => absurd (List.mem_of_getLast? star) noStar⟩
  | other noLine noBlock noEnd noQuote noWord =>
      refine ⟨?_, fun star slash => noEnd ⟨rfl, ?_, slash⟩⟩
      · simp [commentClose, index]
      · simpa using star

end

end Trstctl.Accessrules.Mysql
