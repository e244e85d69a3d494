import Trstctl.Accessrules.Postgres.Constructs

/-!
# The command rule against the server

The rule reports what the server executes as long as both find the same
boundaries.  It misreads two constructs: dollar quotes with a tag above ASCII,
and strings that only the server reads with escapes.  It stops at tokens over
its limits.  Over every other token it follows the server from boundary to
boundary.
-/

namespace Trstctl.Accessrules.Postgres

open Go (Bytes bytes)
open Server (Token Kind Continuation)

/-- The rule reads a string with escapes: in the mode with backslashes, and
after an `E` that no byte of a word precedes. -/
def readsEscapes (backslash prefixed : Bool) (behind : Bytes) : Bool :=
  backslash || (prefixed && !behind.head?.any pgWord)

/-- A token of the server that the rule in one of its modes ends elsewhere. -/
def misread (backslash : Bool) (token : Token) : Bool :=
  match token.kind with
  | .string escapes prefixed =>
      let body := token.ahead.drop (if prefixed then 2 else 1)
      Server.quotedEnd 0x27 (readsEscapes backslash prefixed token.behind) body !=
        Server.quotedEnd 0x27 escapes body
  | .dollarQuote tag => (tag.take 256).any (0x80 ≤ ·)
  | _ => false

def overLimit (token : Token) : Bool :=
  match token.kind with
  | .blockComment => 64 < commentDepth 1 (token.ahead.drop 2)
  | .dollarQuote tag => 256 < tag.length && (tag.take 256).all (· < 0x80)
  | .other =>
      token.ahead.head? == some 0x24 &&
        256 ≤ (((token.ahead.drop 1).take 256).takeWhile pgDollarTag).length
  | _ => false

/-- At a boundary of the server the rule does not take a quote for that of an
escape string. -/
def Boundary (behind ahead : Bytes) : Prop :=
  escapePrefix behind = true → ahead.head? ≠ some 0x27

/-- An `E` or `e`. -/
def escapeLetter (byte : UInt8) : Bool :=
  byte == 0x65 || byte == 0x45

variable {last : UInt8}

theorem escapeLetter_of_escapePrefix {behind : Bytes}
    (isPrefix : escapePrefix (last :: behind) = true) :
    escapeLetter last = true := by
  cases behind with
  | nil => exact isPrefix
  | cons previous rest => exact (Bool.and_eq_true_iff.mp isPrefix).1

theorem boundary_of_byte (noLetter : escapeLetter last = false) (behind ahead : Bytes) :
    Boundary (last :: behind) ahead := by
  intro isPrefix
  rw [escapeLetter_of_escapePrefix isPrefix] at noLetter
  cases noLetter

theorem boundary_of_last {passed behind : Bytes}
    (isLast : passed.getLast? = some last) (noLetter : escapeLetter last = false) (ahead : Bytes) :
    Boundary (passed.reverse ++ behind) ahead := by
  obtain ⟨initial, rfl⟩ := List.getLast?_eq_some_iff.mp isLast
  rw [List.reverse_append, List.reverse_singleton, List.singleton_append, List.cons_append]
  exact boundary_of_byte noLetter _ ahead

theorem boundary_of_word {run : Bytes} {first : UInt8} (several : run ≠ [])
    (starts : pgWord first = true) (continues : ∀ byte ∈ run, pgWord byte = true)
    (behind ahead : Bytes) :
    Boundary (run.reverse ++ first :: behind) ahead := by
  intro isPrefix
  obtain ⟨initial, last, rfl⟩ := (List.eq_nil_or_concat' run).resolve_left several
  rw [List.reverse_append, List.reverse_singleton, List.singleton_append, List.cons_append]
    at isPrefix
  cases earlier : initial.reverse with
  | nil =>
      rw [earlier, List.nil_append, escapePrefix, starts] at isPrefix
      simp at isPrefix
  | cons previous others =>
      have member : previous ∈ initial := by
        rw [← List.mem_reverse, earlier]
        exact List.mem_cons_self
      rw [earlier, List.cons_append, escapePrefix,
        continues previous (List.mem_append_left _ member)] at isPrefix
      simp at isPrefix

/-- The rule in one of its modes, from a boundary. -/
def ruleScan (backslash : Bool) (behind ahead : Bytes) :
    Option (List (Option Bytes)) :=
  Scanner.scan (fun _ => iteration backslash) 0 () behind ahead

/-- The rule passes a token and is at a boundary after it.  It reports the
operation of a word. -/
structure Follows (backslash : Bool) (kind : Kind) (behind : Bytes) (byte : UInt8) (rest : Bytes)
    (more : Nat) : Prop where
  passes : ∃ reports : List (Option Bytes),
    (kind = .word → operation ((byte :: rest).take (more + 1)) ∈ reports) ∧
      ruleScan backslash behind (byte :: rest) =
        (ruleScan backslash ((rest.take more).reverse ++ byte :: behind)
          (rest.drop more)).map (reports ++ ·)
  boundary : Boundary ((rest.take more).reverse ++ byte :: behind) (rest.drop more)

section

variable {backslash : Bool} {kind : Kind} {behind rest : Bytes} {byte : UInt8} {more : Nat}

theorem follows_of_iteration (report : Option Bytes)
    (passes : iteration backslash behind (byte :: rest) = some ⟨more, (), report⟩)
    (reported : kind = .word → report = operation ((byte :: rest).take (more + 1)))
    (boundary : Boundary ((rest.take more).reverse ++ byte :: behind) (rest.drop more)) :
    Follows backslash kind behind byte rest more where
  passes := by
    refine ⟨[report], fun isWord => by simp [reported isWord], ?_⟩
    rw [ruleScan, Scanner.scan_cons, passes]
    rfl
  boundary := boundary

theorem letter_of_escapeLetter (letter : escapeLetter byte = true) :
    Server.letter byte = true := by
  simp only [escapeLetter, Bool.or_eq_true, beq_iff_eq] at letter
  rcases letter with rfl | rfl
  · rfl
  · rfl

theorem iteration_letter {backslash : Bool} (letter : Server.letter byte = true) :
    iteration backslash behind (byte :: rest) =
      some ⟨(rest.takeWhile Server.wordByte).length, (),
        operation (byte :: rest.takeWhile Server.wordByte)⟩ := by
  have other : ∀ sign, Server.letter sign = false → byte ≠ sign := by
    rintro _ noLetter rfl
    rw [letter] at noLetter
    cases noLetter
  simp [iteration, pgWordStart_eq, letter, pgWord_eq, other 0x2D rfl, other 0x2F rfl,
    other 0x27 rfl, other 0x22 rfl, other 0x24 rfl]

theorem follows_lineComment (dashes : byte = 0x2D ∧ rest.head? = some 0x2D) :
    Follows backslash .lineComment behind byte rest
      (1 + (rest.tail.takeWhile fun byte => !Server.newline byte).length) := by
  obtain ⟨after, rfl⟩ := List.head?_eq_some_iff.mp dashes.2
  have same : lineComment after = (after.takeWhile fun byte => !Server.newline byte).length := by
    unfold lineComment
    congr 2
    funext byte
    simp [Server.newline, bne]
  refine follows_of_iteration none ?_ (by simp) ?_
  · simp [iteration, dashes.1, same]
  · intro _ quote
    rw [Nat.add_comm, List.drop_succ_cons, List.tail_cons] at quote
    have stops := List.head?_dropWhile_not (fun byte => !Server.newline byte) after
    have dropped : after.drop (after.takeWhile fun byte => !Server.newline byte).length =
        after.dropWhile fun byte => !Server.newline byte :=
      List.append_cancel_left ((List.prefix_iff_eq_append.mp (List.takeWhile_prefix _)).trans
        List.takeWhile_append_dropWhile.symm)
    rw [← dropped, quote] at stops
    cases stops

variable {length : Nat}

theorem follows_blockComment (opens : byte = 0x2F ∧ rest.head? = some 0x2A)
    (ends : Server.commentEnd 1 rest.tail = some length) (shallow : commentDepth 1 rest.tail ≤ 64) :
    Follows backslash .blockComment behind byte rest (1 + length) := by
  obtain ⟨after, rfl⟩ := List.head?_eq_some_iff.mp opens.2
  refine follows_of_iteration none ?_ (by simp) ?_
  · have same : blockComment 1 after = some length := blockComment_eq shallow ends
    simp [iteration, opens.1, same]
  · have last : ((0x2A :: after).take (1 + length)).getLast? = some 0x2F := by
      have inner : (after.take length).getLast? = some 0x2F :=
        getLast?_of_commentEnd Nat.one_pos ends
      rw [Nat.add_comm, List.take_succ_cons, List.getLast?_cons, inner]
      rfl
    exact boundary_of_last last rfl _

theorem follows_string {escapes : Bool} (boundary : Boundary behind (0x27 :: rest))
    (ends : Server.quotedEnd 0x27 escapes rest = some length)
    (same : Server.quotedEnd 0x27 (readsEscapes backslash false behind) rest =
      Server.quotedEnd 0x27 escapes rest) :
    Follows backslash (.string escapes false) behind 0x27 rest length := by
  have noPrefix : escapePrefix behind = false := by
    by_contra isPrefix
    exact boundary (by simpa using isPrefix) rfl
  refine follows_of_iteration none ?_ (by simp) ?_
  · rw [readsEscapes, Bool.false_and, ends] at same
    simp [iteration, noPrefix, pgQuotedEnd_eq, ← same]
  · exact boundary_of_last (getLast?_of_quotedEnd ends) rfl _

theorem follows_prefixedString (letter : escapeLetter byte = true)
    (ends : Server.quotedEnd 0x27 true rest = some length)
    (same : Server.quotedEnd 0x27 (readsEscapes backslash true behind) rest =
      Server.quotedEnd 0x27 true rest) :
    Follows backslash (.string true true) behind byte (0x27 :: rest) (1 + length) where
  passes := by
    have prefixes : escapePrefix (byte :: behind) = !behind.head?.any pgWord := by
      cases behind with
      | nil => exact letter
      | cons previous earlier =>
          change (escapeLetter byte && !pgWord previous) = _
          simp [letter]
    have quoted : iteration backslash (byte :: behind) (0x27 :: rest) =
        some ⟨length, (), none⟩ := by
      rw [readsEscapes, Bool.true_and, ends] at same
      simp [iteration, prefixes, pgQuotedEnd_eq, same]
    refine ⟨[operation [byte], none], by simp, ?_⟩
    have alone : (0x27 :: rest).takeWhile Server.wordByte = [] := rfl
    rw [ruleScan, Scanner.scan_cons, iteration_letter (letter_of_escapeLetter letter), alone,
      Nat.add_comm, List.take_succ_cons, List.drop_succ_cons, List.reverse_cons,
      List.append_assoc]
    change (Scanner.scan _ 0 () (byte :: behind) (0x27 :: rest)).map _ = _
    rw [Scanner.scan_cons, quoted, Option.bind_some, Option.map_map]
    rfl
  boundary := by
    have last : ((0x27 :: rest).take (1 + length)).getLast? = some 0x27 := by
      rw [Nat.add_comm, List.take_succ_cons, List.getLast?_cons, getLast?_of_quotedEnd ends]
      rfl
    exact boundary_of_last last rfl _

theorem follows_identifier (ends : Server.quotedEnd 0x22 false rest = some length) :
    Follows backslash .identifier behind 0x22 rest length := by
  refine follows_of_iteration none ?_ (by simp) ?_
  · simp [iteration, pgQuotedEnd_eq, ends]
  · exact boundary_of_last (getLast?_of_quotedEnd ends) rfl _

theorem follows_dollarQuote {tag : Bytes} {start : Nat} (opens : Server.dollarTag rest = some tag)
    (short : tag.length ≤ 256) (ascii : ∀ byte ∈ tag, byte < 0x80)
    (closes : Go.index (0x24 :: tag ++ [0x24]) (rest.drop (tag.length + 1)) = some start) :
    Follows backslash (.dollarQuote tag) behind 0x24 rest
      (tag.length + 1 + start + (tag.length + 2)) := by
  refine follows_of_iteration none ?_ (by simp) ?_
  · simp [iteration, dollarQuote_of_tag opens short ascii closes]
  · exact boundary_of_last (getLast?_of_dollarQuote closes) rfl _

theorem follows_dollar (notTag : Server.dollarTag rest = none)
    (short : ((rest.take 256).takeWhile pgDollarTag).length < 256) :
    Follows backslash .other behind 0x24 rest 0 := by
  refine follows_of_iteration none ?_ (by simp) ?_
  · simp [iteration, dollarQuote_of_none notTag, short]
  · exact boundary_of_byte rfl behind rest

theorem follows_word (letter : Server.letter byte = true)
    (unprefixed : ¬ (escapeLetter byte = true ∧ rest.head? = some 0x27)) :
    Follows backslash .word behind byte rest (rest.takeWhile Server.wordByte).length := by
  have taken : rest.take (rest.takeWhile Server.wordByte).length = rest.takeWhile Server.wordByte :=
    (List.prefix_iff_eq_take.mp (List.takeWhile_prefix _)).symm
  refine follows_of_iteration _ (iteration_letter letter) (fun _ => ?_) ?_
  · rw [List.take_succ_cons, taken]
  · rw [taken]
    by_cases single : rest.takeWhile Server.wordByte = []
    · intro isPrefix quote
      rw [single] at isPrefix quote
      exact unprefixed ⟨escapeLetter_of_escapePrefix isPrefix, quote⟩
    · refine boundary_of_word single ?_ (fun byte member => ?_) behind _
      · rw [pgWord, pgWordStart_eq, letter]
        rfl
      · rw [pgWord_eq]
        exact List.mem_takeWhile_imp member

theorem follows_other (noLetter : Server.letter byte = false)
    (notDashes : ¬ (byte = 0x2D ∧ rest.head? = some 0x2D))
    (notComment : ¬ (byte = 0x2F ∧ rest.head? = some 0x2A)) (notQuote : ¬ byte = 0x27)
    (notIdentifier : ¬ byte = 0x22) (notDollar : ¬ byte = 0x24) :
    Follows backslash .other behind byte rest 0 := by
  refine follows_of_iteration none ?_ (by simp) ?_
  · simp [iteration, notDashes, notComment, notQuote, notIdentifier, notDollar, pgWordStart_eq,
      noLetter]
  · refine boundary_of_byte ?_ behind rest
    by_contra letter
    rw [letter_of_escapeLetter (by simpa using letter)] at noLetter
    cases noLetter

/-- The rule follows the server over every token within its limits that it does
not misread. -/
theorem follows_of_token {standardConforming : Bool} {continuation : Continuation}
    (boundary : Boundary behind (byte :: rest))
    (found : Server.token standardConforming continuation (byte :: rest) = some (kind, more))
    (aligned : misread backslash ⟨kind, behind, byte :: rest, more⟩ = false)
    (limited : overLimit ⟨kind, behind, byte :: rest, more⟩ = false) :
    Follows backslash kind behind byte rest more := by
  unfold Server.token at found
  dsimp only at found
  split_ifs at found with dashes comment quote prefixed identifier dollar letter
  · obtain ⟨rfl, rfl⟩ := Prod.mk.inj (Option.some.inj found)
    exact follows_lineComment dashes
  · obtain ⟨length, ends, found⟩ := Option.map_eq_some_iff.mp found
    obtain ⟨rfl, rfl⟩ := Prod.mk.inj found
    refine follows_blockComment comment ends ?_
    simpa [overLimit] using limited
  · obtain ⟨length, ends, found⟩ := Option.map_eq_some_iff.mp found
    obtain ⟨rfl, rfl⟩ := Prod.mk.inj found
    subst quote
    refine follows_string boundary ends ?_
    simpa [misread] using aligned
  · obtain ⟨length, ends, found⟩ := Option.map_eq_some_iff.mp found
    obtain ⟨rfl, rfl⟩ := Prod.mk.inj found
    obtain ⟨letter, opens⟩ := prefixed
    obtain ⟨body, rfl⟩ := List.head?_eq_some_iff.mp opens
    refine follows_prefixedString ?_ ends ?_
    · simpa [escapeLetter, or_comm] using letter
    · simpa [misread] using aligned
  · obtain ⟨length, ends, found⟩ := Option.map_eq_some_iff.mp found
    obtain ⟨rfl, rfl⟩ := Prod.mk.inj found
    subst identifier
    exact follows_identifier ends
  · subst dollar
    cases opens : Server.dollarTag rest with
    | none =>
        simp only [opens] at found
        obtain ⟨rfl, rfl⟩ := Prod.mk.inj (Option.some.inj found)
        refine follows_dollar opens ?_
        simpa [overLimit] using limited
    | some tag =>
        simp only [opens] at found
        obtain ⟨start, closes, found⟩ := Option.map_eq_some_iff.mp found
        obtain ⟨rfl, rfl⟩ := Prod.mk.inj found
        have ascii : ∀ byte ∈ tag.take 256, byte < 0x80 := by simpa [misread] using aligned
        have short : tag.length ≤ 256 := by
          have within : 256 < tag.length → ¬ ∀ byte ∈ tag.take 256, byte < 0x80 := by
            simpa [overLimit] using limited
          exact Nat.le_of_not_lt fun long => within long ascii
        rw [List.take_of_length_le short] at ascii
        exact follows_dollarQuote opens short ascii closes
  · obtain ⟨rfl, rfl⟩ := Prod.mk.inj (Option.some.inj found)
    refine follows_word letter ?_
    simpa [escapeLetter, or_comm] using prefixed
  · obtain ⟨rfl, rfl⟩ := Prod.mk.inj (Option.some.inj found)
    exact follows_other (by simpa using letter) dashes comment quote identifier dollar

/-- The rule stops at a token over its limits. -/
theorem ruleScan_eq_none {standardConforming : Bool} {continuation : Continuation}
    (found : Server.token standardConforming continuation (byte :: rest) = some (kind, more))
    (exceeds : overLimit ⟨kind, behind, byte :: rest, more⟩ = true) :
    ruleScan backslash behind (byte :: rest) = none := by
  suffices stops : iteration backslash behind (byte :: rest) = none by
    rw [ruleScan, Scanner.scan_cons, stops]
    rfl
  unfold Server.token at found
  dsimp only at found
  split_ifs at found with dashes comment quote prefixed identifier dollar letter
  · obtain ⟨rfl, rfl⟩ := Prod.mk.inj (Option.some.inj found)
    cases exceeds
  · obtain ⟨length, ends, found⟩ := Option.map_eq_some_iff.mp found
    obtain ⟨rfl, rfl⟩ := Prod.mk.inj found
    obtain ⟨after, rfl⟩ := List.head?_eq_some_iff.mp comment.2
    have deep : 64 < commentDepth 1 after := by simpa [overLimit] using exceeds
    simp [iteration, comment.1, blockComment_eq_none (by omega) deep]
  · obtain ⟨length, ends, found⟩ := Option.map_eq_some_iff.mp found
    obtain ⟨rfl, rfl⟩ := Prod.mk.inj found
    cases exceeds
  · obtain ⟨length, ends, found⟩ := Option.map_eq_some_iff.mp found
    obtain ⟨rfl, rfl⟩ := Prod.mk.inj found
    cases exceeds
  · obtain ⟨length, ends, found⟩ := Option.map_eq_some_iff.mp found
    obtain ⟨rfl, rfl⟩ := Prod.mk.inj found
    cases exceeds
  · subst dollar
    cases opens : Server.dollarTag rest with
    | none =>
        simp only [opens] at found
        obtain ⟨rfl, rfl⟩ := Prod.mk.inj (Option.some.inj found)
        have long : 256 ≤ ((rest.take 256).takeWhile pgDollarTag).length := by
          simpa [overLimit] using exceeds
        simp [iteration, dollarQuote_of_none opens, long]
    | some tag =>
        simp only [opens] at found
        obtain ⟨start, closes, found⟩ := Option.map_eq_some_iff.mp found
        obtain ⟨rfl, rfl⟩ := Prod.mk.inj found
        have long : 256 < tag.length ∧ ∀ byte ∈ tag.take 256, byte < 0x80 := by
          simpa [overLimit] using exceeds
        simp [iteration, dollarQuote_eq_none opens long.1 long.2]
  · obtain ⟨rfl, rfl⟩ := Prod.mk.inj (Option.some.inj found)
    cases exceeds
  · obtain ⟨rfl, rfl⟩ := Prod.mk.inj (Option.some.inj found)
    simp [overLimit, dollar] at exceeds

end

end Trstctl.Accessrules.Postgres
