import Trstctl.Accessrules.Mysql.Alignment

/-!
# Every MySQL operation is reported

The rule stays aligned with the server over a whole text without a misread
token, executable comments included.  It then reports every operation keyword
that the server reads as a word, or refuses the statement.
-/

namespace Trstctl.Accessrules.Mysql

open Go (Bytes bytes upperByte index)
open Accessrules.Server (quotedEnd digit)
open Mysql.Server (Kind Token wordByte executableAfter)

section

variable {noBackslashEscapes executable backslash : Bool} {ahead : Bytes} {tokens : List Token}
  {inner : Bytes → Option (List Bytes)}

/-- The server reads a text as tokens, from inside or outside an executable
comment to outside. -/
inductive Lexed (noBackslashEscapes : Bool) : Bool → Bytes → List Token → Prop where
  | nil : Lexed noBackslashEscapes false [] []
  | cons
      {executable : Bool}
      {kind : Kind}
      {text remaining : Bytes}
      {later : List Token}
      (splits : Splits noBackslashEscapes executable kind text remaining)
      (lexed : Lexed noBackslashEscapes (executableAfter executable kind) remaining later) :
      Lexed noBackslashEscapes executable (text ++ remaining)
        (tokenAt kind executable text remaining :: later)

theorem lexed_of_scan {behind : Bytes}
    (lexes : Scanner.scan (fun executable _ => Server.next noBackslashEscapes executable) 0
      executable behind ahead = some tokens)
    (inside : executable = true → ahead ≠ []) :
    Lexed noBackslashEscapes executable ahead tokens := by
  induction size : ahead.length using Nat.strong_induction_on
    generalizing executable behind ahead tokens with
  | _ length ih =>
    cases ahead with
    | nil =>
        obtain rfl : [] = tokens := by simpa using lexes
        cases executable with
        | false => exact .nil
        | true => exact absurd rfl (inside rfl)
    | cons byte rest =>
        rw [Scanner.scan_cons, Option.bind_eq_some_iff] at lexes
        obtain ⟨lexeme, found, lexes⟩ := lexes
        obtain ⟨later, lexesLater, rfl⟩ := Option.map_eq_some_iff.mp lexes
        obtain ⟨⟨kind, more⟩, starts, found⟩ := Option.bind_eq_some_iff.mp found
        dsimp only at found
        split_ifs at found with unclosed
        obtain rfl := Option.some.inj found
        obtain ⟨text, remaining, split, sized, splits⟩ := splits_of_token starts
        have dropped : rest.drop more = remaining := by
          have same : (byte :: rest).drop (more + 1) = remaining := by
            rw [split, ← sized, List.drop_left]
          exact same
        have shorter : remaining.length < length := by
          rw [← size, split, List.length_append, sized]
          omega
        dsimp only at lexesLater
        rw [dropped] at lexesLater
        have closed : executableAfter executable kind = true → remaining ≠ [] := by
          intro following empty
          exact unclosed ⟨following, dropped.trans empty⟩
        have derived := ih _ shorter lexesLater closed rfl
        have same : (⟨kind, executable, byte :: rest, more⟩ : Token) =
            tokenAt kind executable text remaining := by
          rw [tokenAt, split, sized]
          rfl
        rw [same, split]
        exact .cons splits derived

theorem closes_of_lexed (lexed : Lexed noBackslashEscapes executable ahead tokens)
    (inside : executable = true) :
    (index commentClose ahead).isSome = true := by
  induction lexed with
  | nil => cases inside
  | @cons executable kind text remaining later splits _ ih =>
      subst inside
      by_cases isEnd : kind = .executableEnd
      · subst isEnd
        cases splits
        rw [commentClose, List.cons_append, index_pair_cons, if_pos ⟨rfl, rfl⟩]
        rfl
      · have following : executableAfter true kind = true := by
          cases kind <;> first | rfl | exact absurd rfl isEnd
        by_contra absent
        rw [Bool.not_eq_true, Option.isSome_eq_false_iff, Option.isNone_iff_eq_none] at absent
        have dropped := index_pair_drop absent text.length
        rw [List.drop_left] at dropped
        have closes := ih following
        rw [commentClose, dropped] at closes
        cases closes

/-- The tokens up to the first that is refused. -/
def inspected : List Token → List Token
  | [] => []
  | token :: later => if refused token then [token] else token :: inspected later

theorem mem_inspected_cons (token : Token) (later : List Token) :
    token ∈ inspected (token :: later) := by
  rw [inspected]
  split_ifs
  · exact List.mem_singleton_self token
  · exact List.mem_cons_self

theorem inspected_append {passed : List Token} (accepted : ∀ token ∈ passed, refused token = false)
    (later : List Token) :
    inspected (passed ++ later) = passed ++ inspected later := by
  induction passed with
  | nil => rfl
  | cons token passed ih =>
      rw [List.forall_mem_cons] at accepted
      rw [List.cons_append, inspected, accepted.1, if_neg (by simp),
        ih accepted.2]
      rfl

theorem scanWith_of_block {rest window after : Bytes}
    (split : 0x2F :: 0x2A :: rest = window ++ commentClose ++ after)
    (third : rest.head? ≠ some 0x2F) (first : index commentClose window = none) :
    scanWith inner backslash window = none := by
  cases window with
  | nil => cases split
  | cons slash window =>
      cases window with
      | nil =>
          have same : rest = 0x2F :: after := (List.cons.inj (List.cons.inj split).2).2
          rw [same] at third
          exact absurd rfl third
      | cons star window =>
          obtain ⟨rfl, inner⟩ := List.cons.inj split
          obtain ⟨rfl, -⟩ := List.cons.inj inner
          have absent : index commentClose window = none := index_pair_drop first 2
          refine scanWith_eq_none ?_
          rw [iteration_block, absent]
          rfl

/-- The rule refuses a string with a `*/` in the body of an executable
comment. -/
theorem scanWith_of_string {quote : UInt8} {body remaining window after : Bytes}
    (isQuote : quoteByte quote = true)
    (ends : quotedEnd quote (backslash && quote != 0x60) (body ++ remaining) = some body.length)
    (holds : index commentClose (quote :: body) ≠ none)
    (split : quote :: body ++ remaining = window ++ commentClose ++ after)
    (first : index commentClose window = none) :
    scanWith inner backslash window = none := by
  have notBackslash := ne_backslash_of_quoteByte isQuote
  have notStar : quote ≠ 0x2A := by
    rintro rfl
    cases isQuote
  cases window with
  | nil => exact absurd (List.cons.inj split).1 notStar
  | cons head window =>
      obtain ⟨rfl, bodies⟩ := List.cons.inj split
      have bodies : body ++ remaining = window ++ (commentClose ++ after) := by
        rw [← List.append_assoc]
        exact bodies
      refine scanWith_eq_none ?_
      rw [iteration_quote isQuote, quoted_eq notBackslash]
      cases closes : quotedEnd quote (backslash && quote != 0x60) window with
      | none => rfl
      | some length =>
          have apart : (commentClose ++ after).head? ≠ some quote := by
            simpa [commentClose] using notStar.symm
          have longer := quotedEnd_append notBackslash closes apart
          rw [← bodies, ends] at longer
          have within : body.length ≤ window.length := by
            rw [Option.some.inj longer]
            exact quotedEnd_le closes
          have isPrefix : window <+: body ++ remaining := ⟨_, bodies.symm⟩
          obtain ⟨others, rfl⟩ :=
            List.prefix_of_prefix_length_le ⟨remaining, rfl⟩ isPrefix within
          rw [← List.cons_append, commentClose] at first
          exact absurd (index_pair_left first) holds

theorem scanWith_of_refused {kind : Kind} {text remaining window after : Bytes}
    (splits : Splits noBackslashEscapes true kind text remaining)
    (isRefused : refused (tokenAt kind true text remaining) = true)
    (aligned : misread backslash (tokenAt kind true text remaining) = false)
    (split : text ++ remaining = window ++ commentClose ++ after)
    (first : index commentClose window = none) :
    scanWith inner backslash window = none := by
  have sameText := splits.text_tokenAt
  cases splits with
  | lineComment => cases isRefused
  | @blockComment body _ notExecutable closes =>
      have third : ((tokenAt .blockComment true _ remaining).text.drop 2).head? ≠ some 0x2F :=
        bne_iff_ne.mp isRefused
      rw [sameText] at third
      refine scanWith_of_block split ?_ first
      cases body with
      | nil => simp [commentClose]
      | cons head others => simpa using third
  | @executableStart version _ digits ends =>
      exact scanWith_of_block split (by simp) first
  | executableEnd => cases isRefused
  | @string quote body _ isQuote ends =>
      have same := bne_eq_false_iff_eq.mp aligned
      have holds : (index commentClose (tokenAt (.string quote
        (!noBackslashEscapes && quote != 0x60)) true (quote :: body) remaining).text).isSome =
          true := isRefused
      rw [sameText, Option.isSome_iff_ne_none] at holds
      exact scanWith_of_string isQuote (same.trans ends) holds split first
  | word => cases isRefused
  | other => cases isRefused

/-- The rule in the body of an executable comment. -/
theorem body_of_lexed (lexed : Lexed noBackslashEscapes executable ahead tokens)
    (inside : executable = true)
    (aligned : ∀ token ∈ inspected tokens, misread backslash token = false) :
    ∃ window after, ahead = window ++ commentClose ++ after ∧
      ((tokens.any refused = true ∧ scanWith inner backslash window = none) ∨
        ∃ body later found, tokens = body ++ later ∧ (∀ token ∈ body, refused token = false) ∧
          scanWith inner backslash window = some found ∧
          (∀ token ∈ body, Named found.flatten token) ∧
          Lexed noBackslashEscapes false after later) ∧
      index commentClose window = none := by
  induction lexed with
  | nil => cases inside
  | @cons executable kind text remaining later splits lexed ih =>
      subst inside
      have first := aligned _ (mem_inspected_cons _ _)
      cases isRefused : refused (tokenAt kind true text remaining) with
      | true =>
          have closes := closes_of_lexed (.cons splits lexed) rfl
          obtain ⟨start, found⟩ := Option.isSome_iff_exists.mp closes
          obtain ⟨window, after, split, -, absent⟩ := split_of_index_pair found
          have split : text ++ remaining = window ++ commentClose ++ after := by
            rw [split, commentClose, List.append_assoc]
            rfl
          refine ⟨window, after, split, .inl ⟨?_, ?_⟩, absent⟩
          · simp [isRefused]
          · exact scanWith_of_refused splits isRefused first split absent
      | false =>
          by_cases isEnd : kind = .executableEnd
          · subst isEnd
            cases splits
            exact ⟨[], remaining, rfl, .inr ⟨[_], later, [], rfl, by simpa using isRefused,
              Scanner.scan_nil _ _ _, by simp [Named, tokenAt], lexed⟩, rfl⟩
          · have following : executableAfter true kind = true := by
              cases kind <;> first | rfl | exact absurd rfl isEnd
            have notStart : kind ≠ .executableStart := by
              rintro rfl
              cases isRefused
            have passed : inspected (tokenAt kind true text remaining :: later) =
                tokenAt kind true text remaining :: inspected later := by
              simp [inspected, isRefused]
            rw [passed, List.forall_mem_cons] at aligned
            obtain ⟨absent, apart⟩ := apart_of_splits splits first isRefused isEnd
            obtain ⟨window, after, rfl, outcome, absentLater⟩ :=
              ih following aligned.2
            obtain ⟨found, passes, named⟩ := passes_of_splits inner splits first
              ⟨commentClose ++ after, (List.append_assoc _ _ _).symm⟩ notStart isEnd
            refine ⟨text ++ window, after, by simp, ?_, ?_⟩
            · rcases outcome with ⟨isRefusedLater, stops⟩ |
                ⟨body, rest, others, rfl, accepted, reads, words, lexedLater⟩
              · refine .inl ⟨by simp [isRefusedLater], ?_⟩
                rw [passes, stops]
                rfl
              · refine .inr ⟨_ :: body, rest, found ++ others, rfl, ?_, ?_, ?_, lexedLater⟩
                · exact List.forall_mem_cons.mpr ⟨isRefused, accepted⟩
                · rw [passes, reads]
                  rfl
                · rw [List.flatten_append]
                  exact List.forall_mem_cons.mpr ⟨named.mono (List.subset_append_left _ _),
                    fun token member => (words token member).mono (List.subset_append_right _ _)⟩
            · have notSlash : text.getLast? = some 0x2A → window.head? ≠ some 0x2F := by
                intro star slash
                refine apart star ?_
                rw [List.append_assoc, List.head?_append, slash]
                rfl
              rw [commentClose, index_pair_append absent notSlash]
              exact congrArg _ absentLater

/-- The iteration at an executable comment reads its body. -/
theorem iteration_executable (inner : Bytes → Option (List Bytes)) (backslash : Bool)
    {version window : Bytes} (after : Bytes) (digits : ∀ byte ∈ version, digit byte = true)
    (ends : ∀ byte, window.head? = some byte → digit byte = false)
    (first : index commentClose window = none) :
    iteration inner backslash
        (0x2F :: 0x2A :: 0x21 :: (version ++ (window ++ commentClose ++ after))) =
      (inner window).map fun found => ⟨version.length + window.length + 4, (), found⟩ := by
  have noStar : 0x2A ∉ 0x21 :: version := by
    intro member
    rcases List.mem_cons.mp member with isMark | member
    · cases isMark
    · cases digits _ member
  have body : index commentClose (0x21 :: (version ++ (window ++ commentClose ++ after))) =
      some (window.length + (0x21 :: version).length) := by
    have closes : index commentClose (window ++ commentClose ++ after) =
        some window.length := by
      rw [List.append_assoc, commentClose, index_pair_append first (by simp), List.cons_append,
        index_pair_cons, if_pos ⟨rfl, rfl⟩]
      simp
    rw [← List.cons_append, commentClose, index_pair_append (index_pair_of_not_mem noStar)]
    · exact congrArg (Option.map (· + (0x21 :: version).length)) closes
    · intro star
      exact absurd (List.mem_of_getLast? star) noStar
  have taken : (0x21 :: (version ++ (window ++ commentClose ++ after))).take
      (window.length + (0x21 :: version).length) = 0x21 :: (version ++ window) := by
    have split : 0x21 :: (version ++ (window ++ commentClose ++ after)) =
        (0x21 :: (version ++ window)) ++ (commentClose ++ after) := by simp
    rw [split, List.take_left']
    simp only [List.length_cons, List.length_append]
    omega
  have unversioned : (version ++ window).dropWhile pgDigit = window := by
    have same : pgDigit = digit := rfl
    rw [same, List.dropWhile_append_of_pos digits]
    cases window with
    | nil => rfl
    | cons byte others =>
        rw [List.dropWhile_cons_of_neg]
        simp [ends byte rfl]
  rw [iteration_block, body, Option.bind_some, taken, executed, List.head?_cons, if_pos rfl,
    List.tail_cons, unversioned]
  congr 1
  funext found
  congr 1
  rw [List.length_cons]
  omega

theorem drop_executable (version window after : Bytes) :
    (0x2A :: 0x21 :: (version ++ (window ++ commentClose ++ after))).drop
      (version.length + window.length + 4) = after := by
  have split : 0x2A :: 0x21 :: (version ++ (window ++ commentClose ++ after)) =
      (0x2A :: 0x21 :: (version ++ window ++ commentClose)) ++ after := by simp
  rw [split, List.drop_left']
  simp only [commentClose, List.length_cons, List.length_append, List.length_nil]

/-- The rule reads a text to the end and finds the operations of all tokens, or
refuses one of them and with it the text. -/
def Outcome (tokens : List Token) (result : Option (List (List Bytes))) : Prop :=
  (tokens.any refused = true ∧ result = none) ∨
    (tokens.any refused = false ∧
      ∃ found, result = some found ∧ ∀ token ∈ tokens, Named found.flatten token)

theorem outcome_of_passes
    {text rest : Bytes} {found : List (List Bytes)} {passed later : List Token}
    (passes : Passes inner backslash text found rest)
    (accepted : ∀ token ∈ passed, refused token = false)
    (named : ∀ token ∈ passed, Named found.flatten token)
    (outcome : Outcome later (scanWith inner backslash rest)) :
    Outcome (passed ++ later) (scanWith inner backslash text) := by
  have acceptedAll : passed.any refused = false := by simpa using accepted
  rw [Outcome, List.any_append, acceptedAll, Bool.false_or, passes]
  rcases outcome with ⟨isRefused, stops⟩ | ⟨acceptedLater, others, reads, words⟩
  · refine .inl ⟨isRefused, ?_⟩
    rw [stops]
    rfl
  · refine .inr ⟨acceptedLater, found ++ others, ?_, ?_⟩
    · rw [reads]
      rfl
    · rw [List.flatten_append]
      intro token member
      rcases List.mem_append.mp member with member | member
      · exact (named token member).mono (List.subset_append_left _ _)
      · exact (words token member).mono (List.subset_append_right _ _)

/-- The rule over a whole text of which it misreads no token up to the first
that it refuses. -/
theorem outcome_of_lexed (levels : Nat) (lexed : Lexed noBackslashEscapes false ahead tokens)
    (aligned : ∀ token ∈ inspected tokens, misread backslash token = false) :
    Outcome tokens (scanWith (operationsWith (levels + 1) backslash) backslash ahead) := by
  induction size : tokens.length using Nat.strong_induction_on generalizing ahead tokens with
  | _ length ih =>
    cases lexed with
    | nil => exact .inr ⟨rfl, [], Scanner.scan_nil _ _ _, by simp⟩
    | @cons _ kind text remaining later splits lexed =>
        have accepted : refused (tokenAt kind false text remaining) = false := rfl
        have passed : inspected (tokenAt kind false text remaining :: later) =
            tokenAt kind false text remaining :: inspected later := by
          simp [inspected, accepted]
        rw [passed, List.forall_mem_cons] at aligned
        by_cases isStart : kind = .executableStart
        · subst isStart
          obtain ⟨window, after, rfl, outcome, first⟩ := body_of_lexed lexed rfl aligned.2
          cases splits with
          | @executableStart version _ digits ends =>
              have windowEnds : ∀ byte, window.head? = some byte → digit byte = false := by
                intro byte starts
                refine ends byte ?_
                rw [List.append_assoc, List.head?_append, starts]
                rfl
              have start := iteration_executable (operationsWith (levels + 1) backslash) backslash
                after digits windowEnds first
              rcases outcome with ⟨isRefused, stops⟩ |
                ⟨body, rest, found, rfl, acceptedBody, reads, words, lexedLater⟩
              · refine .inl ⟨by simp [isRefused], scanWith_eq_none ?_⟩
                rw [operationsWith, stops] at start
                exact start
              · rw [inspected_append acceptedBody] at aligned
                rw [operationsWith, reads] at start
                have passes := passes_of_iteration start
                rw [drop_executable] at passes
                refine outcome_of_passes passes
                  (List.forall_mem_cons.mpr ⟨accepted, acceptedBody⟩)
                  (List.forall_mem_cons.mpr ⟨named_of_ne_word (by simp [tokenAt]), ?_⟩) ?_
                · simpa using words
                · refine ih _ ?_ lexedLater
                    (fun token member => aligned.2 token (List.mem_append_right _ member)) rfl
                  rw [← size, List.length_cons, List.length_append]
                  omega
        · have isEnd : kind ≠ .executableEnd := by
            rintro rfl
            cases splits with
            | executableEnd inside => cases inside
          have outside : executableAfter false kind = false := by
            cases kind <;> first | rfl | exact absurd rfl isStart
          rw [outside] at lexed
          obtain ⟨found, passes, named⟩ := passes_of_splits
            (operationsWith (levels + 1) backslash) splits aligned.1 (List.prefix_refl _) isStart
            isEnd
          refine outcome_of_passes passes (List.forall_mem_singleton.mpr accepted)
            (List.forall_mem_singleton.mpr named) ?_
          exact ih _ (by rw [← size]; simp) lexed aligned.2 rfl

end

theorem starts_of_spelling {word keyword : Bytes} (known : keyword ∈ mysqlClassifierNames)
    (spells : word.map upperByte = keyword) :
    word.head?.any pgWordStart = true := by
  have letters : ∀ name ∈ mysqlClassifierNames,
      name.head?.any (fun first => 0x41 ≤ first && first ≤ 0x5A) = true := by
    decide +kernel
  have upper := letters keyword known
  subst spells
  cases word with
  | nil => cases upper
  | cons byte word =>
      simp only [List.map_cons, List.head?_cons, Option.any_some, Bool.and_eq_true,
        decide_eq_true_eq, upperByte] at upper
      simp only [List.head?_cons, Option.any_some, pgWordStart, Bool.or_eq_true, Bool.and_eq_true,
        decide_eq_true_eq]
      split_ifs at upper with lower
      · exact .inl (.inl (.inr lower))
      · exact .inl (.inr upper)

theorem operation_of_spelling {word keyword : Bytes} (known : keyword ∈ mysqlClassifierNames)
    (spells : word.map upperByte = keyword) :
    keyword ∈ operation word := by
  have short : ∀ name ∈ mysqlClassifierNames, name.length ≤ 32 := by decide +kernel
  have within := short keyword known
  subst spells
  rw [List.length_map] at within
  rw [operation, if_pos ⟨within, known⟩]
  exact List.mem_singleton_self _

theorem mem_mysqlOperations {backslash : Bool} {raw keyword : Bytes} {operations : List Bytes}
    (known : keyword ∈ mysqlClassifierNames)
    (found : operationsWith 9 backslash raw = some operations) (member : keyword ∈ operations) :
    mysqlOperations raw = none ∨
      ∃ reported, mysqlOperations raw = some reported ∧ keyword ∈ reported := by
  have merged : keyword ∈ (mysqlClassifierNames.filter fun name =>
      name ∈ (operationsWith 9 false raw).getD [] ||
        name ∈ (operationsWith 9 true raw).getD []).insertionSort (· ≤ ·) := by
    rw [List.mem_insertionSort, List.mem_filter]
    refine ⟨known, ?_⟩
    cases backslash with
    | false => simp [found, member]
    | true => simp [found, member]
  unfold mysqlOperations
  split_ifs with refused
  · exact .inl rfl
  · split
    · next first second =>
        cases backslash with
        | false => rw [first] at found; cases found
        | true => rw [second] at found; cases found
    · exact .inr ⟨_, rfl, merged⟩

/-- A keyword occurs as an unquoted word. -/
def Occurs (keyword : Bytes) (tokens : List Token) : Prop :=
  ∃ token ∈ tokens, token.kind = .word ∧ token.text.map upperByte = keyword

/-- Every operation that occurs in a text which the server can read is
reported, or the text is refused. -/
def Reported (noBackslashEscapes : Bool) (raw : Bytes) : Prop :=
  ∀ tokens, Server.lex noBackslashEscapes raw = some tokens →
    ∀ keyword ∈ mysqlClassifierNames, Occurs keyword tokens →
      mysqlOperations raw = none ∨
        ∃ operations, mysqlOperations raw = some operations ∧ keyword ∈ operations

/-- The rule refuses the text before it reads it, or it misreads no token up to
the first that it refuses: in the mode of the server, and in both when it
refuses one. -/
def Aligned (noBackslashEscapes : Bool) (raw : Bytes) : Prop :=
  let tokens := (Server.lex noBackslashEscapes raw).getD []
  Uninspectable maxStatementBytes raw ∨
    ∀ backslash, backslash = !noBackslashEscapes ∨ tokens.any refused = true →
      ∀ token ∈ inspected tokens, misread backslash token = false

instance (noBackslashEscapes : Bool) (raw : Bytes) : Decidable (Aligned noBackslashEscapes raw) :=
  inferInstanceAs (Decidable (_ ∨ ∀ _, _ ∨ _ → ∀ _ ∈ inspected _, _ = _))

instance (keyword : Bytes) (tokens : List Token) : Decidable (Occurs keyword tokens) :=
  inferInstanceAs (Decidable (∃ token ∈ tokens, _ ∧ _))

/-- No operation is hidden in a text without misread tokens. -/
theorem operations_reported_of_aligned
    (noBackslashEscapes : Bool)
    (raw : Bytes)
    (aligned : Aligned noBackslashEscapes raw) :
    Reported noBackslashEscapes raw := by
  intro tokens lexes keyword known ⟨token, member, isWord, spells⟩
  rcases aligned with uninspectable | aligned
  · exact .inl (if_pos uninspectable)
  have lexed : Lexed noBackslashEscapes false raw tokens := lexed_of_scan lexes (by simp)
  simp only [lexes, Option.getD_some] at aligned
  rcases outcome_of_lexed 7 lexed (aligned _ (.inl rfl)) with
    ⟨isRefused, -⟩ | ⟨-, found, reads, words⟩
  · have stops : ∀ backslash, operationsWith 9 backslash raw = none := by
      intro backslash
      rcases outcome_of_lexed 7 lexed (aligned backslash (.inr isRefused)) with
        ⟨-, stops⟩ | ⟨accepted, -⟩
      · exact congrArg (Option.map List.flatten) stops
      · rw [accepted] at isRefused
        cases isRefused
    refine .inl ?_
    rw [mysqlOperations, stops false, stops true]
    split_ifs
    · rfl
    · rfl
  · have collected : operationsWith 9 (!noBackslashEscapes) raw = some found.flatten :=
      congrArg (Option.map List.flatten) reads
    refine mem_mysqlOperations known collected ?_
    exact words token member isWord (starts_of_spelling known spells)
      (operation_of_spelling known spells)

/-- Comments of all kinds, a string and an executable comment. -/
def commentedStatement : Bytes :=
  bytes "/* ' */ SELECT 'it''s' -- '\r\n# \"\n/*!80000 , truncate */ notes"

/-- The theorem at that statement. -/
theorem operations_reported_of_aligned_commentedStatement :
    Aligned false commentedStatement ∧ Reported false commentedStatement ∧
      mysqlOperations commentedStatement = some [bytes "SELECT", bytes "TRUNCATE"] := by
  have aligned : Aligned false commentedStatement := by decide +kernel
  exact ⟨aligned, operations_reported_of_aligned false commentedStatement aligned,
    by decide +kernel⟩

/-- A quote after a carriage return in a line comment: the server executes what
the rule takes for a string. -/
def returnedStatement : Bytes :=
  bytes "#\r'\nTRUNCATE notes #'"

/-- The rule lets the statement pass without its operation. -/
theorem not_reported_returnedStatement :
    ¬ ∀ noBackslashEscapes raw, Reported noBackslashEscapes raw := by
  intro reported
  have lexes : Server.lex false returnedStatement =
      some ((Server.lex false returnedStatement).getD []) := by
    decide +kernel
  have occurs : Occurs (bytes "TRUNCATE") ((Server.lex false returnedStatement).getD []) := by
    decide +kernel
  have passes : mysqlOperations returnedStatement = some [] := by decide +kernel
  rcases reported _ _ _ lexes (bytes "TRUNCATE") (by decide +kernel) occurs with refused | reports
  · rw [passes] at refused
    cases refused
  · obtain ⟨operations, found, member⟩ := reports
    obtain rfl := Option.some.inj (passes.symm.trans found)
    cases member

end Trstctl.Accessrules.Mysql
