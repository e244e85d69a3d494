import Trstctl.Accessrules.Postgres.Alignment

/-!
# Every operation is reported

The rule stays aligned with the server over a whole text without a misread
token.  It then reports every operation keyword that the server reads as a
word, or refuses the statement.
-/

namespace Trstctl.Accessrules.Postgres

open Go (Bytes bytes upperByte)
open Server (Token Kind Continuation)

section

variable {standardConforming backslash : Bool} {continuation : Continuation}
  {behind ahead : Bytes} {tokens : List Token}

/-- The tokens before the first that is over the limits of the rule. -/
def inspected (tokens : List Token) : List Token :=
  tokens.takeWhile (!overLimit ·)

theorem lex_cons {byte : UInt8} {rest : Bytes}
    (lexes : Scanner.scan (Server.next standardConforming) 0 continuation behind (byte :: rest) =
      some tokens) :
    ∃ kind more following later, tokens = ⟨kind, behind, byte :: rest, more⟩ :: later ∧
      Server.token standardConforming continuation (byte :: rest) = some (kind, more) ∧
      Scanner.scan (Server.next standardConforming) 0 following
        ((rest.take more).reverse ++ byte :: behind) (rest.drop more) = some later := by
  rw [Scanner.scan_cons, Option.bind_eq_some_iff] at lexes
  obtain ⟨lexeme, found, lexes⟩ := lexes
  obtain ⟨⟨kind, more⟩, starts, rfl⟩ := Option.map_eq_some_iff.mp found
  obtain ⟨later, lexesLater, rfl⟩ := Option.map_eq_some_iff.mp lexes
  exact ⟨kind, more, _, later, rfl, starts, lexesLater⟩

/-- From a boundary of the server the rule reads to the end and finds every
word, when no token is over its limits. -/
theorem reads_of_aligned (boundary : Boundary behind ahead)
    (lexes : Scanner.scan (Server.next standardConforming) 0 continuation behind ahead =
      some tokens)
    (limited : ∀ token ∈ tokens, overLimit token = false)
    (aligned : ∀ token ∈ tokens, misread backslash token = false) :
    ∃ reports, ruleScan backslash behind ahead = some reports ∧
      ∀ token ∈ tokens, token.kind = .word → operation token.text ∈ reports := by
  induction size : ahead.length using Nat.strong_induction_on
    generalizing continuation behind ahead tokens with
  | _ length ih =>
    cases ahead with
    | nil =>
        obtain rfl : [] = tokens := by simpa using lexes
        exact ⟨[], Scanner.scan_nil _ _ _, by simp⟩
    | cons byte rest =>
        obtain ⟨kind, more, following, later, rfl, starts, lexesLater⟩ := lex_cons lexes
        rw [List.forall_mem_cons] at limited aligned
        have follows := follows_of_token boundary starts aligned.1 limited.1
        obtain ⟨first, reported, passes⟩ := follows.passes
        have shorter : (rest.drop more).length < length := by
          rw [List.length_drop, ← size, List.length_cons]
          omega
        obtain ⟨reports, reads, words⟩ := ih _ shorter follows.boundary lexesLater
          limited.2 aligned.2 rfl
        refine ⟨first ++ reports, by rw [passes, reads]; rfl, ?_⟩
        rintro token member isWord
        rcases List.mem_cons.mp member with rfl | member
        · exact List.mem_append_left _ (reported isWord)
        · exact List.mem_append_right _ (words token member isWord)

/-- From a boundary of the server the rule stops at the first token over its
limits. -/
theorem stops_of_aligned (boundary : Boundary behind ahead)
    (lexes : Scanner.scan (Server.next standardConforming) 0 continuation behind ahead =
      some tokens)
    (exceeds : ∃ token ∈ tokens, overLimit token = true)
    (aligned : ∀ token ∈ inspected tokens, misread backslash token = false) :
    ruleScan backslash behind ahead = none := by
  induction size : ahead.length using Nat.strong_induction_on
    generalizing continuation behind ahead tokens with
  | _ length ih =>
    cases ahead with
    | nil =>
        obtain rfl : [] = tokens := by simpa using lexes
        obtain ⟨token, member, -⟩ := exceeds
        cases member
    | cons byte rest =>
        obtain ⟨kind, more, following, later, rfl, starts, lexesLater⟩ := lex_cons lexes
        cases first : overLimit ⟨kind, behind, byte :: rest, more⟩ with
        | true => exact ruleScan_eq_none starts first
        | false =>
            have passed : inspected (⟨kind, behind, byte :: rest, more⟩ :: later) =
                ⟨kind, behind, byte :: rest, more⟩ :: inspected later := by
              simp [inspected, first]
            rw [passed, List.forall_mem_cons] at aligned
            rw [List.exists_mem_cons_iff, first] at exceeds
            have follows := follows_of_token boundary starts aligned.1 first
            obtain ⟨reports, -, passes⟩ := follows.passes
            have shorter : (rest.drop more).length < length := by
              rw [List.length_drop, ← size, List.length_cons]
              omega
            rw [passes, ih _ shorter follows.boundary lexesLater
              (exceeds.resolve_left (by simp)) aligned.2 rfl]
            rfl

end

theorem operation_of_spelling {word keyword : Bytes} (known : keyword ∈ postgresOperationNames)
    (spells : word.map upperByte = keyword) :
    operation word = some keyword := by
  have plain : ∀ name ∈ postgresOperationNames,
      name.length ≤ 32 ∧ name.all (· < 0x80) = true := by
    decide +kernel
  obtain ⟨short, all_ascii⟩ := plain keyword known
  have ascii : ∀ byte ∈ keyword, byte < 0x80 := by simpa using all_ascii
  subst spells
  have wordAscii : ∀ byte ∈ word, byte < 0x80 := by
    intro byte member
    have upper := ascii (upperByte byte) (List.mem_map_of_mem member)
    unfold upperByte at upper
    split_ifs at upper with lower
    · exact UInt8.lt_of_le_of_lt lower.2 (by decide)
    · exact upper
  unfold operation
  rw [if_pos ⟨by simpa using short, by simpa using wordAscii, known⟩]

theorem mem_postgresOperations {backslash : Bool} {sql keyword : Bytes} {operations : List Bytes}
    (found : operationsWith backslash sql = some operations) (member : keyword ∈ operations) :
    postgresOperations sql = none ∨
      ∃ reported, postgresOperations sql = some reported ∧ keyword ∈ reported := by
  have merged : keyword ∈ Go.compact
      (((operationsWith false sql).getD [] ++ (operationsWith true sql).getD []).insertionSort
        (· ≤ ·)) := by
    rw [Go.mem_compact, List.mem_insertionSort, List.mem_append]
    cases backslash with
    | false => exact .inl (by rwa [found])
    | true => exact .inr (by rwa [found])
  unfold postgresOperations
  split_ifs with refused
  · exact .inl rfl
  · split
    · next first second =>
        cases backslash with
        | false => rw [first] at found; cases found
        | true => rw [second] at found; cases found
    · exact .inr ⟨_, rfl, merged⟩

/-- A keyword occurs as an unquoted word. -/
def Occurs (keyword : Bytes) (tokens : List Token) : Prop :=
  ∃ token ∈ tokens, token.kind = .word ∧ token.text.map upperByte = keyword

/-- Every operation that occurs in a text which the server can read is
reported, or the text is refused. -/
def Reported (standardConforming : Bool) (sql : Bytes) : Prop :=
  ∀ tokens, Server.lex standardConforming sql = some tokens →
    ∀ keyword ∈ postgresOperationNames, Occurs keyword tokens →
      postgresOperations sql = none ∨
        ∃ operations, postgresOperations sql = some operations ∧ keyword ∈ operations

/-- The rule refuses the text before it reads it; or, without a token over the
limits, it misreads no token in the mode of the server; or, with one, it
misreads none of the tokens before it in either mode. -/
def Aligned (standardConforming : Bool) (sql : Bytes) : Prop :=
  let tokens := (Server.lex standardConforming sql).getD []
  Uninspectable maxStatementBytes sql ∨
    if tokens.any overLimit then
      ∀ token ∈ inspected tokens, misread false token = false ∧ misread true token = false
    else ∀ token ∈ tokens, misread (!standardConforming) token = false

instance (standardConforming : Bool) (sql : Bytes) : Decidable (Aligned standardConforming sql) :=
  inferInstanceAs (Decidable (_ ∨ ite _ (∀ _ ∈ inspected _, _ ∧ _) (∀ _ ∈ _, _ = _)))

instance (keyword : Bytes) (tokens : List Token) : Decidable (Occurs keyword tokens) :=
  inferInstanceAs (Decidable (∃ token ∈ tokens, _ ∧ _))

/-- No operation is hidden in a text without misread tokens. -/
theorem reported_of_aligned
    (standardConforming : Bool)
    (sql : Bytes)
    (aligned : Aligned standardConforming sql) :
    Reported standardConforming sql := by
  intro tokens lexes keyword known ⟨token, member, isWord, spells⟩
  rcases aligned with refused | aligned
  · exact .inl (if_pos refused)
  have start : Boundary [] sql := fun isPrefix => by cases isPrefix
  simp only [lexes, Option.getD_some] at aligned
  split_ifs at aligned with exceeds
  · have stops : ∀ backslash, operationsWith backslash sql = none := by
      intro backslash
      have stopped : ruleScan backslash [] sql = none := by
        refine stops_of_aligned start lexes (List.any_eq_true.mp exceeds) fun token member => ?_
        cases backslash with
        | false => exact (aligned token member).1
        | true => exact (aligned token member).2
      exact congrArg (Option.map collect) stopped
    refine .inl ?_
    rw [postgresOperations, stops false, stops true]
    split_ifs
    · rfl
    · rfl
  · have limited : ∀ token ∈ tokens, overLimit token = false := by simpa using exceeds
    obtain ⟨reports, reads, words⟩ := reads_of_aligned start lexes limited aligned
    have found : operationsWith (!standardConforming) sql = some (collect reports) :=
      congrArg (Option.map collect) reads
    refine mem_postgresOperations found (mem_collect ?_)
    rw [← operation_of_spelling known spells]
    exact words token member isWord

/-- Comments, an escape string and a dollar quote before an operation. -/
def plainStatement : Bytes :=
  bytes "/* a /* b */ */ SELECT E'\\'', $t$ ' $t$; truncate notes -- '"

/-- The theorem at that statement. -/
theorem reported_of_aligned_plainStatement :
    Aligned true plainStatement ∧ Reported true plainStatement ∧
      postgresOperations plainStatement = some [bytes "SELECT", bytes "TRUNCATE"] := by
  have aligned : Aligned true plainStatement := by decide +kernel
  exact ⟨aligned, reported_of_aligned true plainStatement aligned, by decide +kernel⟩

/-- A dollar quote whose tag is above ASCII and whose body is a quote: the
server executes what the rule takes for a string. -/
def hiddenStatement : Bytes :=
  bytes "$é$ ' $é$ TRUNCATE notes --'"

/-- The rule lets the statement pass without its operation. -/
theorem not_reported_hiddenStatement :
    ¬ Reported true hiddenStatement := by
  intro reported
  have lexes : Server.lex true hiddenStatement =
      some ((Server.lex true hiddenStatement).getD []) := by
    decide +kernel
  have occurs : Occurs (bytes "TRUNCATE") ((Server.lex true hiddenStatement).getD []) := by
    decide +kernel
  have passes : postgresOperations hiddenStatement = some [] := by decide +kernel
  rcases reported _ lexes (bytes "TRUNCATE") (by decide +kernel) occurs with refused | reports
  · rw [passes] at refused
    cases refused
  · obtain ⟨operations, found, member⟩ := reports
    obtain rfl := Option.some.inj (passes.symm.trans found)
    cases member

end Trstctl.Accessrules.Postgres
