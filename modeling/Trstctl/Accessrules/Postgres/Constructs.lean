import Trstctl.Accessrules.Postgres.Lexers

/-!
# The constructs of the command rule and of the server

The rule and the server find the same end of a quoted text, of a line comment
and of a word.  They find the same end of block comments that are not nested
more than 64 deep, and of dollar quotes with a tag of at most 256 bytes of
ASCII; beyond these limits the rule stops.
-/

namespace Trstctl.Accessrules.Postgres

open Go (Bytes bytes)

theorem pgDigit_eq (byte : UInt8) : pgDigit byte = Server.digit byte := rfl

theorem pgWordStart_eq (byte : UInt8) : pgWordStart byte = Server.letter byte := by
  unfold pgWordStart Server.letter
  ac_rfl

theorem pgWord_eq : pgWord = Server.wordByte := by
  funext byte
  simp [pgWord, Server.wordByte, pgWordStart_eq, pgDigit_eq]

theorem pgDollarTag_eq (byte : UInt8) :
    pgDollarTag byte = (Server.tagByte byte && byte < 0x80) := by
  unfold pgDollarTag Server.tagByte
  rw [pgWordStart_eq, pgDigit_eq]
  cases isDigit : Server.digit byte with
  | false => simp
  | true =>
      have below : byte < 0x80 := by
        simp only [Server.digit, Bool.and_eq_true, decide_eq_true_eq, UInt8.le_iff_toNat_le,
          UInt8.lt_iff_toNat_lt, UInt8.reduceToNat] at isDigit ⊢
        omega
      simp [below]

theorem letter_eq_false_of_digit {byte : UInt8} (isDigit : Server.digit byte = true) :
    Server.letter byte = false := by
  simp only [Server.digit, Server.letter, Bool.and_eq_true, decide_eq_true_eq,
    UInt8.le_iff_toNat_le, Bool.or_eq_false_iff, Bool.and_eq_false_iff, decide_eq_false_iff_not,
    beq_eq_false_iff_ne, ne_eq, ← UInt8.toNat_inj, UInt8.reduceToNat] at isDigit ⊢
  omega

theorem pgQuotedEnd_eq {quote : UInt8} (notBackslash : quote ≠ 0x5C) (escaped : Bool)
    (text : Bytes) :
    pgQuotedEnd quote escaped text = Server.quotedEnd quote escaped text := by
  fun_induction Server.quotedEnd quote escaped text with
  | case1 => rfl
  | case2 => simp [pgQuotedEnd, notBackslash]
  | case3 byte different => simp [pgQuotedEnd, different]
  | case4 byte next rest escape ih =>
      rw [← ih, escape.1]
      simp [pgQuotedEnd, escape.2]
  | case5 rest _ ih =>
      simp [pgQuotedEnd, notBackslash, ← ih]
  | case6 next rest different _ => simp [pgQuotedEnd, notBackslash, different]
  | case7 byte next rest noEscape different ih =>
      rw [← ih]
      conv_lhs => unfold pgQuotedEnd
      simp [noEscape, different]

variable {text : Bytes}

variable {length : Nat}

theorem getLast?_of_quotedEnd {quote : UInt8} {escapes : Bool}
    (ends : Server.quotedEnd quote escapes text = some length) :
    (text.take length).getLast? = some quote := by
  fun_induction Server.quotedEnd quote escapes text generalizing length with
  | case1 => cases ends
  | case2 =>
      cases ends
      rfl
  | case3 => cases ends
  | case4 byte next rest escape ih =>
      obtain ⟨inner, innerEnds, rfl⟩ := Option.map_eq_some_iff.mp ends
      simp [List.getLast?_cons, ih innerEnds]
  | case5 rest _ ih =>
      obtain ⟨inner, innerEnds, rfl⟩ := Option.map_eq_some_iff.mp ends
      simp [List.getLast?_cons, ih innerEnds]
  | case6 next rest different _ =>
      cases ends
      rfl
  | case7 byte next rest noEscape different ih =>
      obtain ⟨inner, innerEnds, rfl⟩ := Option.map_eq_some_iff.mp ends
      simp [List.getLast?_cons, ih innerEnds]

/-- The deepest nesting of block comments from a depth until they end. -/
def commentDepth : Nat → Bytes → Nat
  | 0, _ => 0
  | depth + 1, byte :: next :: rest =>
      if byte = 0x2F ∧ next = 0x2A then max (depth + 1) (commentDepth (depth + 2) rest)
      else if byte = 0x2A ∧ next = 0x2F then max (depth + 1) (commentDepth depth rest)
      else commentDepth (depth + 1) (next :: rest)
  | depth + 1, _ => depth + 1

theorem le_commentDepth (depth : Nat) (text : Bytes) :
    depth ≤ commentDepth depth text := by
  fun_induction commentDepth depth text with
  | case1 => exact Nat.le_refl 0
  | case2 => exact Nat.le_max_left _ _
  | case3 => exact Nat.le_max_left _ _
  | case4 => assumption
  | case5 => exact Nat.le_refl _

variable {depth : Nat}

theorem blockComment_eq (shallow : commentDepth depth text ≤ 64)
    (ends : Server.commentEnd depth text = some length) :
    blockComment depth text = some length := by
  fun_induction Server.commentEnd depth text generalizing length with
  | case1 => simpa [blockComment] using ends
  | case2 depth byte next rest opens ih =>
      obtain ⟨inner, innerEnds, rfl⟩ := Option.map_eq_some_iff.mp ends
      rw [commentDepth, if_pos opens, Nat.max_le] at shallow
      have bounded := (le_commentDepth (depth + 2) rest).trans shallow.2
      rw [blockComment, if_pos opens, if_neg (by omega), ih shallow.2 innerEnds]
      rfl
  | case3 depth byte next rest notOpens closes ih =>
      obtain ⟨inner, innerEnds, rfl⟩ := Option.map_eq_some_iff.mp ends
      rw [commentDepth, if_neg notOpens, if_pos closes, Nat.max_le] at shallow
      rw [blockComment, if_neg notOpens, if_pos closes, ih shallow.2 innerEnds]
      rfl
  | case4 depth byte next rest notOpens notCloses ih =>
      obtain ⟨inner, innerEnds, rfl⟩ := Option.map_eq_some_iff.mp ends
      rw [commentDepth, if_neg notOpens, if_neg notCloses] at shallow
      rw [blockComment, if_neg notOpens, if_neg notCloses, ih shallow innerEnds]
      rfl
  | case5 => cases ends

theorem blockComment_eq_none (bounded : depth ≤ 64) (deep : 64 < commentDepth depth text) :
    blockComment depth text = none := by
  fun_induction commentDepth depth text with
  | case1 => omega
  | case2 depth byte next rest opens ih =>
      rw [blockComment, if_pos opens]
      split_ifs with tooDeep
      · rfl
      · rw [ih (by omega) (by omega)]
        rfl
  | case3 depth byte next rest notOpens closes ih =>
      rw [blockComment, if_neg notOpens, if_pos closes,
        ih (by omega) (by omega)]
      rfl
  | case4 depth byte next rest notOpens notCloses ih =>
      rw [blockComment, if_neg notOpens, if_neg notCloses, ih bounded deep]
      rfl
  | case5 => omega

theorem getLast?_of_commentEnd (inside : 0 < depth)
    (ends : Server.commentEnd depth text = some length) :
    (text.take length).getLast? = some 0x2F := by
  fun_induction Server.commentEnd depth text generalizing length with
  | case1 => omega
  | case2 depth byte next rest opens ih =>
      obtain ⟨inner, innerEnds, rfl⟩ := Option.map_eq_some_iff.mp ends
      simp [List.getLast?_cons, ih (by omega) innerEnds]
  | case3 depth byte next rest notOpens closes ih =>
      obtain ⟨inner, innerEnds, rfl⟩ := Option.map_eq_some_iff.mp ends
      cases depth with
      | zero =>
          obtain rfl : 0 = inner := by simpa [Server.commentEnd] using innerEnds
          simp [closes]
      | succ depth =>
          simp [List.getLast?_cons, ih (by omega) innerEnds]
  | case4 depth byte next rest notOpens notCloses ih =>
      obtain ⟨inner, innerEnds, rfl⟩ := Option.map_eq_some_iff.mp ends
      simp [List.getLast?_cons, ih (by omega) innerEnds]
  | case5 => cases ends

variable {start : Nat}

theorem drop_of_index {pattern : Bytes} (found : Go.index pattern text = some start) :
    ∃ after, text.drop start = pattern ++ after := by
  fun_induction Go.index pattern text generalizing start with
  | case1 empty =>
      obtain rfl : 0 = start := Option.some.inj found
      exact ⟨[], by simpa using empty.symm⟩
  | case2 => cases found
  | case3 byte rest occurs =>
      obtain rfl : 0 = start := Option.some.inj found
      obtain ⟨after, split⟩ := List.isPrefixOf_iff_prefix.mp occurs
      exact ⟨after, split.symm⟩
  | case4 byte rest absent ih =>
      obtain ⟨inner, innerFound, rfl⟩ := Option.map_eq_some_iff.mp found
      exact ih innerFound

theorem takeWhile_run {property : UInt8 → Bool} {run after : Bytes}
    (holds : ∀ byte ∈ run, property byte = true)
    (stops : ∀ byte, after.head? = some byte → property byte = false) :
    (run ++ after).takeWhile property = run := by
  rw [List.takeWhile_append_of_pos holds]
  cases after with
  | nil => simp
  | cons byte rest => simp [stops byte rfl]

variable {rest : Bytes}

variable {tag : Bytes}

theorem dollarTag_eq_some (opens : Server.dollarTag rest = some tag) :
    (∃ after, rest = tag ++ 0x24 :: after) ∧ (∀ byte ∈ tag, Server.tagByte byte = true) ∧
      tag.head?.all Server.letter = true := by
  unfold Server.dollarTag at opens
  dsimp only at opens
  split_ifs at opens with delimited
  obtain rfl := Option.some.inj opens
  refine ⟨?_, fun byte member => List.mem_takeWhile_imp member, delimited.2⟩
  obtain ⟨after, split⟩ := List.head?_eq_some_iff.mp delimited.1
  refine ⟨after, ?_⟩
  rw [← split]
  exact (List.prefix_iff_eq_append.mp (List.takeWhile_prefix _)).symm

theorem dollarQuote_of_tag (opens : Server.dollarTag rest = some tag)
    (short : tag.length ≤ 256) (ascii : ∀ byte ∈ tag, byte < 0x80)
    (closes : Go.index (0x24 :: tag ++ [0x24]) (rest.drop (tag.length + 1)) = some start) :
    dollarQuote rest = some (tag.length + 1 + start + (tag.length + 2)) := by
  obtain ⟨⟨after, split⟩, tagBytes, starts⟩ := dollarTag_eq_some opens
  have same : (rest.take 256).takeWhile pgDollarTag = tag := by
    have run : rest.takeWhile pgDollarTag = tag := by
      rw [split]
      refine takeWhile_run (fun byte member => ?_) fun byte found => ?_
      · simp [pgDollarTag_eq, tagBytes byte member, ascii byte member]
      · obtain rfl : 0x24 = byte := Option.some.inj found
        decide
    rw [← List.take_takeWhile, run, List.take_of_length_le short]
  have noDigit : ¬ tag.head?.any pgDigit = true := by
    cases tag with
    | nil => simp
    | cons byte tail =>
        intro isDigit
        have isLetter : Server.letter byte = true := by simpa using starts
        rw [letter_eq_false_of_digit (by simpa [pgDigit_eq] using isDigit)] at isLetter
        cases isLetter
  unfold dollarQuote
  simp only [same]
  rw [if_pos ⟨by simp [split], noDigit⟩, dollarDelimiter, closes]
  simp

/-- The rule sees a dollar quote only where the server sees one. -/
theorem not_delimited_of_none (notTag : Server.dollarTag rest = none) :
    let tag := (rest.take 256).takeWhile pgDollarTag
    ¬ ((rest.drop tag.length).head? = some 0x24 ∧ ¬ tag.head?.any pgDigit = true) := by
  rintro tag ⟨delimited, noDigit⟩
  change (rest.drop ((rest.take 256).takeWhile pgDollarTag).length).head? = _ at delimited
  change ¬ ((rest.take 256).takeWhile pgDollarTag).head?.any pgDigit = true at noDigit
  have isPrefix : (rest.take 256).takeWhile pgDollarTag <+: rest :=
    (List.takeWhile_prefix _).trans (List.take_prefix _ _)
  have tagBytes : ∀ byte ∈ (rest.take 256).takeWhile pgDollarTag,
      Server.tagByte byte = true := by
    intro byte member
    have := List.mem_takeWhile_imp member
    rw [pgDollarTag_eq] at this
    exact (Bool.and_eq_true_iff.mp this).1
  generalize (rest.take 256).takeWhile pgDollarTag = tag at delimited noDigit isPrefix tagBytes
  obtain ⟨after, split⟩ := List.head?_eq_some_iff.mp delimited
  -- The tag of the rule would be the tag of a dollar quote of the server.
  have same : rest.takeWhile Server.tagByte = tag := by
    rw [← List.prefix_iff_eq_append.mp isPrefix, split]
    refine takeWhile_run tagBytes fun byte found => ?_
    obtain rfl : 0x24 = byte := Option.some.inj found
    decide
  have starts : tag.head?.all Server.letter = true := by
    cases tag with
    | nil => rfl
    | cons byte tail =>
        have isTagByte := tagBytes byte List.mem_cons_self
        have notDigit : Server.digit byte = false := by simpa [pgDigit_eq] using noDigit
        simpa [Server.tagByte, notDigit] using isTagByte
  unfold Server.dollarTag at notTag
  simp only [same] at notTag
  rw [if_pos ⟨delimited, starts⟩] at notTag
  cases notTag

theorem dollarQuote_of_none (notTag : Server.dollarTag rest = none) :
    dollarQuote rest =
      if 256 ≤ ((rest.take 256).takeWhile pgDollarTag).length then none else some 0 := by
  unfold dollarQuote
  dsimp only
  rw [if_neg (not_delimited_of_none notTag)]
  split_ifs with long short short
  · rfl
  · omega
  · omega
  · rfl

theorem dollarQuote_eq_none (opens : Server.dollarTag rest = some tag)
    (long : 256 < tag.length) (ascii : ∀ byte ∈ tag.take 256, byte < 0x80) :
    dollarQuote rest = none := by
  obtain ⟨⟨after, split⟩, tagBytes, -⟩ := dollarTag_eq_some opens
  have taken : rest.take 256 = tag.take 256 := by
    rw [split, List.take_append_of_le_length (by omega)]
  have run : (rest.take 256).takeWhile pgDollarTag = tag.take 256 := by
    rw [taken]
    refine List.takeWhile_eq_self_iff.mpr fun byte member => ?_
    simp [pgDollarTag_eq, tagBytes byte (List.mem_of_mem_take member), ascii byte member]
  have length : (tag.take 256).length = 256 := by
    rw [List.length_take]
    omega
  have notDollar : (rest.drop 256).head? ≠ some 0x24 := by
    intro dollar
    have next : rest.drop 256 = tag.drop 256 ++ 0x24 :: after := by
      rw [split, List.drop_append_of_le_length (by omega)]
    obtain ⟨byte, others, dropped⟩ : ∃ byte others, tag.drop 256 = byte :: others :=
      List.exists_cons_of_ne_nil (by simpa using long)
    rw [next, dropped] at dollar
    obtain rfl : byte = 0x24 := Option.some.inj dollar
    have isTagByte := tagBytes 0x24 (List.mem_of_mem_drop (dropped ▸ List.mem_cons_self))
    cases isTagByte
  unfold dollarQuote
  simp only [run, length]
  rw [if_neg fun delimited => notDollar delimited.1, if_pos (by omega)]

theorem getLast?_of_dollarQuote
    (closes : Go.index (0x24 :: tag ++ [0x24]) (rest.drop (tag.length + 1)) = some start) :
    (rest.take (tag.length + 1 + start + (tag.length + 2))).getLast? = some 0x24 := by
  obtain ⟨after, split⟩ := drop_of_index closes
  rw [List.drop_drop] at split
  have whole : (0x24 :: tag ++ [0x24]).take (tag.length + 2) = 0x24 :: tag ++ [0x24] :=
    List.take_of_length_le (by simp)
  rw [List.take_add, split, List.take_append_of_le_length (by simp), whole, List.getLast?_append,
    List.getLast?_append]
  rfl

end Trstctl.Accessrules.Postgres
