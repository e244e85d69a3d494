import Trstctl.Accessrules.Mysql.Lexers
import Trstctl.Accessrules.Postgres.Constructs

/-!
# Constructs of a MySQL statement

Where a pair of bytes occurs in a text, where quoted texts end in a part of a
text, and the tokens of the server as splits of the text ahead.
-/

namespace Trstctl.Accessrules.Mysql

open Go (Bytes index)
open Accessrules.Server (quotedEnd digit letter)
open Mysql.Server (Kind wordByte)

section

variable {first second : UInt8} {passed rest text : Bytes}

theorem index_pair_cons (byte : UInt8) :
    index [first, second] (byte :: rest) =
      if byte = first ∧ rest.head? = some second then some 0
      else (index [first, second] rest).map (· + 1) := by
  have occurs : [first, second].isPrefixOf (byte :: rest) = true ↔
      byte = first ∧ rest.head? = some second := by
    cases rest with
    | nil => simp
    | cons next after => simp [eq_comm (a := first), eq_comm (a := second)]
  rw [index]
  simp only [occurs]

theorem index_pair_append (absent : index [first, second] passed = none)
    (apart : passed.getLast? = some first → rest.head? ≠ some second) :
    index [first, second] (passed ++ rest) =
      (index [first, second] rest).map (· + passed.length) := by
  induction passed with
  | nil => simp
  | cons byte passed ih =>
      rw [index_pair_cons] at absent
      split_ifs at absent with occurs
      have notHere : ¬ (byte = first ∧ (passed ++ rest).head? = some second) := by
        rintro ⟨rfl, follows⟩
        cases passed with
        | nil => exact apart rfl follows
        | cons next after => exact occurs ⟨rfl, follows⟩
      have apartLater : passed.getLast? = some first → rest.head? ≠ some second := by
        intro isLast
        refine apart ?_
        rw [List.getLast?_cons, isLast]
        rfl
      rw [List.cons_append, index_pair_cons, if_neg notHere,
        ih (by simpa using absent) apartLater, Option.map_map]
      rfl

theorem split_of_index_pair {start : Nat} (found : index [first, second] text = some start) :
    ∃ before after, text = before ++ first :: second :: after ∧ before.length = start ∧
      index [first, second] before = none := by
  induction text generalizing start with
  | nil => cases found
  | cons byte text ih =>
      rw [index_pair_cons] at found
      split_ifs at found with occurs
      · obtain ⟨after, rfl⟩ := List.head?_eq_some_iff.mp occurs.2
        obtain rfl := Option.some.inj found
        exact ⟨[], after, by simp [occurs.1], rfl, rfl⟩
      · obtain ⟨inner, innerFound, rfl⟩ := Option.map_eq_some_iff.mp found
        obtain ⟨before, after, rfl, rfl, absent⟩ := ih innerFound
        refine ⟨byte :: before, after, rfl, rfl, ?_⟩
        rw [index_pair_cons, absent, if_neg]
        · rfl
        · rintro ⟨rfl, follows⟩
          obtain ⟨others, rfl⟩ := List.head?_eq_some_iff.mp follows
          exact occurs ⟨rfl, rfl⟩

theorem index_pair_drop (absent : index [first, second] text = none) (count : Nat) :
    index [first, second] (text.drop count) = none := by
  induction text generalizing count with
  | nil => simpa using absent
  | cons byte text ih =>
      rw [index_pair_cons] at absent
      split_ifs at absent with occurs
      cases count with
      | zero => rw [List.drop_zero, index_pair_cons, if_neg occurs, absent]
      | succ count => exact ih (by simpa using absent) count

theorem index_pair_left (absent : index [first, second] (text ++ rest) = none) :
    index [first, second] text = none := by
  induction text with
  | nil => rfl
  | cons byte text ih =>
      rw [List.cons_append, index_pair_cons] at absent
      split_ifs at absent with occurs
      rw [index_pair_cons, if_neg, ih (by simpa using absent)]
      · rfl
      · rintro ⟨rfl, follows⟩
        refine occurs ⟨rfl, ?_⟩
        rw [List.head?_append, follows]
        rfl

theorem index_pair_of_not_mem (absent : first ∉ text) :
    index [first, second] text = none := by
  induction text with
  | nil => rfl
  | cons byte text ih =>
      rw [List.mem_cons, not_or] at absent
      rw [index_pair_cons, if_neg fun occurs => absent.1 occurs.1.symm,
        ih absent.2]
      rfl

end

section

variable {quote : UInt8} {escapes : Bool} {text body rest : Bytes} {length : Nat}

theorem quoted_eq (notBackslash : quote ≠ 0x5C) :
    quoted quote escapes text = quotedEnd quote escapes text := by
  fun_induction quotedEnd quote escapes text with
  | case1 => rfl
  | case2 => simp [quoted]
  | case3 byte different => simp [quoted, different]
  | case4 byte next rest escape ih =>
      rw [← ih, escape.1]
      simp [quoted, escape.2, notBackslash.symm]
  | case5 rest _ ih => simp [quoted, ← ih]
  | case6 next rest different _ => simp [quoted, different]
  | case7 byte next rest noEscape different ih =>
      rw [← ih]
      conv_lhs => unfold quoted
      simp [noEscape, different]

theorem quotedEnd_le (ends : quotedEnd quote escapes text = some length) :
    length ≤ text.length := by
  fun_induction quotedEnd quote escapes text generalizing length with
  | case1 => cases ends
  | case2 => cases ends; simp
  | case3 => cases ends
  | case4 byte next rest escape ih =>
      obtain ⟨inner, innerEnds, rfl⟩ := Option.map_eq_some_iff.mp ends
      simpa using ih innerEnds
  | case5 rest _ ih =>
      obtain ⟨inner, innerEnds, rfl⟩ := Option.map_eq_some_iff.mp ends
      simpa using ih innerEnds
  | case6 => cases ends; simp
  | case7 byte next rest noEscape different ih =>
      obtain ⟨inner, innerEnds, rfl⟩ := Option.map_eq_some_iff.mp ends
      simpa using ih innerEnds

/-- A quoted text ends at the same place in a longer text, unless a quote
follows it. -/
theorem quotedEnd_append (notBackslash : quote ≠ 0x5C)
    (ends : quotedEnd quote escapes text = some length) (apart : rest.head? ≠ some quote) :
    quotedEnd quote escapes (text ++ rest) = some length := by
  fun_induction quotedEnd quote escapes text generalizing length with
  | case1 => cases ends
  | case2 =>
      cases rest with
      | nil => simpa [quotedEnd] using ends
      | cons next after =>
          have different : next ≠ quote := by simpa using apart
          simpa [quotedEnd, notBackslash, different] using ends
  | case3 => cases ends
  | case4 byte next body escape ih =>
      obtain ⟨inner, innerEnds, rfl⟩ := Option.map_eq_some_iff.mp ends
      have same := ih innerEnds
      rw [List.cons_append, List.cons_append, quotedEnd, if_pos escape, same]
      rfl
  | case5 body _ ih =>
      obtain ⟨inner, innerEnds, rfl⟩ := Option.map_eq_some_iff.mp ends
      have same := ih innerEnds
      simp [quotedEnd, notBackslash, same]
  | case6 next body different _ => simpa [quotedEnd, notBackslash, different] using ends
  | case7 byte next body noEscape different ih =>
      obtain ⟨inner, innerEnds, rfl⟩ := Option.map_eq_some_iff.mp ends
      have same := ih innerEnds
      rw [List.cons_append] at same
      rw [List.cons_append, List.cons_append, quotedEnd, if_neg noEscape, if_neg different, same]
      rfl

theorem quotedEnd_pos (ends : quotedEnd quote escapes text = some length) :
    0 < length := by
  refine Nat.pos_of_ne_zero ?_
  rintro rfl
  have last := Postgres.getLast?_of_quotedEnd ends
  rw [List.take_zero] at last
  cases last

theorem head?_of_quotedEnd (ends : quotedEnd quote escapes text = some length) :
    (text.drop length).head? ≠ some quote := by
  fun_induction quotedEnd quote escapes text generalizing length with
  | case1 => cases ends
  | case2 =>
      obtain rfl := Option.some.inj ends
      simp
  | case3 => cases ends
  | case4 byte next body escape ih =>
      obtain ⟨inner, innerEnds, rfl⟩ := Option.map_eq_some_iff.mp ends
      exact ih innerEnds
  | case5 body _ ih =>
      obtain ⟨inner, innerEnds, rfl⟩ := Option.map_eq_some_iff.mp ends
      exact ih innerEnds
  | case6 next body different _ =>
      obtain rfl := Option.some.inj ends
      simpa using different
  | case7 byte next body noEscape different ih =>
      obtain ⟨inner, innerEnds, rfl⟩ := Option.map_eq_some_iff.mp ends
      exact ih innerEnds

/-- A quoted text ends at the same place without the text after it. -/
theorem quotedEnd_of_append (ends : quotedEnd quote escapes (text ++ rest) = some length)
    (within : length ≤ text.length) :
    quotedEnd quote escapes text = some length := by
  fun_induction quotedEnd quote escapes text generalizing length with
  | case1 => exact absurd (quotedEnd_pos ends) (by simpa using within)
  | case2 =>
      have single : length = 1 := Nat.le_antisymm within (quotedEnd_pos ends)
      rw [single]
  | case3 byte different =>
      have single : length = 1 := Nat.le_antisymm within (quotedEnd_pos ends)
      have last := Postgres.getLast?_of_quotedEnd ends
      rw [single] at last
      exact absurd (Option.some.inj last) different
  | case4 byte next body escape ih =>
      rw [List.cons_append, List.cons_append, quotedEnd, if_pos escape] at ends
      obtain ⟨inner, innerEnds, rfl⟩ := Option.map_eq_some_iff.mp ends
      rw [ih innerEnds (by simpa using within)]
      rfl
  | case5 body noEscape ih =>
      rw [List.cons_append, List.cons_append, quotedEnd, if_neg noEscape, if_pos rfl,
        if_pos rfl] at ends
      obtain ⟨inner, innerEnds, rfl⟩ := Option.map_eq_some_iff.mp ends
      rw [ih innerEnds (by simpa using within)]
      rfl
  | case6 next body noEscape different =>
      rw [List.cons_append, List.cons_append, quotedEnd, if_neg noEscape, if_pos rfl,
        if_neg different] at ends
      exact ends
  | case7 byte next body noEscape different ih =>
      rw [List.cons_append, List.cons_append, quotedEnd, if_neg noEscape,
        if_neg different] at ends
      obtain ⟨inner, innerEnds, rfl⟩ := Option.map_eq_some_iff.mp ends
      rw [ih innerEnds (by simpa using within)]
      rfl

end

section

variable {noBackslashEscapes executable : Bool}

/-- A token of the server as a split of the text ahead: its bytes and the bytes
that remain. -/
inductive Splits (noBackslashEscapes executable : Bool) : Kind → Bytes → Bytes → Prop where
  | lineComment
      {byte : UInt8}
      {line remaining : Bytes}
      (starts : Server.lineCommentStarts byte (line ++ remaining) = true)
      (inLine : ∀ other ∈ line, other ≠ 0x0A)
      (ends : ∀ other, remaining.head? = some other → other = 0x0A) :
      Splits noBackslashEscapes executable .lineComment (byte :: line) remaining
  | blockComment
      {body remaining : Bytes}
      (plain : (body ++ [0x2A]).head? ≠ some 0x21)
      (first : index commentClose body = none) :
      Splits noBackslashEscapes executable .blockComment (0x2F :: 0x2A :: (body ++ commentClose))
        remaining
  | executableStart
      {version remaining : Bytes}
      (digits : ∀ byte ∈ version, digit byte = true)
      (ends : ∀ byte, remaining.head? = some byte → digit byte = false) :
      Splits noBackslashEscapes executable .executableStart (0x2F :: 0x2A :: 0x21 :: version)
        remaining
  | executableEnd
      {remaining : Bytes}
      (inside : executable = true) :
      Splits noBackslashEscapes executable .executableEnd commentClose remaining
  | string
      {quote : UInt8}
      {body remaining : Bytes}
      (isQuote : quoteByte quote = true)
      (ends : quotedEnd quote (!noBackslashEscapes && quote != 0x60) (body ++ remaining) =
        some body.length) :
      Splits noBackslashEscapes executable (.string quote (!noBackslashEscapes && quote != 0x60))
        (quote :: body) remaining
  | word
      {byte : UInt8}
      {run remaining : Bytes}
      (starts : wordByte byte = true)
      (continues : ∀ other ∈ run, wordByte other = true)
      (ends : ∀ other, remaining.head? = some other → wordByte other = false) :
      Splits noBackslashEscapes executable .word (byte :: run) remaining
  | other
      {byte : UInt8}
      {remaining : Bytes}
      (noLine : Server.lineCommentStarts byte remaining = false)
      (noBlock : ¬ (byte = 0x2F ∧ remaining.head? = some 0x2A))
      (noEnd : ¬ (executable = true ∧ byte = 0x2A ∧ remaining.head? = some 0x2F))
      (noQuote : quoteByte byte = false)
      (noWord : wordByte byte = false) :
      Splits noBackslashEscapes executable .other [byte] remaining

theorem exists_run (property : UInt8 → Bool) (text : Bytes) :
    ∃ run remaining, text = run ++ remaining ∧ text.takeWhile property = run ∧
      (∀ byte ∈ run, property byte = true) ∧
      ∀ byte, remaining.head? = some byte → property byte = false := by
  refine ⟨text.takeWhile property, text.dropWhile property,
    List.takeWhile_append_dropWhile.symm, rfl, fun byte => List.mem_takeWhile_imp, ?_⟩
  intro byte starts
  have stops := List.head?_dropWhile_not property text
  rw [starts] at stops
  simpa using stops

/-- Every token splits the text. -/
theorem splits_of_token {ahead : Bytes} {kind : Kind} {more : Nat}
    (found : Server.token noBackslashEscapes executable ahead = some (kind, more)) :
    ∃ text remaining, ahead = text ++ remaining ∧ text.length = more + 1 ∧
      Splits noBackslashEscapes executable kind text remaining := by
  cases ahead with
  | nil => cases found
  | cons byte rest =>
    unfold Server.token at found
    dsimp only at found
    split_ifs at found with line block start close quote word
    · obtain ⟨rfl, rfl⟩ := Prod.mk.inj (Option.some.inj found)
      obtain ⟨run, remaining, rfl, same, holds, stops⟩ := exists_run (· != 0x0A) rest
      refine ⟨byte :: run, remaining, rfl, by rw [same]; rfl, .lineComment line ?_ ?_⟩
      · simpa using holds
      · simpa using stops
    · obtain ⟨rfl, rfl⟩ := Prod.mk.inj (Option.some.inj found)
      obtain ⟨rfl, star⟩ := block
      obtain ⟨after, rfl⟩ := List.head?_eq_some_iff.mp star
      obtain ⟨body, rfl⟩ := List.head?_eq_some_iff.mp start
      obtain ⟨run, remaining, rfl, same, holds, stops⟩ := exists_run digit body
      refine ⟨0x2F :: 0x2A :: 0x21 :: run, remaining, rfl, ?_, .executableStart holds stops⟩
      simp only [List.tail_cons, same, List.length_cons]
      omega
    · obtain ⟨length, closes, found⟩ := Option.map_eq_some_iff.mp found
      obtain ⟨rfl, rfl⟩ := Prod.mk.inj found
      obtain ⟨rfl, star⟩ := block
      obtain ⟨after, rfl⟩ := List.head?_eq_some_iff.mp star
      rw [List.tail_cons] at closes start
      obtain ⟨body, remaining, rfl, rfl, first⟩ := split_of_index_pair closes
      refine ⟨0x2F :: 0x2A :: (body ++ commentClose), remaining, by simp [commentClose],
        by simp [commentClose], .blockComment ?_ first⟩
      cases body with
      | nil => simp
      | cons head others => simpa using start
    · obtain ⟨rfl, rfl⟩ := Prod.mk.inj (Option.some.inj found)
      obtain ⟨inside, rfl, slash⟩ := close
      obtain ⟨remaining, rfl⟩ := List.head?_eq_some_iff.mp slash
      exact ⟨commentClose, remaining, rfl, rfl, .executableEnd inside⟩
    · obtain ⟨length, ends, found⟩ := Option.map_eq_some_iff.mp found
      obtain ⟨rfl, rfl⟩ := Prod.mk.inj found
      have within := quotedEnd_le ends
      refine ⟨byte :: rest.take length, rest.drop length, ?_, ?_, .string ?_ ?_⟩
      · rw [List.cons_append, List.take_append_drop]
      · simp [within]
      · simpa [quoteByte, or_assoc] using quote
      · rw [List.take_append_drop, List.length_take_of_le within, ends]
    · obtain ⟨rfl, rfl⟩ := Prod.mk.inj (Option.some.inj found)
      obtain ⟨run, remaining, rfl, same, holds, stops⟩ := exists_run wordByte rest
      exact ⟨byte :: run, remaining, rfl, by rw [same]; rfl, .word word holds stops⟩
    · obtain ⟨rfl, rfl⟩ := Prod.mk.inj (Option.some.inj found)
      refine ⟨[byte], rest, rfl, rfl, .other (by simpa using line) block close ?_
        (by simpa using word)⟩
      simpa [quoteByte, and_assoc] using quote

end

end Trstctl.Accessrules.Mysql
