import Mathlib.Data.List.Chain
import Trstctl.Graph.Bounds

/-!
# The text of a query

A query of the documented subset, given as syntax, and its text with single
spaces and double-quoted values.  The text is parsed to the query it was
printed from exactly when no name of the RETURN columns has RETURN in it, no
name of the path has WHERE in it and no value has AND between white space.
-/

namespace Trstctl

open Go (Bytes bytes raiseCase IsAscii IsGraphic isWhite index lastIndex trimSpace isSome_index)
open Result (bind_eq_ok)
open Regex (find_group find_symbol find_many find_sequence_cons find_literal find_sequence_nil
  find_ends append_of_find)

namespace Graph
namespace Cypher

/-- An identifier: a letter or an underscore, then letters, digits and
underscores. -/
def isIdentifier : Bytes → Bool
  | [] => false
  | first :: rest => isLetter first && rest.all isWord

/-- A name in a query. -/
structure Identifier where
  text : Bytes
  valid : isIdentifier text = true

/-- A value of a predicate: ASCII text without a quote. -/
structure Quotable where
  text : Bytes
  ascii : IsAscii text
  unquoted : 0x22 ∉ text ∧ 0x27 ∉ text

/-- A node of a path with an optional label. -/
structure Pattern where
  varName : Identifier
  label : Option Identifier

/-- An edge of a path and the node it leads to. -/
structure Hop where
  type : Identifier
  target : Pattern

structure Equality where
  varName : Identifier
  field : Identifier
  value : Quotable

/-- A column of RETURN: a variable or a field of one. -/
structure Column where
  varName : Identifier
  field : Option Identifier

def pathVariables (start : Pattern) (hops : List Hop) : List Bytes :=
  (start :: hops.map Hop.target).map (·.varName.text)

/-- A query of the documented subset.  Its variables are distinct, and what it
compares and returns is of a variable of its path. -/
structure PathQuery where
  start : Pattern
  hops : List Hop
  equalities : List Equality
  columns : List Column
  distinct : (pathVariables start hops).Nodup
  comparesBound : ∀ equality ∈ equalities, equality.varName.text ∈ pathVariables start hops
  returnsBound : ∀ column ∈ columns, column.varName.text ∈ pathVariables start hops
  returns : columns ≠ []

/-- A part of a text that is left out together with the byte in front of it. -/
def optional (mark : UInt8) : Option Identifier → Bytes
  | none => []
  | some part => mark :: part.text

/-- The text `(variable)` or `(variable:label)`. -/
def Pattern.print (pattern : Pattern) : Bytes :=
  0x28 :: (pattern.varName.text ++ optional 0x3A pattern.label ++ [0x29])

/-- The text `-[:TYPE]->` and the node behind it. -/
def Hop.print (hop : Hop) : Bytes :=
  bytes "-[:" ++ hop.type.text ++ bytes "]->" ++ hop.target.print

/-- The text `variable.field = "value"`. -/
def Equality.print (equality : Equality) : Bytes :=
  equality.varName.text ++ 0x2E :: (equality.field.text ++ bytes " = " ++
    0x22 :: (equality.value.text ++ [0x22]))

/-- The text `variable` or `variable.field`. -/
def Column.print (column : Column) : Bytes :=
  column.varName.text ++ optional 0x2E column.field

/-- The text of the path. -/
def printPath (start : Pattern) (hops : List Hop) : Bytes :=
  start.print ++ hops.flatMap Hop.print

/-- The equalities, joined by AND. -/
def printEqualities (equalities : List Equality) : Bytes :=
  ((equalities.map Equality.print).intersperse (bytes " AND ")).flatten

/-- The section of WHERE, if there is one. -/
def printWhere (equalities : List Equality) : Bytes :=
  if equalities.isEmpty then [] else bytes " WHERE " ++ printEqualities equalities

/-- The columns, with a comma and a space between them. -/
def printColumns (columns : List Column) : Bytes :=
  ((columns.map Column.print).intersperse (bytes ", ")).flatten

/-- The text of a query. -/
def PathQuery.print (query : PathQuery) : Bytes :=
  bytes "MATCH " ++ printPath query.start query.hops ++ printWhere query.equalities ++
    bytes " RETURN " ++ printColumns query.columns

/-- The text of an optional name, nothing when it is left out. -/
def optionalText : Option Identifier → Bytes
  | none => []
  | some name => name.text

def Pattern.toNodePat (pattern : Pattern) : NodePat :=
  ⟨pattern.varName.text, optionalText pattern.label⟩

def Equality.toPredicate (equality : Equality) : Predicate :=
  ⟨equality.varName.text, equality.field.text, equality.value.text⟩

def Column.toRetCol (column : Column) : RetCol :=
  ⟨column.print, column.varName.text, optionalText column.field⟩

/-- The query as the parser gives it. -/
def PathQuery.toCypher (query : PathQuery) : CypherQuery where
  nodes := (query.start :: query.hops.map Hop.target).map Pattern.toNodePat
  edges := query.hops.map (·.type.text)
  predicates := query.equalities.map Equality.toPredicate
  ret := query.columns.map Column.toRetCol

/-- A name has a word in it, in some letter case. -/
def Identifier.Has (word : Bytes) (name : Identifier) : Prop :=
  Go.contains (Go.toUpper name.text) word = true

/-- The names in a text with an optional name. -/
def Pattern.names (pattern : Pattern) : List Identifier :=
  pattern.varName :: pattern.label.toList

def Hop.names (hop : Hop) : List Identifier :=
  hop.type :: hop.target.names

def Column.names (column : Column) : List Identifier :=
  column.varName :: column.field.toList

/-- No keyword is found in a name or a value. -/
structure PathQuery.Unmistaken (query : PathQuery) : Prop where
  columns : ∀ column ∈ query.columns, ∀ name ∈ column.names, ¬name.Has (bytes "RETURN")
  path : ∀ name ∈ query.start.names ++ query.hops.flatMap Hop.names, ¬name.Has (bytes "WHERE")
  values : ∀ equality ∈ query.equalities, splitAnd equality.value.text = [equality.value.text]

theorem Identifier.exists_cons (name : Identifier) :
    ∃ first rest, name.text = first :: rest ∧ isLetter first = true ∧
      ∀ byte ∈ rest, isWord byte = true := by
  obtain ⟨text, valid⟩ := name
  cases text with
  | nil => cases valid
  | cons first rest =>
      obtain ⟨letter, word⟩ := (Bool.and_eq_true _ _).mp valid
      exact ⟨first, rest, rfl, letter, List.all_eq_true.mp word⟩

variable {byte : UInt8}

theorem isWord_of_isLetter (letter : isLetter byte = true) :
    isWord byte = true := by
  rw [isWord, letter, Bool.true_or]

theorem Identifier.isWord_of_mem {name : Identifier} (member : byte ∈ name.text) :
    isWord byte = true := by
  obtain ⟨first, rest, text_eq, letter, word⟩ := name.exists_cons
  rw [text_eq] at member
  rcases List.mem_cons.mp member with rfl | later
  · exact isWord_of_isLetter letter
  · exact word byte later

theorem Identifier.text_ne_nil (name : Identifier) : name.text ≠ [] := by
  obtain ⟨first, rest, text_eq, -, -⟩ := name.exists_cons
  rw [text_eq]
  exact List.cons_ne_nil _ _

variable {rest : Bytes}

theorem find_name (number : Nat) (word : Identifier)
    (stops : ∀ byte ∈ rest.head?, isWord byte = false) :
    (name number).find (word.text ++ rest) = some ⟨word.text, rest, [(number, word.text)]⟩ := by
  obtain ⟨first, later, text_eq, letter, accepted⟩ := word.exists_cons
  rw [text_eq, List.cons_append]
  exact find_group (Regex.find_seq (find_symbol letter (later ++ rest))
    (find_many accepted stops)) number

variable {text : Bytes}

theorem find_blanks_none (stops : ∀ byte ∈ text.head?, isBlank byte = false) :
    blanks.find text = some ⟨[], text, []⟩ :=
  find_many (List.forall_mem_nil _) stops

theorem find_blanks_one (stops : ∀ byte ∈ text.head?, isBlank byte = false) :
    blanks.find (0x20 :: text) = some ⟨[0x20], text, []⟩ :=
  find_many (List.forall_mem_singleton.mpr rfl) stops

theorem isBlank_of_isWord (word : isWord byte = true) :
    isBlank byte = false := by
  simp only [isBlank, Bool.or_eq_false_iff, beq_eq_false_iff_ne]
  refine ⟨⟨⟨⟨?_, ?_⟩, ?_⟩, ?_⟩, ?_⟩ <;>
    (rintro rfl; exact absurd word (by decide))

theorem isBlank_head_name (name : Identifier) (rest : Bytes) :
    ∀ byte ∈ (name.text ++ rest).head?, isBlank byte = false := by
  intro byte member
  obtain ⟨first, later, text_eq, letter, -⟩ := name.exists_cons
  rw [text_eq] at member
  rw [← Option.some.inj member]
  exact isBlank_of_isWord (isWord_of_isLetter letter)

/-- What the groups of a node pattern take. -/
def Pattern.groups (pattern : Pattern) : List (Nat × Bytes) :=
  (1, pattern.varName.text) :: pattern.label.toList.map fun label => (2, label.text)

theorem find_reNode (pattern : Pattern) (rest : Bytes) :
    reNode.find (pattern.print ++ rest) = some ⟨pattern.print, rest, pattern.groups⟩ := by
  obtain ⟨varName, label⟩ := pattern
  have closing : (Regex.sequence [.literal 0x29]).find (0x29 :: rest) =
      some ⟨[0x29], rest, []⟩ :=
    find_sequence_cons (find_literal 0x29 rest) (find_sequence_nil rest)
  cases label with
  | none =>
      have shape : Pattern.print ⟨varName, none⟩ ++ rest =
          0x28 :: (varName.text ++ 0x29 :: rest) := by
        simp [Pattern.print, optional]
      have unlabelled : (Regex.sequence [.literal 0x3A, blanks, name 2, blanks]).ways
          (0x29 :: rest) = [] :=
        Regex.ways_sequence_of_other (by simp) _
      rw [shape]
      refine (find_sequence_cons (find_literal 0x28 _)
        (find_sequence_cons (find_blanks_none (isBlank_head_name varName _))
        (find_sequence_cons (find_name 1 varName (by simp [isWord, isLetter]))
        (find_sequence_cons (find_blanks_none (by simp [isBlank]))
        (find_sequence_cons (Regex.find_either_of_second unlabelled .empty)
          closing))))).trans ?_
      simp [Pattern.print, optional, Pattern.groups]
  | some label =>
      have shape : Pattern.print ⟨varName, some label⟩ ++ rest =
          0x28 :: (varName.text ++ 0x3A :: (label.text ++ 0x29 :: rest)) := by
        simp [Pattern.print, optional]
      have labelled : (Regex.sequence [.literal 0x3A, blanks, name 2, blanks]).find
          (0x3A :: (label.text ++ 0x29 :: rest)) =
          some ⟨0x3A :: label.text, 0x29 :: rest, [(2, label.text)]⟩ := by
        refine (find_sequence_cons (find_literal 0x3A _)
          (find_sequence_cons (find_blanks_none (isBlank_head_name label _))
          (find_sequence_cons (find_name 2 label (by simp [isWord, isLetter]))
          (find_sequence_cons (find_blanks_none (by simp [isBlank]))
            (find_sequence_nil _))))).trans ?_
        simp
      rw [shape]
      refine (find_sequence_cons (find_literal 0x28 _)
        (find_sequence_cons (find_blanks_none (isBlank_head_name varName _))
        (find_sequence_cons (find_name 1 varName (by simp [isWord, isLetter]))
        (find_sequence_cons (find_blanks_none (by simp [isBlank]))
        (find_sequence_cons (Regex.find_either_of_first labelled .empty)
          closing))))).trans ?_
      simp [Pattern.print, optional, Pattern.groups]

theorem find_reEdge (type : Identifier) (rest : Bytes) :
    reEdge.find (bytes "-[:" ++ type.text ++ bytes "]->" ++ rest) =
      some ⟨bytes "-[:" ++ type.text ++ bytes "]->", rest, [(1, type.text)]⟩ := by
  have opening : bytes "-[:" = [0x2D, 0x5B, 0x3A] := by decide
  have closing : bytes "]->" = [0x5D, 0x2D, 0x3E] := by decide
  have shape : bytes "-[:" ++ type.text ++ bytes "]->" ++ rest =
      0x2D :: 0x5B :: 0x3A :: (type.text ++ 0x5D :: 0x2D :: 0x3E :: rest) := by
    simp [opening, closing]
  rw [shape]
  refine (find_sequence_cons (find_literal 0x2D _)
    (find_sequence_cons (find_blanks_none (by simp [isBlank]))
    (find_sequence_cons (find_literal 0x5B _)
    (find_sequence_cons (find_blanks_none (by simp [isBlank]))
    (find_sequence_cons (find_literal 0x3A _)
    (find_sequence_cons (find_blanks_none (isBlank_head_name type _))
    (find_sequence_cons (find_name 1 type (by simp [isWord, isLetter]))
    (find_sequence_cons (find_blanks_none (by simp [isBlank]))
    (find_sequence_cons (find_literal 0x5D _)
    (find_sequence_cons (find_blanks_none (by simp [isBlank]))
    (find_sequence_cons (find_literal 0x2D _)
    (find_sequence_cons (find_literal 0x3E _)
      (find_sequence_nil _))))))))))))).trans ?_
  simp [opening, closing]

variable (equality : Equality)

theorem find_rePred :
    rePred.find equality.print =
      some ⟨equality.print, [], [(1, equality.varName.text), (2, equality.field.text),
        (3, equality.value.text)]⟩ := by
  obtain ⟨varName, field, value⟩ := equality
  have equals : bytes " = " = [0x20, 0x3D, 0x20] := by decide
  have shape : Equality.print ⟨varName, field, value⟩ =
      varName.text ++ 0x2E :: (field.text ++
        0x20 :: 0x3D :: 0x20 :: 0x22 :: (value.text ++ [0x22])) := by
    simp [Equality.print, equals]
  have unquoted : ∀ byte ∈ value.text, (byte != 0x22) = true := by
    intro byte member
    exact bne_iff_ne.mpr fun same => value.unquoted.1 (same ▸ member)
  have quoted : (quotedValue 0x22 3).find (0x22 :: (value.text ++ [0x22])) =
      some ⟨0x22 :: (value.text ++ [0x22]), [], [(3, value.text)]⟩ := by
    refine (find_sequence_cons (find_literal 0x22 _)
      (find_sequence_cons (find_group (find_many unquoted (by simp)) 3)
      (find_sequence_cons (find_literal 0x22 _)
        (find_sequence_nil _)))).trans ?_
    simp
  rw [shape]
  refine (find_sequence_cons (find_name 1 varName (by simp [isWord, isLetter]))
    (find_sequence_cons (find_literal 0x2E _)
    (find_sequence_cons (find_name 2 field (by simp [isWord, isLetter]))
    (find_sequence_cons (find_blanks_one (by simp [isBlank]))
    (find_sequence_cons (find_literal 0x3D _)
    (find_sequence_cons (find_blanks_one (by simp [isBlank]))
    (find_sequence_cons (Regex.find_either_of_first quoted _)
    (find_sequence_cons find_ends (find_sequence_nil _))))))))).trans ?_
  simp

theorem find_reRetCol (column : Column) :
    reRetCol.find column.print =
      some ⟨column.print, [], (1, column.varName.text) ::
        column.field.toList.map fun field => (2, field.text)⟩ := by
  obtain ⟨varName, field⟩ := column
  have closing : (Regex.sequence [Regex.ends]).find ([] : Bytes) = some ⟨[], [], []⟩ :=
    find_sequence_cons find_ends (find_sequence_nil _)
  cases field with
  | none =>
      have shape : Column.print ⟨varName, none⟩ = varName.text ++ [] := rfl
      have bare : (Regex.sequence [.literal 0x2E, name 2]).ways [] = [] := rfl
      rw [shape]
      refine (find_sequence_cons (find_name 1 varName (by simp))
        (find_sequence_cons (Regex.find_either_of_second bare .empty) closing)).trans ?_
      simp
  | some field =>
      have shape : Column.print ⟨varName, some field⟩ =
          varName.text ++ 0x2E :: (field.text ++ []) := by
        simp [Column.print, optional]
      have dotted : (Regex.sequence [.literal 0x2E, name 2]).find (0x2E :: (field.text ++ [])) =
          some ⟨0x2E :: field.text, [], [(2, field.text)]⟩ := by
        refine (find_sequence_cons (find_literal 0x2E _)
          (find_sequence_cons (find_name 2 field (by simp))
            (find_sequence_nil _))).trans ?_
        simp
      rw [shape]
      refine (find_sequence_cons (find_name 1 varName (by simp [isWord, isLetter]))
        (find_sequence_cons (Regex.find_either_of_first dotted .empty) closing)).trans ?_
      simp

theorem isGraphic_of_isWord (word : isWord byte = true) :
    33 ≤ byte.toNat ∧ byte.toNat ≤ 126 := by
  simp only [isWord, isLetter, Bool.or_eq_true, Bool.and_eq_true, decide_eq_true_eq, beq_iff_eq,
    UInt8.le_iff_toNat_le, ← UInt8.toNat_inj] at word
  simp at word
  omega

theorem Identifier.isGraphic (name : Identifier) : IsGraphic name.text :=
  fun _ member => isGraphic_of_isWord (name.isWord_of_mem member)

theorem isGraphic_append {more : Bytes} (first : IsGraphic text) (second : IsGraphic more) :
    IsGraphic (text ++ more) :=
  List.forall_mem_append.mpr ⟨first, second⟩

variable {mark : UInt8}

theorem isGraphic_optional (graphic : 33 ≤ mark.toNat ∧ mark.toNat ≤ 126)
    (part : Option Identifier) :
    IsGraphic (optional mark part) := by
  cases part with
  | none => exact List.forall_mem_nil _
  | some part => exact List.forall_mem_cons.mpr ⟨graphic, part.isGraphic⟩

theorem Pattern.isGraphic_print (pattern : Pattern) : IsGraphic pattern.print := by
  refine List.forall_mem_cons.mpr ⟨by decide, ?_⟩
  refine isGraphic_append (isGraphic_append pattern.varName.isGraphic ?_) ?_
  · exact isGraphic_optional (by decide) pattern.label
  · exact List.forall_mem_singleton.mpr (by decide)

theorem Hop.isGraphic_print (hop : Hop) : IsGraphic hop.print := by
  refine isGraphic_append (isGraphic_append (isGraphic_append ?_ hop.type.isGraphic) ?_)
    hop.target.isGraphic_print
  · exact (by decide +kernel : ∀ byte ∈ bytes "-[:", 33 ≤ byte.toNat ∧ byte.toNat ≤ 126)
  · exact (by decide +kernel : ∀ byte ∈ bytes "]->", 33 ≤ byte.toNat ∧ byte.toNat ≤ 126)

theorem isGraphic_hops (hops : List Hop) : IsGraphic (hops.flatMap Hop.print) := by
  intro byte member
  obtain ⟨hop, -, inside⟩ := List.mem_flatMap.mp member
  exact hop.isGraphic_print byte inside

theorem isGraphic_printPath (start : Pattern) (hops : List Hop) :
    IsGraphic (printPath start hops) :=
  isGraphic_append start.isGraphic_print (isGraphic_hops hops)

theorem slice_behind (text more : Bytes) :
    slice (text ++ more) text.length (text ++ more).length = .ok more := by
  rw [slice_eq_ok]
  refine ⟨⟨?_, le_refl _⟩, ?_⟩
  · rw [List.length_append]
    exact Nat.le_add_right _ _
  · rw [List.take_length, List.drop_left]

theorem ok_bind {Value Next : Type} (value : Value) (next : Value → Except Failure Next) :
    ((.ok value : Except Failure Value) >>= next) = next value :=
  rfl

theorem nodePattern_print (expected : String) (pattern : Pattern) (rest : Bytes) :
    nodePattern expected (pattern.print ++ rest) =
      .ok (pattern.toNodePat, trimSpace rest) := by
  rw [nodePattern, find_reNode]
  dsimp only
  rw [slice_behind]
  obtain ⟨varName, label⟩ := pattern
  cases label with
  | none => rfl
  | some label => rfl

theorem pathStep_print (cq : CypherQuery) (hop : Hop) (graphic : IsGraphic rest) :
    pathStep cq (hop.print ++ rest) =
      .ok ({ cq with
        edges := cq.edges ++ [hop.type.text]
        nodes := cq.nodes ++ [hop.target.toNodePat] }, rest) := by
  have shape : hop.print ++ rest =
      bytes "-[:" ++ hop.type.text ++ bytes "]->" ++ (hop.target.print ++ rest) :=
    List.append_assoc _ _ _
  have trimmed := Go.trimSpace_of_graphic _ (isGraphic_append hop.target.isGraphic_print graphic)
  rw [pathStep, shape, find_reEdge]
  dsimp only
  rw [slice_behind, ok_bind, trimmed, nodePattern_print, ok_bind,
    Go.trimSpace_of_graphic _ graphic]
  rfl

theorem Hop.print_ne_nil (hop : Hop) : hop.print ≠ [] := by
  have opening : bytes "-[:" = [0x2D, 0x5B, 0x3A] := by decide
  rw [Hop.print, opening]
  exact List.cons_ne_nil _ _

theorem parsePath_print (cq : CypherQuery) (hops : List Hop) :
    parsePath cq (hops.flatMap Hop.print) =
      .ok { cq with
        edges := cq.edges ++ hops.map (·.type.text)
        nodes := cq.nodes ++ hops.map fun hop => hop.target.toNodePat } := by
  induction hops generalizing cq with
  | nil =>
      rw [List.flatMap_nil, parsePath, if_pos rfl]
      simp
  | cons hop hops ih =>
      have proper : hop.print ++ hops.flatMap Hop.print ≠ [] :=
        List.append_ne_nil_of_left_ne_nil hop.print_ne_nil _
      rw [List.flatMap_cons, parsePath, if_neg proper]
      split
      · rename_i failure step
        rw [pathStep_print cq hop (isGraphic_hops hops)] at step
        cases step
      · rename_i next after step
        rw [pathStep_print cq hop (isGraphic_hops hops)] at step
        cases Except.ok.inj step
        rw [ih]
        simp

theorem bindVariables_eq_ok {nodes : List NodePat} (distinct : (nodes.map NodePat.varName).Nodup) :
    bindVariables nodes = .ok (nodes.map NodePat.varName).reverse := by
  have bind (bound : List Bytes) (apart : ∀ node ∈ nodes, node.varName ∉ bound) :
      nodes.foldlM (fun bound node =>
        if bound.contains node.varName then
          throw (.error ⟨"graph: variable ", some node.varName, " is bound more than once"⟩)
        else pure (node.varName :: bound)) bound =
      (.ok ((nodes.map NodePat.varName).reverse ++ bound) : Except Failure (List Bytes)) := by
    induction nodes generalizing bound with
    | nil => rfl
    | cons node nodes ih =>
        obtain ⟨unbound, others⟩ := List.forall_mem_cons.mp apart
        rw [List.map_cons, List.nodup_cons] at distinct
        rw [List.foldlM_cons, if_neg (by simpa using unbound)]
        refine (ih distinct.2 (node.varName :: bound) ?_).trans ?_
        · intro later member same
          rcases List.mem_cons.mp same with same | before
          · exact distinct.1 (same ▸ List.mem_map_of_mem member)
          · exact others later member before
        · simp
  rw [bindVariables, bind [] fun _ _ => List.not_mem_nil, List.append_nil]

theorem mapM_print {Item Value : Type} {items : List Item} {print : Item → Bytes}
    {read : Bytes → Except Failure Value} {value : Item → Value}
    (reads : ∀ item ∈ items, read (print item) = .ok (value item)) :
    (items.map print).mapM read = .ok (items.map value) := by
  induction items with
  | nil => rfl
  | cons item items ih =>
      obtain ⟨first, others⟩ := List.forall_mem_cons.mp reads
      rw [List.map_cons, List.mapM_cons, first, ih others]
      rfl

/-- What stands in front of a value. -/
def Equality.front (equality : Equality) : Bytes :=
  equality.varName.text ++ 0x2E :: (equality.field.text ++ bytes " = ")

theorem Equality.print_append (rest : Bytes) :
    equality.print ++ rest =
      equality.front ++ 0x22 :: (equality.value.text ++ 0x22 :: rest) := by
  simp [Equality.print, Equality.front]

theorem takes_reAnd : reAnd.takes = true := rfl

theorem avoids_reAnd : reAnd.Avoids 0x22 := by
  simp [reAnd, Regex.sequence, Regex.Avoids, blanks, letterOf, isBlank, Go.upperByte]

theorem find_reAnd_of_other {first : UInt8} (other : isBlank first = false) (rest : Bytes) :
    reAnd.find (first :: rest) = none := by
  simp [reAnd, Regex.sequence, Regex.find, Regex.ways, other]

variable {word : Bytes}

theorem splitFrom_reAnd_append (other : ∀ byte ∈ word, isBlank byte = false) (part rest : Bytes) :
    reAnd.splitFrom 0 part (word ++ rest) = reAnd.splitFrom 0 (word.reverse ++ part) rest := by
  induction word generalizing part with
  | nil => rfl
  | cons first word ih =>
      obtain ⟨firstOther, others⟩ := List.forall_mem_cons.mp other
      rw [List.cons_append, Regex.splitFrom, find_reAnd_of_other firstOther]
      dsimp only
      rw [ih others, List.reverse_cons, List.append_assoc, List.singleton_append]

theorem splitAnd_front : splitAnd equality.front = [equality.front] := by
  have shape : equality.front =
      (equality.varName.text ++ 0x2E :: equality.field.text) ++ bytes " = " := by
    simp [Equality.front]
  have other : ∀ byte ∈ equality.varName.text ++ 0x2E :: equality.field.text,
      isBlank byte = false := by
    refine List.forall_mem_append.mpr ⟨fun byte member => ?_, List.forall_mem_cons.mpr
      ⟨rfl, fun byte member => ?_⟩⟩
    · exact isBlank_of_isWord (equality.varName.isWord_of_mem member)
    · exact isBlank_of_isWord (equality.field.isWord_of_mem member)
  have equals : reAnd.split (bytes " = ") = [bytes " = "] := by decide +kernel
  rw [splitAnd, Regex.split, shape, splitFrom_reAnd_append other, List.append_nil,
    Regex.splitFrom_part, List.reverse_reverse, equals, Regex.weld]

theorem splitAnd_print_append (rest : Bytes) :
    splitAnd (equality.print ++ rest) =
      Regex.weld [equality.front] (Regex.weld [[0x22]] (Regex.weld (splitAnd equality.value.text)
        (Regex.weld [[0x22]] (splitAnd rest)))) := by
  rw [equality.print_append, splitAnd, Regex.split_append_barrier takes_reAnd avoids_reAnd,
    Regex.split_append_barrier takes_reAnd avoids_reAnd]
  rw [← splitAnd, splitAnd_front]
  rfl

theorem find_reAnd_separator {next : Bytes} (starts : ∀ byte ∈ next.head?, isBlank byte = false) :
    reAnd.find (bytes " AND " ++ next) = some ⟨bytes " AND ", next, []⟩ := by
  have separator : bytes " AND " = [0x20, 0x41, 0x4E, 0x44, 0x20] := by decide
  rw [separator]
  refine (find_sequence_cons (find_symbol (by decide) _)
    (find_sequence_cons (find_blanks_none (by simp [isBlank]))
    (find_sequence_cons (find_symbol (by decide) _)
    (find_sequence_cons (find_symbol (by decide) _)
    (find_sequence_cons (find_symbol (by decide) _)
    (find_sequence_cons (find_symbol (by decide) _)
    (find_sequence_cons (find_blanks_none starts)
      (find_sequence_nil _)))))))).trans ?_
  simp

theorem splitAnd_separator {next : Bytes} (starts : ∀ byte ∈ next.head?, isBlank byte = false) :
    splitAnd (bytes " AND " ++ next) = [] :: splitAnd next := by
  have separator : bytes " AND " = [0x20, 0x41, 0x4E, 0x44, 0x20] := by decide
  have found := find_reAnd_separator starts
  rw [separator, List.cons_append] at found
  rw [splitAnd, Regex.split, separator, List.cons_append, Regex.splitFrom, found]
  rfl

theorem printEqualities_cons (next : Equality) (rest : List Equality) :
    printEqualities (equality :: next :: rest) =
      equality.print ++ (bytes " AND " ++ printEqualities (next :: rest)) := by
  simp [printEqualities]

theorem printEqualities_singleton :
    printEqualities [equality] = equality.print ++ [] := by
  simp [printEqualities]

theorem exists_printEqualities (rest : List Equality) :
    ∃ more, printEqualities (equality :: rest) = equality.varName.text ++ more := by
  cases rest with
  | nil =>
      rw [printEqualities_singleton, Equality.print, List.append_assoc]
      exact ⟨_, rfl⟩
  | cons next rest =>
      rw [printEqualities_cons, Equality.print, List.append_assoc]
      exact ⟨_, rfl⟩

theorem isBlank_head_printEqualities (rest : List Equality) :
    ∀ byte ∈ (printEqualities (equality :: rest)).head?, isBlank byte = false := by
  obtain ⟨more, printed⟩ := exists_printEqualities equality rest
  rw [printed]
  exact isBlank_head_name equality.varName more

theorem splitAnd_print_of_whole {equality : Equality}
    (whole : splitAnd equality.value.text = [equality.value.text])
    {first : Bytes} {later : List Bytes} (behind : splitAnd rest = first :: later) :
    splitAnd (equality.print ++ rest) = (equality.print ++ first) :: later := by
  rw [splitAnd_print_append, whole, behind, equality.print_append]
  rfl

variable {equalities : List Equality}

theorem splitAnd_printEqualities (some : equalities ≠ [])
    (whole : ∀ equality ∈ equalities,
      splitAnd equality.value.text = [equality.value.text]) :
    splitAnd (printEqualities equalities) = equalities.map Equality.print := by
  induction equalities with
  | nil => exact absurd rfl some
  | cons equality rest ih =>
      obtain ⟨firstWhole, others⟩ := List.forall_mem_cons.mp whole
      cases rest with
      | nil =>
          have behind : splitAnd [] = [[]] := rfl
          rw [printEqualities_singleton, splitAnd_print_of_whole firstWhole behind]
          simp
      | cons next rest =>
          have behind := splitAnd_separator (isBlank_head_printEqualities next rest)
          rw [printEqualities_cons, splitAnd_print_of_whole firstWhole behind,
            ih (List.cons_ne_nil _ _) others]
          simp

theorem Equality.isAscii_print : IsAscii equality.print := by
  rw [← List.append_nil equality.print, equality.print_append]
  refine List.forall_mem_append.mpr ⟨?_, List.forall_mem_cons.mpr ⟨by decide, ?_⟩⟩
  · refine List.forall_mem_append.mpr ⟨equality.varName.isGraphic.ascii,
      List.forall_mem_cons.mpr ⟨by decide, List.forall_mem_append.mpr
        ⟨equality.field.isGraphic.ascii, by decide +kernel⟩⟩⟩
  · exact List.forall_mem_append.mpr ⟨equality.value.ascii, by decide +kernel⟩

theorem isWhite_of_graphic (graphic : 33 ≤ byte.toNat ∧ byte.toNat ≤ 126) :
    isWhite byte = false :=
  Go.isSpace_of_graphic graphic

theorem isWhite_head_name (name : Identifier) (rest : Bytes) :
    ∀ byte ∈ (name.text ++ rest).head?, isWhite byte = false := by
  intro byte member
  obtain ⟨first, later, text_eq, letter, -⟩ := name.exists_cons
  rw [text_eq] at member
  rw [← Option.some.inj member]
  exact isWhite_of_graphic (isGraphic_of_isWord (isWord_of_isLetter letter))

theorem Equality.getLast?_print :
    equality.print.getLast? = some 0x22 := by
  have shape : equality.print = (equality.front ++ 0x22 :: equality.value.text) ++ [0x22] := by
    simp [Equality.print, Equality.front]
  rw [shape, List.getLast?_concat]

theorem Equality.trimSpace_print :
    trimSpace equality.print = equality.print := by
  have shape : equality.print = [] ++ equality.print ++ [] := by simp
  have stops : ∀ byte ∈ equality.print.getLast?, isWhite byte = false := by
    intro byte member
    rw [equality.getLast?_print] at member
    rw [← Option.some.inj member]
    decide
  have trimmed := Go.trimSpace_between [] equality.print [] (shape ▸ equality.isAscii_print)
    (List.forall_mem_nil _) (List.forall_mem_nil _) (isWhite_head_name equality.varName _) stops
  rwa [← shape] at trimmed

variable {bound : List Bytes}

theorem parsePredicate_print {equality : Equality} (member : equality.varName.text ∈ bound) :
    parsePredicate bound equality.print = .ok equality.toPredicate := by
  have value_eq : (if equality.value.text = [] then [] else equality.value.text) =
      equality.value.text := by
    split
    · rename_i empty
      exact empty.symm
    · rfl
  have found : bound.contains equality.varName.text = true := by simpa using member
  rw [parsePredicate, equality.trimSpace_print, find_rePred]
  simp only [Regex.Match.submatch, List.lookup_cons, List.lookup_nil, Nat.reduceBEq,
    Option.getD_some, Option.getD_none, value_eq, found, if_true, beq_self_eq_true]
  rfl

theorem parseWhere_print (some : equalities ≠ [])
    (whole : ∀ equality ∈ equalities, splitAnd equality.value.text = [equality.value.text])
    (known : ∀ equality ∈ equalities, equality.varName.text ∈ bound) :
    parseWhere bound (printEqualities equalities) =
      .ok (equalities.map Equality.toPredicate) := by
  have proper : printEqualities equalities ≠ [] := by
    obtain ⟨equality, rest, rfl⟩ := List.exists_cons_of_ne_nil some
    obtain ⟨more, printed⟩ := exists_printEqualities equality rest
    rw [printed]
    exact List.append_ne_nil_of_left_ne_nil equality.varName.text_ne_nil _
  rw [parseWhere, if_neg proper, splitAnd_printEqualities some whole]
  exact mapM_print fun equality member => parsePredicate_print (known equality member)

theorem Column.isGraphic_print (column : Column) : IsGraphic column.print :=
  isGraphic_append column.varName.isGraphic (isGraphic_optional (by decide) column.field)

theorem Column.print_ne_nil (column : Column) : column.print ≠ [] :=
  List.append_ne_nil_of_left_ne_nil column.varName.text_ne_nil _

theorem Column.isWord_or_dot {column : Column} (member : byte ∈ column.print) :
    isWord byte = true ∨ byte = 0x2E := by
  obtain ⟨varName, field⟩ := column
  rcases List.mem_append.mp member with inName | inField
  · exact Or.inl (varName.isWord_of_mem inName)
  · cases field with
    | none => cases inField
    | some field =>
        rcases List.mem_cons.mp inField with dot | inField
        · exact Or.inr dot
        · exact Or.inl (field.isWord_of_mem inField)

theorem parseColumn_print {column : Column} (member : column.varName.text ∈ bound) {part : Bytes}
    (trimmed : trimSpace part = column.print) :
    parseColumn bound part = .ok column.toRetCol := by
  have found : bound.contains column.varName.text = true := by simpa using member
  rw [parseColumn, trimmed, find_reRetCol]
  obtain ⟨varName, field⟩ := column
  cases field with
  | none =>
      simp only [Regex.Match.submatch, List.lookup_cons, Option.toList_none, List.map_nil,
        List.lookup_nil, Nat.reduceBEq, beq_self_eq_true, Option.getD_some, found, if_true]
      rfl
  | some field =>
      simp only [Regex.Match.submatch, List.lookup_cons, Option.toList_some, List.map_cons,
        Nat.reduceBEq, beq_self_eq_true, Option.getD_some, found, if_true]
      rfl

/-- What stands between the commas. -/
def columnParts : List Column → List Bytes
  | [] => []
  | column :: rest => column.print :: rest.map fun later => 0x20 :: later.print

theorem printColumns_singleton (column : Column) : printColumns [column] = column.print := by
  simp [printColumns]

theorem printColumns_cons (column next : Column) (rest : List Column) :
    printColumns (column :: next :: rest) =
      column.print ++ 0x2C :: 0x20 :: printColumns (next :: rest) := by
  have comma : bytes ", " = [0x2C, 0x20] := by decide
  simp [printColumns, comma]

theorem printColumns_eq (columns : List Column) :
    printColumns columns = [0x2C].intercalate (columnParts columns) := by
  induction columns with
  | nil => rfl
  | cons column rest ih =>
      cases rest with
      | nil => simp [printColumns, columnParts, List.intercalate]
      | cons next rest =>
          rw [printColumns_cons, ih]
          cases rest with
          | nil => simp [columnParts, List.intercalate]
          | cons last rest => simp [columnParts, List.intercalate]

variable {columns : List Column}

theorem split_printColumns (some : columns ≠ []) :
    Go.split 0x2C (printColumns columns) = columnParts columns := by
  have apart (column : Column) : 0x2C ∉ column.print := by
    intro member
    rcases column.isWord_or_dot member with word | dot
    · exact absurd word (by decide)
    · exact absurd dot (by decide)
  obtain ⟨column, rest, rfl⟩ := List.exists_cons_of_ne_nil some
  rw [printColumns_eq, Go.split, List.splitOn_intercalate]
  · intro part member
    rcases List.mem_cons.mp member with rfl | later
    · exact apart column
    · obtain ⟨next, -, rfl⟩ := List.mem_map.mp later
      exact List.not_mem_cons_of_ne_of_not_mem (by decide) (apart next)
  · exact List.cons_ne_nil _ _

theorem mapM_parseColumn (some : columns ≠ [])
    (known : ∀ column ∈ columns, column.varName.text ∈ bound) :
    (Go.split 0x2C (printColumns columns)).mapM (parseColumn bound) =
      .ok (columns.map Column.toRetCol) := by
  obtain ⟨column, rest, rfl⟩ := List.exists_cons_of_ne_nil some
  obtain ⟨first, others⟩ := List.forall_mem_cons.mp known
  have later : (rest.map fun next => 0x20 :: next.print).mapM (parseColumn bound) =
      .ok (rest.map Column.toRetCol) := by
    refine mapM_print fun next member => parseColumn_print (others next member) ?_
    exact Go.trimSpace_append [0x20] next.isGraphic_print next.print_ne_nil
  have trimmed := Go.trimSpace_of_graphic _ column.isGraphic_print
  rw [split_printColumns some, columnParts, List.mapM_cons, parseColumn_print first trimmed, later]
  rfl

/-- The bytes that stand between names. -/
def marks : Bytes :=
  bytes " (),-.:>[]"

/-- A word without one of the bytes between names. -/
def Unmarked (word : Bytes) : Prop :=
  word ≠ [] ∧ ∀ mark ∈ marks, mark ∉ word

instance (word : Bytes) : Decidable (Unmarked word) :=
  inferInstanceAs (Decidable (word ≠ [] ∧ ∀ mark ∈ marks, mark ∉ word))

theorem upperByte_of_mem_marks : ∀ mark ∈ marks, Go.upperByte mark = mark := by
  decide +kernel

theorem contains_mark (unmarked : Unmarked word) (member : mark ∈ marks) (text more : Bytes) :
    Go.contains (raiseCase (text ++ mark :: more)) word =
      (Go.contains (raiseCase text) word || Go.contains (raiseCase more) word) := by
  rw [Go.raiseCase_append, Go.raiseCase_cons, upperByte_of_mem_marks mark member,
    Go.contains_append_barrier unmarked.1 (unmarked.2 mark member)]

theorem index_mark (unmarked : Unmarked word) (member : mark ∈ marks) (text more : Bytes) :
    index word (raiseCase (text ++ mark :: more)) =
      (index word (raiseCase text)).or
        ((index word (raiseCase more)).map (text.length + 1 + ·)) := by
  rw [Go.raiseCase_append, Go.raiseCase_cons, upperByte_of_mem_marks mark member,
    Go.index_append_barrier unmarked.1 (unmarked.2 mark member), Go.length_raiseCase]

theorem lastIndex_mark (unmarked : Unmarked word) (member : mark ∈ marks) (text more : Bytes) :
    lastIndex word (raiseCase (text ++ mark :: more)) =
      ((lastIndex word (raiseCase more)).map (text.length + 1 + ·)).or
        (lastIndex word (raiseCase text)) := by
  rw [Go.raiseCase_append, Go.raiseCase_cons, upperByte_of_mem_marks mark member,
    Go.lastIndex_append_barrier unmarked.1 (unmarked.2 mark member), Go.length_raiseCase]

theorem contains_nil (unmarked : Unmarked word) :
    Go.contains (raiseCase []) word = false := by
  simpa [raiseCase, Go.contains] using unmarked.1

theorem contains_mark_cons (unmarked : Unmarked word) (member : mark ∈ marks) (more : Bytes) :
    Go.contains (raiseCase (mark :: more)) word = Go.contains (raiseCase more) word := by
  rw [← List.nil_append (mark :: more), contains_mark unmarked member, contains_nil unmarked,
    Bool.false_or]

def someHas (word : Bytes) (names : List Identifier) : Bool :=
  names.any fun name => Go.contains (raiseCase name.text) word

theorem someHas_iff {names : List Identifier} :
    someHas word names = true ↔ ∃ name ∈ names, name.Has word := by
  rw [someHas, List.any_eq_true]
  refine exists_congr fun name => and_congr_right fun _ => ?_
  rw [Identifier.Has, Go.toUpper_of_ascii name.isGraphic.ascii]

theorem contains_optional (unmarked : Unmarked word) (member : mark ∈ marks)
    (text : Bytes) (part : Option Identifier) :
    Go.contains (raiseCase (text ++ optional mark part)) word =
      (Go.contains (raiseCase text) word || someHas word part.toList) := by
  cases part with
  | none => simp [optional, someHas]
  | some part =>
      rw [optional, contains_mark unmarked member]
      simp [someHas]

theorem contains_pattern (unmarked : Unmarked word) (pattern : Pattern) (rest : Bytes) :
    Go.contains (raiseCase (pattern.print ++ rest)) word =
      (someHas word pattern.names || Go.contains (raiseCase rest) word) := by
  have shape : pattern.print ++ rest =
      0x28 :: (pattern.varName.text ++ optional 0x3A pattern.label ++ 0x29 :: rest) := by
    simp [Pattern.print]
  rw [shape, contains_mark_cons unmarked (by decide), contains_mark unmarked (by decide),
    contains_optional unmarked (by decide)]
  rfl

theorem contains_hops (unmarked : Unmarked word) (hops : List Hop) :
    Go.contains (raiseCase (hops.flatMap Hop.print)) word =
      someHas word (hops.flatMap Hop.names) := by
  have opening : bytes "-[:" = [0x2D, 0x5B, 0x3A] := by decide
  have closing : bytes "]->" = [0x5D, 0x2D, 0x3E] := by decide
  induction hops with
  | nil => exact contains_nil unmarked
  | cons hop hops ih =>
      have shape : hop.print ++ hops.flatMap Hop.print =
          0x2D :: 0x5B :: 0x3A :: (hop.type.text ++
            0x5D :: 0x2D :: 0x3E :: (hop.target.print ++ hops.flatMap Hop.print)) := by
        simp [Hop.print, opening, closing]
      rw [List.flatMap_cons, shape, contains_mark_cons unmarked (by decide),
        contains_mark_cons unmarked (by decide), contains_mark_cons unmarked (by decide),
        contains_mark unmarked (by decide), contains_mark_cons unmarked (by decide),
        contains_mark_cons unmarked (by decide), contains_pattern unmarked, ih]
      simp [someHas, Hop.names]

theorem contains_printPath (unmarked : Unmarked word) (start : Pattern) (hops : List Hop) :
    Go.contains (raiseCase (printPath start hops)) word =
      someHas word (start.names ++ hops.flatMap Hop.names) := by
  rw [printPath, contains_pattern unmarked, contains_hops unmarked]
  exact List.any_append.symm

theorem contains_printColumns (unmarked : Unmarked word) (columns : List Column) :
    Go.contains (raiseCase (printColumns columns)) word =
      someHas word (columns.flatMap Column.names) := by
  induction columns with
  | nil => exact contains_nil unmarked
  | cons column rest ih =>
      cases rest with
      | nil =>
          rw [printColumns_singleton, Column.print, contains_optional unmarked (by decide)]
          simp [someHas, Column.names]
      | cons next rest =>
          rw [printColumns_cons, contains_mark unmarked (by decide),
            contains_mark_cons unmarked (by decide), ih, Column.print,
            contains_optional unmarked (by decide)]
          simp [someHas, Column.names, Bool.or_assoc]

theorem unmarked_return : Unmarked (bytes "RETURN") := by decide +kernel

theorem unmarked_where : Unmarked (bytes "WHERE") := by decide +kernel

variable {body : Bytes}

theorem splitBody_of_none (ascii : IsAscii body)
    (absent : Go.contains (raiseCase body) (bytes "WHERE") = false) :
    splitBody body = .ok (trimSpace body, []) := by
  have nowhere : index (bytes "WHERE") (raiseCase body) = none := by
    rwa [← Option.not_isSome_iff_eq_none, isSome_index, Bool.not_eq_true]
  rw [splitBody, Go.toUpper_of_ascii ascii, nowhere]
  rfl

theorem splitBody_of_some (ascii : IsAscii body) {wi : Nat}
    (found : index (bytes "WHERE") (raiseCase body) = some wi) :
    splitBody body = .ok (trimSpace (body.take wi), trimSpace (body.drop (wi + 5))) := by
  have long := (Go.prefix_drop_of_index found).length_le
  have five : (bytes "WHERE").length = 5 := by decide
  rw [List.length_drop, Go.length_raiseCase, five] at long
  have front : slice body 0 wi = .ok (body.take wi) := slice_eq_ok.mpr ⟨by omega, rfl⟩
  have behind : slice body (wi + 5) body.length = .ok (body.drop (wi + 5)) := by
    rw [slice_eq_ok, List.take_length]
    exact ⟨by omega, rfl⟩
  rw [splitBody, Go.toUpper_of_ascii ascii, found]
  dsimp only
  rw [five, behind, ok_bind, front, ok_bind]
  rfl

/-- What is done with a body and the text behind RETURN. -/
def clausesOf (body ret : Bytes) : Except Failure (Bytes × Bytes × Bytes) := do
  let (pattern, predicates) ← splitBody body
  if pattern = [] ∨ trimSpace ret = [] then
    throw (plainError "graph: query missing a MATCH pattern or RETURN list")
  return (pattern, predicates, trimSpace ret)

/-- A query is cut behind MATCH and at its last RETURN. -/
theorem splitClauses_eq {ret : Bytes}
    (ascii : IsAscii (bytes "MATCH" ++ body ++ word ++ ret)) (length : word.length = 6)
    (found : lastIndex (bytes "RETURN") (raiseCase (bytes "MATCH" ++ body ++ word ++ ret)) =
      some (5 + body.length)) :
    splitClauses (bytes "MATCH" ++ body ++ word ++ ret) = clausesOf body ret := by
  have starts : index (bytes "MATCH") (raiseCase (bytes "MATCH" ++ body ++ word ++ ret)) =
      some 0 := by
    rw [Go.index_eq_zero_iff (by decide), List.append_assoc, List.append_assoc,
      Go.raiseCase_append]
    exact List.prefix_append_of_prefix (by decide)
  have behind := slice_behind (bytes "MATCH" ++ body ++ word) ret
  have front : slice (bytes "MATCH" ++ body ++ word ++ ret) 5 (5 + body.length) = .ok body := by
    have shape : (bytes "MATCH" ++ body ++ word ++ ret).take (5 + body.length) =
        bytes "MATCH" ++ body := by
      rw [List.append_assoc, List.take_left']
      rw [List.length_append]
      rfl
    rw [slice_eq_ok, shape]
    refine ⟨⟨Nat.le_add_right _ _, ?_⟩, ?_⟩
    · simp only [List.length_append]
      have five : (bytes "MATCH").length = 5 := by decide
      omega
    · exact List.drop_left' (by decide)
  have five : (bytes "MATCH" ++ body ++ word).length = 5 + body.length + 6 := by
    rw [List.length_append, List.length_append, length]
    rfl
  rw [five] at behind
  have six : (bytes "RETURN").length = 6 := by decide
  have matched : (bytes "MATCH").length = 5 := by decide
  rw [splitClauses, Go.toUpper_of_ascii ascii]
  dsimp only
  rw [if_neg (not_not_intro starts), found]
  dsimp only
  rw [six, matched, behind, ok_bind, front, ok_bind]
  rfl

/-- The text in front of RETURN. -/
def PathQuery.printFront (query : PathQuery) : Bytes :=
  0x20 :: (printPath query.start query.hops ++ printWhere query.equalities)

theorem PathQuery.print_eq (query : PathQuery) :
    query.print = bytes "MATCH" ++ query.printFront ++
      0x20 :: (bytes "RETURN" ++ 0x20 :: printColumns query.columns) := by
  have opening : bytes "MATCH " = bytes "MATCH" ++ [0x20] := by decide
  have closing : bytes " RETURN " = 0x20 :: (bytes "RETURN" ++ [0x20]) := by decide
  simp [PathQuery.print, PathQuery.printFront, opening, closing]

theorem isAscii_printEqualities (equalities : List Equality) :
    IsAscii (printEqualities equalities) := by
  induction equalities with
  | nil => exact List.forall_mem_nil _
  | cons equality rest ih =>
      cases rest with
      | nil =>
          rw [printEqualities_singleton, List.append_nil]
          exact equality.isAscii_print
      | cons next rest =>
          rw [printEqualities_cons]
          exact equality.isAscii_print.append (IsAscii.append (by decide) ih)

theorem isAscii_printWhere (equalities : List Equality) :
    IsAscii (printWhere equalities) := by
  unfold printWhere
  split
  · exact List.forall_mem_nil _
  · exact IsAscii.append (by decide) (isAscii_printEqualities equalities)

theorem isAscii_printColumns (columns : List Column) : IsAscii (printColumns columns) := by
  induction columns with
  | nil => exact List.forall_mem_nil _
  | cons column rest ih =>
      cases rest with
      | nil =>
          rw [printColumns_singleton]
          exact column.isGraphic_print.ascii
      | cons next rest =>
          rw [printColumns_cons]
          refine column.isGraphic_print.ascii.append ?_
          exact List.forall_mem_cons.mpr ⟨by decide,
            List.forall_mem_cons.mpr ⟨by decide, ih⟩⟩

theorem PathQuery.isAscii_printFront (query : PathQuery) : IsAscii query.printFront :=
  List.forall_mem_cons.mpr ⟨by decide, (isGraphic_printPath _ _).ascii.append
    (isAscii_printWhere query.equalities)⟩

theorem PathQuery.isAscii_print (query : PathQuery) : IsAscii query.print := by
  rw [query.print_eq]
  refine IsAscii.append (IsAscii.append (by decide) query.isAscii_printFront) ?_
  refine List.forall_mem_cons.mpr ⟨by decide, IsAscii.append (by decide) ?_⟩
  exact List.forall_mem_cons.mpr ⟨by decide, isAscii_printColumns query.columns⟩

theorem PathQuery.lastIndex_return (query : PathQuery) :
    lastIndex (bytes "RETURN") (raiseCase query.print) =
      some (5 + query.printFront.length + 1 +
        ((lastIndex (bytes "RETURN") (raiseCase (printColumns query.columns))).map
          (7 + ·)).getD 0) := by
  have place : lastIndex (bytes "RETURN") (raiseCase (bytes "RETURN")) = some 0 := by decide
  have length : (bytes "MATCH" ++ query.printFront).length = 5 + query.printFront.length := by
    rw [List.length_append]
    rfl
  have six : (bytes "RETURN").length = 6 := by decide
  rw [query.print_eq, lastIndex_mark unmarked_return (by decide),
    lastIndex_mark unmarked_return (by decide), place, length, six]
  cases lastIndex (bytes "RETURN") (raiseCase (printColumns query.columns)) with
  | none => rfl
  | some place => rfl

variable {query : PathQuery}

theorem PathQuery.splitClauses_of_none
    (absent : lastIndex (bytes "RETURN") (raiseCase (printColumns query.columns)) = none) :
    splitClauses query.print =
      clausesOf (query.printFront ++ [0x20]) (0x20 :: printColumns query.columns) := by
  have shape : query.print = bytes "MATCH" ++ (query.printFront ++ [0x20]) ++ bytes "RETURN" ++
      0x20 :: printColumns query.columns := by
    rw [query.print_eq]
    simp
  have place := query.lastIndex_return
  rw [absent, shape] at place
  rw [shape]
  refine splitClauses_eq (shape ▸ query.isAscii_print) (by decide) (place.trans ?_)
  simp [Nat.add_assoc]

variable {place : Nat}

/-- The clauses of a query with a RETURN in its columns. -/
theorem PathQuery.splitClauses_of_some
    (found : lastIndex (bytes "RETURN") (raiseCase (printColumns query.columns)) =
      some place) :
    ∃ ret, splitClauses query.print =
      clausesOf (query.printFront ++ bytes " RETURN " ++ (printColumns query.columns).take place)
        ret := by
  have starts := Go.prefix_drop_of_lastIndex found
  have long := starts.length_le
  rw [List.length_drop, Go.length_raiseCase] at long
  have six : (bytes "RETURN").length = 6 := by decide
  rw [six] at long
  have parts : printColumns query.columns = (printColumns query.columns).take place ++
      ((printColumns query.columns).drop place).take 6 ++
      (printColumns query.columns).drop (place + 6) := by
    rw [List.append_assoc, ← List.drop_drop, List.take_append_drop, List.take_append_drop]
  have shape : query.print = bytes "MATCH" ++ (query.printFront ++ bytes " RETURN " ++
      (printColumns query.columns).take place) ++
      ((printColumns query.columns).drop place).take 6 ++
      (printColumns query.columns).drop (place + 6) := by
    rw [query.print_eq]
    nth_rewrite 1 [parts]
    have keyword : bytes " RETURN " = 0x20 :: (bytes "RETURN" ++ [0x20]) := by decide
    simp [keyword]
  have last := query.lastIndex_return
  rw [found, shape] at last
  refine ⟨(printColumns query.columns).drop (place + 6), ?_⟩
  rw [shape]
  refine splitClauses_eq (shape ▸ query.isAscii_print) ?_ (last.trans ?_)
  · rw [List.length_take, List.length_drop]
    omega
  · have eight : (bytes " RETURN ").length = 8 := by decide
    simp only [List.length_append, List.length_take, eight, Option.map_some, Option.getD_some,
      Option.some.injEq]
    omega

theorem splitBody_where {path : Bytes}
    (ascii : IsAscii (0x20 :: (path ++ 0x20 :: (bytes "WHERE" ++ 0x20 :: rest))))
    (absent : Go.contains (raiseCase path) (bytes "WHERE") = false) :
    splitBody (0x20 :: (path ++ 0x20 :: (bytes "WHERE" ++ 0x20 :: rest))) =
      .ok (trimSpace (0x20 :: (path ++ [0x20])), trimSpace (0x20 :: rest)) := by
  have shape : 0x20 :: (path ++ 0x20 :: (bytes "WHERE" ++ 0x20 :: rest)) =
      0x20 :: (path ++ [0x20]) ++ (bytes "WHERE" ++ 0x20 :: rest) := by
    simp
  have place : index (bytes "WHERE") (raiseCase (bytes "WHERE")) = some 0 := by decide
  have nowhere : index (bytes "WHERE") (raiseCase (0x20 :: path)) = none := by
    rwa [← Option.not_isSome_iff_eq_none, isSome_index,
      contains_mark_cons unmarked_where (by decide), Bool.not_eq_true]
  have found : index (bytes "WHERE")
      (raiseCase (0x20 :: (path ++ 0x20 :: (bytes "WHERE" ++ 0x20 :: rest)))) =
      some (0x20 :: (path ++ [0x20])).length := by
    rw [← List.cons_append, index_mark unmarked_where (by decide), nowhere,
      index_mark unmarked_where (by decide), place]
    simp
  rw [shape] at ascii found ⊢
  rw [splitBody_of_some ascii found, List.take_left, ← List.drop_drop, List.drop_left,
    List.drop_left' (by decide)]

theorem trimSpace_path (start : Pattern) (hops : List Hop) :
    trimSpace (0x20 :: (printPath start hops ++ [0x20])) = printPath start hops := by
  have graphic := isGraphic_printPath start hops
  refine Go.trimSpace_between [0x20] _ [0x20] ?_ (by decide +kernel) (by decide +kernel) ?_ ?_
  · exact IsAscii.append (IsAscii.append (by decide) graphic.ascii) (by decide)
  · intro byte member
    exact isWhite_of_graphic (graphic byte (List.mem_of_mem_head? member))
  · intro byte member
    exact isWhite_of_graphic (graphic byte (List.mem_of_getLast? member))

theorem getLast?_printEqualities (rest : List Equality) :
    (printEqualities (equality :: rest)).getLast? = some 0x22 := by
  induction rest generalizing equality with
  | nil => rw [printEqualities_singleton, List.append_nil, equality.getLast?_print]
  | cons next rest ih =>
      rw [printEqualities_cons, List.getLast?_append, List.getLast?_append, ih]
      rfl

theorem trimSpace_equalities (rest : List Equality) :
    trimSpace (0x20 :: (printEqualities (equality :: rest) ++ [0x20])) =
      printEqualities (equality :: rest) := by
  refine Go.trimSpace_between [0x20] (printEqualities (equality :: rest)) [0x20] ?_
    (by decide +kernel) (by decide +kernel) ?_ ?_
  · exact IsAscii.append (IsAscii.append (by decide) (isAscii_printEqualities _))
      (by decide)
  · obtain ⟨more, printed⟩ := exists_printEqualities equality rest
    rw [printed]
    exact isWhite_head_name equality.varName more
  · intro byte member
    rw [getLast?_printEqualities] at member
    rw [← Option.some.inj member]
    decide

theorem splitBody_print
    (absent : Go.contains (raiseCase (printPath query.start query.hops)) (bytes "WHERE") =
      false) :
    splitBody (query.printFront ++ [0x20]) =
      .ok (printPath query.start query.hops, printEqualities query.equalities) := by
  have ascii : IsAscii (query.printFront ++ [0x20]) :=
    query.isAscii_printFront.append (by decide)
  have keyword : bytes " WHERE " = 0x20 :: (bytes "WHERE" ++ [0x20]) := by decide
  cases equalities_eq : query.equalities with
  | nil =>
      have shape : query.printFront ++ [0x20] =
          0x20 :: (printPath query.start query.hops ++ [0x20]) := by
        simp [PathQuery.printFront, printWhere, equalities_eq]
      have nowhere : Go.contains (raiseCase (0x20 :: (printPath query.start query.hops ++ [0x20])))
          (bytes "WHERE") = false := by
        rw [contains_mark_cons unmarked_where (by decide), contains_mark unmarked_where (by decide),
          absent, contains_nil unmarked_where, Bool.or_false]
      rw [shape] at ascii ⊢
      rw [splitBody_of_none ascii nowhere, trimSpace_path]
      rfl
  | cons equality rest =>
      have shape : query.printFront ++ [0x20] =
          0x20 :: (printPath query.start query.hops ++ 0x20 :: (bytes "WHERE" ++ 0x20 ::
            (printEqualities (equality :: rest) ++ [0x20]))) := by
        simp [PathQuery.printFront, printWhere, equalities_eq, keyword]
      rw [shape] at ascii ⊢
      rw [splitBody_where ascii absent, trimSpace_path, trimSpace_equalities]

theorem printPath_ne_nil (start : Pattern) (hops : List Hop) : printPath start hops ≠ [] :=
  List.append_ne_nil_of_left_ne_nil (List.cons_ne_nil _ _) _

theorem exists_printColumns (column : Column) (rest : List Column) :
    ∃ more, printColumns (column :: rest) = column.varName.text ++ more := by
  cases rest with
  | nil =>
      rw [printColumns_singleton, Column.print]
      exact ⟨_, rfl⟩
  | cons next rest =>
      rw [printColumns_cons, Column.print, List.append_assoc]
      exact ⟨_, rfl⟩

theorem isWhite_getLast?_printColumns (columns : List Column) :
    ∀ byte ∈ (printColumns columns).getLast?, isWhite byte = false := by
  induction columns with
  | nil => exact fun byte member => by cases member
  | cons column rest ih =>
      cases rest with
      | nil =>
          intro byte member
          rw [printColumns_singleton] at member
          exact isWhite_of_graphic (column.isGraphic_print byte (List.mem_of_getLast? member))
      | cons next rest =>
          obtain ⟨more, printed⟩ := exists_printColumns next rest
          have proper : printColumns (next :: rest) ≠ [] := by
            rw [printed]
            exact List.append_ne_nil_of_left_ne_nil next.varName.text_ne_nil _
          intro byte member
          refine ih byte ?_
          rwa [printColumns_cons, List.getLast?_append_of_ne_nil _ (List.cons_ne_nil _ _),
            List.getLast?_cons_of_ne_nil (List.cons_ne_nil _ _),
            List.getLast?_cons_of_ne_nil proper] at member

theorem trimSpace_columns (column : Column) (rest : List Column) :
    trimSpace (0x20 :: printColumns (column :: rest)) = printColumns (column :: rest) := by
  have trimmed := Go.trimSpace_between [0x20] (printColumns (column :: rest)) []
    ((IsAscii.append (by decide) (isAscii_printColumns _)).append (List.forall_mem_nil _))
    (by decide +kernel) (List.forall_mem_nil _) (by
      obtain ⟨more, printed⟩ := exists_printColumns column rest
      rw [printed]
      exact isWhite_head_name column.varName more)
    (isWhite_getLast?_printColumns _)
  rwa [List.append_nil] at trimmed

/-- Text without a keyword in a name or a value is parsed to the query it was
printed from. -/
theorem PathQuery.Unmistaken.parseCypher_print (unmistaken : query.Unmistaken) :
    parseCypher query.print = .ok query.toCypher := by
  obtain ⟨column, rest, columns_eq⟩ := List.exists_cons_of_ne_nil query.returns
  have unreturned : lastIndex (bytes "RETURN") (raiseCase (printColumns query.columns)) =
      none := by
    rw [← Option.not_isSome_iff_eq_none, Go.isSome_lastIndex,
      contains_printColumns unmarked_return, someHas_iff]
    rintro ⟨name, member, has⟩
    obtain ⟨column, columnMember, nameMember⟩ := List.mem_flatMap.mp member
    exact unmistaken.columns column columnMember name nameMember has
  have unfiltered : Go.contains (raiseCase (printPath query.start query.hops)) (bytes "WHERE") =
      false := by
    rw [← Bool.not_eq_true, contains_printPath unmarked_where, someHas_iff]
    rintro ⟨name, member, has⟩
    exact unmistaken.path name member has
  have clauses : splitClauses query.print = .ok (printPath query.start query.hops,
      printEqualities query.equalities, printColumns query.columns) := by
    obtain ⟨more, printed⟩ := exists_printColumns column rest
    have proper : printColumns query.columns ≠ [] := by
      rw [columns_eq, printed]
      exact List.append_ne_nil_of_left_ne_nil column.varName.text_ne_nil _
    have trimmed : trimSpace (0x20 :: printColumns query.columns) =
        printColumns query.columns := by
      rw [columns_eq, trimSpace_columns]
    rw [PathQuery.splitClauses_of_none unreturned, clausesOf, splitBody_print unfiltered, ok_bind]
    dsimp only
    rw [trimmed, if_neg (not_or.mpr ⟨printPath_ne_nil _ _, proper⟩)]
    rfl
  have path : nodePattern "graph: expected a node pattern at "
      (trimSpace (printPath query.start query.hops)) =
      .ok (query.start.toNodePat, query.hops.flatMap Hop.print) := by
    rw [Go.trimSpace_of_graphic _ (isGraphic_printPath _ _), printPath, nodePattern_print,
      Go.trimSpace_of_graphic _ (isGraphic_hops _)]
  have variables_eq : query.toCypher.nodes.map NodePat.varName =
      pathVariables query.start query.hops := by
    simp [PathQuery.toCypher, pathVariables, Pattern.toNodePat]
  have bind : bindVariables query.toCypher.nodes =
      .ok (pathVariables query.start query.hops).reverse := by
    rw [bindVariables_eq_ok (variables_eq ▸ query.distinct), variables_eq]
  have predicates : parseWhere (pathVariables query.start query.hops).reverse
      (printEqualities query.equalities) = .ok (query.equalities.map Equality.toPredicate) := by
    by_cases none : query.equalities = []
    · rw [none]
      rfl
    · refine parseWhere_print none unmistaken.values fun equality member => ?_
      exact List.mem_reverse.mpr (query.comparesBound equality member)
  have columns : (Go.split 0x2C (printColumns query.columns)).mapM
      (parseColumn (pathVariables query.start query.hops).reverse) =
      .ok (query.columns.map Column.toRetCol) := by
    refine mapM_parseColumn query.returns fun column member => ?_
    exact List.mem_reverse.mpr (query.returnsBound column member)
  have hops : parsePath ⟨[query.start.toNodePat], [], [], []⟩ (query.hops.flatMap Hop.print) =
      .ok ⟨query.toCypher.nodes, query.toCypher.edges, [], []⟩ := by
    rw [parsePath_print]
    simp [PathQuery.toCypher]
  rw [parseCypher, clauses, ok_bind]
  dsimp only
  rw [path, ok_bind]
  dsimp only
  rw [hops, ok_bind]
  dsimp only
  rw [bind, ok_bind, predicates, ok_bind, columns, ok_bind,
    if_neg (mt List.map_eq_nil_iff.mp query.returns)]
  rfl

/-- A text ends with a byte that is neither white space nor one of some others. -/
structure EndsWithout (others : Bytes) (text : Bytes) : Prop where
  ascii : IsAscii text
  ends : ∃ last, text.getLast? = some last ∧ isWhite last = false ∧ last ∉ others

variable {others : Bytes}

theorem EndsWithout.behind {front : Bytes} (endsWithout : EndsWithout others (front ++ rest))
    (proper : rest ≠ []) :
    EndsWithout others rest := by
  obtain ⟨ascii, last, last_eq, graphic, other⟩ := endsWithout
  rw [List.getLast?_append_of_ne_nil _ proper] at last_eq
  exact ⟨fun byte member => ascii byte (List.mem_append_right front member),
    last, last_eq, graphic, other⟩

theorem EndsWithout.trimSpace (endsWithout : EndsWithout others text) :
    EndsWithout others (trimSpace text) := by
  obtain ⟨ascii, last, last_eq, graphic, other⟩ := endsWithout
  obtain ⟨front, rfl⟩ := List.getLast?_eq_some_iff.mp last_eq
  refine ⟨fun byte member => ascii byte ((Go.trimSpace_infix _).subset member), last, ?_,
    graphic, other⟩
  rw [Go.trimSpace_eq_append ascii graphic (List.forall_mem_nil _), List.getLast?_concat]

theorem EndsWithout.ne_nil (endsWithout : EndsWithout others text) :
    text ≠ [] := by
  rintro rfl
  obtain ⟨last, last_eq, -⟩ := endsWithout.ends
  cases last_eq

theorem endsWithout_trimSpace {front : Bytes} (ascii : IsAscii (front ++ rest))
    (graphic : ∃ byte ∈ rest, isWhite byte = false) (apart : ∀ byte ∈ rest, byte ∉ others) :
    EndsWithout others (trimSpace (front ++ rest)) := by
  obtain ⟨byte, member, byteGraphic⟩ := graphic
  have proper : rest.rdropWhile isWhite ≠ [] := by
    rw [Ne, List.rdropWhile_eq_nil_iff]
    intro white
    rw [white byte member] at byteGraphic
    cases byteGraphic
  obtain ⟨before, last, kept_eq⟩ := (List.eq_nil_or_concat _).resolve_left proper
  rw [List.concat_eq_append] at kept_eq
  have lastGraphic : isWhite last = false := by
    have stays := List.rdropWhile_last_not isWhite rest proper
    simpa [kept_eq] using stays
  have rest_eq : rest = before ++ last :: rest.rtakeWhile isWhite := by
    have parts : rest.rdropWhile isWhite ++ rest.rtakeWhile isWhite = rest :=
      List.rdropWhile_append_rtakeWhile
    rw [kept_eq, List.append_assoc, List.singleton_append] at parts
    exact parts.symm
  have inside : last ∈ rest := by
    rw [rest_eq]
    simp
  rw [rest_eq, ← List.append_assoc] at ascii ⊢
  refine ⟨fun byte member => ascii byte ((Go.trimSpace_infix _).subset member), last, ?_,
    lastGraphic, apart last inside⟩
  rw [Go.trimSpace_eq_append ascii lastGraphic fun byte member => List.mem_rtakeWhile_imp member,
    List.getLast?_concat]

theorem getLast?_of_spells_reNode {taken : Bytes} (spells : reNode.Spells taken) :
    taken.getLast? = some 0x29 := by
  have last : ∃ front back, taken = front ++ back ∧
      (Regex.sequence [.literal 0x29]).Spells back :=
    Regex.exists_of_spells_sequence [.literal 0x28, blanks, name 1, blanks,
      .either (.sequence [.literal 0x3A, blanks, name 2, blanks]) .empty] spells
  obtain ⟨front, -, rfl, bracket, -, closing, rfl, rfl⟩ := last
  rw [Regex.spells_literal_iff.mp closing, List.append_nil, List.getLast?_concat]

theorem exists_of_spells_rePred {taken : Bytes} (spells : rePred.Spells taken) :
    ∃ front value quote, taken = front ++ quote :: (value ++ [quote]) ∧
      (quote = 0x22 ∨ quote = 0x27) := by
  have last : ∃ front back, taken = front ++ back ∧
      (Regex.sequence [.either (quotedValue 0x22 3) (quotedValue 0x27 4), .ends]).Spells back :=
    Regex.exists_of_spells_sequence [name 1, .literal 0x2E, name 2, blanks, .literal 0x3D,
      blanks] spells
  have quoted {quote : UInt8} {number : Nat} {text : Bytes}
      (inside : (quotedValue quote number).Spells text) :
      ∃ value, text = quote :: (value ++ [quote]) := by
    obtain ⟨left, later, opening, ⟨value, right, -, ⟨last, none, closing, rfl, rfl⟩, rfl⟩, rfl⟩ :=
      inside
    rw [Regex.spells_literal_iff.mp opening, Regex.spells_literal_iff.mp closing]
    exact ⟨value, by simp⟩
  obtain ⟨front, -, rfl, text, -, either, ⟨-, -, rfl, rfl, rfl⟩, rfl⟩ := last
  rcases either with double | single
  · obtain ⟨value, rfl⟩ := quoted double
    exact ⟨front, value, 0x22, by simp, Or.inl rfl⟩
  · obtain ⟨value, rfl⟩ := quoted single
    exact ⟨front, value, 0x27, by simp, Or.inr rfl⟩

theorem endsWithout_nodePattern {expected : String} {s after : Bytes} {node : NodePat}
    (endsWithout : EndsWithout [0x29] s) (read : nodePattern expected s = .ok (node, after)) :
    EndsWithout [0x29] after := by
  unfold nodePattern at read
  split at read
  · cases read
  · rename_i m found
    obtain ⟨rest, sliced, result⟩ := bind_eq_ok.mp read
    cases Except.ok.inj result
    obtain ⟨-, rfl⟩ := slice_eq_ok.mp sliced
    have bracket := getLast?_of_spells_reNode (Regex.spells_of_find found)
    have parts := append_of_find found
    have rest_eq : (s.take s.length).drop m.taken.length = m.rest := by
      rw [List.take_length, ← parts, List.drop_left]
    rw [rest_eq]
    rw [← parts] at endsWithout
    refine (endsWithout.behind ?_).trimSpace
    intro empty
    rw [empty, List.append_nil] at endsWithout
    obtain ⟨last, last_eq, -, other⟩ := endsWithout.ends
    rw [bracket] at last_eq
    exact other (List.mem_singleton.mpr (Option.some.inj last_eq).symm)

variable {cq : CypherQuery}

theorem endsWithout_pathStep {next : CypherQuery} {s after : Bytes}
    (endsWithout : EndsWithout [0x29] s) (step : pathStep cq s = .ok (next, after)) :
    EndsWithout [0x29] after := by
  unfold pathStep at step
  split at step
  · cases step
  · rename_i em found
    obtain ⟨rest, sliced, later⟩ := bind_eq_ok.mp step
    obtain ⟨⟨node, left⟩, read, result⟩ := bind_eq_ok.mp later
    cases Except.ok.inj result
    obtain ⟨-, rfl⟩ := slice_eq_ok.mp sliced
    have parts := append_of_find found
    have rest_eq : (s.take s.length).drop em.taken.length = em.rest := by
      rw [List.take_length, ← parts, List.drop_left]
    rw [rest_eq] at read
    rw [← parts] at endsWithout
    by_cases empty : em.rest = []
    · rw [empty] at read
      cases read
    · exact endsWithout_nodePattern (endsWithout.behind empty).trimSpace read

theorem parsePath_ne_ok {path : CypherQuery} {s : Bytes} (endsWithout : EndsWithout [0x29] s) :
    parsePath cq s ≠ .ok path := by
  fun_induction parsePath cq s with
  | case1 cq => exact absurd rfl endsWithout.ne_nil
  | case2 cq s proper failure step =>
      intro parsed
      cases parsed
  | case3 cq s proper next after step shorter ih =>
      exact ih (endsWithout_pathStep endsWithout step)

theorem exists_of_parsePredicate {part : Bytes} {predicate : Predicate}
    (parsed : parsePredicate bound part = .ok predicate) :
    ∃ front value quote, trimSpace part = front ++ quote :: (value ++ [quote]) ∧
      (quote = 0x22 ∨ quote = 0x27) := by
  unfold parsePredicate at parsed
  split at parsed
  · cases parsed
  · rename_i pm found
    have left : pm.rest = [] :=
      Regex.rest_of_mem_ways_sequence [name 1, .literal 0x2E, name 2, blanks, .literal 0x3D,
        blanks, .either (quotedValue 0x22 3) (quotedValue 0x27 4)] (List.mem_of_mem_head? found)
    have parts := append_of_find found
    rw [left, List.append_nil] at parts
    obtain ⟨front, value, quote, taken_eq, which⟩ :=
      exists_of_spells_rePred (Regex.spells_of_find found)
    exact ⟨front, value, quote, parts.symm.trans taken_eq, which⟩

variable {predicates : List Predicate}

variable {whereSeg : Bytes}

theorem exists_of_parseWhere (proper : whereSeg ≠ [])
    (parsed : parseWhere bound whereSeg = .ok predicates) :
    ∀ part ∈ splitAnd whereSeg, ∃ predicate, parsePredicate bound part = .ok predicate := by
  intro part member
  rw [parseWhere, if_neg proper] at parsed
  obtain ⟨predicate, -, parsed⟩ := Result.exists_of_mapM_eq_ok parsed part member
  exact ⟨predicate, parsed⟩

theorem parseWhere_ne_ok_of_end (endsWithout : EndsWithout [0x22, 0x27] whereSeg) :
    parseWhere bound whereSeg ≠ .ok predicates := by
  intro parsed
  have nonempty : splitAnd whereSeg ≠ [] := Regex.splitFrom_ne_nil _ _ _ _
  have lastMember := List.getLast?_eq_getLast_of_ne_nil nonempty
  obtain ⟨front, whole⟩ := Regex.suffix_of_mem_getLast_split lastMember
  obtain ⟨predicate, read⟩ := exists_of_parseWhere endsWithout.ne_nil parsed _
    (List.getLast_mem nonempty)
  obtain ⟨before, value, quote, trimmed, which⟩ := exists_of_parsePredicate read
  rw [← whole] at endsWithout
  have part : EndsWithout [0x22, 0x27] ((splitAnd whereSeg).getLast nonempty) := by
    refine endsWithout.behind fun empty => ?_
    rw [empty] at trimmed
    have none := congrArg List.length trimmed
    simp [trimSpace, Go.segments, Go.segmentsFrom] at none
  obtain ⟨last, last_eq, -, other⟩ := part.trimSpace.ends
  rw [trimmed, List.getLast?_append_of_ne_nil _ (List.cons_ne_nil _ _),
    List.getLast?_cons_of_ne_nil (by simp), List.getLast?_concat] at last_eq
  rw [← Option.some.inj last_eq] at other
  exact other (by simpa using which)

theorem exists_part_of_parted {equality : Equality}
    (parted : splitAnd equality.value.text ≠ [equality.value.text]) (rest : Bytes) :
    ∃ piece, (∀ byte ∈ piece, byte ∈ equality.value.text) ∧
      equality.front ++ 0x22 :: piece ∈ splitAnd (equality.print ++ rest) := by
  obtain ⟨first, second, later, split_eq⟩ :
      ∃ first second later, splitAnd equality.value.text = first :: second :: later :=
    Regex.exists_of_split_ne_singleton parted
  have piece : first ∈ splitAnd equality.value.text := by
    rw [split_eq]
    exact List.mem_cons_self
  refine ⟨first, fun byte member => Regex.mem_of_mem_split piece member, ?_⟩
  rw [splitAnd_print_append, split_eq]
  exact List.mem_cons_self

theorem Equality.unquoted_front :
    0x22 ∉ equality.front ∧ 0x27 ∉ equality.front := by
  have apart (quote : UInt8) (word : isWord quote = false) (dot : quote ≠ 0x2E)
      (blank : quote ∉ bytes " = ") : quote ∉ equality.front := by
    intro member
    rcases List.mem_append.mp member with inName | later
    · rw [equality.varName.isWord_of_mem inName] at word
      cases word
    · rcases List.mem_cons.mp later with isDot | later
      · exact dot isDot
      · rcases List.mem_append.mp later with inField | equals
        · rw [equality.field.isWord_of_mem inField] at word
          cases word
        · exact blank equals
  exact ⟨apart 0x22 (by decide) (by decide) (by decide),
    apart 0x27 (by decide) (by decide) (by decide)⟩

theorem parsePredicate_ne_ok {equality : Equality} {piece : Bytes} {predicate : Predicate}
    (inside : ∀ byte ∈ piece, byte ∈ equality.value.text) :
    parsePredicate bound (equality.front ++ 0x22 :: piece) ≠ .ok predicate := by
  intro parsed
  obtain ⟨before, value, quote, trimmed, which⟩ := exists_of_parsePredicate parsed
  have fewer := (Go.trimSpace_infix (equality.front ++ 0x22 :: piece)).sublist.count_le quote
  have twice : 2 ≤ (trimSpace (equality.front ++ 0x22 :: piece)).count quote := by
    rw [trimmed, List.count_append, List.count_cons_self, List.count_append,
      List.count_singleton_self]
    omega
  have inFront : equality.front.count quote = 0 := by
    rw [List.count_eq_zero]
    rcases which with rfl | rfl
    · exact equality.unquoted_front.1
    · exact equality.unquoted_front.2
  have inPiece : piece.count quote = 0 := by
    rw [List.count_eq_zero]
    intro member
    rcases which with rfl | rfl
    · exact equality.value.unquoted.1 (inside _ member)
    · exact equality.value.unquoted.2 (inside _ member)
  have once : (equality.front ++ 0x22 :: piece).count quote ≤ 1 := by
    rw [List.count_append, List.count_cons, inFront, inPiece]
    split
    · omega
    · omega
  omega

/-- No equalities are read when a value is in parts. -/
theorem parseWhere_ne_ok_of_parted {equality : Equality} (member : equality ∈ equalities)
    (parted : splitAnd equality.value.text ≠ [equality.value.text]) :
    parseWhere bound (printEqualities equalities) ≠ .ok predicates := by
  have broken : ∃ part ∈ splitAnd (printEqualities equalities), ∀ predicate,
      parsePredicate bound part ≠ .ok predicate := by
    induction equalities with
    | nil => cases member
    | cons first rest ih =>
        have opened (parted : splitAnd first.value.text ≠ [first.value.text]) (more : Bytes) :
            ∃ part ∈ splitAnd (first.print ++ more), ∀ predicate,
              parsePredicate bound part ≠ .ok predicate := by
          obtain ⟨piece, inside, part⟩ := exists_part_of_parted parted more
          exact ⟨_, part, fun predicate => parsePredicate_ne_ok inside⟩
        cases rest with
        | nil =>
            rw [List.mem_singleton] at member
            rw [printEqualities_singleton]
            exact opened (member ▸ parted) []
        | cons next rest =>
            rw [printEqualities_cons]
            by_cases whole : splitAnd first.value.text = [first.value.text]
            · have later : equality ∈ next :: rest := by
                refine (List.mem_cons.mp member).resolve_left ?_
                rintro rfl
                exact parted whole
              have behind := splitAnd_separator (isBlank_head_printEqualities next rest)
              rw [splitAnd_print_of_whole whole behind]
              obtain ⟨part, partMember, unread⟩ := ih later
              exact ⟨part, List.mem_cons_of_mem _ partMember, unread⟩
            · exact opened whole _
  intro parsed
  have proper : printEqualities equalities ≠ [] := by
    obtain ⟨first, rest, rfl⟩ := List.exists_cons_of_ne_nil (List.ne_nil_of_mem member)
    obtain ⟨more, printed⟩ := exists_printEqualities first rest
    rw [printed]
    exact List.append_ne_nil_of_left_ne_nil first.varName.text_ne_nil _
  obtain ⟨part, partMember, unread⟩ := broken
  obtain ⟨predicate, read⟩ := exists_of_parseWhere proper parsed part partMember
  exact unread predicate read

theorem exists_of_parseCypher {q : Bytes} (parsed : parseCypher q = .ok cq) :
    ∃ matchSeg whereSeg retSeg bound predicates,
      splitClauses q = .ok (matchSeg, whereSeg, retSeg) ∧
      ¬EndsWithout [0x29] matchSeg ∧
      parseWhere bound whereSeg = .ok predicates := by
  obtain ⟨⟨matchSeg, whereSeg, retSeg⟩, clauses, parsed⟩ := bind_eq_ok.mp parsed
  obtain ⟨⟨node, rest⟩, first, parsed⟩ := bind_eq_ok.mp parsed
  obtain ⟨path, path_eq, parsed⟩ := bind_eq_ok.mp parsed
  obtain ⟨bound, -, parsed⟩ := bind_eq_ok.mp parsed
  obtain ⟨predicates, read, -⟩ := bind_eq_ok.mp parsed
  refine ⟨matchSeg, whereSeg, retSeg, bound, predicates, clauses, fun endsWithout => ?_, read⟩
  exact parsePath_ne_ok (endsWithout_nodePattern endsWithout.trimSpace first) path_eq

theorem splitBody_of_clausesOf {ret matchSeg retSeg : Bytes}
    (clauses : clausesOf body ret = .ok (matchSeg, whereSeg, retSeg)) :
    splitBody body = .ok (matchSeg, whereSeg) := by
  obtain ⟨⟨pattern, predicates⟩, split, clauses⟩ := bind_eq_ok.mp clauses
  dsimp only at clauses
  split at clauses
  · cases clauses
  · cases Except.ok.inj clauses
    exact split

theorem exists_printWhere_append (equalities : List Equality) (more : Bytes) :
    ∃ rest, printWhere equalities ++ 0x20 :: more = 0x20 :: rest := by
  have keyword : bytes " WHERE " = 0x20 :: (bytes "WHERE" ++ [0x20]) := by decide
  unfold printWhere
  split
  · exact ⟨more, rfl⟩
  · rw [keyword]
    exact ⟨_, rfl⟩

theorem PathQuery.exists_body (query : PathQuery) :
    ∃ rest ret, IsAscii (0x20 :: (printPath query.start query.hops ++ 0x20 :: rest)) ∧
      splitClauses query.print =
        clausesOf (0x20 :: (printPath query.start query.hops ++ 0x20 :: rest)) ret := by
  have shape (more : Bytes) : ∃ rest, query.printFront ++ 0x20 :: more =
      0x20 :: (printPath query.start query.hops ++ 0x20 :: rest) := by
    obtain ⟨rest, rest_eq⟩ := exists_printWhere_append query.equalities more
    refine ⟨rest, ?_⟩
    rw [PathQuery.printFront, List.cons_append, List.append_assoc, rest_eq]
  cases found : lastIndex (bytes "RETURN") (raiseCase (printColumns query.columns)) with
  | none =>
      obtain ⟨rest, body_eq⟩ := shape []
      refine ⟨rest, 0x20 :: printColumns query.columns, ?_, ?_⟩
      · rw [← body_eq]
        exact query.isAscii_printFront.append (by decide)
      · rw [PathQuery.splitClauses_of_none found, body_eq]
  | some place =>
      obtain ⟨ret, clauses⟩ := PathQuery.splitClauses_of_some found
      obtain ⟨rest, body_eq⟩ := shape (bytes "RETURN " ++ (printColumns query.columns).take place)
      have same : query.printFront ++ bytes " RETURN " ++
          (printColumns query.columns).take place =
          query.printFront ++ 0x20 :: (bytes "RETURN " ++
            (printColumns query.columns).take place) := by
        rw [List.append_assoc]
        rfl
      rw [same, body_eq] at clauses
      refine ⟨rest, ret, ?_, clauses⟩
      rw [← body_eq, ← same]
      refine (query.isAscii_printFront.append (by decide)).append fun byte member => ?_
      exact isAscii_printColumns _ byte (List.mem_of_mem_take member)

/-- A bracket is followed by an edge or by nothing. -/
def BracketsClose (text : Bytes) : Prop :=
  text.IsChain fun byte next => byte = 0x29 → next = 0x2D

theorem BracketsClose.append_left {front : Bytes} (closes : BracketsClose rest)
    (absent : 0x29 ∉ front) :
    BracketsClose (front ++ rest) := by
  induction front with
  | nil => exact closes
  | cons first front ih =>
      obtain ⟨other, others⟩ := not_or.mp (mt List.mem_cons.mpr absent)
      refine List.isChain_cons.mpr ⟨fun next _ same => absurd same.symm other, ?_⟩
      exact ih others

theorem Identifier.notMem (name : Identifier) (other : isWord byte = false) :
    byte ∉ name.text := by
  intro member
  rw [name.isWord_of_mem member] at other
  cases other

theorem bracketsClose_pattern (pattern : Pattern) (closes : BracketsClose rest)
    (starts : ∀ byte ∈ rest.head?, byte = 0x2D) :
    BracketsClose (pattern.print ++ rest) := by
  have shape : pattern.print ++ rest =
      0x28 :: (pattern.varName.text ++ optional 0x3A pattern.label) ++ 0x29 :: rest := by
    simp [Pattern.print]
  have bracket : BracketsClose (0x29 :: rest) :=
    List.isChain_cons.mpr ⟨fun next member _ => starts next member, closes⟩
  rw [shape]
  refine bracket.append_left fun member => ?_
  rcases List.mem_cons.mp member with same | member
  · exact absurd same (by decide)
  · rcases List.mem_append.mp member with inName | inLabel
    · exact pattern.varName.notMem (by decide) inName
    · cases label_eq : pattern.label with
      | none =>
          rw [label_eq] at inLabel
          cases inLabel
      | some label =>
          rw [label_eq] at inLabel
          rcases List.mem_cons.mp inLabel with same | inLabel
          · exact absurd same (by decide)
          · exact label.notMem (by decide) inLabel

theorem bracketsClose_hops (hops : List Hop) :
    BracketsClose (hops.flatMap Hop.print) ∧
      ∀ byte ∈ (hops.flatMap Hop.print).head?, byte = 0x2D := by
  induction hops with
  | nil => exact ⟨List.IsChain.nil, fun byte member => by cases member⟩
  | cons hop hops ih =>
      have shape : (hop :: hops).flatMap Hop.print =
          bytes "-[:" ++ hop.type.text ++ bytes "]->" ++
            (hop.target.print ++ hops.flatMap Hop.print) := by
        simp [Hop.print]
      rw [shape]
      refine ⟨(bracketsClose_pattern hop.target ih.1
        ih.2).append_left fun member => ?_, fun byte member => ?_⟩
      · rcases List.mem_append.mp member with member | closing
        · rcases List.mem_append.mp member with opening | inType
          · exact absurd opening (by decide)
          · exact hop.type.notMem (by decide) inType
        · exact absurd closing (by decide)
      · have opening : bytes "-[:" = [0x2D, 0x5B, 0x3A] := by decide
        rw [opening] at member
        exact (Option.some.inj member).symm

theorem bracketsClose_printPath (start : Pattern) (hops : List Hop) :
    BracketsClose (printPath start hops) :=
  bracketsClose_pattern start (bracketsClose_hops hops).1 (bracketsClose_hops hops).2

/-- No WHERE stands behind a bracket of the path, and none starts the path. -/
theorem endsWithout_take {start : Pattern} {hops : List Hop}
    (found : index (bytes "WHERE") (raiseCase (printPath start hops)) = some place) :
    EndsWithout [0x29] ((printPath start hops).take place) := by
  have letter : bytes "WHERE" = 0x57 :: bytes "HERE" := by decide
  have stands := Go.prefix_drop_of_index found
  rw [raiseCase, ← List.map_drop] at stands
  have graphic := isGraphic_printPath start hops
  have closes := bracketsClose_printPath start hops
  rw [← List.take_append_drop place (printPath start hops)] at closes
  cases behind : (printPath start hops).drop place with
  | nil =>
      rw [behind] at stands
      exact absurd (List.prefix_nil.mp stands) (by decide)
  | cons next rest =>
      rw [behind, List.map_cons, letter] at stands
      have raised : 0x57 = Go.upperByte next := (List.cons_prefix_cons.mp stands).1
      have proper : (printPath start hops).take place ≠ [] := by
        intro empty
        have whole := List.take_append_drop place (printPath start hops)
        rw [empty, behind, List.nil_append] at whole
        have first : next = 0x28 := (List.cons.inj whole).1
        rw [first] at raised
        exact absurd raised (by decide)
      have last_eq := List.getLast?_eq_getLast_of_ne_nil proper
      refine ⟨fun byte member => graphic.ascii byte (List.mem_of_mem_take member), _, last_eq,
        isWhite_of_graphic (graphic _ (List.mem_of_mem_take (List.getLast_mem proper))), ?_⟩
      intro bracket
      rw [behind] at closes
      have follows := (List.isChain_append.mp closes).2.2 _ last_eq next rfl
        (List.mem_singleton.mp bracket)
      rw [follows] at raised
      exact absurd raised (by decide)

/-- A query with WHERE in a name of its path is not parsed. -/
theorem parseCypher_ne_ok_of_where
    (found : index (bytes "WHERE") (raiseCase (printPath query.start query.hops)) =
      some place) :
    parseCypher query.print ≠ .ok cq := by
  intro parsed
  obtain ⟨matchSeg, whereSeg, retSeg, bound, predicates, clauses, ended, -⟩ :=
    exists_of_parseCypher parsed
  obtain ⟨rest, ret, ascii, body⟩ := query.exists_body
  have split := splitBody_of_clausesOf (body.symm.trans clauses)
  have wi : index (bytes "WHERE")
      (raiseCase (0x20 :: (printPath query.start query.hops ++ 0x20 :: rest))) =
      some (1 + place) := by
    rw [← List.cons_append, index_mark unmarked_where (by decide),
      ← List.nil_append (0x20 :: printPath query.start query.hops),
      index_mark unmarked_where (by decide), found]
    have nowhere : index (bytes "WHERE") (raiseCase []) = none := by decide
    rw [nowhere]
    rfl
  rw [splitBody_of_some ascii wi] at split
  obtain ⟨match_eq, -⟩ := Prod.mk.inj (Except.ok.inj split)
  have long := (Go.prefix_drop_of_index found).length_le
  have within : place ≤ (printPath query.start query.hops).length := by
    have five : (bytes "WHERE").length = 5 := by decide
    rw [List.length_drop, Go.length_raiseCase, five] at long
    omega
  refine ended (match_eq ▸ ?_)
  rw [Nat.add_comm, List.take_succ_cons, List.take_append_of_le_length within]
  have taken := endsWithout_take found
  obtain ⟨last, last_eq, others⟩ := taken.ends
  have spaced : EndsWithout [0x29]
      (0x20 :: (printPath query.start query.hops).take place) := by
    refine ⟨List.forall_mem_cons.mpr ⟨by decide, taken.ascii⟩, last, ?_, others⟩
    rw [List.getLast?_cons_of_ne_nil taken.ne_nil, last_eq]
  exact spaced.trimSpace

theorem isWord_of_mem_printColumns (member : byte ∈ printColumns columns) :
    isWord byte = true ∨ byte ∈ bytes "., " := by
  induction columns with
  | nil => cases member
  | cons column rest ih =>
      have here (inside : byte ∈ column.print) : isWord byte = true ∨ byte ∈ bytes "., " := by
        refine column.isWord_or_dot inside |>.imp_right ?_
        rintro rfl
        decide
      cases rest with
      | nil =>
          rw [printColumns_singleton] at member
          exact here member
      | cons next rest =>
          rw [printColumns_cons] at member
          rcases List.mem_append.mp member with inside | behind
          · exact here inside
          · rcases List.mem_cons.mp behind with rfl | behind
            · exact Or.inr (by decide)
            · rcases List.mem_cons.mp behind with rfl | behind
              · exact Or.inr (by decide)
              · exact ih behind

/-- What is left of the columns in front of a RETURN in them has no bracket and
no quote. -/
theorem endsWithout_return {front cut : Bytes} (ascii : IsAscii front)
    (start : cut <+: printColumns columns)
    (apart : ∀ byte ∈ others, isWord byte = false ∧ byte ∉ bytes "., ") :
    EndsWithout others (trimSpace (front ++ (bytes " RETURN " ++ cut))) := by
  have cutAscii : IsAscii cut := fun byte member =>
    isAscii_printColumns columns byte (start.subset member)
  refine endsWithout_trimSpace (ascii.append (IsAscii.append (by decide) cutAscii))
    ⟨0x4E, List.mem_append_left _ (by decide), by decide⟩ ?_
  intro byte member other
  obtain ⟨unnamed, unseparated⟩ := apart byte other
  rcases List.mem_append.mp member with keyword | inside
  · have letters : ∀ byte ∈ bytes " RETURN ", isWord byte = true ∨ byte ∈ bytes "., " := by
      decide +kernel
    rcases letters byte keyword with word | separator
    · rw [word] at unnamed
      cases unnamed
    · exact unseparated separator
  · rcases isWord_of_mem_printColumns (start.subset inside) with word | separator
    · rw [word] at unnamed
      cases unnamed
    · exact unseparated separator

/-- Without equalities, what is taken for the path goes beyond RETURN. -/
theorem exists_splitBody_of_return {path cut : Bytes}
    (ascii : IsAscii (0x20 :: path ++ (bytes " RETURN " ++ cut)))
    (absent : Go.contains (raiseCase path) (bytes "WHERE") = false) :
    ∃ part whereSeg, part <+: cut ∧ splitBody (0x20 :: path ++ (bytes " RETURN " ++ cut)) =
      .ok (trimSpace (0x20 :: path ++ (bytes " RETURN " ++ part)), whereSeg) := by
  have shape : 0x20 :: path ++ (bytes " RETURN " ++ cut) =
      0x20 :: path ++ 0x20 :: (bytes "RETURN" ++ 0x20 :: cut) := by
    have keyword : bytes " RETURN " = 0x20 :: (bytes "RETURN" ++ [0x20]) := by decide
    simp [keyword]
  have nowhere : index (bytes "WHERE") (raiseCase (0x20 :: path)) = none := by
    rwa [← Option.not_isSome_iff_eq_none, isSome_index,
      contains_mark_cons unmarked_where (by decide), Bool.not_eq_true]
  have unkeyed : index (bytes "WHERE") (raiseCase (bytes "RETURN")) = none := by decide
  have place : index (bytes "WHERE")
      (raiseCase (0x20 :: path ++ (bytes " RETURN " ++ cut))) =
      (index (bytes "WHERE") (raiseCase cut)).map
        ((0x20 :: path ++ bytes " RETURN ").length + ·) := by
    rw [shape, index_mark unmarked_where (by decide), nowhere,
      index_mark unmarked_where (by decide), unkeyed, Option.none_or, Option.none_or,
      Option.map_map]
    have eight : (bytes " RETURN ").length = 8 := by decide
    have six : (bytes "RETURN").length = 6 := by decide
    congr 1
    funext later
    simp only [Function.comp_apply, List.length_append, List.length_cons, six, eight]
    omega
  cases inside : index (bytes "WHERE") (raiseCase cut) with
  | none =>
      rw [inside, Option.map_none, ← Option.not_isSome_iff_eq_none, isSome_index,
        Bool.not_eq_true] at place
      exact ⟨cut, [], List.prefix_rfl, splitBody_of_none ascii place⟩
  | some later =>
      rw [inside, Option.map_some] at place
      have taken : (0x20 :: path ++ (bytes " RETURN " ++ cut)).take
          ((0x20 :: path ++ bytes " RETURN ").length + later) =
          0x20 :: path ++ (bytes " RETURN " ++ cut.take later) := by
        rw [← List.append_assoc, List.take_length_add_append, List.append_assoc]
      have split := splitBody_of_some ascii place
      rw [taken] at split
      exact ⟨cut.take later, _, List.take_prefix _ _, split⟩

/-- A query with RETURN in a name of its columns is not parsed. -/
theorem parseCypher_ne_ok_of_return
    (found : lastIndex (bytes "RETURN") (raiseCase (printColumns query.columns)) =
      some place)
    (absent : Go.contains (raiseCase (printPath query.start query.hops)) (bytes "WHERE") =
      false) :
    parseCypher query.print ≠ .ok cq := by
  intro parsed
  obtain ⟨matchSeg, whereSeg, retSeg, bound, predicates, clauses, ended, read⟩ :=
    exists_of_parseCypher parsed
  obtain ⟨ret, body⟩ := PathQuery.splitClauses_of_some found
  have split := splitBody_of_clausesOf (body.symm.trans clauses)
  have start := List.take_prefix place (printColumns query.columns)
  have spaced : IsAscii (0x20 :: printPath query.start query.hops) :=
    List.forall_mem_cons.mpr ⟨by decide, (isGraphic_printPath _ _).ascii⟩
  have ascii : IsAscii (query.printFront ++ bytes " RETURN " ++
      (printColumns query.columns).take place) :=
    (query.isAscii_printFront.append (by decide)).append fun byte member =>
      isAscii_printColumns _ byte (start.subset member)
  cases equalities_eq : query.equalities with
  | nil =>
      have shape : query.printFront ++ bytes " RETURN " ++
          (printColumns query.columns).take place =
          0x20 :: printPath query.start query.hops ++ (bytes " RETURN " ++
            (printColumns query.columns).take place) := by
        simp [PathQuery.printFront, printWhere, equalities_eq]
      rw [shape] at split ascii
      obtain ⟨part, others, partStart, split_eq⟩ := exists_splitBody_of_return ascii absent
      rw [split_eq] at split
      obtain ⟨match_eq, -⟩ := Prod.mk.inj (Except.ok.inj split)
      refine ended (match_eq ▸ ?_)
      exact endsWithout_return spaced (partStart.trans start) (by decide +kernel)
  | cons equality rest =>
      have keyword : bytes " WHERE " = 0x20 :: (bytes "WHERE" ++ [0x20]) := by decide
      have shape : query.printFront ++ bytes " RETURN " ++
          (printColumns query.columns).take place =
          0x20 :: (printPath query.start query.hops ++ 0x20 :: (bytes "WHERE" ++ 0x20 ::
            (printEqualities query.equalities ++ (bytes " RETURN " ++
              (printColumns query.columns).take place)))) := by
        have some : query.equalities.isEmpty = false := by rw [equalities_eq]; rfl
        simp [PathQuery.printFront, printWhere, some, keyword]
      rw [shape] at split ascii
      rw [splitBody_where ascii absent] at split
      obtain ⟨-, where_eq⟩ := Prod.mk.inj (Except.ok.inj split)
      refine parseWhere_ne_ok_of_end ?_ (where_eq ▸ read)
      rw [← List.cons_append]
      refine endsWithout_return ?_ start (by decide +kernel)
      exact List.forall_mem_cons.mpr ⟨by decide, isAscii_printEqualities _⟩

/-- The text of a query is parsed to the query exactly when no keyword is found
in a name or a value. -/
theorem PathQuery.unmistaken_iff (query : PathQuery) :
    query.Unmistaken ↔ ∃ cq, parseCypher query.print = .ok cq := by
  refine ⟨fun unmistaken => ⟨_, unmistaken.parseCypher_print⟩, ?_⟩
  rintro ⟨cq, parsed⟩
  have path : Go.contains (raiseCase (printPath query.start query.hops)) (bytes "WHERE") =
      false := by
    rw [← isSome_index, ← Bool.not_eq_true, Option.isSome_iff_exists]
    rintro ⟨place, found⟩
    exact parseCypher_ne_ok_of_where found parsed
  have columns : lastIndex (bytes "RETURN") (raiseCase (printColumns query.columns)) =
      none := by
    rw [Option.eq_none_iff_forall_ne_some]
    intro place found
    exact parseCypher_ne_ok_of_return found path parsed
  refine ⟨?_, ?_, ?_⟩
  · intro column columnMember name nameMember has
    rw [← Option.not_isSome_iff_eq_none, Go.isSome_lastIndex,
      contains_printColumns unmarked_return, someHas_iff] at columns
    exact columns ⟨name, List.mem_flatMap.mpr ⟨column, columnMember, nameMember⟩, has⟩
  · intro name member has
    rw [← Bool.not_eq_true, contains_printPath unmarked_where, someHas_iff] at path
    exact path ⟨name, member, has⟩
  · intro equality member
    by_contra parted
    obtain ⟨matchSeg, whereSeg, retSeg, bound, predicates, clauses, -, read⟩ :=
      exists_of_parseCypher parsed
    rw [PathQuery.splitClauses_of_none columns] at clauses
    have split := splitBody_of_clausesOf clauses
    rw [splitBody_print path] at split
    obtain ⟨-, where_eq⟩ := Prod.mk.inj (Except.ok.inj split)
    exact parseWhere_ne_ok_of_parted member parted (where_eq ▸ read)

end Cypher
end Graph
end Trstctl
