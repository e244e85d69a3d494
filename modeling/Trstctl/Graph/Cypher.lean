import Trstctl.Go.Upper
import Trstctl.Graph.Model
import Trstctl.Library.Regex
import Trstctl.Library.Result

/-!
# Queries over the credential graph

The Cypher-style queries of the graph: a single linear MATCH path, an optional
WHERE of AND-joined equalities and a RETURN of variables or variable fields.
A slice or an index out of range is a panic, kept apart from an error.
-/

namespace Trstctl

open Go (Bytes bytes Map trimSpace)

namespace Graph
namespace Cypher

/-- The text of an error.  What the verb `%q` quotes stands between its two
parts as it is. -/
structure QueryError where
  before : String
  quoted : Option Bytes
  after : String
  deriving DecidableEq

/-- How a query ends without rows. -/
inductive Failure where
  | panic
  | error (error : QueryError)
  deriving DecidableEq

/-- An error without a quoted text. -/
def plainError (text : String) : Failure :=
  .error ⟨text, none, ""⟩

def quotedError (text : String) (quoted : Bytes) : Failure :=
  .error ⟨text, some quoted, ""⟩

/-- The slice `text[low:high]`. -/
def slice (text : Bytes) (low high : Nat) : Except Failure Bytes :=
  if low ≤ high ∧ high ≤ text.length then .ok ((text.take high).drop low) else .error .panic

/-- The element `items[place]`. -/
def element {Item : Type} (items : List Item) (place : Nat) : Except Failure Item :=
  match items[place]? with
  | some item => .ok item
  | none => .error .panic

structure NodePat where
  varName : Bytes
  kind : NodeKind

structure Predicate where
  varName : Bytes
  field : Bytes
  value : Bytes

structure RetCol where
  expr : Bytes
  varName : Bytes
  field : Bytes

structure CypherQuery where
  nodes : List NodePat
  edges : List EdgeType
  predicates : List Predicate
  ret : List RetCol

/-! ## Patterns

Every class of the patterns is one of ASCII characters or the complement of a
quote, so matching bytes is matching runes. -/

/-- `[A-Za-z_]`. -/
def isLetter (byte : UInt8) : Bool :=
  (0x41 ≤ byte && byte ≤ 0x5A) || (0x61 ≤ byte && byte ≤ 0x7A) || byte == 0x5F

/-- `\w`. -/
def isWord (byte : UInt8) : Bool :=
  isLetter byte || (0x30 ≤ byte && byte ≤ 0x39)

/-- `\s`. -/
def isBlank (byte : UInt8) : Bool :=
  byte == 0x09 || byte == 0x0A || byte == 0x0C || byte == 0x0D || byte == 0x20

/-- `\s*`. -/
def blanks : Regex UInt8 :=
  .many isBlank

/-- `([A-Za-z_]\w*)`. -/
def name (number : Nat) : Regex UInt8 :=
  .group number (.seq (.symbol isLetter) (.many isWord))

def reNode : Regex UInt8 :=
  .sequence [.literal 0x28, blanks, name 1, blanks,
    .either (.sequence [.literal 0x3A, blanks, name 2, blanks]) .empty, .literal 0x29]

def reEdge : Regex UInt8 :=
  .sequence [.literal 0x2D, blanks, .literal 0x5B, blanks, .literal 0x3A, blanks, name 1, blanks,
    .literal 0x5D, blanks, .literal 0x2D, .literal 0x3E]

/-- A group between two quotes. -/
def quotedValue (quote : UInt8) (number : Nat) : Regex UInt8 :=
  .sequence [.literal quote, .group number (.many (· != quote)), .literal quote]

def rePred : Regex UInt8 :=
  .sequence [name 1, .literal 0x2E, name 2, blanks, .literal 0x3D, blanks,
    .either (quotedValue 0x22 3) (quotedValue 0x27 4), .ends]

def reRetCol : Regex UInt8 :=
  .sequence [name 1, .either (.sequence [.literal 0x2E, name 2]) .empty, .ends]

/-- An ASCII letter in either case. -/
def letterOf (upper : UInt8) : Regex UInt8 :=
  .symbol (Go.upperByte · == upper)

/-- The pattern of `splitAnd`. -/
def reAnd : Regex UInt8 :=
  .sequence [.symbol isBlank, blanks, letterOf 0x41, letterOf 0x4E, letterOf 0x44,
    .symbol isBlank, blanks]

/-- The parts of the text between MATCH and RETURN: the pattern and the
predicates. -/
def splitBody (body : Bytes) : Except Failure (Bytes × Bytes) :=
  match Go.index (bytes "WHERE") (Go.toUpper body) with
  | some wi => do
      let predicates ← slice body (wi + (bytes "WHERE").length) body.length
      let pattern ← slice body 0 wi
      return (trimSpace pattern, trimSpace predicates)
  | none => return (trimSpace body, [])

def splitClauses (q : Bytes) : Except Failure (Bytes × Bytes × Bytes) :=
  let upper := Go.toUpper q
  if Go.index (bytes "MATCH") upper ≠ some 0 then
    throw (plainError "graph: query must begin with MATCH")
  else
    match Go.lastIndex (bytes "RETURN") upper with
    | none => throw (plainError "graph: query must contain RETURN")
    | some ri => do
        let retText ← slice q (ri + (bytes "RETURN").length) q.length
        let body ← slice q (bytes "MATCH").length ri
        let (pattern, predicates) ← splitBody body
        if pattern = [] ∨ trimSpace retText = [] then
          throw (plainError "graph: query missing a MATCH pattern or RETURN list")
        return (pattern, predicates, trimSpace retText)

/-- A node pattern at the start of a text and the text behind it. -/
def nodePattern (expected : String) (s : Bytes) : Except Failure (NodePat × Bytes) :=
  match reNode.find s with
  | none => throw (quotedError expected s)
  | some m => do
      let rest ← slice s m.taken.length s.length
      return (⟨m.submatch 1, m.submatch 2⟩, trimSpace rest)

/-- One iteration of the path loop: an edge and a node pattern. -/
def pathStep (cq : CypherQuery) (s : Bytes) : Except Failure (CypherQuery × Bytes) :=
  match reEdge.find s with
  | none => throw (quotedError "graph: expected an edge -[:TYPE]-> at " s)
  | some em => do
      let rest ← slice s em.taken.length s.length
      let (node, after) ← nodePattern "graph: expected a node pattern after an edge at "
        (trimSpace rest)
      return ({ cq with edges := cq.edges ++ [em.submatch 1], nodes := cq.nodes ++ [node] }, after)

theorem slice_eq_ok {text : Bytes} {low high : Nat} {part : Bytes} :
    slice text low high = .ok part ↔
      (low ≤ high ∧ high ≤ text.length) ∧ (text.take high).drop low = part := by
  unfold slice
  split
  · rename_i within
    simp [within]
  · rename_i outside
    simp [outside]

theorem length_of_slice {text rest : Bytes} {low : Nat}
    (sliced : slice text low text.length = .ok rest) :
    rest.length = text.length - low := by
  obtain ⟨-, rfl⟩ := slice_eq_ok.mp sliced
  rw [List.take_length, List.length_drop]

theorem nodePattern_shortens {expected : String} {s after : Bytes} {node : NodePat}
    (read : nodePattern expected s = .ok (node, after)) :
    after.length ≤ s.length := by
  unfold nodePattern at read
  split at read
  · cases read
  · obtain ⟨rest, sliced, result⟩ := Result.bind_eq_ok.mp read
    cases Except.ok.inj result
    exact (Go.trimSpace_infix rest).length_le.trans
      ((length_of_slice sliced).trans_le (Nat.sub_le _ _))

theorem pathStep_shortens {cq next : CypherQuery} {s after : Bytes}
    (step : pathStep cq s = .ok (next, after)) :
    after.length < s.length := by
  unfold pathStep at step
  split at step
  · cases step
  · rename_i em found
    obtain ⟨rest, sliced, later⟩ := Result.bind_eq_ok.mp step
    obtain ⟨⟨node, left⟩, read, result⟩ := Result.bind_eq_ok.mp later
    cases Except.ok.inj result
    have proper := Regex.taken_ne_nil_of_mem_ways rfl (List.mem_of_mem_head? found)
    have some := List.length_pos_of_ne_nil proper
    have within := (slice_eq_ok.mp sliced).1.1
    have sliced_length := length_of_slice sliced
    have trimmed := (Go.trimSpace_infix rest).length_le
    have shorter := nodePattern_shortens read
    omega

/-- The path loop: an edge and a node pattern until nothing is left. -/
def parsePath (cq : CypherQuery) (s : Bytes) : Except Failure CypherQuery :=
  if s = [] then .ok cq
  else
    match step : pathStep cq s with
    | .error failure => .error failure
    | .ok (next, after) =>
        have := pathStep_shortens step
        parsePath next after
termination_by s.length

/-- The variables of the node patterns, each of which is bound once. -/
def bindVariables (nodes : List NodePat) : Except Failure (List Bytes) :=
  nodes.foldlM
    (fun bound node =>
      if bound.contains node.varName then
        throw (.error ⟨"graph: variable ", some node.varName, " is bound more than once"⟩)
      else pure (node.varName :: bound))
    []

def splitAnd (text : Bytes) : List Bytes :=
  reAnd.split text

def parsePredicate (bound : List Bytes) (part : Bytes) : Except Failure Predicate :=
  match rePred.find (trimSpace part) with
  | none => throw (quotedError "graph: malformed WHERE predicate " part)
  | some pm =>
      let value := if pm.submatch 3 = [] then pm.submatch 4 else pm.submatch 3
      if bound.contains (pm.submatch 1) then pure ⟨pm.submatch 1, pm.submatch 2, value⟩
      else throw (quotedError "graph: WHERE references unbound variable " (pm.submatch 1))

/-- The predicates of a WHERE section, if there is one. -/
def parseWhere (bound : List Bytes) (whereSeg : Bytes) : Except Failure (List Predicate) :=
  if whereSeg = [] then pure [] else (splitAnd whereSeg).mapM (parsePredicate bound)

/-- One RETURN column. -/
def parseColumn (bound : List Bytes) (part : Bytes) : Except Failure RetCol :=
  let expr := trimSpace part
  match reRetCol.find expr with
  | none => throw (quotedError "graph: malformed RETURN item " expr)
  | some rm =>
      if bound.contains (rm.submatch 1) then pure ⟨expr, rm.submatch 1, rm.submatch 2⟩
      else throw (quotedError "graph: RETURN references unbound variable " (rm.submatch 1))

def parseCypher (q : Bytes) : Except Failure CypherQuery := do
  let (matchSeg, whereSeg, retSeg) ← splitClauses q
  let (node, rest) ← nodePattern "graph: expected a node pattern at " (trimSpace matchSeg)
  let path ← parsePath ⟨[node], [], [], []⟩ rest
  let bound ← bindVariables path.nodes
  let predicates ← parseWhere bound whereSeg
  let ret ← (Go.split 0x2C retSeg).mapM (parseColumn bound)
  if ret = [] then throw (plainError "graph: empty RETURN list")
  else return { path with predicates := predicates, ret := ret }

def matchesKind (node : Node) (kind : NodeKind) : Bool :=
  kind == [] || node.kind == kind

def nodeField (node : Node) (field : Bytes) : Bytes :=
  if field = bytes "id" then node.id
  else if field = bytes "kind" then node.kind
  else if field = bytes "name" then node.name
  else (node.attrs.lookup field).getD []

/-- A binding of variables to node IDs. -/
abbrev Binding := Map Bytes

/-- A row of a result, by column. -/
abbrev Row := Map Bytes

/-- What is bound to a variable or is the value of a column. -/
def valueOf (map : Map Bytes) (key : Bytes) : Bytes :=
  (map.lookup key).getD []

def firstBindings (g : Tables) (cq : CypherQuery) : Except Failure (List Binding) :=
  g.sortedNodes.filterMapM fun node => do
    let first ← element cq.nodes 0
    return if matchesKind node first.kind then some [(first.varName, node.id)] else none

/-- The bindings that an edge of the path makes of one. -/
def extendBinding (g : Tables) (type : EdgeType) (fromVar : Bytes) (toPat : NodePat)
    (binding : Binding) : List Binding :=
  (g.outOf (valueOf binding fromVar)).filterMap fun edge =>
    if edge.type ≠ type then none
    else
      match g.nodes.lookup edge.toID with
      | none => none
      | some node =>
          if matchesKind node toPat.kind then some (binding.set toPat.varName edge.toID) else none

def pathBindings (g : Tables) (cq : CypherQuery) (bindings : List Binding) :
    Except Failure (List Binding) :=
  cq.edges.zipIdx.foldlM
    (fun bindings edge => do
      let fromPat ← element cq.nodes edge.2
      let toPat ← element cq.nodes (edge.2 + 1)
      return bindings.flatMap (extendBinding g edge.1 fromPat.varName toPat))
    bindings

def satisfies (g : Tables) (binding : Binding) (predicates : List Predicate) : Bool :=
  predicates.all fun predicate =>
    nodeField (g.node (valueOf binding predicate.varName)) predicate.field == predicate.value

def columnValue (g : Tables) (binding : Binding) (column : RetCol) : Bytes :=
  let node := g.node (valueOf binding column.varName)
  if column.field = [] then node.id else nodeField node column.field

def rowOf (g : Tables) (columns : List RetCol) (binding : Binding) : Row :=
  columns.foldl (fun row column => row.set column.expr (columnValue g binding column)) []

/-- The key by which identical rows are recognised. -/
def rowKey (g : Tables) (columns : List RetCol) (binding : Binding) : Bytes :=
  ((columns.map fun column =>
    column.expr ++ bytes "=" ++ columnValue g binding column).intersperse [0]).flatten

/-- The rows of the bindings, each once. -/
def projectRows (g : Tables) (columns : List RetCol) : List Bytes → List Binding → List Row
  | _, [] => []
  | seen, binding :: rest =>
      let key := rowKey g columns binding
      if seen.contains key then projectRows g columns seen rest
      else rowOf g columns binding :: projectRows g columns (key :: seen) rest

/-- The order of `sortRows`. -/
def rowLess : List RetCol → Row → Row → Bool
  | [], _, _ => false
  | column :: rest, first, second =>
      if valueOf first column.expr ≠ valueOf second column.expr then
        valueOf first column.expr < valueOf second column.expr
      else rowLess rest first second

def sortRows (rows : List Row) (columns : List RetCol) : List Row :=
  rows.insertionSort fun first second => rowLess columns second first = false

def execCypher (g : Tables) (cq : CypherQuery) : Except Failure (List Row) := do
  let starts ← firstBindings g cq
  let bindings ← pathBindings g cq starts
  let kept := bindings.filter (satisfies g · cq.predicates)
  return sortRows (projectRows g cq.ret [] kept) cq.ret

end Cypher

/-- The rows of a query in the graph. -/
def query (g : Graph) (q : Bytes) : Except Cypher.Failure (List Cypher.Row) := do
  let cq ← Cypher.parseCypher q
  Cypher.execCypher g.toTables cq

end Graph
end Trstctl
