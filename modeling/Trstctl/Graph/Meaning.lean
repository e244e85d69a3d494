import Trstctl.Graph.Printed

/-!
# What a query means

The rows of a query are the projections of the assignments of nodes to its
variables that fit its path and its equalities.  The rows of the text of a
query are these exactly when no keyword is found in a name or a value and the
keys by which rows are told apart differ for different rows.
-/

namespace Trstctl

open Go (Bytes bytes Map)

namespace Graph
namespace Cypher

/-- The node at each variable. -/
abbrev Assignment := Bytes → Bytes

/-- A node with the label of a pattern is at its variable. -/
def Pattern.Fits (g : Tables) (assignment : Assignment) (pattern : Pattern) : Prop :=
  ∃ node, g.nodes.lookup (assignment pattern.varName.text) = some node ∧
    ∀ label ∈ pattern.label, node.kind = label.text

/-- An edge leads from the node of one pattern to the node of the next. -/
def Hop.Leads (g : Tables) (assignment : Assignment) (source : Pattern) (hop : Hop) : Prop :=
  ∃ edge ∈ g.edges, edge.fromID = assignment source.varName.text ∧
    edge.type = hop.type.text ∧ edge.toID = assignment hop.target.varName.text

/-- The nodes behind a pattern of the path. -/
def Walks (g : Tables) (assignment : Assignment) : Pattern → List Hop → Prop
  | _, [] => True
  | source, hop :: rest =>
      hop.Leads g assignment source ∧ hop.target.Fits g assignment ∧
        Walks g assignment hop.target rest

/-- A field of a node has the value. -/
def Equality.Holds (g : Tables) (assignment : Assignment) (equality : Equality) : Prop :=
  nodeField (g.node (assignment equality.varName.text)) equality.field.text = equality.value.text

/-- An assignment that fits the path and the equalities. -/
structure PathQuery.Answers (query : PathQuery) (g : Tables) (assignment : Assignment) :
    Prop where
  start : query.start.Fits g assignment
  path : Walks g assignment query.start query.hops
  equalities : ∀ equality ∈ query.equalities, equality.Holds g assignment

/-- The value of a column: the ID of a node or a field of it. -/
def Column.value (g : Tables) (assignment : Assignment) (column : Column) : Bytes :=
  match column.field with
  | none => assignment column.varName.text
  | some field => nodeField (g.node (assignment column.varName.text)) field.text

/-- The row of an assignment: what each column shows. -/
def PathQuery.row (query : PathQuery) (g : Tables) (assignment : Assignment) (expr : Bytes) :
    Option Bytes :=
  (query.columns.find? fun column => column.print == expr).map (Column.value g assignment)

/-- The texts `column=value` of a row, with a NUL between them. -/
def PathQuery.key (query : PathQuery) (g : Tables) (assignment : Assignment) : Bytes :=
  ((query.columns.map fun column =>
    column.print ++ bytes "=" ++ column.value g assignment).intersperse [0]).flatten

/-- Different rows have different keys. -/
def PathQuery.Separated (query : PathQuery) (g : Tables) : Prop :=
  ∀ {first second}, query.Answers g first → query.Answers g second →
    query.key g first = query.key g second → query.row g first = query.row g second

/-- The rows of a table show what the assignments that fit a query show, each
of it once. -/
def PathQuery.ShownBy (query : PathQuery) (g : Tables) (rows : List Row) : Prop :=
  (rows.map fun row expr => row.lookup expr).Nodup ∧
    ∀ shown, (shown ∈ rows.map fun row expr => row.lookup expr) ↔
      ∃ assignment, query.Answers g assignment ∧ query.row g assignment = shown

/-- The variables behind the first one. -/
def hopVariables (hops : List Hop) : List Bytes :=
  hops.map fun hop => hop.target.varName.text

theorem pathVariables_eq (start : Pattern) (hops : List Hop) :
    pathVariables start hops = start.varName.text :: hopVariables hops := by
  simp [pathVariables, hopVariables]

/-- The bindings of the rest of a path. -/
def walkBindings (g : Tables) : Pattern → List Hop → List Binding → List Binding
  | _, [], bindings => bindings
  | source, hop :: rest, bindings =>
      walkBindings g hop.target rest
        (bindings.flatMap (extendBinding g hop.type.text source.varName.text hop.target.toNodePat))

theorem element_eq_ok {Item : Type} {items rest : List Item} {item : Item} {place : Nat}
    (there : items.drop place = item :: rest) :
    element items place = .ok item := by
  have found : items[place]? = some item := by
    rw [← Nat.add_zero place, ← List.getElem?_drop, there]
    rfl
  rw [element, found]

variable {source : Pattern} {hops : List Hop}

theorem foldlM_eq_walkBindings (g : Tables) {nodes : List NodePat} (place : Nat)
    (there : nodes.drop place = (source :: hops.map Hop.target).map Pattern.toNodePat)
    (bindings : List Binding) :
    ((hops.map (·.type.text)).zipIdx place).foldlM
      (fun bindings edge => do
        let fromPat ← element nodes edge.2
        let toPat ← element nodes (edge.2 + 1)
        return bindings.flatMap (extendBinding g edge.1 fromPat.varName toPat))
      bindings = .ok (walkBindings g source hops bindings) := by
  induction hops generalizing place source bindings with
  | nil => rfl
  | cons hop rest ih =>
      have behind : nodes.drop (place + 1) =
          (hop.target :: rest.map Hop.target).map Pattern.toNodePat := by
        rw [← List.drop_drop, there]
        rfl
      rw [List.map_cons, List.zipIdx_cons, List.foldlM_cons, element_eq_ok there, ok_bind,
        element_eq_ok behind, ok_bind]
      exact ih (place + 1) behind _

theorem pathBindings_eq (g : Tables) (query : PathQuery) (bindings : List Binding) :
    pathBindings g query.toCypher bindings =
      .ok (walkBindings g query.start query.hops bindings) :=
  foldlM_eq_walkBindings g 0 rfl bindings

theorem matchesKind_iff {node : Node} {pattern : Pattern} :
    matchesKind node pattern.toNodePat.kind = true ↔
      ∀ label ∈ pattern.label, node.kind = label.text := by
  obtain ⟨varName, label⟩ := pattern
  cases label with
  | none => simp [matchesKind, Pattern.toNodePat, optionalText]
  | some label => simp [matchesKind, Pattern.toNodePat, optionalText, label.text_ne_nil]

variable {binding : Binding}

theorem mem_extendBinding {g : Graph} {hop : Hop} {next : Binding} :
    next ∈ extendBinding g.toTables hop.type.text source.varName.text hop.target.toNodePat
        binding ↔
      ∃ id, next = binding.set hop.target.varName.text id ∧
        (∃ edge ∈ g.edges, edge.fromID = valueOf binding source.varName.text ∧
          edge.type = hop.type.text ∧ edge.toID = id) ∧
        ∃ node, g.nodes.lookup id = some node ∧ ∀ label ∈ hop.target.label,
          node.kind = label.text := by
  rw [extendBinding, g.consistent.outgoing, List.mem_filterMap]
  constructor
  · rintro ⟨edge, member, extended⟩
    obtain ⟨edgeMember, leaves⟩ := List.mem_filter.mp member
    rw [decide_eq_true_eq] at leaves
    split at extended
    · cases extended
    · rename_i sameType
      split at extended
      · cases extended
      · rename_i node found
        split at extended
        · rename_i fits
          refine ⟨edge.toID, (Option.some.inj extended).symm,
            ⟨edge, edgeMember, leaves, not_not.mp sameType, rfl⟩, node, found, ?_⟩
          exact matchesKind_iff.mp fits
        · cases extended
  · rintro ⟨id, rfl, ⟨edge, edgeMember, leaves, sameType, rfl⟩, node, found, fits⟩
    refine ⟨edge, List.mem_filter.mpr ⟨edgeMember, decide_eq_true leaves⟩, ?_⟩
    rw [if_neg (not_not_intro sameType), found]
    dsimp only
    rw [if_pos (matchesKind_iff.mpr fits)]
    rfl

/-- A binding that says nothing else about other variables. -/
def Agrees (names : List Bytes) (binding other : Binding) : Prop :=
  ∀ name ∉ names, valueOf binding name = valueOf other name

theorem valueOf_set (binding : Binding) (name id other : Bytes) :
    valueOf (binding.set name id) other = if other = name then id else valueOf binding other := by
  rw [valueOf, Go.MapOf.lookup_set]
  split
  · rfl
  · rfl

theorem walks_of_mem_walkBindings {g : Graph}
    (distinct : (source.varName.text :: hopVariables hops).Nodup)
    {bindings : List Binding} {made : Binding}
    (member : made ∈ walkBindings g.toTables source hops bindings) :
    Walks g.toTables (valueOf made) source hops ∧
      ∃ binding ∈ bindings, Agrees (hopVariables hops) made binding := by
  induction hops generalizing source bindings with
  | nil => exact ⟨trivial, made, member, fun _ _ => rfl⟩
  | cons hop rest ih =>
      obtain ⟨fresh, later⟩ := List.nodup_cons.mp distinct
      obtain ⟨different, unused⟩ := not_or.mp (mt List.mem_cons.mpr fresh)
      obtain ⟨walks, next, nextMember, agrees⟩ := ih later member
      obtain ⟨binding, bindingMember, extended⟩ := List.mem_flatMap.mp nextMember
      obtain ⟨id, rfl, ⟨edge, edgeMember, leaves, sameType, arrives⟩, node, found, fits⟩ :=
        mem_extendBinding.mp extended
      have atSource : valueOf made source.varName.text = valueOf binding source.varName.text := by
        rw [agrees _ unused, valueOf_set, if_neg different]
      have atTarget : valueOf made hop.target.varName.text = id := by
        rw [agrees _ (List.nodup_cons.mp later).1, valueOf_set, if_pos rfl]
      refine ⟨⟨⟨edge, edgeMember, leaves.trans atSource.symm, sameType,
        arrives.trans atTarget.symm⟩, ⟨node, atTarget ▸ found, fits⟩, walks⟩, binding,
        bindingMember, fun name outside => ?_⟩
      obtain ⟨other, behind⟩ := not_or.mp (mt List.mem_cons.mpr outside)
      rw [agrees name behind, valueOf_set, if_neg other]

variable {assignment : Assignment}

theorem exists_mem_walkBindings {g : Graph}
    (distinct : (source.varName.text :: hopVariables hops).Nodup)
    (walks : Walks g.toTables assignment source hops) {bindings : List Binding}
    (member : binding ∈ bindings)
    (atSource : valueOf binding source.varName.text = assignment source.varName.text) :
    ∃ made ∈ walkBindings g.toTables source hops bindings,
      Agrees (hopVariables hops) made binding ∧
        ∀ name ∈ hopVariables hops, valueOf made name = assignment name := by
  induction hops generalizing source bindings binding with
  | nil => exact ⟨binding, member, fun _ _ => rfl, List.forall_mem_nil _⟩
  | cons hop rest ih =>
      obtain ⟨fresh, later⟩ := List.nodup_cons.mp distinct
      obtain ⟨⟨edge, edgeMember, leaves, sameType, arrives⟩, ⟨node, found, fits⟩, restWalks⟩ :=
        walks
      have extended : binding.set hop.target.varName.text (assignment hop.target.varName.text) ∈
          extendBinding g.toTables hop.type.text source.varName.text hop.target.toNodePat
            binding :=
        mem_extendBinding.mpr ⟨_, rfl, ⟨edge, edgeMember, leaves.trans atSource.symm, sameType,
          arrives⟩, node, found, fits⟩
      have atTarget : valueOf (binding.set hop.target.varName.text
          (assignment hop.target.varName.text)) hop.target.varName.text =
          assignment hop.target.varName.text := by
        rw [valueOf_set, if_pos rfl]
      obtain ⟨made, madeMember, agrees, assigned⟩ := ih later restWalks
        (List.mem_flatMap.mpr ⟨binding, member, extended⟩) atTarget
      refine ⟨made, madeMember, fun name outside => ?_, List.forall_mem_cons.mpr ⟨?_, assigned⟩⟩
      · obtain ⟨other, behind⟩ := not_or.mp (mt List.mem_cons.mpr outside)
        rw [agrees name behind, valueOf_set, if_neg other]
      · rw [agrees _ (List.nodup_cons.mp later).1, atTarget]

theorem mem_sortedNodes {g : Graph} {node : Node} :
    node ∈ g.sortedNodes ↔ g.nodes.lookup node.id = some node := by
  rw [Tables.sortedNodes, List.mem_insertionSort, List.mem_map]
  constructor
  · rintro ⟨⟨id, found⟩, member, rfl⟩
    have bound := (Go.MapOf.lookup_eq_some_iff g.consistent.distinct).mpr member
    rwa [g.consistent.keyed bound]
  · intro bound
    exact ⟨_, (Go.MapOf.lookup_eq_some_iff g.consistent.distinct).mp bound, rfl⟩

theorem filterMapM_ok {Item Value : Type} (choose : Item → Option Value) (items : List Item) :
    items.filterMapM (fun item => (.ok (choose item) : Except Failure (Option Value))) =
      .ok (items.filterMap choose) := by
  induction items with
  | nil => rfl
  | cons item items ih =>
      rw [List.filterMapM_cons, ok_bind, List.filterMap_cons]
      cases choose item with
      | none => exact ih
      | some value =>
          dsimp only
          rw [ih]
          rfl

theorem firstBindings_eq (g : Graph) (query : PathQuery) :
    ∃ starts, firstBindings g.toTables query.toCypher = .ok starts ∧
      ∀ {binding : Binding}, binding ∈ starts ↔
        ∃ id, binding = [(query.start.varName.text, id)] ∧
          ∃ node, g.nodes.lookup id = some node ∧ ∀ label ∈ query.start.label,
            node.kind = label.text := by
  have first : element query.toCypher.nodes 0 = .ok query.start.toNodePat := element_eq_ok rfl
  refine ⟨g.sortedNodes.filterMap fun node =>
    if matchesKind node query.start.toNodePat.kind then
      some [(query.start.varName.text, node.id)] else none, ?_, ?_⟩
  · simp only [firstBindings, first, ok_bind]
    exact filterMapM_ok _ _
  · intro binding
    rw [List.mem_filterMap]
    constructor
    · rintro ⟨node, member, chosen⟩
      split at chosen
      · rename_i fits
        exact ⟨node.id, (Option.some.inj chosen).symm, node, mem_sortedNodes.mp member,
          matchesKind_iff.mp fits⟩
      · cases chosen
    · rintro ⟨id, rfl, node, found, fits⟩
      have same := g.consistent.keyed found
      refine ⟨node, mem_sortedNodes.mpr (same.symm ▸ found), ?_⟩
      rw [if_pos (matchesKind_iff.mpr fits), same]

variable {g : Tables} {first second : Assignment}

theorem Pattern.Fits.congr {pattern : Pattern}
    (same : first pattern.varName.text = second pattern.varName.text)
    (fits : pattern.Fits g first) :
    pattern.Fits g second := by
  rw [Pattern.Fits, ← same]
  exact fits

theorem Walks.congr
    (same : ∀ name ∈ source.varName.text :: hopVariables hops, first name = second name)
    (walks : Walks g first source hops) :
    Walks g second source hops := by
  induction hops generalizing source with
  | nil => trivial
  | cons hop rest ih =>
      obtain ⟨atSource, later⟩ := List.forall_mem_cons.mp same
      obtain ⟨⟨edge, member, leaves, sameType, arrives⟩, fits, restWalks⟩ := walks
      have atTarget := later _ List.mem_cons_self
      exact ⟨⟨edge, member, leaves.trans atSource, sameType, arrives.trans atTarget⟩,
        fits.congr atTarget, ih later restWalks⟩

variable {query : PathQuery}

section Same

variable (same : ∀ name ∈ pathVariables query.start query.hops, first name = second name)

include same

theorem PathQuery.Answers.congr (answers : query.Answers g first) :
    query.Answers g second := by
  rw [pathVariables_eq] at same
  refine ⟨answers.start.congr (same _ List.mem_cons_self), answers.path.congr same, ?_⟩
  intro equality member
  have bound := query.comparesBound equality member
  rw [pathVariables_eq] at bound
  rw [Equality.Holds, ← same _ bound]
  exact answers.equalities equality member

theorem PathQuery.value_congr {column : Column} (member : column ∈ query.columns) :
    column.value g first = column.value g second := by
  unfold Column.value
  rw [same _ (query.returnsBound column member)]

theorem PathQuery.row_congr :
    query.row g first = query.row g second := by
  funext expr
  unfold PathQuery.row
  cases found : query.columns.find? fun column => column.print == expr with
  | none => rfl
  | some column =>
      rw [Option.map_some, Option.map_some,
        query.value_congr same (List.mem_of_find?_eq_some found)]

end Same

theorem satisfies_iff {equalities : List Equality} :
    satisfies g binding (equalities.map Equality.toPredicate) = true ↔
      ∀ equality ∈ equalities, equality.Holds g (valueOf binding) := by
  simp [satisfies, Equality.toPredicate, Equality.Holds]

/-- The bindings that are kept are the assignments that fit the query. -/
theorem exists_kept (g : Graph) (query : PathQuery) :
    ∃ kept, execCypher g.toTables query.toCypher =
        .ok (sortRows (projectRows g.toTables (query.columns.map Column.toRetCol) [] kept)
          (query.columns.map Column.toRetCol)) ∧
      (∀ binding ∈ kept, query.Answers g.toTables (valueOf binding)) ∧
      ∀ assignment, query.Answers g.toTables assignment →
        ∃ binding ∈ kept, ∀ name ∈ pathVariables query.start query.hops,
          valueOf binding name = assignment name := by
  have distinct := query.distinct
  rw [pathVariables_eq] at distinct
  obtain ⟨starts, starts_eq, mem_starts⟩ := firstBindings_eq g query
  refine ⟨(walkBindings g.toTables query.start query.hops starts).filter
    (satisfies g.toTables · query.toCypher.predicates), ?_, ?_, ?_⟩
  · rw [execCypher, starts_eq, ok_bind, pathBindings_eq, ok_bind]
    rfl
  · intro binding member
    obtain ⟨made, satisfied⟩ := List.mem_filter.mp member
    obtain ⟨walks, start, startMember, agrees⟩ := walks_of_mem_walkBindings distinct made
    obtain ⟨id, rfl, node, found, fits⟩ := mem_starts.mp startMember
    have atStart : valueOf binding query.start.varName.text = id := by
      rw [agrees _ (List.nodup_cons.mp distinct).1]
      simp [valueOf]
    exact ⟨⟨node, atStart ▸ found, fits⟩, walks, satisfies_iff.mp satisfied⟩
  · intro assignment answers
    obtain ⟨node, found, fits⟩ := answers.start
    have startMember : [(query.start.varName.text, assignment query.start.varName.text)] ∈
        starts := mem_starts.mpr ⟨_, rfl, node, found, fits⟩
    obtain ⟨made, madeMember, agrees, assigned⟩ := exists_mem_walkBindings distinct answers.path
      startMember (by simp [valueOf])
    have same : ∀ name ∈ pathVariables query.start query.hops,
        valueOf made name = assignment name := by
      rw [pathVariables_eq]
      refine List.forall_mem_cons.mpr ⟨?_, assigned⟩
      rw [agrees _ (List.nodup_cons.mp distinct).1]
      simp [valueOf]
    have again := answers.congr fun name member => (same name member).symm
    exact ⟨made, List.mem_filter.mpr ⟨madeMember, satisfies_iff.mpr again.equalities⟩, same⟩

theorem Walks.fits (walks : Walks g assignment source hops) :
    ∀ hop ∈ hops, hop.target.Fits g assignment := by
  induction hops generalizing source with
  | nil => exact List.forall_mem_nil _
  | cons hop rest ih =>
      obtain ⟨-, fits, restWalks⟩ := walks
      exact List.forall_mem_cons.mpr ⟨fits, ih restWalks⟩

theorem PathQuery.Answers.exists_node (answers : query.Answers g assignment) {name : Bytes}
    (member : name ∈ pathVariables query.start query.hops) :
    ∃ node, g.nodes.lookup (assignment name) = some node := by
  rw [pathVariables_eq] at member
  rcases List.mem_cons.mp member with rfl | behind
  · obtain ⟨node, found, -⟩ := answers.start
    exact ⟨node, found⟩
  · obtain ⟨hop, hopMember, rfl⟩ := List.mem_map.mp behind
    obtain ⟨node, found, -⟩ := answers.path.fits hop hopMember
    exact ⟨node, found⟩

theorem columnValue_eq {g : Graph} (answers : query.Answers g.toTables (valueOf binding))
    {column : Column} (member : column ∈ query.columns) :
    columnValue g.toTables binding column.toRetCol =
      column.value g.toTables (valueOf binding) := by
  obtain ⟨node, found⟩ := answers.exists_node (query.returnsBound column member)
  have id_eq := g.consistent.keyed found
  obtain ⟨varName, field⟩ := column
  cases field with
  | none =>
      change (g.toTables.node (valueOf binding varName.text)).id = valueOf binding varName.text
      rw [Tables.node, found]
      exact id_eq
  | some field =>
      change (if field.text = [] then _ else _) = _
      rw [if_neg field.text_ne_nil]
      rfl

theorem Identifier.eq_of_text_eq {first second : Identifier} (same : first.text = second.text) :
    first = second := by
  cases first
  cases second
  cases same
  rfl

theorem Column.eq_of_print_eq {first second : Column} (same : first.print = second.print) :
    first = second := by
  have front (column : Column) : column.print.takeWhile isWord = column.varName.text := by
    rw [Column.print, List.takeWhile_append_of_pos fun byte => column.varName.isWord_of_mem]
    cases column.field with
    | none => exact List.append_nil _
    | some field => exact List.append_nil _
  have names := congrArg (List.takeWhile isWord) same
  rw [front, front] at names
  obtain ⟨firstName, firstField⟩ := first
  obtain ⟨secondName, secondField⟩ := second
  obtain rfl := Identifier.eq_of_text_eq names
  have fields := List.append_cancel_left same
  cases firstField with
  | none =>
      cases secondField with
      | none => rfl
      | some second => cases fields
  | some first =>
      cases secondField with
      | none => cases fields
      | some second =>
          obtain rfl := Identifier.eq_of_text_eq (List.cons.inj fields).2
          rfl

/-- The row of a binding shows each column once. -/
theorem lookup_rowOf {g : Graph} (answers : query.Answers g.toTables (valueOf binding))
    (expr : Bytes) :
    (rowOf g.toTables (query.columns.map Column.toRetCol) binding).lookup expr =
      query.row g.toTables (valueOf binding) expr := by
  have fold (columns : List Column) (known : ∀ column ∈ columns, column ∈ query.columns)
      (row : Row) :
      ((columns.map Column.toRetCol).foldl
        (fun row column => row.set column.expr (columnValue g.toTables binding column))
        row).lookup expr =
      ((columns.find? fun column => column.print == expr).map
        (Column.value g.toTables (valueOf binding))).or (row.lookup expr) := by
    induction columns generalizing row with
    | nil => rfl
    | cons column rest ih =>
        obtain ⟨here, others⟩ := List.forall_mem_cons.mp known
        have value_eq := columnValue_eq answers here
        rw [List.map_cons, List.foldl_cons, ih others, value_eq,
          Go.MapOf.lookup_set, List.find?_cons]
        by_cases same : column.print = expr
        · have hit : (column.print == expr) = true := beq_iff_eq.mpr same
          have assigned : expr = column.toRetCol.expr := same.symm
          rw [hit, if_pos assigned]
          cases found : rest.find? fun column => column.print == expr with
          | none => rfl
          | some later =>
              have hitLater := List.find?_some found
              have laterText : later.print = expr := beq_iff_eq.mp hitLater
              rw [Column.eq_of_print_eq (laterText.trans same.symm)]
              rfl
        · have missed : (column.print == expr) = false := beq_false_of_ne same
          have other : ¬expr = column.toRetCol.expr := fun again => same again.symm
          rw [missed, if_neg other]
  have whole := fold query.columns (fun _ member => member) []
  rw [List.lookup_nil, Option.or_none] at whole
  exact whole

theorem rowKey_eq {g : Graph} (answers : query.Answers g.toTables (valueOf binding)) :
    rowKey g.toTables (query.columns.map Column.toRetCol) binding =
      query.key g.toTables (valueOf binding) := by
  unfold rowKey PathQuery.key
  rw [List.map_map, List.map_congr_left fun column member => by
    rw [Function.comp_apply, columnValue_eq answers member]]
  rfl

theorem exists_chosen (g : Tables) (columns : List RetCol) (seen : List Bytes)
    (bindings : List Binding) :
    ∃ chosen : List Binding, projectRows g columns seen bindings = chosen.map (rowOf g columns) ∧
      (∀ binding ∈ chosen, binding ∈ bindings ∧ rowKey g columns binding ∉ seen) ∧
      (chosen.map (rowKey g columns)).Nodup ∧
      ∀ binding ∈ bindings, rowKey g columns binding ∉ seen →
        rowKey g columns binding ∈ chosen.map (rowKey g columns) := by
  induction bindings generalizing seen with
  | nil =>
      exact ⟨[], rfl, List.forall_mem_nil _, List.nodup_nil, List.forall_mem_nil _⟩
  | cons binding rest ih =>
      rw [projectRows]
      by_cases known : rowKey g columns binding ∈ seen
      · obtain ⟨chosen, rows_eq, fresh, distinct, complete⟩ := ih seen
        rw [if_pos (List.contains_iff_mem.mpr known)]
        refine ⟨chosen, rows_eq, fun item member => ?_, distinct,
          List.forall_mem_cons.mpr ⟨fun unseen => absurd known unseen, complete⟩⟩
        exact ⟨List.mem_cons_of_mem _ (fresh item member).1, (fresh item member).2⟩
      · obtain ⟨chosen, rows_eq, fresh, distinct, complete⟩ :=
          ih (rowKey g columns binding :: seen)
        rw [if_neg (mt List.contains_iff_mem.mp known), rows_eq]
        refine ⟨binding :: chosen, rfl, List.forall_mem_cons.mpr
          ⟨⟨List.mem_cons_self, known⟩, fun item member => ?_⟩, List.nodup_cons.mpr ⟨?_, distinct⟩,
          List.forall_mem_cons.mpr ⟨fun _ => List.mem_cons_self, fun item member unseen => ?_⟩⟩
        · exact ⟨List.mem_cons_of_mem _ (fresh item member).1,
            fun earlier => (fresh item member).2 (List.mem_cons_of_mem _ earlier)⟩
        · intro again
          obtain ⟨item, member, same⟩ := List.mem_map.mp again
          exact (fresh item member).2 (same ▸ List.mem_cons_self)
        · by_cases same : rowKey g columns item = rowKey g columns binding
          · rw [same]
            exact List.mem_cons_self
          · refine List.mem_cons_of_mem _ (complete item member fun earlier => ?_)
            exact (List.mem_cons.mp earlier).elim same unseen

theorem PathQuery.key_eq_of_row_eq (same : query.row g first = query.row g second) :
    query.key g first = query.key g second := by
  have values : ∀ column ∈ query.columns, column.value g first = column.value g second := by
    intro column member
    have shown := congrFun same column.print
    unfold PathQuery.row at shown
    obtain ⟨found, found_eq⟩ : ∃ found,
        query.columns.find? (fun other => other.print == column.print) = some found := by
      rw [← Option.isSome_iff_exists, List.find?_isSome]
      exact ⟨column, member, beq_iff_eq.mpr rfl⟩
    have hit := List.find?_some found_eq
    obtain rfl := Column.eq_of_print_eq (beq_iff_eq.mp hit)
    rw [found_eq] at shown
    exact Option.some.inj shown
  unfold PathQuery.key
  rw [List.map_congr_left fun column member => by rw [values column member]]

/-- The rows of a parsed query are what it means exactly when different rows
have different keys. -/
theorem execCypher_shownBy_iff (g : Graph) (query : PathQuery) :
    (∃ rows, execCypher g.toTables query.toCypher = .ok rows ∧ query.ShownBy g.toTables rows) ↔
      query.Separated g.toTables := by
  obtain ⟨kept, executed, sound, complete⟩ := exists_kept g query
  obtain ⟨chosen, rows_eq, fresh, distinct, covered⟩ :=
    exists_chosen g.toTables (query.columns.map Column.toRetCol) [] kept
  have answers : ∀ binding ∈ chosen, query.Answers g.toTables (valueOf binding) :=
    fun binding member => sound binding (fresh binding member).1
  have shown_eq : (chosen.map (rowOf g.toTables (query.columns.map Column.toRetCol))).map
      (fun row expr => row.lookup expr) =
      chosen.map fun binding => query.row g.toTables (valueOf binding) := by
    rw [List.map_map]
    exact List.map_congr_left fun binding member =>
      funext fun expr => lookup_rowOf (answers binding member) expr
  have sorted : ((sortRows (projectRows g.toTables (query.columns.map Column.toRetCol) [] kept)
      (query.columns.map Column.toRetCol)).map fun row expr => row.lookup expr).Perm
      (chosen.map fun binding => query.row g.toTables (valueOf binding)) := by
    rw [← shown_eq, ← rows_eq]
    exact (List.perm_insertionSort _ _).map _
  -- two chosen bindings with one key are the same binding
  have single : ∀ first ∈ chosen, ∀ second ∈ chosen,
      query.key g.toTables (valueOf first) = query.key g.toTables (valueOf second) →
        first = second := by
    intro first firstMember second secondMember same
    rw [← rowKey_eq (answers first firstMember), ← rowKey_eq (answers second secondMember)] at same
    exact List.inj_on_of_nodup_map distinct firstMember secondMember same
  constructor
  · rintro ⟨rows, ran, -, shown⟩ first second firstAnswers secondAnswers sameKey
    rw [executed] at ran
    rw [← Except.ok.inj ran] at shown
    have chosenFor {assignment : Assignment} (fits : query.Answers g.toTables assignment) :
        ∃ binding ∈ chosen, query.row g.toTables (valueOf binding) =
          query.row g.toTables assignment :=
      List.mem_map.mp (sorted.mem_iff.mp ((shown _).mpr ⟨assignment, fits, rfl⟩))
    obtain ⟨one, oneMember, one_eq⟩ := chosenFor firstAnswers
    obtain ⟨two, twoMember, two_eq⟩ := chosenFor secondAnswers
    have same := single one oneMember two twoMember
      ((query.key_eq_of_row_eq one_eq).trans (sameKey.trans (query.key_eq_of_row_eq two_eq).symm))
    rw [← one_eq, ← two_eq, same]
  · intro separated
    refine ⟨_, executed, sorted.nodup_iff.mpr ?_, fun shown => sorted.mem_iff.trans ?_⟩
    · refine List.Nodup.map_on (fun first firstMember second secondMember same => ?_)
        (List.Nodup.of_map _ distinct)
      exact single first firstMember second secondMember (query.key_eq_of_row_eq same)
    · rw [List.mem_map]
      constructor
      · rintro ⟨binding, member, rfl⟩
        exact ⟨_, answers binding member, rfl⟩
      · rintro ⟨assignment, fits, rfl⟩
        obtain ⟨binding, keptMember, agrees⟩ := complete assignment fits
        obtain ⟨item, itemMember, sameKey⟩ :=
          List.mem_map.mp (covered binding keptMember List.not_mem_nil)
        have bindingAnswers := sound binding keptMember
        rw [rowKey_eq (answers item itemMember), rowKey_eq bindingAnswers] at sameKey
        refine ⟨item, itemMember, ?_⟩
        rw [separated (answers item itemMember) bindingAnswers sameKey, query.row_congr agrees]

end Cypher

/-- The rows of the text of a query are what the query means exactly when no
keyword is found in a name or a value and different rows have different keys. -/
theorem query_means_iff (g : Graph) (query : Cypher.PathQuery) :
    (∃ rows, g.query query.print = .ok rows ∧ query.ShownBy g.toTables rows) ↔
      query.Unmistaken ∧ query.Separated g.toTables := by
  constructor
  · rintro ⟨rows, ran, shown⟩
    obtain ⟨cq, parsed, executed⟩ := Result.bind_eq_ok.mp ran
    have unmistaken := query.unmistaken_iff.mpr ⟨cq, parsed⟩
    rw [unmistaken.parseCypher_print] at parsed
    rw [← Except.ok.inj parsed] at executed
    exact ⟨unmistaken, (Cypher.execCypher_shownBy_iff g query).mp ⟨rows, executed, shown⟩⟩
  · rintro ⟨unmistaken, separated⟩
    obtain ⟨rows, executed, shown⟩ := (Cypher.execCypher_shownBy_iff g query).mpr separated
    refine ⟨rows, ?_, shown⟩
    exact Result.bind_eq_ok.mpr ⟨_, unmistaken.parseCypher_print, executed⟩

/-- The query `MATCH (a) WHERE a.name = "R and D" RETURN a`. -/
def researchQuery : Cypher.PathQuery where
  start := ⟨⟨bytes "a", by decide⟩, none⟩
  hops := []
  equalities := [⟨⟨bytes "a", by decide⟩, ⟨bytes "name", by decide⟩,
    ⟨bytes "R and D", by decide, by decide⟩⟩]
  columns := [⟨⟨bytes "a", by decide⟩, none⟩]
  distinct := by decide
  comparesBound := by decide
  returnsBound := by decide
  returns := by decide

/-- A value with AND between spaces is taken for two predicates. -/
theorem query_splits_quoted_value :
    researchQuery.print = bytes "MATCH (a) WHERE a.name = \"R and D\" RETURN a" ∧
      ¬∀ (g : Graph) (query : Cypher.PathQuery),
        ∃ rows, g.query query.print = .ok rows ∧ query.ShownBy g.toTables rows := by
  refine ⟨by decide +kernel, fun means => ?_⟩
  obtain ⟨rows, ran, -⟩ := means new researchQuery
  obtain ⟨cq, parsed, -⟩ := Result.bind_eq_ok.mp ran
  have whole := (researchQuery.unmistaken_iff.mpr ⟨cq, parsed⟩).values _ List.mem_cons_self
  exact absurd whole (by decide +kernel)

end Graph
end Trstctl
