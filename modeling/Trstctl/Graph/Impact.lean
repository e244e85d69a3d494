import Trstctl.Graph.Evidence
import Trstctl.Library.Codes

/-!
# What a node can reach

`EvidencePaths` (`internal/graph/graph.go`) walks the outgoing impact edges of a
node breadth first and leaves one path to every node it finds.  It is the walk of
`ReverseEvidencePaths` in the graph whose edges are turned round, so its paths are
shortest as well, and a node finds those from which it is found.
-/

namespace Trstctl

open Go (Bytes bytes Map MapOf)

namespace Graph

/-- The order in which `EvidencePaths` takes the outgoing edges of a node. -/
def outgoingLess (a b : Edge) : Bool :=
  if a.toID ≠ b.toID then a.toID < b.toID
  else if a.type ≠ b.type then a.type < b.type
  else if a.source ≠ b.source then a.source < b.source
  else a.confidence < b.confidence

/-- The outgoing edges in their order. -/
def sortOutgoing (edges : List Edge) : List Edge :=
  edges.insertionSort fun first second => outgoingLess second first = false

/-- What the forward walk keeps: the nodes it has seen, those it has still to expand
and the edge on which each node was found. -/
structure ForwardWalk where
  visited : Map Bool
  queue : List Bytes
  predecessor : Map Edge

/-- `visited[id]`. -/
def ForwardWalk.sees (walk : ForwardWalk) (id : Bytes) : Bool :=
  (walk.visited.lookup id).getD false

/-- The walk before its first step. -/
def ForwardWalk.start (origin : Bytes) : ForwardWalk where
  visited := [(origin, true)]
  queue := [origin]
  predecessor := []

namespace Tables

/-- The body of the inner loop of `EvidencePaths`. -/
def followEdge (g : Tables) (types : List EdgeType) (walk : ForwardWalk) (e : Edge) :
    ForwardWalk :=
  if !allows types e.type || walk.sees e.toID then walk
  else if (g.nodes.lookup e.toID).isNone then walk
  else
    { visited := walk.visited.set e.toID true
      predecessor := walk.predecessor.set e.toID e
      queue := walk.queue ++ [e.toID] }

/-- One iteration of the outer loop, at the node taken from the queue. -/
def followNode (g : Tables) (types : List EdgeType) (walk : ForwardWalk) (cur : Bytes) :
    ForwardWalk :=
  (sortOutgoing (g.outOf cur)).foldl (g.followEdge types) walk

/-- The outer loop.  Every iteration takes a node from the queue and every node is
put there at most once, so the number of nodes bounds the iterations. -/
def forwardWalk (g : Tables) (types : List EdgeType) : Nat → ForwardWalk → ForwardWalk
  | 0, walk => walk
  | fuel + 1, walk =>
      match walk.queue with
      | [] => walk
      | cur :: rest =>
          g.forwardWalk types fuel (g.followNode types { walk with queue := rest } cur)

/-- `reverseEdges`: the edges from a node back along the predecessors. -/
def traceBack (predecessor : Map Edge) (origin : Bytes) : Nat → Bytes → List Edge
  | 0, _ => []
  | fuel + 1, cursor =>
      if cursor = origin then []
      else
        let edge := (predecessor.lookup cursor).getD zeroEdge
        edge :: traceBack predecessor origin fuel edge.fromID

/-- The evidence path to a node with the given edges, which are in the order in
which they were traced back. -/
def impactPath (g : Tables) (targetID : Bytes) (reverseEdges : List Edge) : EvidencePath where
  target := g.node targetID
  nodes := (g.node targetID :: reverseEdges.map fun edge => g.node edge.fromID).reverse
  edges := reverseEdges.reverse

def evidencePaths (g : Tables) (origin : Bytes) (types : List EdgeType) : List EvidencePath :=
  match g.nodes.lookup origin with
  | none => []
  | some _ =>
      let predecessor :=
        (g.forwardWalk types g.nodes.length (ForwardWalk.start origin)).predecessor
      (predecessor.keys.insertionSort (· ≤ ·)).map fun targetID =>
        g.impactPath targetID (traceBack predecessor origin g.nodes.length targetID)

end Tables

/-- An edge the other way. -/
def Edge.turned (edge : Edge) : Edge :=
  { edge with fromID := edge.toID, toID := edge.fromID }

@[simp] theorem Edge.turned_turned (edge : Edge) : edge.turned.turned = edge := rfl

/-- A change of every value of a map. -/
def turnedMap (map : Map Edge) : Map Edge :=
  map.map fun binding => (binding.1, binding.2.turned)

theorem turnedMap_set (map : Map Edge) (id : Bytes) (edge : Edge) :
    turnedMap (map.set id edge) = (turnedMap map).set id edge.turned := by
  simp [turnedMap, MapOf.set, List.filter_map, Function.comp_def]

theorem keys_turnedMap (map : Map Edge) : (turnedMap map).keys = map.keys := by
  simp [turnedMap, Go.Map.keys, Function.comp_def]

/-- The separator of the parts of the key of an edge. -/
def bar : UInt8 := 0x7C

/-- The ends of an edge do not contain the separator. -/
structure Edge.BarFree (edge : Edge) : Prop where
  leaving : bar ∉ edge.fromID
  entering : bar ∉ edge.toID

variable {edge : Edge}

theorem Edge.BarFree.ends_of_key_eq {other : Edge} (free : edge.BarFree)
    (otherFree : other.BarFree) (keys : edge.key = other.key) :
    edge.fromID = other.fromID ∧ edge.type = other.type ∧ edge.toID = other.toID := by
  have bars : bytes "|" = [bar] := by decide +kernel
  simp only [Edge.key, bars, List.append_assoc, List.singleton_append] at keys
  obtain ⟨leaving, rests⟩ := Separator.eq_of_append_cons_eq free.leaving otherFree.leaving keys
  obtain ⟨types, entering⟩ :=
    Separator.eq_of_append_cons_eq_last free.entering otherFree.entering rests
  exact ⟨leaving, types, entering⟩

def Tables.turned (tables : Tables) : Tables where
  nodes := tables.nodes
  out := tables.in.map fun binding => (binding.1, binding.2.map Edge.turned)
  «in» := tables.out.map fun binding => (binding.1, binding.2.map Edge.turned)
  edges := tables.edges.map Edge.turned
  seen := tables.edges.map fun edge => (edge.turned.key, true)

theorem lookup_marked (edges : List Edge) (key : Bytes) :
    (List.lookup key (edges.map fun edge => (edge.turned.key, true))).getD false = true ↔
      ∃ edge ∈ edges, edge.turned.key = key := by
  induction edges with
  | nil => simp
  | cons edge rest ih =>
      rw [List.map_cons, List.lookup_cons]
      by_cases same : key = edge.turned.key
      · simp [same]
      · rw [beq_false_of_ne same]
        simp [ih, Ne.symm same]

theorem Tables.inOf_turned (tables : Tables) (id : Bytes) :
    tables.turned.inOf id = (tables.outOf id).map Edge.turned := by
  rw [Tables.inOf, Tables.turned, MapOf.lookup_map, Tables.outOf]
  cases tables.out.lookup id <;> rfl

theorem Tables.outOf_turned (tables : Tables) (id : Bytes) :
    tables.turned.outOf id = (tables.inOf id).map Edge.turned := by
  rw [Tables.outOf, Tables.turned, MapOf.lookup_map, Tables.inOf]
  cases tables.in.lookup id <;> rfl

theorem Tables.Consistent.turned {tables : Tables} (consistent : tables.Consistent)
    (free : ∀ edge ∈ tables.edges, edge.BarFree) :
    tables.turned.Consistent where
  distinct := consistent.distinct
  keyed := consistent.keyed
  outgoing := by
    intro id
    rw [Tables.outOf_turned, consistent.incoming, Tables.turned, List.filter_map]
    rfl
  incoming := by
    intro id
    rw [Tables.inOf_turned, consistent.outgoing, Tables.turned, List.filter_map]
    rfl
  known := by
    intro key
    rw [Tables.turned, lookup_marked]
    simp
  single := by
    rw [Tables.turned, List.map_map]
    refine List.Nodup.map_on ?_ (List.Nodup.of_map _ consistent.single)
    intro edge member other otherMember keys
    have turnedFree : edge.turned.BarFree :=
      ⟨(free edge member).entering, (free edge member).leaving⟩
    have otherFree : other.turned.BarFree :=
      ⟨(free other otherMember).entering, (free other otherMember).leaving⟩
    obtain ⟨entering, types, leaving⟩ := turnedFree.ends_of_key_eq otherFree keys
    refine List.inj_on_of_nodup_map consistent.single member otherMember ?_
    simp only [Edge.turned] at entering types leaving
    simp only [Edge.key, entering, types, leaving]

/-- A graph of edges without separators, with its edges turned round. -/
def turned (g : Graph) (free : ∀ edge ∈ g.edges, edge.BarFree) : Graph where
  toTables := g.toTables.turned
  consistent := g.consistent.turned free

theorem edgeLess_turned {first second : Edge} (origin : first.fromID = second.fromID) :
    edgeLess first.turned second.turned = outgoingLess first second := by
  simp [edgeLess, outgoingLess, Edge.turned, origin]

variable {edges : List Edge}

theorem map_turned_sortOutgoing
    (origins : ∀ edge ∈ edges, ∀ other ∈ edges, edge.fromID = other.fromID) :
    (sortOutgoing edges).map Edge.turned = sortEdges (edges.map Edge.turned) := by
  refine List.map_insertionSort _ _ Edge.turned edges ?_
  intro edge member other otherMember
  rw [edgeLess_turned (origins other otherMember edge member)]

/-- The state of the reverse walk that a state of the forward walk is. -/
def ForwardWalk.turned (walk : ForwardWalk) : Walk where
  visited := walk.visited
  queue := walk.queue
  successor := turnedMap walk.predecessor

theorem turned_followEdge (g : Tables) (types : List EdgeType) (walk : ForwardWalk) (edge : Edge) :
    (g.followEdge types walk edge).turned =
      g.turned.visitEdge types walk.turned edge.turned := by
  have sees : walk.turned.sees edge.turned.fromID = walk.sees edge.toID := rfl
  have nodes : g.turned.nodes.lookup edge.turned.fromID = g.nodes.lookup edge.toID := rfl
  have type : edge.turned.type = edge.type := rfl
  rw [Tables.followEdge, Tables.visitEdge, sees, nodes, type]
  split
  · rfl
  · split
    · rfl
    · simp only [ForwardWalk.turned, turnedMap_set]
      rfl

variable (g : Graph)

theorem turned_followNode (types : List EdgeType) (walk : ForwardWalk) (cur : Bytes) :
    (g.followNode types walk cur).turned = g.toTables.turned.expandNode types walk.turned cur := by
  have origins : ∀ edge ∈ g.outOf cur, ∀ other ∈ g.outOf cur, edge.fromID = other.fromID := by
    intro edge member other otherMember
    rw [g.consistent.outgoing, List.mem_filter, decide_eq_true_eq] at member otherMember
    rw [member.2, otherMember.2]
  rw [Tables.followNode, Tables.expandNode, Tables.inOf_turned, ← map_turned_sortOutgoing origins]
  induction sortOutgoing (g.outOf cur) generalizing walk with
  | nil => rfl
  | cons edge rest ih =>
      rw [List.foldl_cons, List.map_cons, List.foldl_cons, ih, turned_followEdge]

theorem turned_forwardWalk (types : List EdgeType) (fuel : Nat) (walk : ForwardWalk) :
    (g.forwardWalk types fuel walk).turned =
      g.toTables.turned.reverseWalk types fuel walk.turned := by
  induction fuel generalizing walk with
  | zero => rfl
  | succ fuel ih =>
      rw [Tables.forwardWalk, Tables.reverseWalk]
      have queue : walk.turned.queue = walk.queue := rfl
      rw [queue]
      cases walk.queue with
      | nil => rfl
      | cons cur rest =>
          dsimp only
          rw [ih, turned_followNode]
          rfl

theorem map_turned_traceBack (predecessor : Map Edge) (origin : Bytes) (fuel : Nat)
    (cursor : Bytes) :
    (Tables.traceBack predecessor origin fuel cursor).map Edge.turned =
      Tables.traceEdges (turnedMap predecessor) origin fuel cursor := by
  induction fuel generalizing cursor with
  | zero => rfl
  | succ fuel ih =>
      rw [Tables.traceBack, Tables.traceEdges]
      split
      · rfl
      · have found : ((turnedMap predecessor).lookup cursor).getD Tables.zeroEdge =
            ((predecessor.lookup cursor).getD Tables.zeroEdge).turned := by
          rw [turnedMap, MapOf.lookup_map]
          cases predecessor.lookup cursor <;> rfl
        simp only [List.map_cons, ih, found]
        rfl

section Forward

variable (g : Graph) (free : ∀ edge ∈ g.edges, edge.BarFree)
  {types : List EdgeType} {origin : Bytes} {node : Node}
  (existing : g.nodes.lookup origin = some node)

include existing

theorem mem_evidencePaths_iff {path : EvidencePath} :
    path ∈ g.evidencePaths origin types ↔
      ∃ edge rest, IsLeast (g.turned free) types origin (edge :: rest) ∧
        path = g.impactPath edge.fromID ((edge :: rest).map Edge.turned) := by
  have walks : turnedMap
      (g.forwardWalk types g.nodes.length (ForwardWalk.start origin)).predecessor =
        ((g.turned free).finalWalk origin types).successor :=
    congrArg Walk.successor (turned_forwardWalk g types g.nodes.length (ForwardWalk.start origin))
  have traced : ∀ {edge rest}, IsLeast (g.turned free) types origin (edge :: rest) →
      Tables.traceBack (g.forwardWalk types g.nodes.length (ForwardWalk.start origin)).predecessor
        origin g.nodes.length edge.fromID = (edge :: rest).map Edge.turned := by
    intro edge rest least
    have turnedBack := traceEdges_of_isLeast (g.turned free) existing least
      (le_of_lt (length_lt_of_isLeast (g.turned free) existing least))
    rw [← walks] at turnedBack
    have forwards := (map_turned_traceBack _ origin g.nodes.length edge.fromID).trans turnedBack
    rw [← forwards, List.map_map]
    simp [Function.comp_def]
  rw [Tables.evidencePaths, existing]
  dsimp only
  rw [List.mem_map]
  constructor
  · rintro ⟨targetID, member, rfl⟩
    rw [List.mem_insertionSort, ← keys_turnedMap, walks, Go.Map.mem_keys] at member
    obtain ⟨edge, found⟩ := member
    obtain ⟨rfl, rest, least⟩ := (successor_finalWalk_iff (g.turned free) existing).mp found
    exact ⟨edge, rest, least, by rw [traced least]⟩
  · rintro ⟨edge, rest, least, rfl⟩
    refine ⟨edge.fromID, ?_, by rw [traced least]⟩
    rw [List.mem_insertionSort, ← keys_turnedMap, walks, Go.Map.mem_keys]
    exact ⟨edge, (successor_finalWalk_iff (g.turned free) existing).mpr ⟨rfl, rest, least⟩⟩

end Forward

/-- A trail from one node to another over edges that can be used. -/
def Trail (usable : Edge → Prop) : Bytes → List Edge → Bytes → Prop
  | x, [], y => x = y
  | x, edge :: rest, y => usable edge ∧ edge.fromID = x ∧ Trail usable edge.toID rest y

variable {usable : Edge → Prop} {x y : Bytes}

theorem trail_concat :
    Trail usable x (edges ++ [edge]) y ↔
      Trail usable x edges edge.fromID ∧ usable edge ∧ edge.toID = y := by
  induction edges generalizing x with
  | nil =>
      constructor
      · rintro ⟨use, leaves, enters⟩
        exact ⟨leaves.symm, use, enters⟩
      · rintro ⟨leaves, use, enters⟩
        exact ⟨use, leaves.symm, enters⟩
  | cons first rest ih =>
      simp only [List.cons_append, Trail, ih, and_assoc]

theorem Trail.start_eq (trail : Trail usable x edges y) :
    x = Breadth.tip y Edge.fromID edges := by
  cases edges with
  | nil => exact trail
  | cons edge rest => exact trail.2.1.symm

theorem trail_turned_iff :
    Trail (fun edge => usable edge.turned) y (edges.map Edge.turned).reverse x ↔
      Trail usable x edges y := by
  induction edges generalizing x with
  | nil => exact eq_comm
  | cons edge rest ih =>
      rw [List.map_cons, List.reverse_cons, trail_concat]
      constructor
      · rintro ⟨back, use, enters⟩
        exact ⟨use, enters, ih.mp back⟩
      · rintro ⟨use, leaves, later⟩
        exact ⟨ih.mpr later, use, leaves⟩

theorem Trail.replace {replacing : Edge → Prop}
    (replaces : ∀ edge, usable edge →
      ∃ other, replacing other ∧ other.fromID = edge.fromID ∧ other.toID = edge.toID)
    (trail : Trail usable x edges y) :
    ∃ others, others.length = edges.length ∧ Trail replacing x others y := by
  induction edges generalizing x with
  | nil => exact ⟨[], rfl, trail⟩
  | cons edge rest ih =>
      obtain ⟨use, leaves, later⟩ := trail
      obtain ⟨other, otherUse, otherLeaves, otherEnters⟩ := replaces edge use
      obtain ⟨others, lengths, otherLater⟩ := ih later
      refine ⟨other :: others, congrArg Nat.succ lengths, otherUse, otherLeaves.trans leaves, ?_⟩
      rwa [otherEnters]

/-- An edge of the graph that a walk can follow. -/
structure Stored (g : Graph) (types : List EdgeType) (edge : Edge) : Prop where
  listed : edge ∈ g.edges
  impact : allows types edge.type = true
  leaves : (g.nodes.lookup edge.fromID).isSome = true
  enters : (g.nodes.lookup edge.toID).isSome = true

theorem isPath_iff_trail {types : List EdgeType} {goal : Bytes}
    (existing : (g.nodes.lookup goal).isSome = true) {path : List Edge} :
    IsPath g types goal path ↔
      Trail (Stored g types) (Breadth.tip goal Edge.fromID path) path goal := by
  induction path with
  | nil => exact ⟨fun _ => rfl, fun _ => trivial⟩
  | cons edge rest ih =>
      constructor
      · rintro ⟨listed, impact, leaves, enters, later⟩
        have reached : (g.nodes.lookup (Breadth.tip goal Edge.fromID rest)).isSome = true := by
          cases rest with
          | nil => exact existing
          | cons next others => exact later.2.2.1
        refine ⟨⟨listed, impact, leaves, enters ▸ reached⟩, rfl, ?_⟩
        rw [enters]
        exact ih.mp later
      · rintro ⟨stored, -, later⟩
        have enters := later.start_eq
        refine ⟨stored.listed, stored.impact, stored.leaves, enters, ?_⟩
        rw [enters] at later
        exact ih.mpr later

theorem stored_turned_iff (free : ∀ edge ∈ g.edges, edge.BarFree) {types : List EdgeType} :
    Stored (g.turned free) types edge ↔ Stored g types edge.turned := by
  have listed : edge ∈ (g.turned free).edges ↔ edge.turned ∈ g.edges := by
    constructor
    · intro member
      obtain ⟨other, otherMember, rfl⟩ := List.mem_map.mp member
      exact otherMember
    · intro member
      exact List.mem_map.mpr ⟨_, member, edge.turned_turned⟩
  constructor
  · rintro ⟨member, impact, leaves, enters⟩
    exact ⟨listed.mp member, impact, enters, leaves⟩
  · rintro ⟨member, impact, leaves, enters⟩
    exact ⟨listed.mpr member, impact, enters, leaves⟩

theorem trail_iff_isPath_turned (free : ∀ edge ∈ g.edges, edge.BarFree) {types : List EdgeType}
    (existing : (g.nodes.lookup x).isSome = true) :
    Trail (Stored g types) x edges y ↔
      IsPath (g.turned free) types x (edges.map Edge.turned).reverse ∧
        Breadth.tip x Edge.fromID (edges.map Edge.turned).reverse = y := by
  have usable : (fun edge => Stored g types edge.turned) = Stored (g.turned free) types := by
    funext edge
    rw [stored_turned_iff]
  rw [isPath_iff_trail (g.turned free) existing, ← trail_turned_iff, usable]
  constructor
  · intro trail
    have start := trail.start_eq
    exact ⟨start ▸ trail, start.symm⟩
  · rintro ⟨trail, rfl⟩
    exact trail

theorem turned_reverse_twice (path : List Edge) :
    ((path.map Edge.turned).reverse.map Edge.turned).reverse = path := by
  simp [Function.comp_def]

theorem exists_isLeast {types : List EdgeType} {goal : Bytes} {target : Node}
    (existing : g.nodes.lookup goal = some target) {path : List Edge}
    (leads : IsPath g types goal path) :
    ∃ least, IsLeast g types goal least ∧
      Breadth.tip goal Edge.fromID least = Breadth.tip goal Edge.fromID path := by
  have explored : Breadth.Explored goal Edge.fromID (links g.toTables types) _ _ :=
    explored_knownRoutes g existing
  obtain ⟨known, member, ends, -⟩ := explored.exists_le ((isPath_iff g).mp leads)
  exact ⟨known, (mem_knownRoutes_iff g existing).mp member, ends⟩

theorem lookup_node {id : Bytes} (existing : (g.nodes.lookup id).isSome = true) :
    g.nodes.lookup id = some (g.node id) ∧ (g.node id).id = id := by
  obtain ⟨node, found⟩ := Option.isSome_iff_exists.mp existing
  rw [Tables.node, found]
  exact ⟨rfl, g.consistent.keyed found⟩

theorem Trail.isSome_end {g : Graph} {types : List EdgeType}
    (trail : Trail (Stored g types) x edges y) (existing : (g.nodes.lookup x).isSome = true) :
    (g.nodes.lookup y).isSome = true := by
  induction edges generalizing x with
  | nil => exact trail ▸ existing
  | cons edge rest ih => exact ih trail.2.2 trail.1.enters

theorem Trail.nodes_eq {g : Tables} (trail : Trail usable x edges y) :
    (edges.map fun edge => g.node edge.fromID) ++ [g.node y] =
      g.node x :: edges.map fun edge => g.node edge.toID := by
  induction edges generalizing x with
  | nil =>
      cases trail
      rfl
  | cons edge rest ih =>
      rw [List.map_cons, List.cons_append, ih trail.2.2, trail.2.1, List.map_cons]

/-- An evidence path from a node: a shortest trail to another existing node. -/
structure Leads (g : Graph) (types : List EdgeType) (origin : Bytes) (path : EvidencePath) :
    Prop where
  found : g.nodes.lookup path.target.id = some path.target
  elsewhere : path.target.id ≠ origin
  trail : Trail (Stored g types) origin path.edges path.target.id
  nodes : path.nodes = g.node origin :: path.edges.map fun edge => g.node edge.toID
  shortest : ∀ others, Trail (Stored g types) origin others path.target.id →
    path.edges.length ≤ others.length

section Found

variable (g : Graph) {types : List EdgeType} {x y : Bytes}

theorem leads_of_mem_evidencePaths (free : ∀ edge ∈ g.edges, edge.BarFree)
    (existing : (g.nodes.lookup x).isSome = true) {path : EvidencePath}
    (member : path ∈ g.evidencePaths x types) :
    Leads g types x path := by
  obtain ⟨node, found⟩ := Option.isSome_iff_exists.mp existing
  obtain ⟨edge, rest, least, rfl⟩ := (mem_evidencePaths_iff g free found).mp member
  have trail : Trail (Stored g types) x ((edge :: rest).map Edge.turned).reverse edge.fromID := by
    rw [trail_iff_isPath_turned g free existing, turned_reverse_twice]
    exact ⟨least.1, rfl⟩
  have target := lookup_node g (trail.isSome_end existing)
  have named : (g.impactPath edge.fromID ((edge :: rest).map Edge.turned)).target.id =
      edge.fromID := target.2
  refine
    { found := ?_
      elsewhere := ?_
      trail := ?_
      nodes := ?_
      shortest := ?_ }
  · rw [named]
    exact target.1
  · rw [named]
    exact least.away
  · rw [named]
    exact trail
  · refine Eq.trans ?_ trail.nodes_eq
    rw [Tables.impactPath, List.reverse_cons, List.map_reverse]
  · rw [named]
    intro others otherTrail
    obtain ⟨leads, ends⟩ := (trail_iff_isPath_turned g free existing).mp otherTrail
    have shorter := Breadth.length_le_of_rank_le (least.2 _ leads ends)
    simpa [Tables.impactPath] using shorter

theorem exists_evidencePath (free : ∀ edge ∈ g.edges, edge.BarFree)
    (existing : (g.nodes.lookup x).isSome = true) (elsewhere : y ≠ x) {edges : List Edge}
    (trail : Trail (Stored g types) x edges y) :
    ∃ path ∈ g.evidencePaths x types, path.target = g.node y := by
  obtain ⟨node, found⟩ := Option.isSome_iff_exists.mp existing
  obtain ⟨leads, ends⟩ := (trail_iff_isPath_turned g free existing).mp trail
  obtain ⟨least, isLeast, sameEnds⟩ := exists_isLeast (g.turned free) found leads
  have reaches := sameEnds.trans ends
  cases least with
  | nil => exact absurd reaches.symm elsewhere
  | cons edge rest =>
      refine ⟨_, (mem_evidencePaths_iff g free found).mpr ⟨edge, rest, isLeast, rfl⟩, ?_⟩
      exact congrArg g.node reaches

theorem exists_target_iff (free : ∀ edge ∈ g.edges, edge.BarFree) :
    (∃ path ∈ g.evidencePaths x types, path.target.id = y) ↔
      (g.nodes.lookup x).isSome = true ∧ y ≠ x ∧
        ∃ edges, Trail (Stored g types) x edges y := by
  by_cases existing : (g.nodes.lookup x).isSome = true
  · constructor
    · rintro ⟨path, member, rfl⟩
      have leads := leads_of_mem_evidencePaths g free existing member
      exact ⟨existing, leads.elsewhere, path.edges, leads.trail⟩
    · rintro ⟨-, elsewhere, edges, trail⟩
      obtain ⟨path, member, target⟩ := exists_evidencePath g free existing elsewhere trail
      exact ⟨path, member, target ▸ (lookup_node g (trail.isSome_end existing)).2⟩
  · have missing : g.nodes.lookup x = none := Option.not_isSome_iff_eq_none.mp existing
    constructor
    · rintro ⟨path, member, -⟩
      rw [Tables.evidencePaths, missing] at member
      cases member
    · exact fun reached => absurd reached.1 existing

/-- The nodes that `ReverseEvidencePaths` finds to a node. -/
theorem exists_source_iff :
    (∃ path ∈ g.reverseEvidencePaths y types, (Tables.reacher path).id = x) ↔
      (g.nodes.lookup x).isSome = true ∧ y ≠ x ∧
        ∃ edges, Trail (Stored g types) x edges y := by
  by_cases existing : (g.nodes.lookup y).isSome = true
  · obtain ⟨target, found⟩ := Option.isSome_iff_exists.mp existing
    constructor
    · rintro ⟨path, member, rfl⟩
      obtain ⟨edge, rest, least, rfl⟩ := (mem_reverseEvidencePaths_iff g found).mp member
      have trail := (isPath_iff_trail g existing).mp least.1
      have leaves := least.1.2.2.1
      have named : (Tables.reacher (g.evidencePath target edge.fromID (edge :: rest))).id =
          edge.fromID := (lookup_node g leaves).2
      rw [named]
      exact ⟨leaves, least.away.symm, edge :: rest, trail⟩
    · rintro ⟨exists_x, elsewhere, edges, trail⟩
      have start := trail.start_eq
      rw [start] at trail
      obtain ⟨least, isLeast, ends⟩ :=
        exists_isLeast g found ((isPath_iff_trail g existing).mpr trail)
      have reaches := ends.trans start.symm
      cases least with
      | nil => exact absurd reaches elsewhere
      | cons edge rest =>
          refine ⟨_, (mem_reverseEvidencePaths_iff g found).mpr ⟨edge, rest, isLeast, rfl⟩, ?_⟩
          change (g.node edge.fromID).id = x
          rw [show edge.fromID = x from reaches]
          exact (lookup_node g exists_x).2
  · have missing : g.nodes.lookup y = none := Option.not_isSome_iff_eq_none.mp existing
    constructor
    · rintro ⟨path, member, -⟩
      rw [Tables.reverseEvidencePaths, missing] at member
      cases member
    · rintro ⟨exists_x, -, edges, trail⟩
      exact absurd (trail.isSome_end exists_x) existing

end Found

/-- A call that adds to a graph. -/
inductive Addition where
  | addNode (added : Node)
  | addEdge (added : Edge)

/-- The graph after a call. -/
def Addition.apply (g : Graph) : Addition → Graph
  | .addNode node => g.addNode node
  | .addEdge edge => g.addEdge edge

/-- The graph after a sequence of calls of `AddNode` and `AddEdge`. -/
def build (additions : List Addition) : Graph :=
  additions.foldl Addition.apply new

/-- The ids in a call do not contain the separator. -/
def Addition.BarFree : Addition → Prop
  | .addNode node => bar ∉ node.id
  | .addEdge edge => edge.BarFree

/-- A node with the id has been added. -/
def Existing (additions : List Addition) (id : Bytes) : Prop :=
  ∃ node, .addNode node ∈ additions ∧ node.id = id

/-- An added impact edge between existing nodes. -/
structure Usable (additions : List Addition) (types : List EdgeType) (edge : Edge) : Prop where
  added : .addEdge edge ∈ additions
  impact : allows types edge.type = true
  leaves : Existing additions edge.fromID
  enters : Existing additions edge.toID

variable (additions : List Addition)

theorem build_concat (last : Addition) :
    build (additions ++ [last]) = last.apply (build additions) := by
  rw [build, List.foldl_append]
  rfl

theorem addEdge_cases (edge : Edge) :
    (g.addEdge edge).nodes = g.nodes ∧
      ((∃ stored ∈ g.edges, stored.key = edge.key) ∧ (g.addEdge edge).edges = g.edges ∨
        (g.addEdge edge).edges = g.edges ++ [edge]) := by
  change (g.toTables.addEdge edge).nodes = g.nodes ∧
    (_ ∧ (g.toTables.addEdge edge).edges = g.edges ∨
      (g.toTables.addEdge edge).edges = g.edges ++ [edge])
  rw [Tables.addEdge]
  split
  · rename_i seen
    exact ⟨rfl, .inl ⟨(g.consistent.known edge.key).mp seen, rfl⟩⟩
  · exact ⟨rfl, .inr rfl⟩

theorem isSome_lookup_build_iff (id : Bytes) :
    ((build additions).nodes.lookup id).isSome = true ↔ Existing additions id := by
  induction additions using List.reverseRecOn with
  | nil => simp [build, new, Tables.new, Existing]
  | append_singleton additions last ih =>
      rw [build_concat]
      simp only [Existing, List.mem_append, List.mem_singleton]
      cases last with
      | addNode node =>
          change (((build additions).nodes.set node.id node).lookup id).isSome = true ↔ _
          rw [MapOf.lookup_set]
          by_cases same : id = node.id
          · rw [if_pos same]
            exact ⟨fun _ => ⟨node, .inr rfl, same.symm⟩, fun _ => rfl⟩
          · rw [if_neg same, ih]
            constructor
            · rintro ⟨other, member, named⟩
              exact ⟨other, .inl member, named⟩
            · rintro ⟨other, member | last, named⟩
              · exact ⟨other, member, named⟩
              · cases last
                exact absurd named.symm same
      | addEdge edge =>
          change ((((build additions).addEdge edge).nodes).lookup id).isSome = true ↔ _
          rw [(addEdge_cases (build additions) edge).1, ih]
          simp [Existing]

theorem added_of_mem_edges (listed : edge ∈ (build additions).edges) :
    .addEdge edge ∈ additions := by
  induction additions using List.reverseRecOn with
  | nil => cases listed
  | append_singleton additions last ih =>
      rw [build_concat] at listed
      cases last with
      | addNode node => exact List.mem_append_left _ (ih listed)
      | addEdge added =>
          change edge ∈ ((build additions).addEdge added).edges at listed
          rcases (addEdge_cases (build additions) added).2 with ⟨-, kept⟩ | grown
          · rw [kept] at listed
            exact List.mem_append_left _ (ih listed)
          · rw [grown, List.mem_append, List.mem_singleton] at listed
            rcases listed with earlier | rfl
            · exact List.mem_append_left _ (ih earlier)
            · exact List.mem_append_right _ List.mem_cons_self

theorem exists_mem_edges_of_added (added : .addEdge edge ∈ additions) :
    ∃ stored ∈ (build additions).edges, stored.key = edge.key := by
  induction additions using List.reverseRecOn with
  | nil => cases added
  | append_singleton additions last ih =>
      rw [build_concat]
      have kept : ∀ {other : Edge}, other ∈ (build additions).edges →
          other ∈ (last.apply (build additions)).edges := by
        intro other listed
        cases last with
        | addNode node => exact listed
        | addEdge next =>
            change other ∈ ((build additions).addEdge next).edges
            rcases (addEdge_cases (build additions) next).2 with ⟨-, kept⟩ | grown
            · rwa [kept]
            · rw [grown]
              exact List.mem_append_left _ listed
      rcases List.mem_append.mp added with earlier | latest
      · obtain ⟨stored, listed, keys⟩ := ih earlier
        exact ⟨stored, kept listed, keys⟩
      · obtain rfl := List.mem_singleton.mp latest
        rcases (addEdge_cases (build additions) edge).2 with ⟨⟨stored, listed, keys⟩, -⟩ | grown
        · exact ⟨stored, kept listed, keys⟩
        · refine ⟨edge, ?_, rfl⟩
          change edge ∈ ((build additions).addEdge edge).edges
          rw [grown]
          exact List.mem_append_right _ List.mem_cons_self

section Built

variable {additions : List Addition} (free : ∀ addition ∈ additions, addition.BarFree)

include free

theorem barFree_edges : ∀ edge ∈ (build additions).edges, edge.BarFree :=
  fun edge listed => free (.addEdge edge) (added_of_mem_edges additions listed)

omit free in
theorem usable_of_stored {types : List EdgeType} {edge : Edge}
    (stored : Stored (build additions) types edge) :
    Usable additions types edge where
  added := added_of_mem_edges additions stored.listed
  impact := stored.impact
  leaves := (isSome_lookup_build_iff additions _).mp stored.leaves
  enters := (isSome_lookup_build_iff additions _).mp stored.enters

theorem exists_stored_of_usable {types : List EdgeType} {edge : Edge}
    (usable : Usable additions types edge) :
    ∃ stored, Stored (build additions) types stored ∧ stored.fromID = edge.fromID ∧
      stored.toID = edge.toID := by
  obtain ⟨stored, listed, keys⟩ := exists_mem_edges_of_added additions usable.added
  obtain ⟨leaves, type, enters⟩ := (barFree_edges free stored listed).ends_of_key_eq
    (free (.addEdge edge) usable.added) keys
  refine ⟨stored, ⟨listed, type ▸ usable.impact, ?_, ?_⟩, leaves, enters⟩
  · exact leaves ▸ (isSome_lookup_build_iff additions _).mpr usable.leaves
  · exact enters ▸ (isSome_lookup_build_iff additions _).mpr usable.enters

theorem exists_storedTrail {types : List EdgeType} {x y : Bytes} {edges : List Edge}
    (trail : Trail (Usable additions types) x edges y) :
    ∃ others, others.length = edges.length ∧
      Trail (Stored (build additions) types) x others y :=
  trail.replace fun _ => exists_stored_of_usable free

omit free in
theorem usableTrail {types : List EdgeType} {x y : Bytes} {edges : List Edge}
    (trail : Trail (Stored (build additions) types) x edges y) :
    Trail (Usable additions types) x edges y := by
  induction edges generalizing x with
  | nil => exact trail
  | cons edge rest ih =>
      exact ⟨usable_of_stored trail.1, trail.2.1, ih trail.2.2⟩

/-- The evidence paths of a built graph: they lead to the other existing nodes that
added impact edges lead to, along shortest trails, and a node finds those from
which it is found. -/
theorem evidencePaths_exact_of_built
    (types : List EdgeType)
    (origin : Bytes)
    (existing : Existing additions origin) :
    (∀ node, (∃ path ∈ (build additions).evidencePaths origin types, path.target = node) ↔
      (build additions).nodes.lookup node.id = some node ∧ node.id ≠ origin ∧
        ∃ edges, Trail (Usable additions types) origin edges node.id) ∧
    (∀ path ∈ (build additions).evidencePaths origin types,
      Trail (Usable additions types) origin path.edges path.target.id ∧
        path.nodes = (build additions).node origin ::
          path.edges.map (fun edge => (build additions).node edge.toID) ∧
        ∀ others, Trail (Usable additions types) origin others path.target.id →
          path.edges.length ≤ others.length) ∧
    ∀ x y, (∃ path ∈ (build additions).reverseEvidencePaths y types,
        (Tables.reacher path).id = x) ↔
      ∃ path ∈ (build additions).evidencePaths x types, path.target.id = y := by
  have edgesFree := barFree_edges free
  have exists_origin := (isSome_lookup_build_iff additions origin).mpr existing
  refine ⟨?_, ?_, ?_⟩
  · intro node
    constructor
    · rintro ⟨path, member, rfl⟩
      have leads := leads_of_mem_evidencePaths _ edgesFree exists_origin member
      exact ⟨leads.found, leads.elsewhere, path.edges, usableTrail leads.trail⟩
    · rintro ⟨found, elsewhere, edges, trail⟩
      obtain ⟨others, -, storedTrail⟩ := exists_storedTrail free trail
      obtain ⟨path, member, target⟩ :=
        exists_evidencePath _ edgesFree exists_origin elsewhere storedTrail
      refine ⟨path, member, target.trans ?_⟩
      rw [Tables.node, found, Option.getD_some]
  · intro path member
    have leads := leads_of_mem_evidencePaths _ edgesFree exists_origin member
    refine ⟨usableTrail leads.trail, leads.nodes, fun others trail => ?_⟩
    obtain ⟨stored, lengths, storedTrail⟩ := exists_storedTrail free trail
    rw [← lengths]
    exact leads.shortest stored storedTrail
  · intro x y
    rw [exists_source_iff, exists_target_iff _ edgesFree]

end Built

/-- Three nodes, a detour and a direct edge that is added twice, and an edge to a node
that does not exist. -/
def detourAdditions : List Addition :=
  [.addNode ⟨bytes "a", [], [], []⟩, .addNode ⟨bytes "b", [], [], []⟩,
    .addNode ⟨bytes "c", [], [], []⟩,
    .addEdge ⟨bytes "a", bytes "b", edgeOwns, [], []⟩,
    .addEdge ⟨bytes "b", bytes "c", edgeOwns, [], []⟩,
    .addEdge ⟨bytes "a", bytes "c", edgeHolds, bytes "scan", []⟩,
    .addEdge ⟨bytes "a", bytes "c", edgeHolds, bytes "import", []⟩,
    .addEdge ⟨bytes "c", bytes "d", edgeOwns, [], []⟩]

/-- The evidence paths take the direct edge. -/
theorem evidencePaths_exact_of_detour :
    ((build detourAdditions).evidencePaths (bytes "a") []).map
        (fun path => (path.target.id, path.edges.length)) = [(bytes "b", 1), (bytes "c", 1)] ∧
      ∀ path ∈ (build detourAdditions).evidencePaths (bytes "a") [],
        ∀ others, Trail (Usable detourAdditions []) (bytes "a") others path.target.id →
          path.edges.length ≤ others.length := by
  have free : ∀ addition ∈ detourAdditions, addition.BarFree := by
    simp only [detourAdditions, List.forall_mem_cons, Addition.BarFree]
    refine ⟨?_, ?_, ?_, ⟨?_, ?_⟩, ⟨?_, ?_⟩, ⟨?_, ?_⟩, ⟨?_, ?_⟩, ⟨?_, ?_⟩, nofun⟩ <;> decide +kernel
  have existing : Existing detourAdditions (bytes "a") :=
    ⟨⟨bytes "a", [], [], []⟩, List.mem_cons_self, rfl⟩
  have spec := evidencePaths_exact_of_built free [] (bytes "a") existing
  exact ⟨by decide +kernel, fun path member => (spec.2.1 path member).2.2⟩

end Graph
end Trstctl
