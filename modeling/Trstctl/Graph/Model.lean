import Mathlib.Data.List.Sort
import Trstctl.Go.Encoding

/-!
# The credential graph and who can reach a node

An in-memory directed multigraph of the inventory.  Its adjacency lists are
kept beside the list of edges; that they list the same edges is part of the
type of a graph, so every graph is one that `AddNode` and `AddEdge` can make.
The reverse breadth-first walk over the impact edges leaves one evidence path
for every node that reaches the target, and the access grants are read off the
first edges of these paths.
-/

namespace Trstctl

open Go (Bytes bytes Map MapOf)

namespace Graph

abbrev NodeKind := Bytes

abbrev EdgeType := Bytes

def kindCredential : NodeKind := bytes "credential"

def edgeGrantsAccess : EdgeType := bytes "GRANTS_ACCESS"

def edgeOwns : EdgeType := bytes "OWNS"

def edgeHolds : EdgeType := bytes "HOLDS"

def edgeTrustCandidate : EdgeType := bytes "UNVERIFIED_TRUST_CANDIDATE"

def edgeApproved : EdgeType := bytes "APPROVED"

structure Node where
  id : Bytes
  kind : NodeKind
  name : Bytes
  attrs : Map Bytes
  deriving DecidableEq

/-- The node that a lookup of an unknown key gives. -/
def Node.zero : Node := ⟨[], [], [], []⟩

structure Edge where
  fromID : Bytes
  toID : Bytes
  type : EdgeType
  source : Bytes
  confidence : Bytes
  deriving DecidableEq

/-- The key under which an edge is known to be there. -/
def Edge.key (edge : Edge) : Bytes :=
  edge.fromID ++ bytes "|" ++ edge.type ++ bytes "|" ++ edge.toID

/-- The tables of a graph: the nodes by their ids, the edges by either end, the
edges in the order of insertion and the keys of the edges. -/
structure Tables where
  nodes : Map Node
  out : Map (List Edge)
  «in» : Map (List Edge)
  edges : List Edge
  seen : Map Bool

/-- `g.out[id]`. -/
def Tables.outOf (tables : Tables) (id : Bytes) : List Edge :=
  (tables.out.lookup id).getD []

/-- `g.in[id]`. -/
def Tables.inOf (tables : Tables) (id : Bytes) : List Edge :=
  (tables.in.lookup id).getD []

/-- The tables hold the same nodes and edges. -/
structure Tables.Consistent (tables : Tables) : Prop where
  distinct : (tables.nodes.map Prod.fst).Nodup
  keyed : ∀ {id node}, tables.nodes.lookup id = some node → node.id = id
  outgoing : ∀ id, tables.outOf id = tables.edges.filter fun edge => edge.fromID = id
  incoming : ∀ id, tables.inOf id = tables.edges.filter fun edge => edge.toID = id
  known : ∀ key, (tables.seen.lookup key).getD false = true ↔
    ∃ edge ∈ tables.edges, edge.key = key
  single : (tables.edges.map Edge.key).Nodup

end Graph

/-- `Graph`: consistent tables. -/
structure Graph extends Graph.Tables where
  consistent : toTables.Consistent

namespace Graph

/-- The tables of `New`. -/
def Tables.new : Tables := ⟨[], [], [], [], []⟩

theorem consistent_new : Tables.new.Consistent where
  distinct := List.nodup_nil
  keyed := fun found => by cases found
  outgoing := fun _ => rfl
  incoming := fun _ => rfl
  known := fun _ => by simp [Tables.new]
  single := List.nodup_nil

def new : Graph where
  toTables := Tables.new
  consistent := consistent_new

/-- What `AddNode` does to the tables. -/
def Tables.addNode (tables : Tables) (node : Node) : Tables :=
  { tables with nodes := tables.nodes.set node.id node }

theorem Tables.Consistent.addNode {tables : Tables} (consistent : tables.Consistent) (node : Node) :
    (tables.addNode node).Consistent where
  distinct := MapOf.nodup_set _ _ consistent.distinct
  keyed := by
    intro id found lookup
    rw [Tables.addNode, MapOf.lookup_set] at lookup
    split at lookup
    · rename_i same
      rw [← Option.some.inj lookup, same]
    · exact consistent.keyed lookup
  outgoing := consistent.outgoing
  incoming := consistent.incoming
  known := consistent.known
  single := consistent.single

def addNode (graph : Graph) (node : Node) : Graph where
  toTables := graph.toTables.addNode node
  consistent := graph.consistent.addNode node

/-- What `AddEdge` does to the tables. -/
def Tables.addEdge (tables : Tables) (edge : Edge) : Tables :=
  if (tables.seen.lookup edge.key).getD false then tables
  else
    { tables with
      seen := tables.seen.set edge.key true
      edges := tables.edges ++ [edge]
      out := tables.out.set edge.fromID (tables.outOf edge.fromID ++ [edge])
      «in» := tables.in.set edge.toID (tables.inOf edge.toID ++ [edge]) }

theorem Tables.Consistent.addEdge {tables : Tables} (consistent : tables.Consistent) (edge : Edge) :
    (tables.addEdge edge).Consistent := by
  unfold Tables.addEdge
  split
  · exact consistent
  · rename_i unseen
    rw [Bool.not_eq_true, Bool.eq_false_iff, ne_eq, consistent.known] at unseen
    refine
      { distinct := consistent.distinct
        keyed := consistent.keyed
        outgoing := fun id => ?_
        incoming := fun id => ?_
        known := fun key => ?_
        single := ?_ }
    · rw [Tables.outOf, MapOf.lookup_set, List.filter_append, ← consistent.outgoing]
      by_cases same : id = edge.fromID
      · simp [same]
      · simp [same, Ne.symm same, Tables.outOf]
    · rw [Tables.inOf, MapOf.lookup_set, List.filter_append, ← consistent.incoming]
      by_cases same : id = edge.toID
      · simp [same]
      · simp [same, Ne.symm same, Tables.inOf]
    · rw [MapOf.lookup_set]
      by_cases same : key = edge.key
      · simp [same]
      · simp [same, Ne.symm same, consistent.known]
    · rw [List.map_append, List.map_singleton]
      refine List.Nodup.append consistent.single (List.nodup_singleton _) ?_
      intro key listed again
      rw [List.mem_singleton.mp again] at listed
      exact unseen (List.mem_map.mp listed)

def addEdge (graph : Graph) (edge : Edge) : Graph where
  toTables := graph.toTables.addEdge edge
  consistent := graph.consistent.addEdge edge

/-- A lookup of a node with `g.nodes[id]`. -/
def Tables.node (tables : Tables) (id : Bytes) : Node :=
  (tables.nodes.lookup id).getD Node.zero

/-- `Graph.Nodes`: every node, sorted by ID. -/
def Tables.sortedNodes (tables : Tables) : List Node :=
  (tables.nodes.map Prod.snd).insertionSort fun first second => first.id ≤ second.id

/-- `allows`: an empty filter permits every authoritative impact type. -/
def allows (types : List EdgeType) (type : EdgeType) : Bool :=
  if types.isEmpty then type != edgeTrustCandidate && type != edgeApproved
  else types.contains type

structure EvidencePath where
  target : Node
  nodes : List Node
  edges : List Edge

structure AccessLink where
  node : Node
  edge : Edge

structure AccessGrant where
  credential : Node
  grant : Edge
  path : EvidencePath
  holders : List AccessLink
  approvers : List AccessLink

structure AccessCoverage where
  sources : List String
  notCovered : List String
  note : String

structure ReachersResult where
  target : Node
  reachers : List Node
  byKind : MapOf NodeKind (List Node)
  paths : List EvidencePath
  access : List AccessGrant
  coverage : AccessCoverage

def coverage : AccessCoverage where
  sources :=
    ["tenant members and their roles",
      "API tokens and machine sessions (access to the trstctl API)",
      "PAM sessions to databases and hosts, with the approvals they consumed",
      "dynamic-secret leases",
      "AI agents issued identities by the agent broker, who asked for each identity, and the " ++
        "tools its scopes name",
      "certificate issuance requests and who approved them",
      "the certificate, SSH key, deployment and discovery inventory",
      "selected AWS workload IAM policy models from verified native discovery runs, with " ++
        "imported evidence provenance",
      "natively verified AWS key absence and restrictive policy readback receipts over older " ++
        "captures"]
  notCovered :=
    ["permissions inside the target system (what a role can do once connected)",
      "who requested a dynamic-secret lease (leases do not record their holder)",
      "access granted outside trstctl except explicitly captured AWS permission checks",
      "native AWS enforcement, unmodeled permissions, current session state and complete cloud " ++
        "logging coverage"]
  note := "An empty or partial answer is not proof that nobody has access: it covers only " ++
    "access trstctl granted or observed."

def edgeLess (a b : Edge) : Bool :=
  if a.fromID ≠ b.fromID then a.fromID < b.fromID
  else if a.toID ≠ b.toID then a.toID < b.toID
  else if a.type ≠ b.type then a.type < b.type
  else if a.source ≠ b.source then a.source < b.source
  else a.confidence < b.confidence

/-- Edges in the order of `edgeLess`. -/
def sortEdges (edges : List Edge) : List Edge :=
  edges.insertionSort fun first second => edgeLess second first = false

/-- What the walk keeps: the nodes it has seen, those it has still to expand and
the edge on which each node goes on to the target. -/
structure Walk where
  visited : Map Bool
  queue : List Bytes
  successor : Map Edge

/-- `visited[id]`. -/
def Walk.sees (walk : Walk) (id : Bytes) : Bool :=
  (walk.visited.lookup id).getD false

/-- The walk before its first step. -/
def Walk.start (goal : Bytes) : Walk where
  visited := [(goal, true)]
  queue := [goal]
  successor := []

namespace Tables

/-- The body of the inner loop of `ReverseEvidencePaths`. -/
def visitEdge (g : Tables) (types : List EdgeType) (walk : Walk) (e : Edge) : Walk :=
  if !allows types e.type || walk.sees e.fromID then walk
  else if (g.nodes.lookup e.fromID).isNone then walk
  else
    { visited := walk.visited.set e.fromID true
      queue := walk.queue ++ [e.fromID]
      successor := walk.successor.set e.fromID e }

/-- One iteration of the outer loop, at the node taken from the queue. -/
def expandNode (g : Tables) (types : List EdgeType) (walk : Walk) (cur : Bytes) : Walk :=
  (sortEdges (g.inOf cur)).foldl (g.visitEdge types) walk

/-- The outer loop.  Every iteration takes a node from the queue and every node
is put there at most once, so the number of nodes bounds the iterations. -/
def reverseWalk (g : Tables) (types : List EdgeType) : Nat → Walk → Walk
  | 0, walk => walk
  | fuel + 1, walk =>
      match walk.queue with
      | [] => walk
      | cur :: rest =>
          g.reverseWalk types fuel (g.expandNode types { walk with queue := rest } cur)

/-- The edge that a lookup of an unknown node gives. -/
def zeroEdge : Edge := ⟨[], [], [], [], []⟩

/-- The edges of an evidence path, from a node along the successors. -/
def traceEdges (successor : Map Edge) (goal : Bytes) : Nat → Bytes → List Edge
  | 0, _ => []
  | fuel + 1, cursor =>
      if cursor = goal then []
      else
        let edge := (successor.lookup cursor).getD zeroEdge
        edge :: traceEdges successor goal fuel edge.toID

/-- The evidence path of a node with the given edges. -/
def evidencePath (g : Tables) (target : Node) (source : Bytes) (edges : List Edge) :
    EvidencePath where
  target := target
  nodes := g.node source :: edges.map fun edge => g.node edge.toID
  edges := edges

/-- The walk of `ReverseEvidencePaths` after its last step. -/
def finalWalk (g : Tables) (goal : Bytes) (types : List EdgeType) : Walk :=
  g.reverseWalk types g.nodes.length (Walk.start goal)

def reverseEvidencePaths (g : Tables) (goal : Bytes) (types : List EdgeType) : List EvidencePath :=
  match g.nodes.lookup goal with
  | none => []
  | some target =>
      let successor := (g.finalWalk goal types).successor
      (successor.keys.insertionSort (· ≤ ·)).map fun source =>
        g.evidencePath target source (traceEdges successor goal g.nodes.length source)

/-- The order of `incomingLinks`. -/
def linkLess (first second : AccessLink) : Bool :=
  if first.node.id ≠ second.node.id then first.node.id < second.node.id
  else edgeLess first.edge second.edge

def incomingLinks (g : Tables) (id : Bytes) (types : List EdgeType) : List AccessLink :=
  ((g.inOf id).filterMap fun e =>
    if allows types e.type then (g.nodes.lookup e.fromID).map fun node => ⟨node, e⟩
    else none).insertionSort fun first second => linkLess second first = false

/-- The access grant of a path, if it starts with one. -/
def accessGrant (g : Tables) (path : EvidencePath) : Option AccessGrant :=
  match path.nodes, path.edges with
  | reacher :: _, grant :: _ =>
      if reacher.kind ≠ kindCredential ∨ grant.type ≠ edgeGrantsAccess then none
      else
        some
          { credential := reacher
            grant := grant
            path := path
            holders := g.incomingLinks reacher.id [edgeHolds, edgeOwns]
            approvers := g.incomingLinks reacher.id [edgeApproved] }
  | _, _ => none

/-- The node at the start of a path. -/
def reacher (path : EvidencePath) : Node :=
  path.nodes.headD Node.zero

def groupByKind (nodes : List Node) : MapOf NodeKind (List Node) :=
  nodes.foldl (fun groups node =>
    groups.set node.kind ((groups.lookup node.kind).getD [] ++ [node])) []

def whoCanReach (g : Tables) (id : Bytes) : ReachersResult :=
  match g.nodes.lookup id with
  | none => ⟨Node.zero, [], [], [], [], coverage⟩
  | some target =>
      let paths := g.reverseEvidencePaths id []
      { target := target
        reachers := paths.map reacher
        byKind := groupByKind (paths.map reacher)
        paths := paths
        access := paths.filterMap g.accessGrant
        coverage := coverage }

end Tables
end Graph
end Trstctl
