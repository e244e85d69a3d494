import Trstctl.Graph.Model
import Trstctl.Library.Breadth

/-!
# The evidence paths are the least shortest paths

The reverse walk is a breadth-first search along the incoming impact edges in
the order of `edgeLess`.  The evidence path of a node is therefore its least
shortest path to the target, compared edge by edge from the target.
-/

namespace Trstctl

open Go (Bytes bytes Map MapOf)

namespace Graph

/-- The fields of an edge in the order in which `edgeLess` compares them. -/
def Edge.fields (edge : Edge) : List (List Nat) :=
  [edge.fromID, edge.toID, edge.type, edge.source, edge.confidence].map (List.map UInt8.toNat)

theorem Edge.fields_injective : Function.Injective Edge.fields := by
  intro first second same
  cases first
  cases second
  simpa [Edge.fields, Go.map_toNat_injective.eq_iff] using same

instance : LinearOrder Edge :=
  LinearOrder.lift' Edge.fields Edge.fields_injective

theorem cons_map_toNat_lt_iff {text other : Bytes} {rest more : List (List Nat)} :
    text.map UInt8.toNat :: rest < other.map UInt8.toNat :: more ↔
      if text ≠ other then text < other else rest < more := by
  rw [List.cons_lt_cons_iff, Go.map_toNat_lt_iff, Go.map_toNat_injective.eq_iff]
  split
  · rename_i different
    exact ⟨fun less => less.resolve_right fun same => different same.1, Or.inl⟩
  · rename_i same
    rw [not_not] at same
    simp [same]

theorem edgeLess_iff {first second : Edge} : edgeLess first second = true ↔ first < second := by
  change _ ↔ first.fields < second.fields
  simp only [Edge.fields, List.map_cons, List.map_nil, cons_map_toNat_lt_iff, edgeLess]
  (repeat' split) <;> simp_all

theorem edgeLess_eq_false_iff {first second : Edge} :
    edgeLess second first = false ↔ first ≤ second := by
  rw [← Bool.not_eq_true, edgeLess_iff, not_lt]

theorem sortEdges_eq (edges : List Edge) : sortEdges edges = edges.insertionSort (· ≤ ·) := by
  unfold sortEdges
  simp only [edgeLess_eq_false_iff]

/-- A path to a node over edges of the given types between existing nodes, the
edge at its start first. -/
def IsPath (g : Graph) (types : List EdgeType) (goal : Bytes) : List Edge → Prop
  | [] => True
  | edge :: rest =>
      edge ∈ g.edges ∧ allows types edge.type = true ∧
        (g.nodes.lookup edge.fromID).isSome = true ∧
        edge.toID = Breadth.tip goal Edge.fromID rest ∧ IsPath g types goal rest

/-- No path from the same node is shorter. -/
def IsShortest (g : Graph) (types : List EdgeType) (goal : Bytes) (path : List Edge) : Prop :=
  IsPath g types goal path ∧
    ∀ other, IsPath g types goal other →
      Breadth.tip goal Edge.fromID other = Breadth.tip goal Edge.fromID path →
        path.length ≤ other.length

/-- No path from the same node is shorter, or as short and smaller at the edge
nearest to the target at which they differ. -/
def IsLeast (g : Graph) (types : List EdgeType) (goal : Bytes) (path : List Edge) : Prop :=
  IsPath g types goal path ∧
    ∀ other, IsPath g types goal other →
      Breadth.tip goal Edge.fromID other = Breadth.tip goal Edge.fromID path →
        Breadth.rank path ≤ Breadth.rank other

/-- The edges on which a walk goes on from a node. -/
def links (g : Tables) (types : List EdgeType) (id : Bytes) : List Edge :=
  (sortEdges (g.inOf id)).filter fun edge =>
    allows types edge.type && (g.nodes.lookup edge.fromID).isSome

theorem mem_links (g : Graph) {types : List EdgeType} {id : Bytes} {edge : Edge} :
    edge ∈ links g.toTables types id ↔
      edge ∈ g.edges ∧ edge.toID = id ∧ allows types edge.type = true ∧
        (g.nodes.lookup edge.fromID).isSome = true := by
  rw [links, List.mem_filter, sortEdges_eq, List.mem_insertionSort, g.consistent.incoming,
    List.mem_filter, decide_eq_true_eq, Bool.and_eq_true, and_assoc]

theorem pairwise_links (g : Tables) (types : List EdgeType) (id : Bytes) :
    (links g types id).Pairwise (· ≤ ·) := by
  rw [links, sortEdges_eq]
  exact (List.pairwise_insertionSort (· ≤ ·) _).filter _

variable {goal : Bytes}

theorem isPath_iff (g : Graph) {types : List EdgeType} {path : List Edge} :
    IsPath g types goal path ↔
      Breadth.Route goal Edge.fromID (links g.toTables types) path := by
  induction path with
  | nil => exact ⟨fun _ => .nil, fun _ => trivial⟩
  | cons edge rest ih =>
      constructor
      · rintro ⟨member, allowed, exist, leads, path⟩
        exact .cons (ih.mp path)
          ((mem_links g).mpr ⟨member, leads, allowed, exist⟩)
      · intro route
        cases route with
        | cons route leads =>
            obtain ⟨member, leads, allowed, exist⟩ := (mem_links g).mp leads
            exact ⟨member, allowed, exist, leads, ih.mpr route⟩

/-- A walk has seen the ends of the known routes, has those from one place on in
its queue and keeps the last edge of each route. -/
structure Tracks (goal : Bytes) (walk : Walk) (order : List (List Edge)) (place : Nat) :
    Prop where
  queue : walk.queue = (order.drop place).map (Breadth.tip goal Edge.fromID)
  sees : ∀ id, walk.sees id = true ↔ id ∈ order.map (Breadth.tip goal Edge.fromID)
  successor : ∀ id edge, walk.successor.lookup id = some edge ↔
    edge.fromID = id ∧ ∃ route, edge :: route ∈ order

theorem tracks_start (goal : Bytes) : Tracks goal (Walk.start goal) [[]] 0 where
  queue := rfl
  sees := by
    intro id
    by_cases same : id = goal
    · simp [Walk.start, Walk.sees, same, Breadth.tip]
    · simp [Walk.start, Walk.sees, List.lookup_cons, same, beq_false_of_ne same, Breadth.tip]
  successor := by
    intro id edge
    simp [Walk.start]

variable {order : List (List Edge)}

/-- A visited edge is visited by the search when it leads on. -/
theorem Tracks.visitEdge {g : Tables} {types : List EdgeType} {walk : Walk} {place : Nat}
    (tracks : Tracks goal walk order place) (within : place ≤ order.length) (route : List Edge)
    (edge : Edge) :
    Tracks goal (g.visitEdge types walk edge)
      (if allows types edge.type && (g.nodes.lookup edge.fromID).isSome then
        Breadth.visit goal Edge.fromID route order edge
      else order) place := by
  unfold Tables.visitEdge Breadth.visit
  cases allowed : allows types edge.type with
  | false => simpa using tracks
  | true =>
      by_cases seen : edge.fromID ∈ order.map (Breadth.tip goal Edge.fromID)
      · have marked := (tracks.sees edge.fromID).mpr seen
        simpa [marked, seen] using tracks
      · have unmarked : walk.sees edge.fromID = false :=
          Bool.eq_false_iff.mpr (mt (tracks.sees edge.fromID).mp seen)
        cases known : g.nodes.lookup edge.fromID with
        | none => simpa [unmarked] using tracks
        | some node =>
            simp only [unmarked, seen, Bool.not_true, Bool.or_false, Bool.false_eq_true, if_false,
              Option.isNone_some, Option.isSome_some, Bool.and_self, if_true]
            refine ⟨?_, fun id => ?_, fun id other => ?_⟩
            · rw [List.drop_append_of_le_length within, List.map_append, tracks.queue]
              rfl
            · rw [Walk.sees, MapOf.lookup_set, List.map_append, List.mem_append]
              by_cases same : id = edge.fromID
              · simp [same, Breadth.tip]
              · have before := tracks.sees id
                rw [Walk.sees] at before
                rw [if_neg same, before]
                exact ⟨Or.inl, fun either =>
                  either.resolve_right fun last => same (List.mem_singleton.mp last)⟩
            · rw [MapOf.lookup_set]
              by_cases same : id = edge.fromID
              · rw [if_pos same, same]
                constructor
                · intro found
                  cases found
                  exact ⟨rfl, route, List.mem_append_right _ List.mem_cons_self⟩
                · rintro ⟨origin, rest, member⟩
                  rcases List.mem_append.mp member with earlier | last
                  · exact absurd (List.mem_map.mpr ⟨_, earlier, origin⟩) seen
                  · cases List.mem_singleton.mp last
                    rfl
              · rw [if_neg same, tracks.successor]
                constructor
                · rintro ⟨origin, rest, member⟩
                  exact ⟨origin, rest, List.mem_append_left _ member⟩
                · rintro ⟨origin, rest, member⟩
                  rcases List.mem_append.mp member with earlier | last
                  · exact ⟨origin, rest, earlier⟩
                  · cases List.mem_singleton.mp last
                    exact absurd origin.symm same

theorem Tracks.foldl_visitEdge {g : Tables} {types : List EdgeType} {walk : Walk} {place : Nat}
    (tracks : Tracks goal walk order place) (within : place ≤ order.length) (route : List Edge)
    (edges : List Edge) :
    Tracks goal (edges.foldl (g.visitEdge types) walk)
      ((edges.filter fun edge =>
        allows types edge.type && (g.nodes.lookup edge.fromID).isSome).foldl
          (Breadth.visit goal Edge.fromID route) order) place := by
  induction edges generalizing walk order with
  | nil => exact tracks
  | cons edge edges ih =>
      have step : Tracks goal (g.visitEdge types walk edge) _ place :=
        tracks.visitEdge within route edge
      rw [List.foldl_cons, List.filter_cons]
      split
      · rename_i leads
        rw [if_pos leads] at step
        exact ih step (within.trans (Breadth.length_le_visit _ _ _ _ _))
      · rename_i stays
        rw [if_neg stays] at step
        exact ih step within

theorem Tracks.expandNode
    {g : Tables} {types : List EdgeType} {walk : Walk} {place : Nat} {route : List Edge}
    (tracks : Tracks goal walk order (place + 1)) (current : order[place]? = some route) :
    Tracks goal (g.expandNode types walk (Breadth.tip goal Edge.fromID route))
      (Breadth.expand goal Edge.fromID (links g types) route order) (place + 1) :=
  tracks.foldl_visitEdge (List.getElem?_eq_some_iff.mp current).1 route _

theorem Tracks.reverseWalk {g : Tables} {types : List EdgeType} {walk : Walk} {place : Nat}
    (tracks : Tracks goal walk order place) (fuel : Nat) :
    ∃ last, Tracks goal (g.reverseWalk types fuel walk)
      (Breadth.walk goal Edge.fromID (links g types) fuel place order) last := by
  induction fuel generalizing walk order place with
  | zero => exact ⟨place, tracks⟩
  | succ fuel ih =>
      rw [Tables.reverseWalk, Breadth.walk]
      have queue := tracks.queue
      cases current : order[place]? with
      | none =>
          rw [List.drop_eq_nil_of_le (List.getElem?_eq_none_iff.mp current)] at queue
          rw [queue]
          exact ⟨place, tracks⟩
      | some route =>
          obtain ⟨within, route_eq⟩ := List.getElem?_eq_some_iff.mp current
          rw [List.drop_eq_getElem_cons within, route_eq, List.map_cons] at queue
          rw [queue]
          refine ih (Tracks.expandNode ?_ current)
          exact ⟨rfl, tracks.sees, tracks.successor⟩

/-- The known routes after the walk to a node. -/
def knownRoutes (g : Tables) (types : List EdgeType) (goal : Bytes) : List (List Edge) :=
  Breadth.walk goal Edge.fromID (links g types) g.nodes.length 0 [[]]

theorem IsLeast.away {g : Graph} {types : List EdgeType} {edge : Edge} {rest : List Edge}
    (least : IsLeast g types goal (edge :: rest)) :
    edge.fromID ≠ goal := by
  intro same
  have shorter := Breadth.length_le_of_rank_le (least.2 [] trivial same.symm)
  exact absurd shorter (Nat.not_succ_le_zero _)

section Known

variable (g : Graph) {types : List EdgeType} {goal : Bytes} {target : Node}
  (existing : g.nodes.lookup goal = some target)

include existing

omit existing in
theorem fromID_mem_keys {id : Bytes} {edge : Edge} (leads : edge ∈ links g.toTables types id) :
    edge.fromID ∈ g.nodes.keys :=
  Go.Map.mem_keys.mpr (Option.isSome_iff_exists.mp ((mem_links g).mp leads).2.2.2)

theorem explored_knownRoutes :
    Breadth.Explored goal Edge.fromID (links g.toTables types) (knownRoutes g.toTables types goal)
      (knownRoutes g.toTables types goal).length := by
  refine Breadth.explored_start.walk (pairwise_links _ _) (Go.Map.mem_keys.mpr ⟨_, existing⟩)
    (fun _ _ => fromID_mem_keys g) ?_
  rw [Go.Map.keys, List.length_map]
  exact Nat.le_add_right _ _

theorem mem_knownRoutes_iff {path : List Edge} :
    path ∈ knownRoutes g.toTables types goal ↔ IsLeast g types goal path := by
  have explored : Breadth.Explored goal Edge.fromID (links g.toTables types) _ _ :=
    explored_knownRoutes g existing
  constructor
  · intro member
    refine ⟨(isPath_iff g).mpr (explored.routes path member), fun other leads ends => ?_⟩
    exact explored.le_of_tip member ((isPath_iff g).mp leads) ends.symm
  · rintro ⟨leads, least⟩
    obtain ⟨known, member, ends, below⟩ := explored.exists_le ((isPath_iff g).mp leads)
    have above := least known ((isPath_iff g).mpr (explored.routes known member)) ends
    rwa [Breadth.rank_injective (le_antisymm above below)]

theorem successor_finalWalk_iff {id : Bytes} {edge : Edge} :
    (g.finalWalk goal types).successor.lookup id = some edge ↔
      edge.fromID = id ∧ ∃ rest, IsLeast g types goal (edge :: rest) := by
  obtain ⟨last, tracks⟩ : ∃ last, Tracks goal (g.finalWalk goal types)
      (knownRoutes g.toTables types goal) last := (tracks_start goal).reverseWalk g.nodes.length
  rw [tracks.successor]
  refine and_congr_right fun _ => exists_congr fun rest => ?_
  exact mem_knownRoutes_iff g existing

theorem length_lt_of_isLeast {path : List Edge} (least : IsLeast g types goal path) :
    path.length < g.nodes.length := by
  have explored : Breadth.Explored goal Edge.fromID (links g.toTables types) _ _ :=
    explored_knownRoutes g existing
  have few := explored.length_le (Go.Map.mem_keys.mpr ⟨_, existing⟩)
    (fun _ _ => fromID_mem_keys g)
  rw [Go.Map.keys, List.length_map] at few
  exact (explored.length_lt ((mem_knownRoutes_iff g existing).mpr least)).trans_le few

theorem IsLeast.tail {edge : Edge} {rest : List Edge}
    (least : IsLeast g types goal (edge :: rest)) :
    IsLeast g types goal rest := by
  have explored : Breadth.Explored goal Edge.fromID (links g.toTables types) _ _ :=
    explored_knownRoutes g existing
  rw [← mem_knownRoutes_iff g existing] at least ⊢
  exact explored.mem_of_suffix least (List.suffix_cons _ _)

theorem traceEdges_of_isLeast {path : List Edge} (least : IsLeast g types goal path) {fuel : Nat}
    (enough : path.length ≤ fuel) :
    Tables.traceEdges (g.finalWalk goal types).successor goal fuel
      (Breadth.tip goal Edge.fromID path) = path := by
  induction path generalizing fuel with
  | nil =>
      cases fuel with
      | zero => rfl
      | succ fuel => exact if_pos rfl
  | cons edge rest ih =>
      obtain ⟨fuel, rfl⟩ : ∃ more, fuel = more + 1 := Nat.exists_eq_add_one.mpr
        (Nat.lt_of_lt_of_le (Nat.succ_pos _) enough)
      have away := least.away
      have successor : (g.finalWalk goal types).successor.lookup edge.fromID = some edge :=
        (successor_finalWalk_iff g existing).mpr ⟨rfl, rest, least⟩
      have leads := least.1.2.2.2.1
      have later := ih (least.tail g existing) (Nat.le_of_succ_le_succ enough)
      rw [Breadth.tip, Tables.traceEdges, if_neg away, successor]
      dsimp only [Option.getD_some]
      rw [leads, later]

theorem mem_reverseEvidencePaths_iff {path : EvidencePath} :
    path ∈ g.reverseEvidencePaths goal types ↔
      ∃ edge rest, IsLeast g types goal (edge :: rest) ∧
        path = g.evidencePath target edge.fromID (edge :: rest) := by
  have traced : ∀ {edge rest}, IsLeast g types goal (edge :: rest) →
      Tables.traceEdges (g.finalWalk goal types).successor goal g.nodes.length edge.fromID =
        edge :: rest := fun least =>
    traceEdges_of_isLeast g existing least (le_of_lt (length_lt_of_isLeast g existing least))
  rw [Tables.reverseEvidencePaths, existing]
  dsimp only
  rw [List.mem_map]
  constructor
  · rintro ⟨source, member, rfl⟩
    rw [List.mem_insertionSort, Go.Map.mem_keys] at member
    obtain ⟨edge, found⟩ := member
    obtain ⟨rfl, rest, least⟩ := (successor_finalWalk_iff g existing).mp found
    exact ⟨edge, rest, least, by rw [traced least]⟩
  · rintro ⟨edge, rest, least, rfl⟩
    refine ⟨edge.fromID, ?_, by rw [traced least]⟩
    rw [List.mem_insertionSort, Go.Map.mem_keys]
    exact ⟨edge, (successor_finalWalk_iff g existing).mpr ⟨rfl, rest, least⟩⟩

end Known

end Graph
end Trstctl
