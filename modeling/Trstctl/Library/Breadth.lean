import Mathlib.Data.List.Infix
import Mathlib.Data.List.Lex
import Mathlib.Data.Prod.Lex
import Mathlib.Data.List.Nodup
import Mathlib.Data.List.Perm.Subperm

/-!
# Breadth-first search along ordered edges

A search from a start takes the vertices in the order in which they are found
and at each of them the edges that lead on, in their order.  It finds every
vertex along the least of the shortest routes to it, where routes of one length
are compared edge by edge from the start.
-/

namespace Trstctl.Breadth

variable {V E : Type}

/-- The vertex at the end of a route, whose last edge stands first. -/
def tip (start : V) (far : E → V) : List E → V
  | [] => start
  | edge :: _ => far edge

/-- The routes that the edges make up. -/
inductive Route (start : V) (far : E → V) (links : V → List E) : List E → Prop where
  | nil : Route start far links []
  | cons {edge : E} {route : List E} :
      Route start far links route → edge ∈ links (tip start far route) →
        Route start far links (edge :: route)

/-- Shorter routes come first, and then the least edges from the start. -/
def rank (route : List E) : ℕ ×ₗ List E :=
  toLex (route.length, route.reverse)

theorem rank_injective : Function.Injective (rank : List E → ℕ ×ₗ List E) := by
  intro route other equal
  have parts := Prod.ext_iff.mp (toLex_inj.mp equal)
  exact List.reverse_injective parts.2

section Order

variable [LinearOrder E]

variable {other : List E}

variable {route : List E}

theorem length_le_of_rank_le (least : rank route ≤ rank other) :
    route.length ≤ other.length := by
  rcases Prod.Lex.le_iff.mp least with shorter | ⟨same, -⟩
  · exact le_of_lt shorter
  · exact le_of_eq same

theorem rank_lt_of_length (shorter : route.length < other.length) :
    rank route < rank other :=
  Prod.Lex.lt_iff.mpr (Or.inl shorter)

theorem append_lt_append {front : List E} (less : front < other)
    (length : front.length = other.length) (rest more : List E) :
    front ++ rest < other ++ more := by
  induction less with
  | nil => cases length
  | rel smaller => exact List.Lex.rel smaller
  | cons less ih =>
      exact List.Lex.cons (ih (Nat.succ.inj length))

theorem rank_cons_lt_of_rank_lt (less : rank route < rank other) (edge next : E) :
    rank (edge :: route) < rank (next :: other) := by
  rcases Prod.Lex.lt_iff.mp less with shorter | ⟨same, lexical⟩
  · exact rank_lt_of_length (Nat.succ_lt_succ shorter)
  · refine Prod.Lex.lt_iff.mpr (Or.inr ⟨congrArg Nat.succ same, ?_⟩)
    change (edge :: route).reverse < (next :: other).reverse
    rw [List.reverse_cons, List.reverse_cons]
    have length : route.reverse.length = other.reverse.length := by
      rw [List.length_reverse, List.length_reverse]
      exact same
    exact append_lt_append lexical length _ _

theorem rank_cons_lt_of_lt {edge next : E} (less : edge < next) (route : List E) :
    rank (edge :: route) < rank (next :: route) := by
  refine Prod.Lex.lt_iff.mpr (Or.inr ⟨rfl, ?_⟩)
  change (edge :: route).reverse < (next :: route).reverse
  rw [List.reverse_cons, List.reverse_cons]
  exact List.Lex.append_left _ (List.Lex.rel less) _

theorem rank_cons_le (least : rank route ≤ rank other) (edge : E) :
    rank (edge :: route) ≤ rank (edge :: other) := by
  rcases least.lt_or_eq with less | same
  · exact le_of_lt (rank_cons_lt_of_rank_lt less edge edge)
  · rw [rank_injective same]

end Order

section Search

variable [DecidableEq V] (start : V) (far : E → V) (links : V → List E)

/-- An edge that leads to a new vertex makes its route known. -/
def visit (route : List E) (order : List (List E)) (edge : E) : List (List E) :=
  if far edge ∈ order.map (tip start far) then order else order ++ [edge :: route]

theorem length_le_visit (route : List E) (order : List (List E)) (edge : E) :
    order.length ≤ (visit start far route order edge).length := by
  unfold visit
  split
  · exact le_refl _
  · rw [List.length_append]
    exact Nat.le_add_right _ _

/-- The edges that lead on from the end of a route. -/
def expand (route : List E) (order : List (List E)) : List (List E) :=
  (links (tip start far route)).foldl (visit start far route) order

/-- Expand the known routes from one place on, in the order they became known. -/
def walk : Nat → Nat → List (List E) → List (List E)
  | 0, _, order => order
  | fuel + 1, place, order =>
      match order[place]? with
      | none => order
      | some route => walk fuel (place + 1) (expand start far links route order)

end Search

section Invariant

variable [LinearOrder E] {start : V} {far : E → V} {links : V → List E}

/-- The known routes after the first ones have been expanded: they are the least
routes to their ends among those that go on from an expanded route. -/
structure Explored (start : V) (far : E → V) (links : V → List E)
    (order : List (List E)) (place : Nat) : Prop where
  first : [] ∈ order
  routes : ∀ route ∈ order, Route start far links route
  ascending : order.Pairwise fun route other => rank route < rank other
  distinct : (order.map (tip start far)).Nodup
  descends : ∀ {edge route}, edge :: route ∈ order → route ∈ order.take place
  closed : ∀ route ∈ order.take place, ∀ edge ∈ links (tip start far route),
    ∃ known ∈ order, tip start far known = far edge ∧ rank known ≤ rank (edge :: route)

/-- The known routes while a route is expanded, after some of its edges. -/
structure Expanding (start : V) (far : E → V) (links : V → List E)
    (order : List (List E)) (place : Nat) (route : List E) (edges : List E) : Prop where
  current : order[place]? = some route
  first : [] ∈ order
  routes : ∀ route ∈ order, Route start far links route
  ascending : order.Pairwise fun route other => rank route < rank other
  distinct : (order.map (tip start far)).Nodup
  descends : ∀ {edge other}, edge :: other ∈ order →
    other ∈ order.take place ∨ other = route ∧ edge ∈ edges
  closed : ∀ other ∈ order.take place, ∀ edge ∈ links (tip start far other),
    ∃ known ∈ order, tip start far known = far edge ∧ rank known ≤ rank (edge :: other)
  visited : ∀ edge ∈ edges,
    ∃ known ∈ order, tip start far known = far edge ∧ rank known ≤ rank (edge :: route)

variable {order : List (List E)} {place : Nat}

variable {route : List E}

theorem Explored.expanding (explored : Explored start far links order place)
    (current : order[place]? = some route) :
    Expanding start far links order place route [] where
  current := current
  first := explored.first
  routes := explored.routes
  ascending := explored.ascending
  distinct := explored.distinct
  descends := fun member => Or.inl (explored.descends member)
  closed := explored.closed
  visited := fun _ member => absurd member List.not_mem_nil

theorem Expanding.explored
    (expanding : Expanding start far links order place route (links (tip start far route))) :
    Explored start far links order (place + 1) := by
  have expanded : order.take (place + 1) = order.take place ++ [route] := by
    rw [List.take_add_one, expanding.current]
    rfl
  exact
    { first := expanding.first
      routes := expanding.routes
      ascending := expanding.ascending
      distinct := expanding.distinct
      descends := by
        intro edge other member
        rw [expanded, List.mem_append, List.mem_singleton]
        exact (expanding.descends member).imp_right And.left
      closed := by
        intro other member edge leads
        rw [expanded, List.mem_append, List.mem_singleton] at member
        rcases member with earlier | rfl
        · exact expanding.closed other earlier edge leads
        · exact expanding.visited edge leads }

theorem rank_lt_of_mem_take (ascending : order.Pairwise fun route other => rank route < rank other)
    {other : List E} (current : order[place]? = some route) (earlier : other ∈ order.take place) :
    rank other < rank route := by
  rw [← List.take_append_drop place order, List.pairwise_append] at ascending
  have stands : (order.drop place)[0]? = some route := by
    rw [List.getElem?_drop, Nat.add_zero, current]
  exact ascending.2.2 other earlier route (List.mem_of_getElem? stands)

theorem Expanding.rank_le {edges : List E}
    (expanding : Expanding start far links order place route edges) {edge : E}
    (sorted : ∀ other ∈ edges, other ≤ edge) {known : List E} (member : known ∈ order) :
    rank known ≤ rank (edge :: route) := by
  cases known with
  | nil => exact le_of_lt (rank_lt_of_length (Nat.succ_pos _))
  | cons other rest =>
      rcases expanding.descends member with earlier | ⟨rfl, before⟩
      · have less := rank_lt_of_mem_take expanding.ascending expanding.current earlier
        exact le_of_lt (rank_cons_lt_of_rank_lt less other edge)
      · rcases (sorted other before).lt_or_eq with less | rfl
        · exact le_of_lt (rank_cons_lt_of_lt less rest)
        · exact le_refl _

theorem explored_start : Explored start far links [[]] 0 where
  first := List.mem_singleton.mpr rfl
  routes := fun _ member => List.mem_singleton.mp member ▸ Route.nil
  ascending := List.pairwise_singleton _ _
  distinct := List.nodup_singleton _
  descends := fun member => nomatch List.mem_singleton.mp member
  closed := fun _ member => absurd member List.not_mem_nil

theorem Explored.length_le (explored : Explored start far links order place) {vertices : List V}
    (begins : start ∈ vertices) (inside : ∀ vertex, ∀ edge ∈ links vertex, far edge ∈ vertices) :
    order.length ≤ vertices.length := by
  have tips : order.map (tip start far) ⊆ vertices := by
    intro vertex member
    obtain ⟨route, routeMember, rfl⟩ := List.mem_map.mp member
    cases explored.routes route routeMember with
    | nil => exact begins
    | cons _ leads => exact inside _ _ leads
  have counted := (List.Nodup.subperm explored.distinct tips).length_le
  rwa [List.length_map] at counted

theorem Explored.complete (explored : Explored start far links order place)
    (all : order.length ≤ place) :
    Explored start far links order order.length := by
  have whole : order.take place = order.take order.length := by
    rw [List.take_of_length_le all, List.take_length]
  exact
    { first := explored.first
      routes := explored.routes
      ascending := explored.ascending
      distinct := explored.distinct
      descends := fun member => whole ▸ explored.descends member
      closed := fun route member => explored.closed route (whole ▸ member) }

theorem Explored.exists_le (explored : Explored start far links order order.length)
    (leads : Route start far links route) :
    ∃ known ∈ order, tip start far known = tip start far route ∧ rank known ≤ rank route := by
  induction leads with
  | nil => exact ⟨[], explored.first, rfl, le_refl _⟩
  | cons leads edgeLeads ih =>
      obtain ⟨before, beforeMember, ends, least⟩ := ih
      rw [← ends] at edgeLeads
      rw [← List.take_length (l := order)] at beforeMember
      obtain ⟨known, knownMember, knownEnds, knownLeast⟩ :=
        explored.closed before beforeMember _ edgeLeads
      exact ⟨known, knownMember, knownEnds, knownLeast.trans (rank_cons_le least _)⟩

theorem Explored.le_of_tip (explored : Explored start far links order order.length)
    {known : List E} (member : known ∈ order) (leads : Route start far links route)
    (ends : tip start far known = tip start far route) :
    rank known ≤ rank route := by
  obtain ⟨other, otherMember, otherEnds, least⟩ := explored.exists_le leads
  have same := List.inj_on_of_nodup_map explored.distinct otherMember member
    (otherEnds.trans ends.symm)
  rwa [← same]

theorem Explored.mem_of_suffix (explored : Explored start far links order place)
    {rest : List E} (member : route ∈ order) (suffix : rest <:+ route) :
    rest ∈ order := by
  induction route with
  | nil => rwa [List.suffix_nil.mp suffix]
  | cons edge route ih =>
      rcases List.suffix_cons_iff.mp suffix with rfl | later
      · exact member
      · exact ih (List.mem_of_mem_take (explored.descends member)) later

omit [LinearOrder E] in
theorem nodup_tails (route : List E) : route.tails.Nodup := by
  induction route with
  | nil => exact List.nodup_singleton _
  | cons edge route ih =>
      rw [List.tails_cons]
      refine List.nodup_cons.mpr ⟨fun again => ?_, ih⟩
      have shorter := ((List.mem_tails _ _).mp again).length_le
      rw [List.length_cons] at shorter
      omega

theorem Explored.length_lt (explored : Explored start far links order place)
    (member : route ∈ order) :
    route.length < order.length := by
  have tails : route.tails ⊆ order := fun rest suffix =>
    explored.mem_of_suffix member ((List.mem_tails _ _).mp suffix)
  have counted := (List.Nodup.subperm (nodup_tails route) tails).length_le
  rw [List.length_tails] at counted
  omega

variable [DecidableEq V]

/-- Visiting an edge keeps what is known of the routes. -/
theorem Expanding.visit {edges : List E}
    (expanding : Expanding start far links order place route edges) {edge : E}
    (leads : edge ∈ links (tip start far route)) (sorted : ∀ other ∈ edges, other ≤ edge) :
    Expanding start far links (Breadth.visit start far route order edge) place route
      (edges ++ [edge]) := by
  unfold Breadth.visit
  split
  · rename_i found
    obtain ⟨known, member, ends⟩ := List.mem_map.mp found
    exact
      { current := expanding.current
        first := expanding.first
        routes := expanding.routes
        ascending := expanding.ascending
        distinct := expanding.distinct
        descends := fun member => (expanding.descends member).imp_right
          (And.imp_right (List.mem_append_left _))
        closed := expanding.closed
        visited := by
          intro other otherMember
          rcases List.mem_append.mp otherMember with before | last
          · exact expanding.visited other before
          · rw [List.mem_singleton.mp last]
            exact ⟨known, member, ends, expanding.rank_le sorted member⟩ }
  · rename_i fresh
    have within := (List.getElem?_eq_some_iff.mp expanding.current).1
    have known : route ∈ order := List.mem_of_getElem? expanding.current
    have expanded : (order ++ [edge :: route]).take place = order.take place :=
      List.take_append_of_le_length (le_of_lt within)
    exact
      { current := by rw [List.getElem?_append_left within, expanding.current]
        first := List.mem_append_left _ expanding.first
        routes := by
          intro other member
          rcases List.mem_append.mp member with earlier | last
          · exact expanding.routes other earlier
          · rw [List.mem_singleton.mp last]
            exact Route.cons (expanding.routes route known) leads
        ascending := by
          refine List.pairwise_append.mpr
            ⟨expanding.ascending, List.pairwise_singleton _ _, fun other member next last => ?_⟩
          rw [List.mem_singleton.mp last]
          refine lt_of_le_of_ne (expanding.rank_le sorted member) fun same => fresh ?_
          rw [rank_injective same] at member
          exact List.mem_map_of_mem member
        distinct := by
          rw [List.map_append]
          refine List.Nodup.append expanding.distinct (List.nodup_singleton _) ?_
          intro vertex earlier last
          rw [List.mem_singleton.mp last] at earlier
          exact fresh earlier
        descends := by
          intro other rest member
          rw [expanded]
          rcases List.mem_append.mp member with earlier | last
          · exact (expanding.descends earlier).imp_right
              (And.imp_right (List.mem_append_left _))
          · cases List.mem_singleton.mp last
            exact Or.inr ⟨rfl, List.mem_append_right _ List.mem_cons_self⟩
        closed := by
          intro other member next nextLeads
          rw [expanded] at member
          obtain ⟨found, foundMember, least⟩ := expanding.closed other member next nextLeads
          exact ⟨found, List.mem_append_left _ foundMember, least⟩
        visited := by
          intro other otherMember
          rcases List.mem_append.mp otherMember with before | last
          · obtain ⟨found, foundMember, least⟩ := expanding.visited other before
            exact ⟨found, List.mem_append_left _ foundMember, least⟩
          · rw [List.mem_singleton.mp last]
            exact ⟨edge :: route, List.mem_append_right _ List.mem_cons_self, rfl, le_refl _⟩ }

theorem Expanding.foldl_visit {edges pending : List E}
    (expanding : Expanding start far links order place route edges)
    (all : edges ++ pending = links (tip start far route))
    (sorted : (links (tip start far route)).Pairwise (· ≤ ·)) :
    Expanding start far links (pending.foldl (Breadth.visit start far route) order) place route
      (links (tip start far route)) := by
  induction pending generalizing order edges with
  | nil =>
      rw [List.append_nil] at all
      rwa [all] at expanding
  | cons edge pending ih =>
      have leads : edge ∈ links (tip start far route) := by
        rw [← all]
        exact List.mem_append_right _ List.mem_cons_self
      have before : ∀ other ∈ edges, other ≤ edge := by
        rw [← all, List.pairwise_append] at sorted
        exact fun other member => sorted.2.2 other member edge List.mem_cons_self
      refine ih (expanding.visit leads before) ?_
      rw [List.append_assoc, List.singleton_append, all]

theorem Explored.expand (explored : Explored start far links order place)
    (current : order[place]? = some route)
    (sorted : (links (tip start far route)).Pairwise (· ≤ ·)) :
    Explored start far links (Breadth.expand start far links route order) (place + 1) :=
  ((explored.expanding current).foldl_visit (List.nil_append _) sorted).explored

theorem Explored.walk {fuel : Nat} (explored : Explored start far links order place)
    (sorted : ∀ vertex, (links vertex).Pairwise (· ≤ ·)) {vertices : List V}
    (begins : start ∈ vertices) (inside : ∀ vertex, ∀ edge ∈ links vertex, far edge ∈ vertices)
    (enough : vertices.length ≤ fuel + place) :
    Explored start far links (Breadth.walk start far links fuel place order)
      (Breadth.walk start far links fuel place order).length := by
  induction fuel generalizing place order with
  | zero =>
      have few := explored.length_le begins inside
      exact explored.complete (by omega)
  | succ fuel ih =>
      rw [Breadth.walk]
      cases current : order[place]? with
      | none => exact explored.complete (List.getElem?_eq_none_iff.mp current)
      | some route =>
          have next := explored.expand current (sorted _)
          exact ih next (by omega)

end Invariant

end Trstctl.Breadth
