import Trstctl.Graph.Cypher

/-!
# The bounds of a query's clauses

The places of the keywords are found in the raised text and used in the text.
Where the text in front of RETURN grows by more than what stands behind
RETURN, or by enough to take a WHERE behind RETURN for one in front of it, a
slice is out of range.  Everything behind the clauses stays within bounds.
-/

namespace Trstctl

open Go (Bytes bytes raisedLength raiseCase index)
open Result (bind_eq_ok)

namespace Graph
namespace Cypher

theorem faultless_slice_match {pattern : Regex UInt8} {s : Bytes} {found : Regex.Match UInt8}
    (finds : pattern.find s = some found) :
    Faultless .panic (slice s found.taken.length s.length) := by
  have parts := Regex.append_of_find finds
  have within : found.taken.length ≤ s.length := by
    rw [← parts, List.length_append]
    exact Nat.le_add_right _ _
  rw [slice, if_pos ⟨within, le_refl _⟩]
  exact Faultless.ok _

theorem faultless_nodePattern (expected : String) (s : Bytes) :
    Faultless .panic (nodePattern expected s) := by
  unfold nodePattern
  split
  · exact Faultless.error nofun
  · rename_i m found
    exact (faultless_slice_match found).bind fun rest _ => Faultless.ok _

theorem faultless_pathStep (cq : CypherQuery) (s : Bytes) :
    Faultless .panic (pathStep cq s) := by
  unfold pathStep
  split
  · exact Faultless.error nofun
  · rename_i em found
    refine (faultless_slice_match found).bind fun rest _ => ?_
    exact (faultless_nodePattern _ _).bind fun node _ => Faultless.ok _

theorem faultless_parsePath (cq : CypherQuery) (s : Bytes) :
    Faultless .panic (parsePath cq s) := by
  fun_induction parsePath cq s with
  | case1 cq => exact Faultless.ok _
  | case2 cq s proper failure step =>
      exact Faultless.error fun same => faultless_pathStep cq s (same ▸ step)
  | case3 cq s proper next after step shorter ih => exact ih

theorem nodes_of_parsePath {cq path : CypherQuery} {s : Bytes} (parsed : parsePath cq s = .ok path)
    (before : cq.nodes.length = cq.edges.length + 1) :
    path.nodes.length = path.edges.length + 1 := by
  fun_induction parsePath cq s with
  | case1 cq => rwa [← Except.ok.inj parsed]
  | case2 cq s proper failure step => cases parsed
  | case3 cq s proper next after step shorter ih =>
      refine ih parsed ?_
      unfold pathStep at step
      split at step
      · cases step
      · obtain ⟨rest, sliced, later⟩ := bind_eq_ok.mp step
        obtain ⟨⟨node, left⟩, read, result⟩ := bind_eq_ok.mp later
        cases Except.ok.inj result
        rw [List.length_append, List.length_append, before]
        rfl

theorem faultless_bindVariables (nodes : List NodePat) :
    Faultless .panic (bindVariables nodes) := by
  refine Faultless.foldlM (fun node _ bound => ?_) []
  split
  · exact Faultless.error nofun
  · exact Faultless.ok _

theorem faultless_parsePredicate (bound : List Bytes) (part : Bytes) :
    Faultless .panic (parsePredicate bound part) := by
  unfold parsePredicate
  split
  · exact Faultless.error nofun
  · dsimp only
    split
    · exact Faultless.ok _
    · exact Faultless.error nofun

theorem faultless_parseWhere (bound : List Bytes) (whereSeg : Bytes) :
    Faultless .panic (parseWhere bound whereSeg) := by
  unfold parseWhere
  split
  · exact Faultless.ok _
  · exact Faultless.mapM fun part _ => faultless_parsePredicate bound part

theorem faultless_parseColumn (bound : List Bytes) (part : Bytes) :
    Faultless .panic (parseColumn bound part) := by
  unfold parseColumn
  dsimp only
  split
  · exact Faultless.error nofun
  · split
    · exact Faultless.ok _
    · exact Faultless.error nofun

theorem faultless_element {Item : Type} {items : List Item} {place : Nat}
    (within : place < items.length) :
    Faultless .panic (element items place) := by
  rw [element, List.getElem?_eq_getElem within]
  exact Faultless.ok _

theorem faultless_execCypher (g : Tables) {cq : CypherQuery}
    (path : cq.nodes.length = cq.edges.length + 1) :
    Faultless .panic (execCypher g cq) := by
  have first : Faultless .panic (firstBindings g cq) := by
    refine Faultless.filterMapM fun node _ => ?_
    exact (faultless_element (by omega)).bind fun pattern _ => Faultless.ok _
  have others : ∀ starts, Faultless .panic (pathBindings g cq starts) := by
    refine Faultless.foldlM fun edge member bindings => ?_
    have place := (List.mem_zipIdx member).2.1
    refine (faultless_element (by omega)).bind fun fromPat _ => ?_
    exact (faultless_element (by omega)).bind fun toPat _ => Faultless.ok _
  exact first.bind fun starts _ => (others starts).bind fun bindings _ => Faultless.ok _

theorem faultless_query_iff (g : Graph) (q : Bytes) :
    Faultless .panic (g.query q) ↔ Faultless .panic (splitClauses q) := by
  unfold query parseCypher
  rw [Faultless.bind_iff, Faultless.bind_iff]
  refine ⟨fun avoided => avoided.1.1, fun clauses => ?_⟩
  refine ⟨⟨clauses, fun segments _ => ?_⟩, fun cq parsed => ?_⟩
  · refine (faultless_nodePattern _ _).bind fun start _ => ?_
    refine (faultless_parsePath _ _).bind fun path _ => ?_
    refine (faultless_bindVariables _).bind fun bound _ => ?_
    refine (faultless_parseWhere _ _).bind fun predicates _ => ?_
    refine (Faultless.mapM fun part _ => faultless_parseColumn bound part).bind fun ret _ => ?_
    split
    · exact Faultless.error nofun
    · exact Faultless.ok _
  · obtain ⟨segments, -, parsed⟩ := bind_eq_ok.mp parsed
    obtain ⟨start, -, parsed⟩ := bind_eq_ok.mp parsed
    obtain ⟨path, path_eq, parsed⟩ := bind_eq_ok.mp parsed
    obtain ⟨bound, -, parsed⟩ := bind_eq_ok.mp parsed
    obtain ⟨predicates, -, parsed⟩ := bind_eq_ok.mp parsed
    obtain ⟨ret, -, parsed⟩ := bind_eq_ok.mp parsed
    split at parsed
    · cases parsed
    · cases Except.ok.inj parsed
      have nodes := nodes_of_parsePath path_eq (by rfl)
      exact faultless_execCypher g.toTables nodes

theorem isKeyword_match : Go.IsKeyword (bytes "MATCH") := by decide

theorem isKeyword_return : Go.IsKeyword (bytes "RETURN") := by decide

theorem isKeyword_where : Go.IsKeyword (bytes "WHERE") := by decide

theorem faultless_slice_iff {text : Bytes} {low high : Nat} :
    Faultless .panic (slice text low high) ↔ low ≤ high ∧ high ≤ text.length := by
  unfold slice Faultless
  split
  · rename_i within
    simp [within]
  · rename_i outside
    simp [outside]

theorem faultless_splitBody_iff (body : Bytes) :
    Faultless .panic (splitBody body) ↔
      ∀ place, index (bytes "WHERE") (raiseCase body) = some place →
        raisedLength body place + 5 ≤ body.length := by
  unfold splitBody
  rw [Go.index_toUpper isKeyword_where (by decide)]
  cases index (bytes "WHERE") (raiseCase body) with
  | none => exact ⟨fun _ place => nofun, fun _ => Faultless.ok _⟩
  | some place =>
      simp only [Option.map_some, Option.some.injEq, forall_eq']
      rw [Faultless.bind_iff, faultless_slice_iff]
      constructor
      · intro within
        exact within.1.1
      · intro within
        refine ⟨⟨within, le_refl _⟩, fun predicates _ => ?_⟩
        refine (faultless_slice_iff.mpr ⟨Nat.zero_le _, by omega⟩).bind fun pattern _ => ?_
        exact Faultless.ok _

theorem return_behind_match {text : Bytes} {place : Nat} (starts : bytes "MATCH" <+: raiseCase text)
    (stands : bytes "RETURN" <+: (raiseCase text).drop place) :
    5 ≤ place := by
  by_contra inside
  obtain ⟨rest, text_eq⟩ := starts
  rw [← text_eq] at stands
  rcases place with _ | _ | _ | _ | _ | place
  all_goals first
    | exact absurd (List.cons_prefix_cons.mp stands).1 (by decide)
    | omega

/-- What of a query decides where its clauses are cut.  The text in front of
the last RETURN, in upper case, is followed by at least the six bytes of RETURN
as the text is; and the first WHERE behind MATCH ends in front of that RETURN,
or behind the end of that upper case. -/
def ClausesWithin (q : Bytes) : Prop :=
  bytes "MATCH" <+: raiseCase q →
    ∀ ri, Go.lastIndex (bytes "RETURN") (raiseCase q) = some ri →
      raisedLength q ri + 6 ≤ q.length ∧
        ∀ wi, index (bytes "WHERE") (raiseCase (q.drop 5)) = some wi →
          5 + wi + 5 ≤ ri ∨ raisedLength q ri < 5 + wi + 5

theorem where_in_front_iff {q : Bytes} {ri k : Nat}
    (stands : bytes "RETURN" <+: raiseCase (q.drop ri))
    (whereStands : bytes "WHERE" <+: raiseCase (q.drop k)) :
    raisedLength q k + 5 ≤ raisedLength q ri ↔ k + 5 ≤ ri := by
  have asciiWhere : Go.IsAscii (bytes "WHERE") := by decide
  have asciiReturn : Go.IsAscii (bytes "RETURN") := by decide
  have five : (bytes "WHERE").length = 5 := by decide
  rcases Nat.le_total k ri with before | behind
  · have later := Go.raisedLength_of_word asciiWhere (by decide) whereStands before
    have word := Go.raisedLength_of_start asciiWhere whereStands (ri - k)
    rw [five] at word
    rw [later, word]
    by_cases whole : 5 ≤ ri - k
    · omega
    · have none : ri - k - 5 = 0 := by omega
      have zero : raisedLength ((q.drop k).drop 5) 0 = 0 := by
        rw [raisedLength, List.take_zero]
        rfl
      rw [none, zero]
      omega
  · have later := Go.raisedLength_of_word asciiReturn (by decide) stands behind
    omega

/-- The body of a query, from MATCH up to the end of the upper case in front of
RETURN, is cut at its WHERE within bounds. -/
theorem faultless_body_iff {q : Bytes} {ri : Nat} (starts : bytes "MATCH" <+: raiseCase q)
    (stands : bytes "RETURN" <+: raiseCase (q.drop ri))
    (within : raisedLength q ri + 6 ≤ q.length) :
    Faultless .panic (splitBody ((q.take (raisedLength q ri)).drop 5)) ↔
      ∀ wi, index (bytes "WHERE") (raiseCase (q.drop 5)) = some wi →
        5 + wi + 5 ≤ ri ∨ raisedLength q ri < 5 + wi + 5 := by
  have five : (bytes "WHERE").length = 5 := by decide
  have asciiMatch : Go.IsAscii (bytes "MATCH") := by decide
  have body : (q.take (raisedLength q ri)).drop 5 = (q.drop 5).take (raisedLength q ri - 5) :=
    List.drop_take
  rw [body, faultless_splitBody_iff, raiseCase, List.map_take, List.length_take, List.length_drop]
  refine forall_congr' fun wi => ?_
  rw [Go.index_take (by decide), five]
  have place : raisedLength q (5 + wi) = 5 + raisedLength (q.drop 5) wi := by
    have word := Go.raisedLength_of_start asciiMatch starts (5 + wi)
    rw [show (bytes "MATCH").length = 5 by decide, Nat.add_sub_cancel_left] at word
    omega
  have cut : wi ≤ raisedLength q ri - 5 →
      raisedLength ((q.drop 5).take (raisedLength q ri - 5)) wi = raisedLength (q.drop 5) wi := by
    intro short
    rw [raisedLength, List.take_take, Nat.min_eq_left short, raisedLength]
  have front : index (bytes "WHERE") (raiseCase (q.drop 5)) = some wi →
      (5 + raisedLength (q.drop 5) wi + 5 ≤ raisedLength q ri ↔ 5 + wi + 5 ≤ ri) := by
    intro found
    have whereStands := Go.prefix_drop_of_index found
    rw [raiseCase, ← List.map_drop, List.drop_drop] at whereStands
    rw [← place]
    exact where_in_front_iff stands whereStands
  constructor
  · intro ends found
    by_cases behind : raisedLength q ri < 5 + wi + 5
    · exact Or.inr behind
    · have ended := ends ⟨found, by omega⟩
      rw [cut (by omega)] at ended
      exact Or.inl ((front found).mp (by omega))
  · rintro apart ⟨found, short⟩
    rw [cut (by omega)]
    have ended := (front found).mpr ((apart found).resolve_right (by omega))
    omega

theorem faultless_splitClauses_iff (q : Bytes) :
    Faultless .panic (splitClauses q) ↔ ClausesWithin q := by
  have begins : index (bytes "MATCH") (Go.toUpper q) = some 0 ↔
      bytes "MATCH" <+: raiseCase q := by
    rw [Go.index_eq_zero_iff (by decide), ← List.isPrefixOf_iff_prefix,
      Go.isPrefixOf_toUpper isKeyword_match, List.isPrefixOf_iff_prefix]
  unfold splitClauses ClausesWithin
  dsimp only
  rw [Go.lastIndex_toUpper isKeyword_return (by decide)]
  by_cases starts : bytes "MATCH" <+: raiseCase q
  · rw [if_neg (not_not_intro (begins.mpr starts))]
    simp only [starts, forall_const]
    cases found : Go.lastIndex (bytes "RETURN") (raiseCase q) with
    | none => exact ⟨fun _ ri => nofun, fun _ => Faultless.error nofun⟩
    | some ri =>
        have stands := Go.prefix_drop_of_lastIndex found
        have behind := return_behind_match starts stands
        rw [raiseCase, ← List.map_drop] at stands
        simp only [Option.map_some, Option.some.injEq, forall_eq']
        have five : 5 ≤ raisedLength q ri := by
          have word := Go.raisedLength_of_start (by decide) starts ri
          rw [show (bytes "MATCH").length = 5 by decide] at word
          omega
        rw [Faultless.bind_iff, faultless_slice_iff]
        constructor
        · rintro ⟨⟨within, -⟩, clauses⟩
          have body := (clauses _ (slice_eq_ok.mpr ⟨⟨within, le_refl _⟩, rfl⟩))
          have parts := (Faultless.bind_iff.mp body).2 _
            (slice_eq_ok.mpr ⟨⟨five, Nat.le_of_add_right_le within⟩, rfl⟩)
          exact ⟨within, (faultless_body_iff starts stands within).mp
            (Faultless.bind_iff.mp parts).1⟩
        · rintro ⟨within, apart⟩
          refine ⟨⟨within, le_refl _⟩, fun retText _ => ?_⟩
          refine (faultless_slice_iff.mpr ⟨five, Nat.le_of_add_right_le within⟩).bind
            fun body sliced => ?_
          obtain ⟨-, rfl⟩ := slice_eq_ok.mp sliced
          refine ((faultless_body_iff starts stands within).mpr apart).bind fun parts _ => ?_
          split
          · exact Faultless.error nofun
          · exact Faultless.ok _
  · rw [if_pos (mt begins.mp starts)]
    exact ⟨fun _ same => absurd same starts, fun _ => Faultless.error nofun⟩

end Cypher

/-- A query ends with rows or an error exactly when no keyword is moved out of
its clause. -/
theorem query_within_bounds_iff (g : Graph) (q : Bytes) :
    g.query q ≠ .error .panic ↔ Cypher.ClausesWithin q :=
  (Cypher.faultless_query_iff g q).trans (Cypher.faultless_splitClauses_iff q)

/-- The letter U+0250 takes two bytes and its upper case three. -/
theorem query_panics_of_growth :
    ¬∀ (g : Graph) (q : Bytes), g.query q ≠ .error .panic := by
  intro never
  exact never new (bytes "MATCHɐRETURN") (by decide +kernel)

end Graph
end Trstctl
