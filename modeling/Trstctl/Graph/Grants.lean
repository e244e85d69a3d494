import Trstctl.Graph.Evidence

/-!
# Which access grants are reported

The access list of `WhoCanReach` is read off the first edge of one path for each
credential, its least shortest path.  A credential that reaches the target as
directly through an access grant is missing when its least path starts with an
edge of another type.
-/

namespace Trstctl

open Go (Bytes bytes)

namespace Graph

/-- The first edge of the path is an access grant. -/
def BeginsWithGrant (path : List Edge) : Prop :=
  ∃ grant rest, path = grant :: rest ∧ grant.type = edgeGrantsAccess

/-- A credential of the graph with a shortest path to a node that begins with an
access grant. -/
structure GrantsAccess (g : Graph) (goal : Bytes) (credential : Node) : Prop where
  existing : g.nodes.lookup credential.id = some credential
  kind : credential.kind = kindCredential
  path : ∃ path, IsShortest g [] goal path ∧
    Breadth.tip goal Edge.fromID path = credential.id ∧ BeginsWithGrant path

/-- The node is a credential of the access list. -/
def Reported (g : Graph) (goal : Bytes) (credential : Node) : Prop :=
  ∃ grant ∈ (g.whoCanReach goal).access, grant.credential = credential

/-- The least shortest path of the node begins with an access grant. -/
def LeastPathGrants (g : Graph) (goal : Bytes) (credential : Node) : Prop :=
  ∃ path, IsLeast g [] goal path ∧
    Breadth.tip goal Edge.fromID path = credential.id ∧ BeginsWithGrant path

theorem exists_accessGrant_iff {g : Tables} {target : Node} {edge : Edge} {rest : List Edge}
    {credential : Node} :
    (∃ grant, g.accessGrant (g.evidencePath target edge.fromID (edge :: rest)) = some grant ∧
        grant.credential = credential) ↔
      g.node edge.fromID = credential ∧ credential.kind = kindCredential ∧
        edge.type = edgeGrantsAccess := by
  unfold Tables.evidencePath Tables.accessGrant
  dsimp only
  split
  · rename_i other
    constructor
    · rintro ⟨grant, found, -⟩
      cases found
    · rintro ⟨rfl, kind, type⟩
      exact absurd other (by simp [kind, type])
  · rename_i grants
    simp only [not_or, not_not] at grants
    constructor
    · rintro ⟨grant, found, rfl⟩
      cases found
      exact ⟨rfl, grants.1, grants.2⟩
    · rintro ⟨rfl, -, -⟩
      exact ⟨_, rfl, rfl⟩

theorem node_eq_iff (g : Graph) {id : Bytes} (exist : (g.nodes.lookup id).isSome = true)
    {node : Node} :
    g.node id = node ↔ id = node.id ∧ g.nodes.lookup node.id = some node := by
  obtain ⟨found, found_eq⟩ := Option.isSome_iff_exists.mp exist
  have keyed := g.consistent.keyed found_eq
  rw [Tables.node, found_eq, Option.getD_some]
  constructor
  · rintro rfl
    rw [keyed]
    exact ⟨rfl, found_eq⟩
  · rintro ⟨rfl, stored⟩
    exact Option.some.inj (found_eq.symm.trans stored)

section Known

variable (g : Graph) {goal : Bytes} {target : Node} (existing : g.nodes.lookup goal = some target)

include existing

theorem reported_iff {credential : Node} :
    Reported g goal credential ↔
      g.nodes.lookup credential.id = some credential ∧ credential.kind = kindCredential ∧
        LeastPathGrants g goal credential := by
  have access : (g.whoCanReach goal).access =
      (g.reverseEvidencePaths goal []).filterMap g.accessGrant := by
    rw [Tables.whoCanReach, existing]
  unfold Reported LeastPathGrants BeginsWithGrant
  rw [access]
  constructor
  · rintro ⟨grant, member, same⟩
    obtain ⟨path, pathMember, granted⟩ := List.mem_filterMap.mp member
    obtain ⟨edge, rest, least, rfl⟩ := (mem_reverseEvidencePaths_iff g existing).mp pathMember
    obtain ⟨node, kind, type⟩ := exists_accessGrant_iff.mp ⟨grant, granted, same⟩
    obtain ⟨origin, stored⟩ := (node_eq_iff g least.1.2.2.1).mp node
    exact ⟨stored, kind, edge :: rest, least, origin, edge, rest, rfl, type⟩
  · rintro ⟨stored, kind, _, least, origin, edge, rest, rfl, type⟩
    have node := (node_eq_iff g least.1.2.2.1).mpr ⟨origin, stored⟩
    obtain ⟨grant, granted, same⟩ := exists_accessGrant_iff.mpr ⟨node, kind, type⟩
    refine ⟨grant, List.mem_filterMap.mpr ⟨_, ?_, granted⟩, same⟩
    exact (mem_reverseEvidencePaths_iff g existing).mpr ⟨edge, rest, least, rfl⟩

end Known

/-- Every credential with a shortest path that begins with a grant is reported
exactly when the least of the shortest paths of each begins with a grant. -/
theorem grants_reported_iff
    (g : Graph)
    {goal : Bytes} {target : Node}
    (existing : g.nodes.lookup goal = some target) :
    (∀ credential, GrantsAccess g goal credential → Reported g goal credential) ↔
      ∀ credential, GrantsAccess g goal credential → LeastPathGrants g goal credential := by
  refine forall_congr' fun credential => forall_congr' fun grants => ?_
  rw [reported_iff g existing]
  exact ⟨fun reported => reported.2.2, fun least => ⟨grants.existing, grants.kind, least⟩⟩

/-- A session with access to a database. -/
def session : Node := ⟨bytes "c", kindCredential, bytes "session", []⟩

def sessionGrant : Edge := ⟨bytes "c", bytes "r", edgeGrantsAccess, [], []⟩

/-- The session and the database, with the access alone. -/
def granted : Graph :=
  ((new.addNode session).addNode ⟨bytes "r", bytes "resource", bytes "database", []⟩).addEdge
    sessionGrant

theorem isPath_granted {path : List Edge} (leads : IsPath granted [] (bytes "r") path) :
    path = [] ∨ path = [sessionGrant] := by
  have edges : granted.edges = [sessionGrant] := by decide +kernel
  have away : sessionGrant.toID ≠ sessionGrant.fromID := by decide
  cases path with
  | nil => exact Or.inl rfl
  | cons edge rest =>
      obtain ⟨member, -, -, target, others⟩ := leads
      rw [edges, List.mem_singleton] at member
      cases rest with
      | nil => exact Or.inr (by rw [member])
      | cons next rest =>
          have nextMember := others.1
          rw [edges, List.mem_singleton] at nextMember
          rw [member, nextMember] at target
          exact absurd target away

/-- Of the session and the database alone, every grant is reported. -/
theorem grants_reported_of_granted :
    granted.nodes.lookup (bytes "r") =
        some ⟨bytes "r", bytes "resource", bytes "database", []⟩ ∧
      ∀ credential, GrantsAccess granted (bytes "r") credential →
        Reported granted (bytes "r") credential := by
  have existing : granted.nodes.lookup (bytes "r") =
      some ⟨bytes "r", bytes "resource", bytes "database", []⟩ := by decide +kernel
  refine ⟨existing, (grants_reported_iff granted existing).mpr ?_⟩
  rintro credential ⟨-, -, path, ⟨leads, -⟩, origin, grants⟩
  refine ⟨path, ⟨leads, fun other otherLeads ends => ?_⟩, origin, grants⟩
  have away : Breadth.tip (bytes "r") Edge.fromID [sessionGrant] ≠ bytes "r" := by decide
  rcases isPath_granted leads with rfl | rfl <;> rcases isPath_granted otherLeads with rfl | rfl
  · exact le_refl _
  · exact absurd ends away
  · exact absurd ends.symm away
  · exact le_refl _

/-- The session is deployed to the database too. -/
def deployed : Graph :=
  granted.addEdge ⟨bytes "c", bytes "r", bytes "DEPLOYED_TO", [], []⟩

/-- The session is deployed to the database as well, and its grant is not reported. -/
theorem deployed_grant_not_reported :
    ¬∀ (g : Graph) (goal : Bytes) (target : Node), g.nodes.lookup goal = some target →
      ∀ credential, GrantsAccess g goal credential → Reported g goal credential := by
  intro reports
  have existing : deployed.nodes.lookup (bytes "r") =
      some ⟨bytes "r", bytes "resource", bytes "database", []⟩ := by decide +kernel
  have none : (deployed.whoCanReach (bytes "r")).access = [] := by decide +kernel
  have grants : GrantsAccess deployed (bytes "r") session :=
    { existing := by decide +kernel
      kind := rfl
      path := by
        refine ⟨[sessionGrant], ⟨⟨by decide +kernel, by decide, by decide +kernel, rfl, trivial⟩,
          fun other leads ends => ?_⟩, rfl, sessionGrant, [], rfl, rfl⟩
        cases other with
        | nil => exact absurd ends (by decide)
        | cons edge rest => exact Nat.succ_le_succ (Nat.zero_le _) }
  obtain ⟨grant, member, -⟩ := reports deployed _ _ existing session grants
  rw [none] at member
  exact absurd member List.not_mem_nil

end Graph
end Trstctl
