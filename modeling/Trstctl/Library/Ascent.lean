import Mathlib.Data.List.Nodup
import Mathlib.Data.List.Perm.Subperm
import Trstctl.Library.Result

/-!
# Climbing from parent to parent

Nodes know their parents, and a climb goes from a node to a root.  It fails at
a node that is not known and where it meets a node again.  A climb that
succeeds follows the one path of distinct nodes from the node to its root, and
still follows it when more nodes are known.
-/

namespace Trstctl

variable {Node : Type}

/-- A path of distinct nodes from a node to a root.  `above` is `none` of a node
that is not known, and `some none` of a root. -/
inductive Ascends (above : Node → Option (Option Node)) : Node → List Node → Prop where
  | root {node : Node} : above node = some none → Ascends above node [node]
  | step {node parent : Node} {path : List Node} :
      above node = some (some parent) → Ascends above parent path → node ∉ path →
        Ascends above node (node :: path)

namespace Ascends

variable {above later : Node → Option (Option Node)} {node : Node} {path other : List Node}

section

variable (ascends : Ascends above node path)

include ascends

theorem nodup : path.Nodup := by
  induction ascends with
  | root isRoot => exact List.nodup_singleton _
  | step hasParent ascends fresh ih =>
      exact List.nodup_cons.mpr ⟨fresh, ih⟩

theorem known : ∀ member ∈ path, above member ≠ none := by
  induction ascends with
  | root isRoot =>
      intro member isMember
      rw [List.mem_singleton.mp isMember, isRoot]
      exact Option.some_ne_none _
  | step hasParent ascends fresh ih =>
      rw [List.forall_mem_cons, hasParent]
      exact ⟨Option.some_ne_none _, ih⟩

theorem forall_mem {property : Node → Prop} (start : property node)
    (parents : ∀ child parent, above child = some (some parent) → property parent) :
    ∀ member ∈ path, property member := by
  induction ascends with
  | root isRoot => exact List.forall_mem_singleton.mpr start
  | step hasParent ascends fresh ih =>
      exact List.forall_mem_cons.mpr ⟨start, ih (parents _ _ hasParent)⟩

theorem unique (others : Ascends above node other) :
    path = other := by
  induction ascends generalizing other with
  | root isRoot =>
      cases others with
      | root otherRoot => rfl
      | step hasParent others fresh =>
          rw [isRoot] at hasParent
          cases hasParent
  | step hasParent ascends fresh ih =>
      cases others with
      | root otherRoot =>
          rw [otherRoot] at hasParent
          cases hasParent
      | step otherParent others otherFresh =>
          rw [hasParent] at otherParent
          obtain rfl := Option.some.inj (Option.some.inj otherParent)
          rw [ih others]

theorem mono (extends_above : ∀ known, above known ≠ none → later known = above known) :
    Ascends later node path := by
  induction ascends with
  | root isRoot =>
      exact .root ((extends_above _ (by rw [isRoot]; exact Option.some_ne_none _)).trans isRoot)
  | step hasParent ascends fresh ih =>
      refine .step ?_ ih fresh
      exact (extends_above _ (by rw [hasParent]; exact Option.some_ne_none _)).trans hasParent

theorem length_le {nodes : List Node} (all : ∀ known, above known ≠ none → known ∈ nodes) :
    path.length ≤ nodes.length :=
  (ascends.nodup.subperm
    fun member isMember => all member (ascends.known member isMember)).length_le

theorem tail {parent : Node} (hasParent : above node = some (some parent)) :
    ∃ rest, path = node :: rest ∧ Ascends above parent rest := by
  cases ascends with
  | root isRoot =>
      rw [isRoot] at hasParent
      cases hasParent
  | step otherParent ascends fresh =>
      rw [hasParent] at otherParent
      obtain rfl := Option.some.inj (Option.some.inj otherParent)
      exact ⟨_, rfl, ascends⟩

theorem of_mem {member : Node} (isMember : member ∈ path) :
    ∃ rest, Ascends above member rest ∧ rest <:+ path := by
  induction ascends with
  | root isRoot =>
      obtain rfl := List.mem_singleton.mp isMember
      exact ⟨_, .root isRoot, List.suffix_rfl⟩
  | step hasParent ascends fresh ih =>
      rcases List.mem_cons.mp isMember with rfl | later
      · exact ⟨_, .step hasParent ascends fresh, List.suffix_rfl⟩
      · obtain ⟨rest, restAscends, suffix⟩ := ih later
        exact ⟨rest, restAscends, suffix.trans (List.suffix_cons _ _)⟩

end

theorem of_parent {parent : Node} (hasParent : above node = some (some parent))
    (ascends : Ascends above parent path) :
    Ascends above node (node :: path) := by
  refine .step hasParent ascends fun again => ?_
  obtain ⟨rest, restAscends, suffix⟩ := ascends.of_mem again
  obtain ⟨further, rfl, others⟩ := restAscends.tail hasParent
  rw [others.unique ascends] at suffix
  have short := suffix.length_le
  rw [List.length_cons] at short
  omega

end Ascends

/-- Why a climb fails. -/
inductive ClimbError (Node : Type) where
  | unknown (node : Node)
  | cycle
deriving DecidableEq

variable [DecidableEq Node] {above : Node → Option (Option Node)}

/-- The climb from a node with what has been met on the way, the last first.
The number bounds its steps. -/
def climb (above : Node → Option (Option Node)) :
    Nat → List Node → Node → Except (ClimbError Node) (List Node)
  | 0, _, _ => .error .cycle
  | steps + 1, met, node =>
      match above node with
      | none => .error (.unknown node)
      | some parent =>
          if node ∈ met then .error .cycle
          else
            match parent with
            | none => .ok (node :: met)
            | some parent => climb above steps (node :: met) parent

variable {met : List Node} {steps : Nat} {node : Node}

theorem ascends_of_climb {result : List Node} (climbed : climb above steps met node = .ok result) :
    ∃ path, Ascends above node path ∧ List.Disjoint path met ∧ result = path.reverse ++ met := by
  induction steps generalizing met node with
  | zero => cases climbed
  | succ steps ih =>
      rw [climb] at climbed
      cases up : above node with
      | none =>
          rw [up] at climbed
          cases climbed
      | some parent =>
          rw [up] at climbed
          by_cases again : node ∈ met
          · simp only [if_pos again] at climbed
            cases climbed
          · simp only [if_neg again] at climbed
            cases parent with
            | none =>
                refine ⟨[node], .root up, ?_, (Except.ok.inj climbed).symm⟩
                rwa [List.singleton_disjoint]
            | some parent =>
                obtain ⟨path, ascends, disjoint, rfl⟩ := ih climbed
                obtain ⟨fresh, apart⟩ := List.disjoint_cons_right.mp disjoint
                refine ⟨node :: path, .step up ascends fresh, ?_, ?_⟩
                · rw [List.disjoint_cons_left]
                  exact ⟨again, apart⟩
                · rw [List.reverse_cons, List.append_assoc, List.singleton_append]

theorem climb_of_ascends {path : List Node} (ascends : Ascends above node path)
    (disjoint : List.Disjoint path met) (enough : path.length ≤ steps) :
    climb above steps met node = .ok (path.reverse ++ met) := by
  induction ascends generalizing steps met with
  | @root node isRoot =>
      obtain ⟨steps, rfl⟩ := Nat.exists_eq_add_of_le' enough
      rw [List.singleton_disjoint] at disjoint
      rw [List.length_singleton, climb, isRoot]
      simp only [if_neg disjoint]
      rfl
  | @step node parent path hasParent ascends fresh ih =>
      rw [List.length_cons] at enough
      obtain ⟨fewer, rfl⟩ := Nat.exists_eq_add_of_le' (Nat.le_trans (Nat.le_add_left 1 _) enough)
      obtain ⟨unmet, apart⟩ := List.disjoint_cons_left.mp disjoint
      have further := ih (List.disjoint_cons_right.mpr ⟨fresh, apart⟩)
        (Nat.le_of_succ_le_succ enough)
      rw [climb, hasParent]
      simp only [if_neg unmet]
      rw [further, List.reverse_cons, List.append_assoc, List.singleton_append]

/-- Whether the climb from a node comes to another, with what has been met on
the way.  The number bounds its steps. -/
def meets (above : Node → Option (Option Node)) (target : Node) : Nat → List Node → Node → Bool
  | 0, _, _ => false
  | steps + 1, met, node =>
      if node = target then true
      else if node ∈ met then false
      else
        match above node with
        | some (some parent) => meets above target steps (node :: met) parent
        | _ => false

variable {target : Node}

theorem meets_succ {nodes : List Node}
    (all : ∀ known, above known ≠ none → known ∈ nodes) (distinct : met.Nodup) (known : met ⊆ nodes)
    (enough : nodes.length < steps + met.length) :
    meets above target (steps + 1) met node = meets above target steps met node := by
  induction steps generalizing met node with
  | zero =>
      have most := (distinct.subperm known).length_le
      omega
  | succ steps ih =>
      rw [meets, meets]
      by_cases here : node = target
      · rw [if_pos here, if_pos here]
      · rw [if_neg here, if_neg here]
        by_cases again : node ∈ met
        · rw [if_pos again, if_pos again]
        · rw [if_neg again, if_neg again]
          match up : above node with
          | none => rfl
          | some none => rfl
          | some (some parent) =>
              apply ih (List.nodup_cons.mpr ⟨again, distinct⟩)
              · exact List.cons_subset.mpr
                  ⟨all node (by rw [up]; exact Option.some_ne_none _), known⟩
              · rw [List.length_cons]
                omega

theorem meets_of_le {nodes : List Node} {more : Nat}
    (all : ∀ known, above known ≠ none → known ∈ nodes) (enough : nodes.length < steps)
    (further : steps ≤ more) :
    meets above target more [] node = meets above target steps [] node := by
  induction further with
  | refl => rfl
  | step further ih =>
      rw [← ih]
      exact meets_succ all List.nodup_nil (List.nil_subset _) (Nat.lt_of_lt_of_le enough further)

theorem of_meets (property : Node → Prop)
    (meeting : meets above target steps met node = true) (start : property node)
    (parents : ∀ child parent, above child = some (some parent) → property parent) :
    property target := by
  induction steps generalizing met node with
  | zero => cases meeting
  | succ steps ih =>
      rw [meets] at meeting
      split at meeting
      next here => exact here ▸ start
      next elsewhere =>
        split at meeting
        next => cases meeting
        next =>
          split at meeting
          next parent up => exact ih meeting (parents node parent up)
          next => cases meeting

theorem exists_ascends_iff_of_meets (meeting : meets above target steps met node = true) :
    (∃ path, Ascends above node path) ↔ ∃ path, Ascends above target path := by
  induction steps generalizing met node with
  | zero => cases meeting
  | succ steps ih =>
      rw [meets] at meeting
      split at meeting
      next here => rw [here]
      next elsewhere =>
        split at meeting
        next => cases meeting
        next =>
          split at meeting
          next parent up =>
            rw [← ih meeting]
            constructor
            · rintro ⟨path, ascends⟩
              obtain ⟨rest, -, further⟩ := ascends.tail up
              exact ⟨rest, further⟩
            · rintro ⟨path, ascends⟩
              exact ⟨_, ascends.of_parent up⟩
          next => cases meeting

/-!
## Trees grown one node at a time

A tree starts with its root and grows by children of nodes it already has.  Each
node is kept with its ancestors, the nearest first.  What holds between a child
and its parent and composes along the levels holds between every node and each
of its ancestors.
-/

namespace Descent

variable {α : Type*} {issue : α → α → Prop} {root : α} {nodes : List (α × List α)}

/-- The nodes of a tree, each with its ancestors, after a sequence of steps. -/
inductive Built (issue : α → α → Prop) (root : α) : List (α × List α) → Prop
  | start : Built issue root [(root, [])]
  | grow {nodes : List (α × List α)} {parent child : α} {above : List α} :
      Built issue root nodes →
      (parent, above) ∈ nodes →
      issue parent child →
      Built issue root ((child, parent :: above) :: nodes)

theorem Built.ancestor (graded : Nat → α → α → Prop) (built : Built issue root nodes)
    (step : ∀ {parent child}, issue parent child → graded 1 child parent)
    (compose : ∀ {levels lower middle upper}, graded 1 lower middle →
      graded levels middle upper → graded (levels + 1) lower upper)
    {node ancestor : α} {above : List α} {level : Nat}
    (member : (node, above) ∈ nodes)
    (position : above[level]? = some ancestor) :
    graded (level + 1) node ancestor := by
  induction built generalizing node above level with
  | start =>
      obtain ⟨-, rfl⟩ := Prod.mk.inj (List.mem_singleton.mp member)
      cases position
  | grow _ parentMember issued ih =>
      rcases List.mem_cons.mp member with new | old
      · obtain ⟨rfl, rfl⟩ := Prod.mk.inj new
        cases level with
        | zero =>
            obtain rfl := Option.some.inj position
            exact step issued
        | succ level =>
            exact compose (step issued) (ih parentMember position)
      · exact ih old position

end Descent
end Trstctl
