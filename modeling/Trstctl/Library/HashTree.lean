import Trstctl.Go.Hash

/-!
# Binary trees of digests

A node is hashed from a tag and the digests of its two children, a leaf from a
string of its own.  When no leaf string starts like a node string, a path of
siblings that leads from a digest to the root leads from the digest of a
subtree.  Trees are assembled level by level, pairing neighbours and promoting
an odd last tree.
-/

namespace Trstctl

open Go (Bytes)

/-- A binary tree with entries at its leaves. -/
inductive HashTree (α : Type) where
  | leaf (entry : α)
  | node (left right : HashTree α)

namespace HashTree

variable {α : Type}

/-- The entries from left to right. -/
def entries : HashTree α → List α
  | leaf entry => [entry]
  | node left right => left.entries ++ right.entries

/-- The trees that occur in a tree, itself included. -/
def subtrees : HashTree α → List (HashTree α)
  | leaf entry => [leaf entry]
  | node left right => node left right :: (left.subtrees ++ right.subtrees)

theorem self_mem_subtrees (tree : HashTree α) : tree ∈ tree.subtrees := by
  cases tree <;> simp [subtrees]

theorem mem_entries_of_leaf_mem_subtrees {tree : HashTree α} {entry : α}
    (member : leaf entry ∈ tree.subtrees) :
    entry ∈ tree.entries := by
  induction tree with
  | leaf other => simpa [subtrees, entries] using member
  | node left right leftHypothesis rightHypothesis =>
      simp only [subtrees, List.mem_cons, reduceCtorEq, List.mem_append, false_or] at member
      rcases member with member | member
      · exact List.mem_append_left _ (leftHypothesis member)
      · exact List.mem_append_right _ (rightHypothesis member)

section Digest

variable (hash : Bytes → Bytes)
variable (leafInput : α → Bytes)
variable (tag : Bytes)

/-- The string hashed for a node with the given children. -/
def nodeInput (left right : Bytes) : Bytes :=
  tag ++ left ++ right

def digest : HashTree α → Bytes
  | leaf entry => hash (leafInput entry)
  | node left right => hash (nodeInput tag (digest left) (digest right))

/-- The string hashed for the root of a tree. -/
def input : HashTree α → Bytes
  | leaf entry => leafInput entry
  | node left right =>
      nodeInput tag (digest hash leafInput tag left) (digest hash leafInput tag right)

theorem digest_eq (tree : HashTree α) :
    digest hash leafInput tag tree = hash (input hash leafInput tag tree) := by
  cases tree <;> rfl

def inputs (tree : HashTree α) : List Bytes :=
  tree.subtrees.map (input hash leafInput tag)

theorem input_mem_inputs (tree : HashTree α) :
    input hash leafInput tag tree ∈ tree.inputs hash leafInput tag :=
  List.mem_map_of_mem tree.self_mem_subtrees

/-- Combine a running digest with a path of siblings, each marked as standing
on the left or not. -/
def climb (current : Bytes) : List (Bytes × Bool) → Bytes
  | [] => current
  | (sibling, true) :: path => climb (hash (nodeInput tag sibling current)) path
  | (sibling, false) :: path => climb (hash (nodeInput tag current sibling)) path

theorem climb_concat (current : Bytes) (path : List (Bytes × Bool)) (step : Bytes × Bool) :
    climb hash tag current (path ++ [step]) =
      hash (if step.2 then nodeInput tag step.1 (climb hash tag current path)
        else nodeInput tag (climb hash tag current path) step.1) := by
  induction path generalizing current with
  | nil =>
      obtain ⟨sibling, side⟩ := step
      cases side <;> rfl
  | cons first path ih =>
      obtain ⟨sibling, side⟩ := first
      cases side <;> exact ih _

end Digest

section Binding

variable {hash : Bytes → Bytes}
variable {leafInput : α → Bytes}
variable {tag : Bytes}
variable {bound : Set Bytes}

theorem length_digest (binds : Hash.Binds hash bound) (tree : HashTree α) :
    (digest hash leafInput tag tree).length = 32 := by
  rw [digest_eq]
  exact binds.length_eq _

theorem length_climb (binds : Hash.Binds hash bound) (current : Bytes) (path : List (Bytes × Bool))
    (length : current.length = 32) :
    (climb hash tag current path).length = 32 := by
  induction path using List.reverseRecOn with
  | nil => exact length
  | append_singleton path step => rw [climb_concat]; exact binds.length_eq _

theorem contained_children {left right : HashTree α}
    (contained : ∀ text ∈ (node left right).inputs hash leafInput tag, text ∈ bound) :
    (∀ text ∈ left.inputs hash leafInput tag, text ∈ bound) ∧
      ∀ text ∈ right.inputs hash leafInput tag, text ∈ bound := by
  simp only [inputs, subtrees, List.map_cons, List.map_append] at contained
  exact ⟨fun text member => contained text (List.mem_cons_of_mem _ (List.mem_append_left _ member)),
    fun text member => contained text (List.mem_cons_of_mem _ (List.mem_append_right _ member))⟩

theorem map_entries_eq_of_digest_eq (binds : Hash.Binds hash bound)
    (separated : ∀ entry left right, leafInput entry ≠ nodeInput tag left right)
    {tree other : HashTree α} (contained : ∀ text ∈ tree.inputs hash leafInput tag, text ∈ bound)
    (equal : digest hash leafInput tag other = digest hash leafInput tag tree) :
    other.entries.map leafInput = tree.entries.map leafInput := by
  induction tree generalizing other with
  | leaf entry =>
      have strings := binds.eq_of_hash_eq _
        (contained _ (input_mem_inputs hash leafInput tag (leaf entry))) _
        ((digest_eq hash leafInput tag other).symm.trans equal)
      cases other with
      | leaf otherEntry => exact congrArg (fun text => [text]) strings
      | node left right => exact absurd strings.symm (separated entry _ _)
  | node left right leftHypothesis rightHypothesis =>
      have strings := binds.eq_of_hash_eq _
        (contained _ (input_mem_inputs hash leafInput tag (node left right))) _
        ((digest_eq hash leafInput tag other).symm.trans equal)
      obtain ⟨leftContained, rightContained⟩ := contained_children contained
      cases other with
      | leaf otherEntry => exact absurd strings (separated otherEntry _ _)
      | node otherLeft otherRight =>
          simp only [input, nodeInput, List.append_assoc] at strings
          obtain ⟨lefts, rights⟩ := List.append_inj (List.append_cancel_left strings)
            ((length_digest binds otherLeft).trans (length_digest binds left).symm)
          rw [entries, entries, List.map_append, List.map_append,
            leftHypothesis leftContained lefts, rightHypothesis rightContained rights]

/-- A path of 32-byte siblings that leads to the digest of a tree starts at
the digest of one of its subtrees. -/
theorem exists_subtree_of_climb_eq (binds : Hash.Binds hash bound)
    (separated : ∀ entry left right, leafInput entry ≠ nodeInput tag left right)
    (path : List (Bytes × Bool)) (siblings : ∀ step ∈ path, step.1.length = 32) {current : Bytes}
    (length : current.length = 32) {tree : HashTree α}
    (contained : ∀ text ∈ tree.inputs hash leafInput tag, text ∈ bound)
    (reached : climb hash tag current path = digest hash leafInput tag tree) :
    ∃ subtree ∈ tree.subtrees, digest hash leafInput tag subtree = current := by
  -- The path is read from the root down, so the induction removes its last step.
  induction path using List.reverseRecOn generalizing tree with
  | nil => exact ⟨tree, tree.self_mem_subtrees, reached.symm⟩
  | append_singleton path step ih =>
      obtain ⟨sibling, side⟩ := step
      rw [climb_concat, digest_eq] at reached
      have strings := binds.eq_of_hash_eq _
        (contained _ (input_mem_inputs hash leafInput tag tree)) _ reached
      have pathSiblings : ∀ step ∈ path, step.1.length = 32 :=
        fun step member => siblings step (List.mem_append_left _ member)
      have siblingLength : sibling.length = 32 :=
        siblings (sibling, side) (List.mem_append_right _ List.mem_cons_self)
      have climbLength : (climb hash tag current path).length = 32 :=
        length_climb binds current path length
      cases tree with
      | leaf entry =>
          cases side
          · exact absurd strings.symm (separated entry _ _)
          · exact absurd strings.symm (separated entry _ _)
      | node left right =>
          have leftLength : (digest hash leafInput tag left).length = 32 :=
            length_digest binds left
          obtain ⟨leftContained, rightContained⟩ := contained_children contained
          simp only [input, nodeInput, List.append_assoc] at strings
          cases side with
          | true =>
              have children := List.append_inj (List.append_cancel_left strings)
                (siblingLength.trans leftLength.symm)
              obtain ⟨subtree, member, found⟩ :=
                ih pathSiblings rightContained children.2
              exact ⟨subtree, List.mem_cons_of_mem _ (List.mem_append_right _ member), found⟩
          | false =>
              have children := List.append_inj (List.append_cancel_left strings)
                (climbLength.trans leftLength.symm)
              obtain ⟨subtree, member, found⟩ :=
                ih pathSiblings leftContained children.1
              exact ⟨subtree, List.mem_cons_of_mem _ (List.mem_append_left _ member), found⟩

theorem exists_entry_of_climb_eq (binds : Hash.Binds hash bound)
    (separated : ∀ entry left right, leafInput entry ≠ nodeInput tag left right)
    (path : List (Bytes × Bool)) (siblings : ∀ step ∈ path, step.1.length = 32) {text : Bytes}
    (noNode : ∀ left right, text ≠ nodeInput tag left right) {tree : HashTree α}
    (contained : ∀ text ∈ tree.inputs hash leafInput tag, text ∈ bound)
    (reached : climb hash tag (hash text) path = digest hash leafInput tag tree) :
    ∃ entry ∈ tree.entries, leafInput entry = text := by
  obtain ⟨subtree, member, found⟩ := exists_subtree_of_climb_eq binds separated path siblings
    (binds.length_eq text) contained reached
  rw [digest_eq] at found
  have strings := binds.eq_of_hash_eq _ (contained _ (List.mem_map_of_mem member)) _ found.symm
  cases subtree with
  | leaf entry => exact ⟨entry, mem_entries_of_leaf_mem_subtrees member, strings.symm⟩
  | node left right => exact absurd strings (noNode _ _)

end Binding

/-- Pair neighbouring trees and promote an odd last tree. -/
def pairUp : List (HashTree α) → List (HashTree α)
  | left :: right :: rest => node left right :: pairUp rest
  | [tree] => [tree]
  | [] => []

theorem flatMap_entries_pairUp (level : List (HashTree α)) :
    (pairUp level).flatMap entries = level.flatMap entries := by
  fun_induction pairUp level with
  | case1 left right rest ih => simp [entries, ih]
  | case2 tree => rfl
  | case3 => rfl

theorem length_pairUp (level : List (HashTree α)) :
    (pairUp level).length = (level.length + 1) / 2 := by
  fun_induction pairUp level with
  | case1 left right rest ih =>
      simp only [List.length_cons, ih]
      omega
  | case2 tree => simp
  | case3 => simp

end HashTree
end Trstctl
