import Mathlib.Data.List.Sort
import Trstctl.Go.Hash

/-!
# The sorted Merkle tree of a state digest

The functions of `internal/reconcile/digest/tree.go` over an arbitrary digest
function.  The canonical encoding of a record belongs to the package `canon`
and is a parameter here: a leaf is built from a record's key and its canonical
bytes, whatever they are.
-/

namespace Trstctl.Reconcile

open Go (Bytes bytes bigEndian64)

/-- What names a record. -/
structure RecordKey where
  tenantID : Bytes
  recordType : Bytes
  stableID : Bytes
deriving DecidableEq

/-- What the digest reads of a canonical record: its key, and its canonical
bytes unless the encoding fails. -/
structure Encoding (Record : Type) where
  recordKey : Record → RecordKey
  canonicalBytes : Record → Option Bytes

namespace Digest

/-- Why no leaf or tree is built. -/
inductive TreeError where
  | recordKey
  | canonicalBytes
  | duplicateRecordKey (key : Bytes)
deriving DecidableEq

/-- `Leaf`: the material of one canonical record. -/
structure Leaf where
  recordKeyBytes : Bytes
  canonicalRecordBytes : Bytes
  hash : Bytes
deriving DecidableEq

/-- `Tree`: the sorted leaves, the levels above them and the root. -/
structure Tree where
  leaves : List Leaf
  levels : List (List Bytes)
  root : Bytes
deriving DecidableEq

/-- `RecordKeyBytes`: the three fields of a key, joined by NUL bytes. -/
def recordKeyBytes (key : RecordKey) : Except TreeError Bytes :=
  if [key.tenantID, key.recordType, key.stableID].any
      (fun part => part.isEmpty || part.contains 0) then
    .error .recordKey
  else .ok (key.tenantID ++ [0] ++ key.recordType ++ [0] ++ key.stableID)

/-- The string hashed for a leaf. -/
def leafInput (recordKeyBytes canonicalRecordBytes : Bytes) : Bytes :=
  [0x00] ++ bytes "xrec/leaf/v1" ++ bigEndian64 recordKeyBytes.length ++
    recordKeyBytes ++ canonicalRecordBytes

/-- The tag in front of the string hashed for a node. -/
def nodeTag : Bytes :=
  [0x01] ++ bytes "xrec/node/v1"

/-- The string hashed for the empty tree. -/
def emptyInput : Bytes :=
  [0x00] ++ bytes "xrec/empty/v1"

variable (hash : Bytes → Bytes)

def leafHash (recordKeyBytes canonicalRecordBytes : Bytes) : Bytes :=
  hash (leafInput recordKeyBytes canonicalRecordBytes)

def nodeHash (left right : Bytes) : Bytes :=
  hash (nodeTag ++ left ++ right)

def emptyRoot : Bytes :=
  hash emptyInput

def newLeaf {Record : Type} (encoding : Encoding Record) (record : Record) :
    Except TreeError Leaf :=
  match recordKeyBytes (encoding.recordKey record) with
  | .error error => .error error
  | .ok key =>
      match encoding.canonicalBytes record with
      | none => .error .canonicalBytes
      | some canonical =>
          .ok {
            recordKeyBytes := key
            canonicalRecordBytes := canonical
            hash := leafHash hash key canonical }

/-- The leaves in the order of their record keys. -/
def sortLeaves (leaves : List Leaf) : List Leaf :=
  leaves.insertionSort (fun left right => left.recordKeyBytes ≤ right.recordKeyBytes)

/-- The first key of the sorted leaves that occurs twice. -/
def duplicateKey : List Leaf → Option Bytes
  | first :: second :: rest =>
      if first.recordKeyBytes = second.recordKeyBytes then some second.recordKeyBytes
      else duplicateKey (second :: rest)
  | _ => none

/-- One level above another: neighbours are hashed, an odd last node is
promoted. -/
def nextLevel : List Bytes → List Bytes
  | left :: right :: rest => nodeHash hash left right :: nextLevel rest
  | [last] => [last]
  | [] => []

theorem length_nextLevel (level : List Bytes) :
    (nextLevel hash level).length = (level.length + 1) / 2 := by
  fun_induction nextLevel hash level with
  | case1 left right rest ih =>
      simp only [List.length_cons, ih]
      omega
  | case2 last => simp
  | case3 => simp

/-- The loop `for len(level) > 1`, with all levels it passes. -/
def buildLevels (level : List Bytes) : List (List Bytes) :=
  if 1 < level.length then level :: buildLevels (nextLevel hash level) else [level]
termination_by level.length
decreasing_by
  rw [length_nextLevel]
  omega

/-- The only node of the last level. -/
def topNode (levels : List (List Bytes)) : Bytes :=
  (levels.getLastD []).headD []

/-- The tree over the leaves in key order. -/
def buildTree (input : List Leaf) : Except TreeError Tree :=
  let leaves := sortLeaves input
  match duplicateKey leaves with
  | some key => .error (.duplicateRecordKey key)
  | none =>
      if leaves.isEmpty then .ok { leaves := [], levels := [], root := emptyRoot hash }
      else
        let levels := buildLevels hash (leaves.map Leaf.hash)
        .ok { leaves := leaves, levels := levels, root := topNode levels }

/-- `ProofNode`: a sibling, on the left of the running hash or not. -/
structure ProofNode where
  hash : Bytes
  left : Bool
deriving DecidableEq

structure InclusionProof where
  recordKeyBytes : Bytes
  canonicalRecordBytes : Bytes
  siblings : List ProofNode
deriving DecidableEq

/-- The siblings of a position, level by level below the root. -/
def siblingsAt : Nat → List (List Bytes) → List ProofNode
  | position, level :: next :: rest =>
      let above := siblingsAt (position / 2) (next :: rest)
      if position % 2 = 0 then
        match level[position + 1]? with
        | some sibling => { hash := sibling, left := false } :: above
        | none => above
      else { hash := level.getD (position - 1) [], left := true } :: above
  | _, _ => []

/-- `sort.Search` for the first leaf whose key is not below `key`. -/
def searchLeaf (leaves : List Leaf) (key : Bytes) : Nat :=
  leaves.findIdx (fun leaf => decide (key ≤ leaf.recordKeyBytes))

def Tree.inclusionProof (tree : Tree) (key : Bytes) : Option InclusionProof :=
  let index := searchLeaf tree.leaves key
  match tree.leaves[index]? with
  | none => none
  | some leaf =>
      if leaf.recordKeyBytes = key then
        some {
          recordKeyBytes := leaf.recordKeyBytes
          canonicalRecordBytes := leaf.canonicalRecordBytes
          siblings := siblingsAt index tree.levels }
      else none

/-- The loop over the siblings of a proof, ended early by a sibling that is
not a digest. -/
def climbSiblings (current : Bytes) : List ProofNode → Option Bytes
  | [] => some current
  | sibling :: rest =>
      if sibling.hash.length = 32 then
        climbSiblings
          (if sibling.left then nodeHash hash sibling.hash current
            else nodeHash hash current sibling.hash) rest
      else none

def InclusionProof.verifyInclusion (proof : InclusionProof) (root : Bytes) : Bool :=
  if proof.recordKeyBytes.isEmpty || proof.canonicalRecordBytes.isEmpty then false
  else
    match climbSiblings hash (leafHash hash proof.recordKeyBytes proof.canonicalRecordBytes)
        proof.siblings with
    | none => false
    | some current => current == root

/-- `ProofLeaf`: a bracketing leaf. -/
structure ProofLeaf where
  recordKeyBytes : Bytes
  canonicalRecordBytes : Bytes
  proof : InclusionProof

/-- A target between two leaves. -/
structure AbsenceProof where
  targetKeyBytes : Bytes
  lower : Option ProofLeaf
  upper : Option ProofLeaf

def Tree.proofLeaf (tree : Tree) (index : Nat) : Option ProofLeaf :=
  tree.leaves[index]?.map fun leaf => {
    recordKeyBytes := leaf.recordKeyBytes
    canonicalRecordBytes := leaf.canonicalRecordBytes
    proof := (tree.inclusionProof leaf.recordKeyBytes).getD {
      recordKeyBytes := []
      canonicalRecordBytes := []
      siblings := [] } }

def Tree.absenceProof (tree : Tree) (target : Bytes) : Option AbsenceProof :=
  let position := searchLeaf tree.leaves target
  if (tree.leaves[position]?).any (fun leaf => leaf.recordKeyBytes == target) then none
  else
    some {
      targetKeyBytes := target
      lower := if 0 < position then tree.proofLeaf (position - 1) else none
      upper := tree.proofLeaf position }

/-- The checks of a lower bracket. -/
def lowerHolds (target root : Bytes) (lower : ProofLeaf) : Bool :=
  decide (lower.recordKeyBytes < target) && lower.proof.verifyInclusion hash root

/-- The checks of an upper bracket. -/
def upperHolds (target root : Bytes) (upper : ProofLeaf) : Bool :=
  decide (target < upper.recordKeyBytes) && upper.proof.verifyInclusion hash root

/-- The brackets verify and lie around the target. -/
def AbsenceProof.verifyAbsence (proof : AbsenceProof) (root : Bytes) : Bool :=
  if proof.targetKeyBytes.isEmpty then false
  else
    match proof.lower, proof.upper with
    | none, none => root == emptyRoot hash
    | some lower, none => lowerHolds hash proof.targetKeyBytes root lower
    | none, some upper => upperHolds hash proof.targetKeyBytes root upper
    | some lower, some upper =>
        lowerHolds hash proof.targetKeyBytes root lower &&
          upperHolds hash proof.targetKeyBytes root upper &&
          decide (lower.recordKeyBytes < upper.recordKeyBytes)

end Digest
end Trstctl.Reconcile
