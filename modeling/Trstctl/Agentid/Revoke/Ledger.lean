import Mathlib.Data.List.Sort
import Trstctl.Go.Encoding

/-!
# The delegation ledger

Events as the cascade reads them, and the descendant credentials of a subject as
a fold of the events up to a watermark.
-/

namespace Trstctl.Agentid.Revoke

open Go (Bytes bytes)

/-- `DelegationRecordedV1`, as far as the fold reads it. -/
structure DelegationRecordedV1 where
  recordDigest : Bytes
  parentDigest : Bytes
  rootAnchor : Bool
  delegatorID : Bytes
  delegateID : Bytes
deriving DecidableEq

/-- `IssuanceRecordedV1`, as far as the fold reads it. -/
structure IssuanceRecordedV1 where
  credentialID : Bytes
  credentialDigest : Bytes
  chainDigest : Bytes
deriving DecidableEq

structure RevocationDirectiveV1 where
  tenantID : Bytes
  subjectID : Bytes
  reason : Bytes
  watermark : Nat
deriving DecidableEq

/-- What `Decode` makes of the data of an event of a known type: an error, the
`Unknown` payload of a newer schema, or the payload. -/
inductive Body (α : Type) where
  | malformed
  | newer
  | known (payload : α)
deriving DecidableEq

/-- The type of an event with its data. -/
inductive Content where
  | delegationRecorded (body : Body DelegationRecordedV1)
  | issuanceRecorded (body : Body IssuanceRecordedV1)
  | revocationDirective (body : Body RevocationDirectiveV1)
  /-- The directive that a terminal event names, where its data can be read. -/
  | revocationTerminal (directiveID : Option Bytes)
  | other
  /-- Data of another known type that `Decode` refuses. -/
  | undecodable
deriving DecidableEq

structure Event where
  id : Bytes
  tenantID : Bytes
  sequence : Nat
  content : Content
deriving DecidableEq

/-- The events of the log in the order of their sequence numbers, and the last
number that was given out. -/
structure Ledger where
  events : List Event
  head : Nat
  ascending : events.Pairwise fun first second => first.sequence < second.sequence
  numbered : ∀ event ∈ events, 1 ≤ event.sequence ∧ event.sequence ≤ head

/-- The ledger without events. -/
def Ledger.empty : Ledger :=
  ⟨[], 0, List.Pairwise.nil, List.forall_mem_nil _⟩

/-- `Log.Append`: the event gets the next sequence number. -/
def Ledger.append (ledger : Ledger) (id tenantID : Bytes) (content : Content) : Ledger where
  events := ledger.events ++ [⟨id, tenantID, ledger.head + 1, content⟩]
  head := ledger.head + 1
  ascending := by
    refine List.pairwise_append.mpr ⟨ledger.ascending, List.pairwise_singleton _ _, ?_⟩
    intro event member last isLast
    rw [List.mem_singleton.mp isLast]
    exact Nat.lt_succ_of_le (ledger.numbered event member).2
  numbered := by
    intro event member
    rcases List.mem_append.mp member with earlier | last
    · obtain ⟨positive, below⟩ := ledger.numbered event earlier
      exact ⟨positive, below.trans (Nat.le_succ _)⟩
    · rw [List.mem_singleton.mp last]
      exact ⟨Nat.le_add_left 1 _, le_rfl⟩

def unboundedWatermark : Nat := 2 ^ 64 - 1

structure Edge where
  parent : Bytes
  rootAnchor : Bool
  delegator : Bytes
  delegate : Bytes

/-- `EdgeSet`, as far as the descendants of a subject depend on it. -/
structure EdgeSet where
  records : Go.Map Edge
  chainHead : Go.Map Bytes

def withinWatermark (sequence watermark : Nat) : Bool :=
  if watermark = unboundedWatermark then true
  else if sequence = 0 then false
  else sequence ≤ watermark

def hexKey (digest : Bytes) : Bytes :=
  if digest.isEmpty then [] else Go.hexEncode digest

/-- One event of the loop of `FoldEdges`; nothing when `Decode` fails. -/
def foldEdge (edges : EdgeSet) (event : Event) : Option EdgeSet :=
  match event.content with
  | .delegationRecorded .malformed => none
  | .issuanceRecorded .malformed => none
  | .revocationDirective .malformed => none
  | .undecodable => none
  | .delegationRecorded (.known payload) =>
      if payload.recordDigest.isEmpty then some edges
      else
        let edge : Edge :=
          { parent := hexKey payload.parentDigest, rootAnchor := payload.rootAnchor
            delegator := payload.delegatorID, delegate := payload.delegateID }
        some { edges with records := edges.records.set (hexKey payload.recordDigest) edge }
  | .issuanceRecorded (.known payload) =>
      let credential :=
        if payload.credentialID.isEmpty then hexKey payload.credentialDigest
        else payload.credentialID
      if credential.isEmpty then some edges
      else
        some { edges with
          chainHead := edges.chainHead.set credential (hexKey payload.chainDigest) }
  | _ => some edges

def foldEdges (events : List Event) (watermark : Nat) : Option EdgeSet :=
  events.foldlM
    (fun edges event =>
      if withinWatermark event.sequence watermark then foldEdge edges event else some edges)
    ⟨[], []⟩

/-- The loop of `EdgeSet.chainContains`.  It visits no record twice, so there are
no more steps than records. -/
def EdgeSet.chainContainsFrom (edges : EdgeSet) (subject : Bytes) :
    Nat → List Bytes → Bytes → Bool
  | 0, _, _ => false
  | steps + 1, seen, current =>
      if current.isEmpty then false
      else if seen.contains current then false
      else
        match edges.records.lookup current with
        | none => false
        | some edge =>
            if edge.delegator == subject || edge.delegate == subject then true
            else if edge.rootAnchor || edge.parent.isEmpty then false
            else edges.chainContainsFrom subject steps (current :: seen) edge.parent

def EdgeSet.chainContains (edges : EdgeSet) (chainHead subject : Bytes) : Bool :=
  edges.chainContainsFrom subject (edges.records.length + 1) [] chainHead

/-- `DescendantSetFromEdges`: the credentials in order. -/
def descendantSetFromEdges (edges : EdgeSet) (subject : Bytes) : List Bytes :=
  ((edges.chainHead.filter fun binding => edges.chainContains binding.2 subject).map
    Prod.fst).insertionSort (· ≤ ·)

def descendantSetOf (events : List Event) (subject : Bytes) (watermark : Nat) :
    Option (List Bytes) :=
  (foldEdges events watermark).map fun edges => descendantSetFromEdges edges subject

/-- The types that `tenantPrefix` asks for. -/
def Content.hasEdge : Content → Bool
  | .delegationRecorded _ => true
  | .issuanceRecorded _ => true
  | _ => false

def Ledger.tenantPrefix (ledger : Ledger) (tenantID : Bytes) (watermark : Nat) : List Event :=
  let through := if watermark = unboundedWatermark then ledger.head else watermark
  ledger.events.filter fun event =>
    event.tenantID == tenantID && event.content.hasEdge &&
      (1 ≤ event.sequence && event.sequence ≤ through : Bool)

def Ledger.descendantsAsOf (ledger : Ledger) (tenantID subject : Bytes) (watermark : Nat) :
    Option (List Bytes) :=
  descendantSetOf (ledger.tenantPrefix tenantID watermark) subject watermark

theorem Ledger.descendantsAsOf_append_directive (ledger : Ledger) (id tenantID : Bytes)
    (body : Body RevocationDirectiveV1) (other subject : Bytes) (watermark : Nat) :
    (ledger.append id tenantID (.revocationDirective body)).descendantsAsOf other subject
        watermark =
      ledger.descendantsAsOf other subject watermark := by
  have prefix_eq :
      (ledger.append id tenantID (.revocationDirective body)).tenantPrefix other watermark =
        ledger.tenantPrefix other watermark := by
    have noEdge : (Content.revocationDirective body).hasEdge = false := rfl
    unfold Ledger.tenantPrefix Ledger.append
    simp only [List.filter_append, List.filter_singleton, noEdge, Bool.and_false,
      Bool.false_and, cond_false, List.append_nil]
    refine List.filter_congr fun event member => ?_
    -- an unbounded replay reads up to the head, and no event is after it
    have numbered := (ledger.numbered event member).2
    split_ifs
    · simp [numbered, numbered.trans (Nat.le_succ _)]
    · rfl
  unfold Ledger.descendantsAsOf
  rw [prefix_eq]

end Trstctl.Agentid.Revoke
