import Trstctl.Agentid.Revoke.Ledger
import Trstctl.Library.Sorting

/-!
# Copies of events

An event that is delivered again is folded again, and what it writes replaces
what later events wrote under the same record digest or credential.  A copy is
harmless exactly when the last of these writes is no different from its own.
-/

namespace Trstctl.Agentid.Revoke

open Go (Bytes bytes MapOf)

/-- The highest sequence number that `FoldEdges` folds. -/
def foldWatermark (events : List Event) (watermark : Nat) : Nat :=
  (events.filter fun event => withinWatermark event.sequence watermark).foldl
    (fun highest event => if highest < event.sequence then event.sequence else highest) 0

structure DescendantSet where
  subject : Bytes
  watermark : Nat
  credentials : List Bytes
deriving DecidableEq

/-- `DescendantSetOf`, with the subject and the determining watermark. -/
def descendantSet (events : List Event) (subject : Bytes) (watermark : Nat) :
    Option DescendantSet :=
  (descendantSetOf events subject watermark).map fun credentials =>
    ⟨subject, foldWatermark events watermark, credentials⟩

variable {events : List Event} {watermark : Nat}

theorem foldWatermark_le_iff {bound : Nat} :
    foldWatermark events watermark ≤ bound ↔
      ∀ event ∈ events, withinWatermark event.sequence watermark = true →
        event.sequence ≤ bound := by
  have loop (events : List Event) (highest : Nat) :
      events.foldl (fun highest event =>
        if highest < event.sequence then event.sequence else highest) highest ≤ bound ↔
      highest ≤ bound ∧ ∀ event ∈ events, event.sequence ≤ bound := by
    induction events generalizing highest with
    | nil => simp
    | cons event rest ih =>
        rw [List.foldl_cons, ih, List.forall_mem_cons, ← and_assoc]
        refine and_congr_left fun _ => ?_
        split <;> omega
  simp [foldWatermark, loop]

variable {event : Event}

theorem foldWatermark_insert_copy (member : event ∈ events) (later : List Event) (watermark : Nat) :
    foldWatermark (events ++ event :: later) watermark =
      foldWatermark (events ++ later) watermark := by
  refine eq_of_forall_ge_iff fun bound => ?_
  simp only [foldWatermark_le_iff, List.forall_mem_append, List.forall_mem_cons]
  exact and_congr_right fun bounded => and_iff_right (bounded event member)

/-- What an event writes to the set of edges. -/
inductive Write where
  | record (digest : Bytes) (edge : Edge)
  | chainHead (credential head : Bytes)

/-- What the data of an event writes. -/
def Content.write : Content → Option Write
  | .delegationRecorded (.known payload) =>
      if payload.recordDigest.isEmpty then none
      else
        some (.record (hexKey payload.recordDigest)
          { parent := hexKey payload.parentDigest, rootAnchor := payload.rootAnchor
            delegator := payload.delegatorID, delegate := payload.delegateID })
  | .issuanceRecorded (.known payload) =>
      let credential :=
        if payload.credentialID.isEmpty then hexKey payload.credentialDigest
        else payload.credentialID
      if credential.isEmpty then none
      else some (.chainHead credential (hexKey payload.chainDigest))
  | _ => none

/-- The data of an event can be decoded. -/
def Content.decodes : Content → Bool
  | .delegationRecorded .malformed => false
  | .issuanceRecorded .malformed => false
  | .revocationDirective .malformed => false
  | .undecodable => false
  | _ => true

def EdgeSet.apply (edges : EdgeSet) : Write → EdgeSet
  | .record digest edge => { edges with records := edges.records.set digest edge }
  | .chainHead credential head => { edges with chainHead := edges.chainHead.set credential head }

theorem foldEdge_eq (edges : EdgeSet) (event : Event) :
    foldEdge edges event =
      if event.content.decodes then some (event.content.write.toList.foldl EdgeSet.apply edges)
      else none := by
  obtain ⟨id, tenantID, sequence, content⟩ := event
  unfold foldEdge
  cases content with
  | delegationRecorded body =>
      cases body with
      | known payload =>
          simp only [Content.decodes, Content.write]
          split <;> rfl
      | _ => rfl
  | issuanceRecorded body =>
      cases body with
      | known payload =>
          simp only [Content.decodes, Content.write, if_true]
          generalize (if payload.credentialID.isEmpty then hexKey payload.credentialDigest
            else payload.credentialID) = credential
          cases credential <;> rfl
      | _ => rfl
  | revocationDirective body => cases body <;> rfl
  | _ => rfl

/-- What the events within a watermark write, in their order. -/
def writes (events : List Event) (watermark : Nat) : List Write :=
  (events.filter fun event => withinWatermark event.sequence watermark).flatMap fun event =>
    event.content.write.toList

/-- The events within a watermark can be decoded. -/
def Decodes (events : List Event) (watermark : Nat) : Prop :=
  ∀ event ∈ events, withinWatermark event.sequence watermark = true →
    event.content.decodes = true

@[simp]
theorem writes_append (first second : List Event) (watermark : Nat) :
    writes (first ++ second) watermark = writes first watermark ++ writes second watermark := by
  simp [writes]

theorem writes_cons (event : Event) (events : List Event) (watermark : Nat) :
    writes (event :: events) watermark = writes [event] watermark ++ writes events watermark :=
  writes_append [event] events watermark

variable {edges : EdgeSet}

theorem foldEdges_eq_some_iff :
    foldEdges events watermark = some edges ↔
      Decodes events watermark ∧
        (writes events watermark).foldl EdgeSet.apply ⟨[], []⟩ = edges := by
  suffices loop : ∀ start : EdgeSet,
      events.foldlM (fun edges event =>
        if withinWatermark event.sequence watermark then foldEdge edges event else some edges)
        start = some edges ↔
      Decodes events watermark ∧ (writes events watermark).foldl EdgeSet.apply start = edges from
    loop _
  intro start
  induction events generalizing start with
  | nil => simp [Decodes, writes]
  | cons event rest ih =>
      rw [List.foldlM_cons, writes_cons, List.foldl_append, Decodes, List.forall_mem_cons]
      by_cases within : withinWatermark event.sequence watermark = true
      · rw [if_pos within, foldEdge_eq]
        by_cases decodes : event.content.decodes = true
        · simp [decodes, ih, within, writes, Decodes]
        · simp [decodes, within]
      · simp [within, ih, writes, Decodes]

/-- The record is between a subject and another party. -/
def Edge.names (edge : Edge) (subject : Bytes) : Bool :=
  edge.delegator == subject || edge.delegate == subject

/-- The record at which the walk goes on, if it does: a parent that is the record
itself ends the walk like no parent. -/
def Edge.above (edge : Edge) (digest : Bytes) : Option Bytes :=
  if edge.rootAnchor || edge.parent.isEmpty || edge.parent == digest then none
  else some edge.parent

/-- Two records under one digest that the walk cannot tell apart: they have the
same parties, in either order, and the walk goes on at the same record. -/
def Edge.Alike (digest : Bytes) (first second : Edge) : Prop :=
  (first.delegator = second.delegator ∧ first.delegate = second.delegate ∨
    first.delegator = second.delegate ∧ first.delegate = second.delegator) ∧
  first.above digest = second.above digest

instance (digest : Bytes) (first second : Edge) : Decidable (first.Alike digest second) :=
  inferInstanceAs (Decidable (_ ∧ _))

/-- Both write the record of one digest, or the chain head of one credential. -/
def Write.sameKey : Write → Write → Bool
  | .record digest _, .record other _ => digest == other
  | .chainHead credential _, .chainHead other _ => credential == other
  | _, _ => false

/-- Writes of one key that no walk can tell apart. -/
def Write.Alike : Write → Write → Prop
  | .record digest edge, .record _ other => edge.Alike digest other
  | .chainHead _ head, .chainHead _ other => head = other
  | _, _ => False

instance : DecidableRel Write.Alike
  | .record digest edge, .record _ other => inferInstanceAs (Decidable (edge.Alike digest other))
  | .chainHead _ head, .chainHead _ other => inferInstanceAs (Decidable (head = other))
  | .record _ _, .chainHead _ _ => isFalse id
  | .chainHead _ _, .record _ _ => isFalse id

/-- Of the writes between an event and its copy, the last one under the key of the
event, if there is one, is no different from what the event writes. -/
def Unchanging (event : Event) (between : List Event) (watermark : Nat) : Prop :=
  ∀ write ∈ writes [event] watermark,
    ∀ last ∈ ((writes between watermark).filter write.sameKey).getLast?, write.Alike last

theorem Edge.Alike.refl (digest : Bytes) (edge : Edge) : edge.Alike digest edge :=
  ⟨.inl ⟨rfl, rfl⟩, rfl⟩

theorem Write.Alike.refl (write : Write) : write.Alike write := by
  cases write with
  | record digest edge => exact Edge.Alike.refl digest edge
  | chainHead credential head => rfl

variable {digest : Bytes}

theorem Edge.Alike.names_eq {first second : Edge} (alike : first.Alike digest second)
    (subject : Bytes) :
    first.names subject = second.names subject := by
  unfold Edge.names
  rcases alike.1 with ⟨delegator, delegate⟩ | ⟨delegator, delegate⟩
  · rw [delegator, delegate]
  · rw [delegator, delegate, Bool.or_comm]

variable {edge : Edge}

theorem Edge.above_eq_some_iff {parent : Bytes} :
    edge.above digest = some parent ↔
      edge.rootAnchor = false ∧ edge.parent = parent ∧ parent ≠ [] ∧ parent ≠ digest := by
  unfold Edge.above
  split
  · next ends =>
      simp only [Bool.or_eq_true, List.isEmpty_iff, beq_iff_eq] at ends
      grind
  · next goesOn =>
      simp only [Bool.or_eq_true, List.isEmpty_iff, beq_iff_eq, not_or] at goesOn
      grind

theorem Edge.exists_differs {first second : Edge} (different : ¬ first.Alike digest second) :
    (∃ subject, first.names subject ≠ second.names subject) ∨
      (∀ subject, first.names subject = second.names subject) ∧
        first.above digest ≠ second.above digest := by
  by_cases parties : ∀ subject, first.names subject = second.names subject
  · refine .inr ⟨parties, fun above => different ⟨?_, above⟩⟩
    have pair : ({first.delegator, first.delegate} : Set Bytes) =
        {second.delegator, second.delegate} := by
      ext subject
      have same := Bool.eq_iff_iff.mp (parties subject)
      simpa [Edge.names, @eq_comm _ subject] using same
    exact Set.pair_eq_pair_iff.mp pair
  · exact .inl (not_forall.mp parties)

/-- Sets of edges that no walk can tell apart. -/
structure EdgeSet.Alike (first second : EdgeSet) : Prop where
  records : ∀ digest,
    Option.Rel (Edge.Alike digest) (first.records.lookup digest) (second.records.lookup digest)
  heads : ∀ credential, first.chainHead.lookup credential = second.chainHead.lookup credential

/-- No digest and no credential is bound twice. -/
structure EdgeSet.Keyed (edges : EdgeSet) : Prop where
  records : (edges.records.map Prod.fst).Nodup
  heads : (edges.chainHead.map Prod.fst).Nodup

theorem EdgeSet.Keyed.apply (keyed : edges.Keyed) (write : Write) :
    (edges.apply write).Keyed := by
  cases write with
  | record digest edge => exact ⟨MapOf.nodup_set _ _ keyed.records, keyed.heads⟩
  | chainHead credential head => exact ⟨keyed.records, MapOf.nodup_set _ _ keyed.heads⟩

theorem EdgeSet.Keyed.foldl_apply (keyed : edges.Keyed) (written : List Write) :
    (written.foldl EdgeSet.apply edges).Keyed := by
  induction written generalizing edges with
  | nil => exact keyed
  | cons write rest ih => exact ih (keyed.apply write)

variable {first second : EdgeSet}

theorem EdgeSet.Alike.apply (alike : first.Alike second) (write : Write) :
    (first.apply write).Alike (second.apply write) := by
  cases write with
  | record digest edge =>
      refine ⟨fun other => ?_, alike.heads⟩
      simp only [EdgeSet.apply, MapOf.lookup_set]
      split
      · exact .some (Edge.Alike.refl other edge)
      · exact alike.records other
  | chainHead credential head =>
      refine ⟨alike.records, fun other => ?_⟩
      simp only [EdgeSet.apply, MapOf.lookup_set, alike.heads other]

theorem EdgeSet.Alike.foldl_apply (alike : first.Alike second) (written : List Write) :
    (written.foldl EdgeSet.apply first).Alike (written.foldl EdgeSet.apply second) := by
  induction written generalizing first second with
  | nil => exact alike
  | cons write rest ih => exact ih (alike.apply write)

theorem EdgeSet.chainContainsFrom_succ (edges : EdgeSet) (subject : Bytes) (steps : Nat)
    (seen : List Bytes) {current : Bytes} (nonempty : current ≠ []) (fresh : current ∉ seen) :
    edges.chainContainsFrom subject (steps + 1) seen current =
      (edges.records.lookup current).elim false fun edge =>
        edge.names subject || (edge.above current).elim false fun parent =>
          edges.chainContainsFrom subject steps (current :: seen) parent := by
  -- a walk that comes back to the record it is at ends there
  have back : edges.chainContainsFrom subject steps (current :: seen) current = false := by
    cases steps with
    | zero => rfl
    | succ steps => simp [EdgeSet.chainContainsFrom, nonempty]
  rw [EdgeSet.chainContainsFrom, if_neg (by simpa using nonempty), if_neg (by simpa using fresh)]
  cases edges.records.lookup current with
  | none => rfl
  | some edge =>
      simp only [Option.elim_some, Edge.names, Edge.above]
      by_cases named : (edge.delegator == subject || edge.delegate == subject) = true
      · rw [if_pos named, named, Bool.true_or]
      · rw [if_neg named, Bool.eq_false_of_not_eq_true named, Bool.false_or]
        by_cases root : (edge.rootAnchor || edge.parent.isEmpty) = true
        · rw [if_pos root, root, Bool.true_or, if_pos rfl, Option.elim_none]
        · rw [if_neg root, Bool.eq_false_of_not_eq_true root, Bool.false_or]
          by_cases itself : edge.parent = current
          · simp [itself, back]
          · simp [itself]

theorem EdgeSet.Alike.chainContainsFrom_eq (alike : first.Alike second) (subject : Bytes)
    (steps : Nat) (seen : List Bytes) (current : Bytes) :
    first.chainContainsFrom subject steps seen current =
      second.chainContainsFrom subject steps seen current := by
  induction steps generalizing seen current with
  | zero => rfl
  | succ steps ih =>
      by_cases nonempty : current = []
      · simp [EdgeSet.chainContainsFrom, nonempty]
      by_cases visited : current ∈ seen
      · simp [EdgeSet.chainContainsFrom, nonempty, visited]
      rw [first.chainContainsFrom_succ _ _ _ nonempty visited,
        second.chainContainsFrom_succ _ _ _ nonempty visited]
      have related := alike.records current
      generalize first.records.lookup current = found at related ⊢
      generalize second.records.lookup current = other at related ⊢
      cases related with
      | none => rfl
      | some edges =>
          simp only [Option.elim_some, edges.names_eq subject, edges.2, ih]

theorem EdgeSet.Alike.length_eq (alike : first.Alike second) (firstKeyed : first.Keyed)
    (secondKeyed : second.Keyed) :
    first.records.length = second.records.length := by
  have keys : (Go.Map.keys first.records).Perm (Go.Map.keys second.records) := by
    refine (List.perm_ext_iff_of_nodup firstKeyed.records secondKeyed.records).mpr fun digest => ?_
    have related := alike.records digest
    rw [← Go.Map.keys, ← Go.Map.keys, Go.Map.mem_keys, Go.Map.mem_keys]
    generalize first.records.lookup digest = found at related ⊢
    generalize second.records.lookup digest = other at related ⊢
    cases related with
    | none => rfl
    | some _ => simp
  simpa [Go.Map.keys] using keys.length_eq

variable {subject : Bytes}

theorem mem_descendantSetFromEdges (keyed : edges.Keyed) {credential : Bytes} :
    credential ∈ descendantSetFromEdges edges subject ↔
      ∃ head, edges.chainHead.lookup credential = some head ∧
        edges.chainContains head subject = true := by
  rw [descendantSetFromEdges, List.mem_insertionSort, List.mem_map]
  simp only [MapOf.lookup_eq_some_iff keyed.heads, List.mem_filter]
  constructor
  · rintro ⟨⟨name, head⟩, ⟨member, contains⟩, rfl⟩
    exact ⟨head, member, contains⟩
  · rintro ⟨head, member, contains⟩
    exact ⟨(credential, head), ⟨member, contains⟩, rfl⟩

theorem EdgeSet.Alike.descendants_eq (alike : first.Alike second) (firstKeyed : first.Keyed)
    (secondKeyed : second.Keyed) (subject : Bytes) :
    descendantSetFromEdges first subject = descendantSetFromEdges second subject := by
  have members (credential : Bytes) : credential ∈ descendantSetFromEdges first subject ↔
      credential ∈ descendantSetFromEdges second subject := by
    rw [mem_descendantSetFromEdges firstKeyed, mem_descendantSetFromEdges secondKeyed]
    simp only [alike.heads, EdgeSet.chainContains, alike.length_eq firstKeyed secondKeyed,
      alike.chainContainsFrom_eq]
  have nodup {edges : EdgeSet} (keyed : edges.Keyed) :
      ((edges.chainHead.filter fun binding => edges.chainContains binding.2 subject).map
        Prod.fst).Nodup :=
    keyed.heads.sublist (List.filter_sublist.map Prod.fst)
  refine Sorting.insertionSort_eq_of_perm ?_ fun _ _ _ _ below above =>
    List.le_antisymm below above
  refine (List.perm_ext_iff_of_nodup (nodup firstKeyed) (nodup secondKeyed)).mpr ?_
  intro credential
  simpa only [descendantSetFromEdges, List.mem_insertionSort] using members credential

def rootOf (party : Bytes) : Edge :=
  ⟨[], true, party, party⟩

theorem EdgeSet.chainContains_eq_of_root (nonempty : digest ≠ [])
    (found : edges.records.lookup digest = some edge) (party : Bytes)
    (root : ∀ parent, edge.above digest = some parent →
      edges.records.lookup parent = some (rootOf party)) :
    edges.chainContains digest subject =
      (edge.names subject || ((edge.above digest).isSome && party == subject)) := by
  rw [EdgeSet.chainContains, edges.chainContainsFrom_succ _ _ _ nonempty List.not_mem_nil, found,
    Option.elim_some]
  congr 1
  cases above : edge.above digest with
  | none => rfl
  | some parent =>
      have bound := root parent above
      obtain ⟨steps, length⟩ : ∃ steps, edges.records.length = steps + 1 := by
        refine Nat.exists_eq_add_one.mpr (List.length_pos_of_ne_nil fun empty => ?_)
        rw [empty] at found
        exact nomatch found
      obtain ⟨-, -, parentNonempty, distinct⟩ := Edge.above_eq_some_iff.mp above
      rw [Option.elim_some, length, edges.chainContainsFrom_succ _ _ _ parentNonempty
        (by simpa using distinct), bound]
      simp [Edge.names, Edge.above, rootOf]

theorem EdgeSet.chainContains_rootOf {party : Bytes} (subject : Bytes) (nonempty : digest ≠ [])
    (found : edges.records.lookup digest = some (rootOf party)) :
    edges.chainContains digest subject = (party == subject) := by
  rw [edges.chainContains_eq_of_root nonempty found party fun parent above => ?_]
  · simp [Edge.names, Edge.above, rootOf]
  · simp [Edge.above, rootOf] at above

def EdgeSet.Holds (edges : EdgeSet) : Write → Prop
  | .record digest edge => edges.records.lookup digest = some edge
  | .chainHead credential head => edges.chainHead.lookup credential = some head

theorem Write.sameKey_self (write : Write) : write.sameKey write = true := by
  cases write <;> simp [Write.sameKey]

variable {write : Write}

theorem Write.sameKey_congr {other : Write} (same : write.sameKey other = true) (next : Write) :
    other.sameKey next = write.sameKey next := by
  cases write <;> cases other <;> cases next <;> simp_all [Write.sameKey]

theorem Write.sameKey_last (write : Write) (written : List Write) :
    write.sameKey (((written.filter write.sameKey).getLast?).getD write) = true := by
  cases last : (written.filter write.sameKey).getLast? with
  | none => exact write.sameKey_self
  | some other => exact (List.mem_filter.mp (List.mem_of_getLast? last)).2

theorem EdgeSet.holds_apply (edges : EdgeSet) (write : Write) :
    (edges.apply write).Holds write := by
  cases write <;> simp [EdgeSet.apply, EdgeSet.Holds, MapOf.lookup_set]

theorem EdgeSet.Holds.apply_of_other (holds : edges.Holds write) {other : Write}
    (different : write.sameKey other = false) :
    (edges.apply other).Holds write := by
  cases write <;> cases other <;>
    simp_all [EdgeSet.apply, EdgeSet.Holds, MapOf.lookup_set, Write.sameKey]

theorem EdgeSet.Holds.last (holds : edges.Holds write) (written : List Write) :
    (written.foldl EdgeSet.apply edges).Holds
      (((written.filter write.sameKey).getLast?).getD write) := by
  induction written using List.reverseRecOn with
  | nil => exact holds
  | append_singleton earlier next ih =>
      rw [List.foldl_append, List.filter_append]
      by_cases same : write.sameKey next = true
      · simpa [same] using EdgeSet.holds_apply _ next
      · have different : write.sameKey next = false := Bool.eq_false_of_not_eq_true same
        simp only [List.filter_singleton, different, cond_false, List.append_nil]
        refine ih.apply_of_other ?_
        rwa [Write.sameKey_congr (write.sameKey_last earlier)]

variable {last : Write}

/-- Writing again what is no different from what is there changes nothing. -/
theorem EdgeSet.Holds.alike_apply (holds : edges.Holds last)
    (same : write.sameKey last = true) (alike : write.Alike last) :
    (edges.apply write).Alike edges := by
  have unchanged (edge : Option Edge) (digest : Bytes) :
      Option.Rel (Edge.Alike digest) edge edge := by
    cases edge with
    | none => exact .none
    | some edge => exact .some (Edge.Alike.refl digest edge)
  cases write with
  | record digest edge =>
      cases last with
      | chainHead => exact nomatch same
      | record written other =>
          obtain rfl : digest = written := by simpa [Write.sameKey] using same
          refine ⟨fun queried => ?_, fun _ => rfl⟩
          simp only [EdgeSet.apply, MapOf.lookup_set]
          split
          · next same =>
              rw [same, show edges.records.lookup digest = some other from holds]
              exact .some alike
          · exact unchanged _ queried
  | chainHead credential head =>
      cases last with
      | record => exact nomatch same
      | chainHead written other =>
          obtain rfl : credential = written := by simpa [Write.sameKey] using same
          obtain rfl : head = other := alike
          refine ⟨fun digest => unchanged _ digest, fun queried => ?_⟩
          simp only [EdgeSet.apply, MapOf.lookup_set]
          split
          · next same => rw [same, show edges.chainHead.lookup credential = some head from holds]
          · rfl

/-- Writes after which the record decides about a credential: the record above it
is made a root of the subject, the one above the other record a root of another
party, and the credential is issued over the record. -/
def parting (digest : Bytes) (edge other : Edge) (subject party : Bytes) : List Write :=
  (edge.above digest).toList.map (fun parent => .record parent (rootOf subject)) ++
    (other.above digest).toList.map (fun parent => .record parent (rootOf party)) ++
    [.chainHead [0x63] digest]

theorem parting_records (edges : EdgeSet) (digest : Bytes) (edge other : Edge)
    (subject party queried : Bytes) :
    ((parting digest edge other subject party).foldl EdgeSet.apply edges).records.lookup queried =
      if other.above digest = some queried then some (rootOf party)
      else if edge.above digest = some queried then some (rootOf subject)
      else edges.records.lookup queried := by
  unfold parting
  cases edge.above digest <;> cases other.above digest <;>
    simp [EdgeSet.apply, MapOf.lookup_set, eq_comm]

theorem parting_head (edges : EdgeSet) (digest : Bytes) (edge other : Edge)
    (subject party : Bytes) :
    ((parting digest edge other subject party).foldl EdgeSet.apply edges).chainHead.lookup [0x63] =
      some digest := by
  unfold parting
  rw [List.foldl_append]
  simp [EdgeSet.apply, MapOf.lookup_set]

/-- A record that names the subject, or whose walk goes on where that of the other
does not, is told apart from one that does not name the subject. -/
theorem parting_parts {party : Bytes} {other : Edge} (nonempty : digest ≠ [])
    (distinct : party ≠ subject) (unnamed : other.names subject = false)
    (tells : edge.names subject = true ∨
      (edge.above digest).isSome ∧ edge.above digest ≠ other.above digest)
    (firstKeyed : first.Keyed) (secondKeyed : second.Keyed)
    (firstFound : first.records.lookup digest = some edge)
    (secondFound : second.records.lookup digest = some other) :
    [0x63] ∈ descendantSetFromEdges
        ((parting digest edge other subject party).foldl EdgeSet.apply first) subject ∧
      [0x63] ∉ descendantSetFromEdges
        ((parting digest edge other subject party).foldl EdgeSet.apply second) subject := by
  have untouched (record : Edge) : record.above digest ≠ some digest := by
    intro above
    exact (Edge.above_eq_some_iff.mp above).2.2.2 rfl
  rw [mem_descendantSetFromEdges (firstKeyed.foldl_apply _),
    mem_descendantSetFromEdges (secondKeyed.foldl_apply _)]
  simp only [parting_head, Option.some.injEq, exists_eq_left']
  constructor
  · rcases tells with named | ⟨goesOn, differs⟩
    · rw [EdgeSet.chainContains, EdgeSet.chainContainsFrom_succ _ _ _ _ nonempty List.not_mem_nil,
        parting_records, if_neg (untouched _), if_neg (untouched _), firstFound, Option.elim_some,
        named, Bool.true_or]
    · rw [EdgeSet.chainContains_eq_of_root nonempty
        (by rw [parting_records, if_neg (untouched _), if_neg (untouched _), firstFound]) subject
        fun parent above => ?_, goesOn, beq_self_eq_true, Bool.true_and, Bool.or_true]
      rw [parting_records, if_neg fun same => differs (above.trans same.symm), if_pos above]
  · rw [EdgeSet.chainContains_eq_of_root nonempty
      (by rw [parting_records, if_neg (untouched _), if_neg (untouched _), secondFound]) party
      fun parent above => ?_, unnamed, beq_false_of_ne distinct]
    · simp
    · rw [parting_records, if_pos above]

/-- Writes that make two chain heads roots of two parties. -/
def headsParting (head other subject party : Bytes) : List Write :=
  (if other = [] then [] else [.record other (rootOf party)]) ++ [.record head (rootOf subject)]

theorem headsParting_parts {credential head other party : Bytes} (nonempty : head ≠ [])
    (differs : head ≠ other) (distinct : party ≠ subject) (firstKeyed : first.Keyed)
    (secondKeyed : second.Keyed) (firstFound : first.chainHead.lookup credential = some head)
    (secondFound : second.chainHead.lookup credential = some other) :
    credential ∈ descendantSetFromEdges
        ((headsParting head other subject party).foldl EdgeSet.apply first) subject ∧
      credential ∉ descendantSetFromEdges
        ((headsParting head other subject party).foldl EdgeSet.apply second) subject := by
  rw [mem_descendantSetFromEdges (firstKeyed.foldl_apply _),
    mem_descendantSetFromEdges (secondKeyed.foldl_apply _)]
  have heads (edges : EdgeSet) :
      ((headsParting head other subject party).foldl EdgeSet.apply edges).chainHead =
        edges.chainHead := by
    unfold headsParting
    split <;> rfl
  rw [heads, heads, firstFound, secondFound]
  simp only [Option.some.injEq, exists_eq_left', headsParting, List.foldl_append, List.foldl_cons,
    List.foldl_nil]
  constructor
  · rw [EdgeSet.chainContains_rootOf subject nonempty
      (by rw [EdgeSet.apply, MapOf.lookup_set, if_pos rfl]), beq_self_eq_true]
  · by_cases ends : other = []
    · simp [ends, EdgeSet.chainContains, EdgeSet.chainContainsFrom]
    · have found : ((([Write.record other (rootOf party)].foldl EdgeSet.apply second).apply
          (.record head (rootOf subject))).records.lookup other) = some (rootOf party) := by
        simp [EdgeSet.apply, MapOf.lookup_set, differs.symm]
      rw [if_neg ends, EdgeSet.chainContains_rootOf subject ends found, beq_false_of_ne distinct]
      exact Bool.false_ne_true

/-- An event can write it. -/
def Write.Real (write : Write) : Prop :=
  ∃ content : Content, content.decodes = true ∧ content.write = some write

theorem hexKey_eq_nil_iff : hexKey digest = [] ↔ digest = [] := by
  cases digest with
  | nil => simp [hexKey]
  | cons byte rest => simp [hexKey, Go.hexEncode]

/-- The key and the content are written from digests. -/
def Write.FromDigests : Write → Prop
  | .record digest edge =>
      digest ≠ [] ∧ (∃ source, digest = hexKey source) ∧ ∃ source, edge.parent = hexKey source
  | .chainHead _ head => ∃ source, head = hexKey source

theorem Write.Real.fromDigests (real : write.Real) :
    write.FromDigests := by
  obtain ⟨content, -, written⟩ := real
  cases content with
  | delegationRecorded body =>
      cases body with
      | known payload =>
          rw [Content.write] at written
          split at written
          · exact nomatch written
          · next nonempty =>
              obtain rfl := Option.some.inj written
              refine ⟨?_, ⟨_, rfl⟩, ⟨_, rfl⟩⟩
              rwa [Ne, hexKey_eq_nil_iff, ← List.isEmpty_iff]
      | _ => exact nomatch written
  | issuanceRecorded body =>
      cases body with
      | known payload =>
          obtain ⟨credential, issued⟩ : ∃ credential,
              Write.chainHead credential (hexKey payload.chainDigest) = write := by
            simp only [Content.write] at written
            grind
          rw [← issued]
          exact ⟨_, rfl⟩
      | _ => exact nomatch written
  | _ => exact nomatch written

theorem Write.real_rootOf {source : Bytes} (nonempty : hexKey source ≠ []) (party : Bytes) :
    (Write.record (hexKey source) (rootOf party)).Real := by
  refine ⟨.delegationRecorded (.known ⟨source, [], true, party, party⟩), rfl, ?_⟩
  rw [Content.write, if_neg (by simpa using mt hexKey_eq_nil_iff.mpr nonempty)]
  rfl

theorem Write.real_chainHead (source : Bytes) :
    (Write.chainHead [0x63] (hexKey source)).Real :=
  ⟨.issuanceRecorded (.known ⟨[0x63], [], source⟩), rfl, rfl⟩

theorem exists_events {written : List Write} (real : ∀ write ∈ written, write.Real) {sequence : Nat}
    (within : withinWatermark sequence watermark = true) :
    ∃ events, Decodes events watermark ∧ writes events watermark = written := by
  induction written with
  | nil => exact ⟨[], by simp [Decodes], rfl⟩
  | cons write rest ih =>
      obtain ⟨⟨content, decodes, writing⟩, restReal⟩ := List.forall_mem_cons.mp real
      obtain ⟨events, restDecodes, restWritten⟩ := ih restReal
      refine ⟨⟨[], [], sequence, content⟩ :: events, ?_, ?_⟩
      · exact List.forall_mem_cons.mpr ⟨fun _ => decodes, restDecodes⟩
      · rw [writes_cons, restWritten]
        simp [writes, within, writing]

/-- Later writes after which sets that hold one or the other write have different
descendants of a subject. -/
def Told (write last : Write) : Prop :=
  ∃ later : List Write, (∀ next ∈ later, next.Real) ∧ ∃ subject, ∀ first second : EdgeSet,
    first.Keyed → second.Keyed → first.Holds write → second.Holds last →
      descendantSetFromEdges (later.foldl EdgeSet.apply first) subject ≠
        descendantSetFromEdges (later.foldl EdgeSet.apply second) subject

theorem Told.symm (told : Told write last) :
    Told last write := by
  obtain ⟨later, real, subject, parts⟩ := told
  exact ⟨later, real, subject, fun first second firstKeyed secondKeyed firstHolds secondHolds =>
    (parts second first secondKeyed firstKeyed secondHolds firstHolds).symm⟩

theorem told_of_heads {credential head other : Bytes}
    (real : (Write.chainHead credential head).Real)
    (otherReal : (Write.chainHead credential other).Real) (nonempty : head ≠ [])
    (differs : head ≠ other) :
    Told (.chainHead credential head) (.chainHead credential other) := by
  obtain ⟨source, rfl⟩ := real.fromDigests
  obtain ⟨otherSource, rfl⟩ := otherReal.fromDigests
  refine ⟨headsParting (hexKey source) (hexKey otherSource) [0] [1], ?_, [0], ?_⟩
  · intro next member
    unfold headsParting at member
    split at member
    · rw [List.mem_singleton.mp member]
      exact Write.real_rootOf nonempty _
    · next otherNonempty =>
        rcases List.mem_pair.mp member with rfl | rfl
        · exact Write.real_rootOf otherNonempty _
        · exact Write.real_rootOf nonempty _
  · intro first second firstKeyed secondKeyed firstHolds secondHolds same
    have parties : ([1] : Bytes) ≠ [0] := by decide
    have parts := headsParting_parts nonempty differs parties firstKeyed secondKeyed firstHolds
      secondHolds
    exact parts.2 (same ▸ parts.1)

theorem told_of_records {other : Edge}
    (real : (Write.record digest edge).Real) (otherReal : (Write.record digest other).Real)
    (unnamed : other.names subject = false)
    (tells : edge.names subject = true ∨
      (edge.above digest).isSome ∧ edge.above digest ≠ other.above digest) :
    Told (.record digest edge) (.record digest other) := by
  have party : subject ++ [0] ≠ subject := fun same => by simpa using congrArg List.length same
  refine ⟨parting digest edge other subject (subject ++ [0]), ?_, subject, ?_⟩
  · have rooted {record : Edge} (recorded : (Write.record digest record).Real) (party : Bytes)
        {next : Write} (member : next ∈ (record.above digest).toList.map
          fun parent => Write.record parent (rootOf party)) : next.Real := by
      obtain ⟨parent, above, rfl⟩ := List.mem_map.mp member
      obtain ⟨-, same, nonempty, -⟩ := Edge.above_eq_some_iff.mp (Option.mem_toList.mp above)
      obtain ⟨-, -, source, written⟩ := recorded.fromDigests
      obtain rfl : hexKey source = parent := written.symm.trans same
      exact Write.real_rootOf nonempty party
    intro next member
    rcases List.mem_append.mp member with above | issued
    · rcases List.mem_append.mp above with first | second
      · exact rooted real _ first
      · exact rooted otherReal _ second
    · obtain ⟨-, ⟨source, rfl⟩, -⟩ := real.fromDigests
      rw [List.mem_singleton.mp issued]
      exact Write.real_chainHead source
  · intro first second firstKeyed secondKeyed firstHolds secondHolds same
    have parts := parting_parts real.fromDigests.1 party unnamed tells firstKeyed secondKeyed
      firstHolds secondHolds
    exact parts.2 (same ▸ parts.1)

/-- Writes of one key that are not alike can be told apart. -/
theorem told_of_not_alike (real : write.Real) (lastReal : last.Real)
    (same : write.sameKey last = true) (different : ¬ write.Alike last) :
    Told write last := by
  cases write with
  | record digest edge =>
      cases last with
      | chainHead => exact nomatch same
      | record written other =>
          obtain rfl : digest = written := by simpa [Write.sameKey] using same
          rcases Edge.exists_differs different with ⟨subject, differs⟩ | ⟨parties, differs⟩
          · cases named : edge.names subject with
            | true =>
                have unnamed : other.names subject = false := by simpa [named] using differs.symm
                exact told_of_records real lastReal unnamed (.inl named)
            | false =>
                have otherNamed : other.names subject = true := by simpa [named] using differs.symm
                exact (told_of_records lastReal real named (.inl otherNamed)).symm
          · -- a subject that neither record names
            let stranger := edge.delegator ++ edge.delegate ++ [0]
            have unnamed : edge.names stranger = false := by
              have longer : stranger.length = edge.delegator.length + edge.delegate.length + 1 := by
                simp [stranger, Nat.add_assoc]
              rw [Edge.names, Bool.or_eq_false_iff, beq_eq_false_iff_ne, beq_eq_false_iff_ne]
              constructor
              · intro named
                rw [← named] at longer
                omega
              · intro named
                rw [← named] at longer
                omega
            cases above : edge.above digest with
            | some parent =>
                refine told_of_records real lastReal ((parties stranger).symm.trans unnamed)
                  (.inr ⟨by rw [above]; rfl, differs⟩)
            | none =>
                refine (told_of_records lastReal real unnamed (.inr ⟨?_, differs.symm⟩)).symm
                exact Option.isSome_iff_ne_none.mpr fun ends => differs (above.trans ends.symm)
  | chainHead credential head =>
      cases last with
      | record => exact nomatch same
      | chainHead written other =>
          obtain rfl : credential = written := by simpa [Write.sameKey] using same
          by_cases nonempty : head = []
          · refine (told_of_heads lastReal real ?_ (Ne.symm different)).symm
            rintro rfl
            exact different nonempty
          · exact told_of_heads real lastReal nonempty different

theorem isSome_foldEdges_iff :
    (foldEdges events watermark).isSome ↔ Decodes events watermark := by
  rw [Option.isSome_iff_exists]
  simp only [foldEdges_eq_some_iff, exists_and_left, exists_eq', and_true]

theorem Decodes.append_iff {first second : List Event} :
    Decodes (first ++ second) watermark ↔ Decodes first watermark ∧ Decodes second watermark :=
  List.forall_mem_append

theorem descendantSet_of_decodes (decodes : Decodes events watermark) (subject : Bytes) :
    descendantSet events subject watermark =
      some ⟨subject, foldWatermark events watermark,
        descendantSetFromEdges ((writes events watermark).foldl EdgeSet.apply ⟨[], []⟩)
          subject⟩ := by
  rw [descendantSet, descendantSetOf, foldEdges_eq_some_iff.mpr ⟨decodes, rfl⟩]
  rfl

theorem keyed_empty : EdgeSet.Keyed ⟨[], []⟩ :=
  ⟨List.nodup_nil, List.nodup_nil⟩

theorem holds_last (before between : List Event) (written : writes [event] watermark = [write]) :
    ((writes (before ++ event :: between) watermark).foldl EdgeSet.apply ⟨[], []⟩).Holds
      ((((writes between watermark).filter write.sameKey).getLast?).getD write) := by
  rw [writes_append, writes_cons, written, List.foldl_append, List.foldl_append]
  exact EdgeSet.Holds.last (EdgeSet.holds_apply _ write) _

theorem writes_singleton_cases (event : Event) (watermark : Nat) :
    writes [event] watermark = [] ∨
      ∃ write, withinWatermark event.sequence watermark = true ∧
        event.content.write = some write ∧ writes [event] watermark = [write] := by
  by_cases within : withinWatermark event.sequence watermark = true
  · cases written : event.content.write with
    | none => exact .inl (by simp [writes, within, written])
    | some write => exact .inr ⟨write, within, rfl, by simp [writes, within, written]⟩
  · exact .inl (by simp [writes, within])

theorem real_of_mem_writes (decodes : Decodes events watermark)
    (member : write ∈ writes events watermark) :
    write.Real := by
  obtain ⟨event, among, written⟩ := List.mem_flatMap.mp member
  obtain ⟨inside, within⟩ := List.mem_filter.mp among
  exact ⟨event.content, decodes event inside within, Option.mem_toList.mp written⟩

theorem descendantSet_insert_copy_iff {later : List Event}
    (decodes : Decodes events watermark) (laterDecodes : Decodes later watermark)
    (member : event ∈ events) (subject : Bytes) :
    descendantSet (events ++ event :: later) subject watermark =
        descendantSet (events ++ later) subject watermark ↔
      descendantSetFromEdges ((writes later watermark).foldl EdgeSet.apply
          ((writes [event] watermark).foldl EdgeSet.apply
            ((writes events watermark).foldl EdgeSet.apply ⟨[], []⟩))) subject =
        descendantSetFromEdges ((writes later watermark).foldl EdgeSet.apply
          ((writes events watermark).foldl EdgeSet.apply ⟨[], []⟩)) subject := by
  have copyDecodes : Decodes (event :: later) watermark :=
    List.forall_mem_cons.mpr ⟨decodes event member, laterDecodes⟩
  rw [descendantSet_of_decodes (Decodes.append_iff.mpr ⟨decodes, copyDecodes⟩),
    descendantSet_of_decodes (Decodes.append_iff.mpr ⟨decodes, laterDecodes⟩),
    foldWatermark_insert_copy member, writes_append, writes_append, writes_cons event later]
  simp only [List.foldl_append, Option.some.injEq, DescendantSet.mk.injEq, true_and]

theorem unchanging_iff (between : List Event) (written : writes [event] watermark = [write]) :
    Unchanging event between watermark ↔
      write.Alike ((((writes between watermark).filter write.sameKey).getLast?).getD write) := by
  simp only [Unchanging, written, List.mem_singleton, forall_eq]
  cases ((writes between watermark).filter write.sameKey).getLast? with
  | none => simpa using Write.Alike.refl write
  | some last => simp

/-- A copy of an event leaves the descendants of every subject unchanged, whatever
events follow, exactly when what the event wrote is undisturbed. -/
theorem descendantSet_redelivered_iff
    (before between : List Event)
    (event : Event)
    (watermark : Nat)
    (folds : (foldEdges (before ++ event :: between) watermark).isSome) :
    (∀ later subject,
      (foldEdges (before ++ event :: between ++ later) watermark).isSome →
        descendantSet (before ++ event :: between ++ event :: later) subject watermark =
          descendantSet (before ++ event :: between ++ later) subject watermark) ↔
      Unchanging event between watermark := by
  have member : event ∈ before ++ event :: between := by simp
  have decodes := isSome_foldEdges_iff.mp folds
  have keyed := keyed_empty.foldl_apply (writes (before ++ event :: between) watermark)
  have folds_iff (later : List Event) :
      (foldEdges (before ++ event :: between ++ later) watermark).isSome ↔
        Decodes later watermark := by
    rw [isSome_foldEdges_iff, Decodes.append_iff]
    exact and_iff_right decodes
  simp only [folds_iff]
  rcases writes_singleton_cases event watermark with nothing | ⟨write, within, writing, written⟩
  · -- an event that writes nothing is always harmless
    simp only [Unchanging, nothing, List.not_mem_nil, IsEmpty.forall_iff, implies_true, iff_true]
    intro later subject laterDecodes
    rw [descendantSet_insert_copy_iff decodes laterDecodes member, nothing, List.foldl_nil]
  have holds := holds_last before between written
  have same := write.sameKey_last (writes between watermark)
  rw [unchanging_iff between written]
  constructor
  · intro unchanged
    by_contra different
    have real : write.Real := ⟨event.content, decodes event member within, writing⟩
    have lastReal :
        ((((writes between watermark).filter write.sameKey).getLast?).getD write).Real := by
      cases last : ((writes between watermark).filter write.sameKey).getLast? with
      | none => exact real
      | some other =>
          refine real_of_mem_writes (fun event inside => decodes event (by simp [inside]))
            (List.mem_filter.mp (List.mem_of_getLast? last)).1
    obtain ⟨next, nextReal, subject, parts⟩ := told_of_not_alike real lastReal same different
    obtain ⟨later, laterDecodes, laterWritten⟩ := exists_events nextReal within
    have equal := unchanged later subject laterDecodes
    rw [descendantSet_insert_copy_iff decodes laterDecodes member, written, laterWritten] at equal
    exact parts _ _ (keyed.apply write) keyed (EdgeSet.holds_apply _ write) holds equal
  · intro alike later subject laterDecodes
    rw [descendantSet_insert_copy_iff decodes laterDecodes member, written]
    exact ((holds.alike_apply same alike).foldl_apply _).descendants_eq
      ((keyed.apply write).foldl_apply _) (keyed.foldl_apply _) subject

/-- The root of alice and bob. -/
def firstRoot : Event :=
  ⟨[1], [], 1, .delegationRecorded (.known ⟨[0xa1], [], true, bytes "alice", bytes "bob"⟩)⟩

/-- The root of carol and dave. -/
def secondRoot : Event :=
  ⟨[2], [], 2, .delegationRecorded (.known ⟨[0xa2], [], true, bytes "carol", bytes "dave"⟩)⟩

/-- A credential is issued over the first root. -/
def issued : Event :=
  ⟨[3], [], 3, .issuanceRecorded (.known ⟨bytes "cred", [], [0xa1]⟩)⟩

/-- The credential is issued again, over the second root. -/
def reissued : Event :=
  ⟨[4], [], 4, .issuanceRecorded (.known ⟨bytes "cred", [], [0xa2]⟩)⟩

/-- A copy of the first root is harmless after the credential was issued twice. -/
theorem descendantSet_redelivered_firstRoot :
    (foldEdges ([] ++ firstRoot :: [secondRoot, issued, reissued]) 4).isSome ∧
      ∀ later subject,
        (foldEdges ([] ++ firstRoot :: [secondRoot, issued, reissued] ++ later) 4).isSome →
          descendantSet ([] ++ firstRoot :: [secondRoot, issued, reissued] ++ firstRoot :: later)
              subject 4 =
            descendantSet ([] ++ firstRoot :: [secondRoot, issued, reissued] ++ later) subject
              4 := by
  have folds : (foldEdges ([] ++ firstRoot :: [secondRoot, issued, reissued]) 4).isSome := by decide
  refine ⟨folds, (descendantSet_redelivered_iff [] [secondRoot, issued, reissued] firstRoot 4
    folds).mpr ?_⟩
  intro write member last isLast
  obtain rfl : write = .record (bytes "a1") ⟨[], true, bytes "alice", bytes "bob"⟩ :=
    List.mem_singleton.mp member
  exact nomatch isLast

/-- The first issuance is delivered again after the second: the credential comes
back under the root of alice. -/
theorem descendantSet_changed_by_copy :
    ¬ ∀ (before between later : List Event) (event : Event) (subject : Bytes) (watermark : Nat),
      (foldEdges (before ++ event :: between ++ later) watermark).isSome →
        descendantSet (before ++ event :: between ++ event :: later) subject watermark =
          descendantSet (before ++ event :: between ++ later) subject watermark := by
  intro unchanged
  have same := unchanged [firstRoot, secondRoot] [reissued] [] issued (bytes "alice") 4 (by decide)
  have before : descendantSet ([firstRoot, secondRoot] ++ issued :: [reissued] ++ [])
      (bytes "alice") 4 = some ⟨bytes "alice", 4, []⟩ := by decide
  have after : descendantSet ([firstRoot, secondRoot] ++ issued :: [reissued] ++ [issued])
      (bytes "alice") 4 = some ⟨bytes "alice", 4, [bytes "cred"]⟩ := by decide
  rw [before, after] at same
  exact absurd same (by decide)

end Trstctl.Agentid.Revoke
