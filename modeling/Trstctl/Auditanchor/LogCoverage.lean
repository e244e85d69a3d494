import Trstctl.Auditanchor.AnchorLog

/-!
# The anchor log shows every removed anchor

Against the signed head of a tenant's anchor log, the anchor records of an
accepted export are consecutive entries of the log, up to a tail of anchors the
log had not taken in; and an earlier signed head is the head of an earlier state
of the log.
-/

namespace Trstctl.Auditanchor

open Go (Bytes bytes decimal hexDecode)
open Result (guard_eq_ok bind_eq_ok)
open Hash (digestOf)
open Auditchain (Record)
open Translog (newTree logInputs verifyInclusion verifyConsistency merkleRoot)

variable {Keys : Type}

/-- An anchor record whose recomputed leaf has an accepted path at an index. -/
def ProvenAt (primitives : LogPrimitives Keys) (head : AnchorLogHead) (root : Bytes) (index : Int)
    (record : Record) : Prop :=
  ∃ entry path, anchorEntryFromRecord primitives record = .ok entry ∧
    verifyInclusion primitives.sha256Sum (entry.leaf head.tenantID) index head.treeSize path
      root = true

section Scan

variable {primitives : LogPrimitives Keys}
variable {head : AnchorLogHead}
variable {root : Bytes}

/-- What one iteration does: it passes over a record that is no anchor, counts
an anchor without a path, or accepts the next entry of the log. -/
theorem scanRecord_cases {scan next : LogScan} {record : Record}
    (step : scanRecord primitives head root scan record = .ok next) :
    (record.type ≠ eventTypeAnchored ∧ next = scan) ∨
      (record.type = eventTypeAnchored ∧
        next = { scan with unproven := true, unloggedTail := scan.unloggedTail + 1 }) ∨
      (record.type = eventTypeAnchored ∧ scan.unproven = false ∧
        ∃ index, ProvenAt primitives head root index record ∧
          (0 ≤ scan.previousIndex → index = scan.previousIndex + 1) ∧
          next =
            { scan with
              bySequence := scan.bySequence.delete record.sequence
              previousIndex := index
              proven := scan.proven + 1 }) := by
  unfold scanRecord at step
  by_cases other : record.type ≠ eventTypeAnchored
  · rw [if_pos other] at step
    exact Or.inl ⟨other, (Except.ok.inj step).symm⟩
  · rw [if_neg other] at step
    have anchored : record.type = eventTypeAnchored := not_not.mp other
    cases found : scan.bySequence.lookup record.sequence with
    | none =>
        rw [found] at step
        exact Or.inr (Or.inl ⟨anchored, (Except.ok.inj step).symm⟩)
    | some inclusion =>
        rw [found] at step
        simp only [guard_eq_ok, bind_eq_ok, anchorLeafFromRecord] at step
        obtain ⟨proved, leaf, ⟨entry, made, leaf_eq⟩, path, -, accepted, consecutive, next_eq⟩ :=
          step
        refine Or.inr (Or.inr ⟨anchored, Bool.eq_false_of_not_eq_true proved, inclusion.leafIndex,
          ⟨entry, path, made, ?_⟩, ?_, (Except.ok.inj next_eq).symm⟩)
        · rw [Except.ok.inj leaf_eq]
          exact Bool.eq_true_of_not_eq_false accepted
        · intro started
          by_contra skips
          exact consecutive ⟨started, skips⟩

theorem ProvenAt.nonneg {index : Int} {record : Record}
    (proven : ProvenAt primitives head root index record) :
    0 ≤ index := by
  obtain ⟨entry, path, -, accepted⟩ := proven
  by_contra negative
  rw [verifyInclusion, if_pos (Or.inl (by omega))] at accepted
  exact Bool.false_ne_true accepted

/-- The loop splits the anchor records into proven ones at consecutive indexes
and a tail without paths. -/
theorem scanRecords_spec (records : List Record) {scan final : LogScan}
    (run : scanRecords primitives head root records scan = .ok final) :
    ∃ proven unlogged start,
      anchorRecords records = proven ++ unlogged ∧
        final.proven = scan.proven + proven.length ∧
        final.unloggedTail = scan.unloggedTail + unlogged.length ∧
        (scan.unproven = true → proven = []) ∧
        (0 ≤ scan.previousIndex → start = scan.previousIndex + 1) ∧
        ∀ (i : Nat) record, proven[i]? = some record →
          ProvenAt primitives head root (start + i) record := by
  induction records generalizing scan with
  | nil =>
      rw [← Except.ok.inj run]
      exact ⟨[], [], scan.previousIndex + 1, rfl, rfl, rfl, fun _ => rfl, fun _ => rfl,
        fun i record located => by simp at located⟩
  | cons record rest ih =>
      obtain ⟨next, step, run⟩ := bind_eq_ok.mp run
      obtain ⟨proven, unlogged, start, parts, provenCount, tailCount, noneLeft, begins, entries⟩ :=
        ih run
      rcases scanRecord_cases step with ⟨other, rfl⟩ | ⟨anchored, rfl⟩ |
        ⟨anchored, allProven, index, atIndex, follows, rfl⟩
      · have skipped : anchorRecords (record :: rest) = anchorRecords rest :=
          List.filter_cons_of_neg (by simpa using other)
        rw [skipped]
        exact ⟨proven, unlogged, start, parts, provenCount, tailCount, noneLeft, begins, entries⟩
      · have kept : anchorRecords (record :: rest) = record :: anchorRecords rest :=
          List.filter_cons_of_pos (by simpa using anchored)
        have empty := noneLeft rfl
        subst empty
        rw [kept, parts]
        refine ⟨[], record :: unlogged, start, rfl, provenCount, ?_, fun _ => rfl, begins, entries⟩
        rw [tailCount, List.length_cons]
        simp only
        omega
      · have kept : anchorRecords (record :: rest) = record :: anchorRecords rest :=
          List.filter_cons_of_pos (by simpa using anchored)
        rw [kept, parts]
        refine ⟨record :: proven, unlogged, index, rfl, ?_, tailCount, ?_, follows, ?_⟩
        · rw [provenCount, List.length_cons]
          simp only
          omega
        · intro unproven
          rw [allProven] at unproven
          exact absurd unproven Bool.false_ne_true
        · intro i other located
          cases i with
          | zero =>
              obtain rfl := Option.some.inj located
              simpa using atIndex
          | succ i =>
              have next_eq := begins atIndex.nonneg
              have later := entries i other (by simpa using located)
              rw [next_eq] at later
              convert later using 1
              push_cast
              omega

end Scan

def leaves (tenantID : Bytes) (entries : List AnchorLogEntry) : List Bytes :=
  entries.map (AnchorLogEntry.leaf tenantID)

/-- The signed text states nothing but the tree head of a tenant's log. -/
def IsHeadOf (primitives : LogPrimitives Keys) (keys : Keys) (signed : Bytes) (tenantID : Bytes)
    (entries : List AnchorLogEntry) : Prop :=
  ∀ head root, verifyAnchorLogHead primitives signed keys = .ok (head, root) →
    head.tenantID = tenantID ∧ head.treeSize = entries.length ∧
      root = (newTree primitives.sha256Sum (leaves tenantID entries)).root primitives.sha256Sum

theorem of_verifyAnchorLogHead {primitives : LogPrimitives Keys} {keys : Keys} {signed root : Bytes}
    {head : AnchorLogHead}
    (verified : verifyAnchorLogHead primitives signed keys = .ok (head, root)) :
    hexDecode head.rootHash = some root ∧ 1 ≤ head.treeSize := by
  unfold verifyAnchorLogHead at verified
  obtain ⟨payload, -, verified⟩ := bind_eq_ok.mp verified
  obtain ⟨head', -, verified⟩ := bind_eq_ok.mp verified
  cases decoded : hexDecode head'.rootHash with
  | none =>
      rw [decoded] at verified
      cases verified
  | some root' =>
      rw [decoded] at verified
      obtain ⟨wellFormed, pair_eq⟩ := Result.lastGuard_eq_ok.mp verified
      obtain ⟨rfl, rfl⟩ := Prod.mk.inj pair_eq
      refine ⟨decoded, ?_⟩
      by_contra empty
      exact wellFormed (Or.inr (Or.inl (by omega)))

theorem logged_front {tenantID : Bytes} {older newer : List AnchorLogEntry}
    (starts : leaves tenantID older <+: leaves tenantID newer) :
    older.map AnchorLogEntry.logged <+: newer.map AnchorLogEntry.logged := by
  induction older generalizing newer with
  | nil => exact List.nil_prefix
  | cons first rest ih =>
      cases newer with
      | nil => exact absurd (List.prefix_nil.mp starts) (List.cons_ne_nil _ _)
      | cons first' rest' =>
          obtain ⟨sameLeaf, restStarts⟩ := List.cons_prefix_cons.mp starts
          exact List.cons_prefix_cons.mpr
            ⟨AnchorLogEntry.logged_eq_of_leaf_eq sameLeaf, ih restStarts⟩

section Coverage

variable {primitives : LogPrimitives Keys}
variable {tenantID : Bytes}
variable {entries : List AnchorLogEntry}

theorem ProvenAt.located {head : AnchorLogHead} {root : Bytes} {index : Int} {record : Record}
    (binds : Hash.Binds primitives.sha256Sum
      (logInputs primitives.sha256Sum (leaves tenantID entries)))
    (tenant : head.tenantID = tenantID)
    (size : head.treeSize = entries.length)
    (root_eq : root =
      (newTree primitives.sha256Sum (leaves tenantID entries)).root primitives.sha256Sum)
    (proven : ProvenAt primitives head root index record) :
    ∃ (m : Nat) (entry : AnchorLogEntry), index = m ∧ entries[m]? = some entry ∧
      (anchorEntryFromRecord primitives record).map AnchorLogEntry.logged =
        .ok entry.logged := by
  obtain ⟨made, path, made_eq, accepted⟩ := proven
  have length : (leaves tenantID entries).length = entries.length := List.length_map _
  rw [tenant, size, ← length, root_eq] at accepted
  obtain ⟨m, index_eq, leaf_eq, -⟩ := Translog.eq_of_verifyInclusion binds accepted
  rw [leaves, List.getElem?_map, Option.map_eq_some_iff] at leaf_eq
  obtain ⟨entry, entry_eq, sameLeaf⟩ := leaf_eq
  refine ⟨m, entry, index_eq, entry_eq, ?_⟩
  rw [made_eq, AnchorLogEntry.logged_eq_of_leaf_eq sameLeaf]
  rfl

theorem block_of_provenAt {head : AnchorLogHead} {root : Bytes}
    (binds : Hash.Binds primitives.sha256Sum
      (logInputs primitives.sha256Sum (leaves tenantID entries)))
    (tenant : head.tenantID = tenantID)
    (size : head.treeSize = entries.length)
    (root_eq : root =
      (newTree primitives.sha256Sum (leaves tenantID entries)).root primitives.sha256Sum)
    {proven : List Record} {start : Int}
    (consecutive : ∀ (i : Nat) record, proven[i]? = some record →
      ProvenAt primitives head root (start + i) record) :
    ∃ first : Nat,
      proven.map (fun record =>
          (anchorEntryFromRecord primitives record).map AnchorLogEntry.logged) =
        ((entries.drop first).take proven.length).map fun entry => .ok entry.logged := by
  cases proven with
  | nil => exact ⟨0, by simp⟩
  | cons record rest =>
      obtain ⟨first, -, first_eq, -, -⟩ :=
        (consecutive 0 record rfl).located binds tenant size root_eq
      refine ⟨first, List.ext_getElem? fun i => ?_⟩
      rw [List.getElem?_map, List.getElem?_map, List.getElem?_take]
      cases located : (record :: rest)[i]? with
      | none =>
          rw [if_neg (by have := List.getElem?_eq_none_iff.mp located; omega)]
          rfl
      | some other =>
          obtain ⟨m, entry, m_eq, entry_eq, same⟩ :=
            (consecutive i other located).located binds tenant size root_eq
          obtain ⟨inside, -⟩ := List.getElem?_eq_some_iff.mp located
          rw [if_pos inside, List.getElem?_drop, show first + i = m by omega, entry_eq]
          simp only [Option.map_some, same]

/-- What the check against an earlier head establishes: the earlier log is a
start of this one. -/
theorem prefix_of_checkPrevious {proof : AnchorLogProof} {keys : Keys} {head : AnchorLogHead}
    {root previousSignedHead previousTenantID : Bytes} {previousEntries : List AnchorLogEntry}
    (binds : Hash.Binds primitives.sha256Sum
      (logInputs primitives.sha256Sum (leaves previousTenantID previousEntries) ∪
        logInputs primitives.sha256Sum (leaves tenantID entries)))
    (verified : verifyAnchorLogHead primitives proof.signedHead keys = .ok (head, root))
    (isHead : IsHeadOf primitives keys proof.signedHead tenantID entries)
    (isPrevious : IsHeadOf primitives keys previousSignedHead previousTenantID previousEntries)
    (checked : checkPrevious primitives proof keys head root previousSignedHead = .ok ()) :
    previousEntries.map AnchorLogEntry.logged <+: entries.map AnchorLogEntry.logged := by
  have lengths : ∀ tenant list, (leaves tenant list).length = list.length :=
    fun tenant list => List.length_map _
  obtain ⟨tenant, size, root_eq⟩ := isHead head root verified
  have decodedRoot := (of_verifyAnchorLogHead verified).1
  unfold checkPrevious at checked
  obtain ⟨⟨previous, previousRoot⟩, verifiedPrevious, checked⟩ := bind_eq_ok.mp checked
  rw [Result.mapError_eq_ok] at verifiedPrevious
  obtain ⟨previousTenant, previousSize, previousRoot_eq⟩ :=
    isPrevious previous previousRoot verifiedPrevious
  obtain ⟨decodedPrevious, nonempty⟩ := of_verifyAnchorLogHead verifiedPrevious
  simp only [guard_eq_ok] at checked
  obtain ⟨sameTenant, checked⟩ := checked
  have sameTenant : previousTenantID = tenantID := by
    rw [← previousTenant, ← tenant]
    exact not_not.mp sameTenant
  subst sameTenant
  suffices accepted : ∃ path, verifyConsistency primitives.sha256Sum
      (leaves previousTenantID previousEntries).length (leaves previousTenantID entries).length path
      previousRoot root = true ∧ previous.treeSize ≤ head.treeSize by
    obtain ⟨path, accepted, fits⟩ := accepted
    rw [root_eq, previousRoot_eq] at accepted
    exact logged_front (Translog.prefix_of_verifyConsistency binds
      (by rw [lengths]; omega) (by rw [lengths, lengths]; omega) accepted)
  rw [lengths, lengths, ← previousSize, ← size]
  split_ifs at checked with shrank same rewritten
  · refine ⟨[], ?_, by omega⟩
    rw [not_not] at rewritten
    rw [rewritten, decodedRoot] at decodedPrevious
    rw [verifyConsistency, if_neg (by omega), if_pos same, Option.some.inj decodedPrevious]
    simp
  · cases given : proof.consistency with
    | none =>
        rw [given] at checked
        cases checked
    | some consistency =>
        rw [given] at checked
        simp only at checked
        split_ifs at checked
        obtain ⟨path, -, checked⟩ := bind_eq_ok.mp checked
        split_ifs at checked with refused
        exact ⟨path, Bool.eq_true_of_not_eq_false refused, by omega⟩

end Coverage

/-- An accepted export with an earlier signed head: its anchor records are a
block of consecutive entries of the log the signed head states, up to a tail of
the newest anchors, and the log of the earlier head is a start of it. -/
theorem anchors_of_verifyAnchorLog
    (primitives : LogPrimitives Keys)
    (records : List Record)
    (proof : AnchorLogProof)
    (keys : Option Keys)
    (previousSignedHead : Bytes)
    (tenantID previousTenantID : Bytes)
    (entries previousEntries : List AnchorLogEntry)
    (isHead : ∀ key ∈ keys, IsHeadOf primitives key proof.signedHead tenantID entries)
    (isPrevious : ∀ key ∈ keys,
      IsHeadOf primitives key previousSignedHead previousTenantID previousEntries)
    (binds : Hash.Binds primitives.sha256Sum
      (logInputs primitives.sha256Sum (leaves previousTenantID previousEntries) ∪
        logInputs primitives.sha256Sum (leaves tenantID entries)))
    (supplied : previousSignedHead ≠ [])
    (result : AnchorLogResult)
    (accepted : verifyAnchorLog primitives records (some proof) keys previousSignedHead =
      .ok result) :
    (∃ proven unlogged first,
      anchorRecords records = proven ++ unlogged ∧
        result.proven = proven.length ∧
        result.unloggedTail = unlogged.length ∧
        proven.map (fun record =>
            (anchorEntryFromRecord primitives record).map AnchorLogEntry.logged) =
          ((entries.drop first).take proven.length).map fun entry => .ok entry.logged) ∧
      previousEntries.map AnchorLogEntry.logged <+: entries.map AnchorLogEntry.logged := by
  cases keys with
  | none =>
      rw [verifyAnchorLog, if_pos supplied] at accepted
      cases accepted
  | some key =>
      have isHead := isHead key rfl
      simp only [verifyAnchorLog, checkAnchorLog, bind_eq_ok, guard_eq_ok] at accepted
      obtain ⟨⟨head, root⟩, verified, -, bySequence, -, scan, run, -, accepted⟩ := accepted
      rw [if_neg supplied] at accepted
      obtain ⟨⟨⟩, checked, result_eq⟩ := bind_eq_ok.mp accepted
      obtain ⟨tenant, size, root_eq⟩ := isHead head root verified
      obtain ⟨proven, unlogged, start, parts, provenCount, tailCount, -, -, consecutive⟩ :=
        scanRecords_spec records run
      obtain ⟨first, block⟩ := block_of_provenAt (binds.mono fun _ member => Or.inr member)
        tenant size root_eq consecutive
      rw [← Except.ok.inj result_eq]
      refine ⟨⟨proven, unlogged, first, parts, ?_, ?_, block⟩, ?_⟩
      · simpa using provenCount
      · simpa using tailCount
      · exact prefix_of_checkPrevious binds verified isHead (isPrevious key rfl) checked

/-- The anchor through a record, with a token whose digest has number three. -/
def anchorThrough (throughSequence : UInt64) : AnchorLogEntry where
  eventID := []
  throughSequence := throughSequence
  chainHead := bytes "head"
  tokenSHA256 := Go.hexEncode (digestOf 3)
  digestText := Go.zero_notMem_hexEncode _

/-- The strings hashed for the log of the anchors through records 1 and 3. -/
def twoAnchorInputs : List Bytes :=
  [0x00 :: (anchorThrough 1).leaf (bytes "t"), 0x00 :: (anchorThrough 3).leaf (bytes "t"),
    Translog.nodeInput (digestOf 0) (digestOf 1)]

/-- The head of the log when it had the given number of entries. -/
def twoAnchorHead (size number : Nat) : AnchorLogHead where
  tenantID := bytes "t"
  treeSize := size
  rootHash := Go.hexEncode (digestOf number)
  issuedAt := Go.Time.zero

/-- Keys that accept every signature, over payloads that name a head or a
covered record by one byte. -/
def twoAnchorPrimitives : LogPrimitives Unit where
  sha256Sum := Hash.numbering twoAnchorInputs
  verifyArtifact _ signed _ := .ok signed
  decodeHead payload :=
    .ok (if payload = bytes "new" then twoAnchorHead 2 2 else twoAnchorHead 1 0)
  decodeAnchored data :=
    .ok
      { throughSequence := data.length.toUInt64
        cadenceSeconds := 3600
        anchor :=
          { kind := kindRFC3161
            chainHead := bytes "head"
            anchoredAt := Go.Time.zero
            token := some { genTime := Go.Time.zero, der := [1] } } }

/-- An anchor record through the record whose number is the length of its
data. -/
def anchorRecord (sequence : UInt64) (data : Bytes) : Record where
  sequence := sequence
  id := []
  type := eventTypeAnchored
  tenantID := bytes "t"
  time := Go.Time.zero
  actor := none
  data := data
  hash := []

/-- An export of three anchors, the last of which the log had not taken in. -/
def threeAnchorExport : List Record :=
  [anchorRecord 2 [1], anchorRecord 4 [1, 2, 3], anchorRecord 6 [1, 2, 3, 4, 5]]

/-- The proof that goes with the export. -/
def threeAnchorProof : AnchorLogProof where
  signedHead := bytes "new"
  inclusions :=
    [{ recordSequence := 2, leafIndex := 0, path := [Go.hexEncode (digestOf 1)] },
      { recordSequence := 4, leafIndex := 1, path := [Go.hexEncode (digestOf 0)] }]
  consistency := some { fromSize := 1, path := [Go.hexEncode (digestOf 1)] }

theorem binds_twoAnchorInputs :
    Hash.Binds twoAnchorPrimitives.sha256Sum
      (logInputs twoAnchorPrimitives.sha256Sum (leaves (bytes "t") [anchorThrough 1]) ∪
        logInputs twoAnchorPrimitives.sha256Sum
          (leaves (bytes "t") [anchorThrough 1, anchorThrough 3])) := by
  refine (Hash.numbering_binds twoAnchorInputs (by decide)).mono ?_
  have entries : ∀ entry ∈ leaves (bytes "t") [anchorThrough 1, anchorThrough 3],
      0x00 :: entry ∈ twoAnchorInputs := by decide +kernel
  have older : leaves (bytes "t") [anchorThrough 1] ⊆
      leaves (bytes "t") [anchorThrough 1, anchorThrough 3] := by decide +kernel
  rintro text ((member | ⟨entry, member, rfl⟩) | (member | ⟨entry, member, rfl⟩))
  · rw [newTree, leaves, List.map_singleton, List.map_singleton, Translog.merkleInputs] at member
    exact absurd member List.not_mem_nil
  · exact entries entry (older member)
  · rw [show (newTree twoAnchorPrimitives.sha256Sum
      (leaves (bytes "t") [anchorThrough 1, anchorThrough 3])).leafHashes =
        [digestOf 0, digestOf 1] by decide +kernel,
      (Translog.merkleRoot_pair _ _ _).2] at member
    rw [List.eq_of_mem_singleton member]
    decide +kernel
  · exact entries entry member

theorem verifyAnchorLogHead_new :
    verifyAnchorLogHead twoAnchorPrimitives (bytes "new") () =
      .ok (twoAnchorHead 2 2, digestOf 2) := by
  decide +kernel

theorem verifyAnchorLogHead_old :
    verifyAnchorLogHead twoAnchorPrimitives (bytes "old") () =
      .ok (twoAnchorHead 1 0, digestOf 0) := by
  decide +kernel

/-- The first two anchors of the export are the entries of the log, and the log
of the earlier head was its first entry. -/
theorem anchors_of_verifyAnchorLog_threeAnchors :
    (∃ proven unlogged first,
      anchorRecords threeAnchorExport = proven ++ unlogged ∧
        2 = proven.length ∧
        1 = unlogged.length ∧
        proven.map (fun record =>
            (anchorEntryFromRecord twoAnchorPrimitives record).map AnchorLogEntry.logged) =
          (([anchorThrough 1, anchorThrough 3].drop first).take proven.length).map
            fun entry => .ok entry.logged) ∧
      [anchorThrough 1].map AnchorLogEntry.logged <+:
        [anchorThrough 1, anchorThrough 3].map AnchorLogEntry.logged := by
  refine anchors_of_verifyAnchorLog twoAnchorPrimitives threeAnchorExport threeAnchorProof
    (some ()) (bytes "old") (bytes "t") (bytes "t") [anchorThrough 1, anchorThrough 3]
    [anchorThrough 1] ?_ ?_ binds_twoAnchorInputs (by decide +kernel)
    { checked := true
      reason := []
      treeSize := 2
      rootHash := Go.hexEncode (digestOf 2)
      proven := 2
      unloggedTail := 1
      consistentWithPrevious := true
      signedHead := bytes "new" }
    (by decide +kernel)
  · intro key _ head root verified
    rw [show verifyAnchorLogHead twoAnchorPrimitives threeAnchorProof.signedHead key =
      .ok (twoAnchorHead 2 2, digestOf 2) from verifyAnchorLogHead_new] at verified
    obtain ⟨rfl, rfl⟩ := Prod.mk.inj (Except.ok.inj verified)
    exact ⟨rfl, rfl, by decide +kernel⟩
  · intro key _ head root verified
    rw [show verifyAnchorLogHead twoAnchorPrimitives (bytes "old") key =
      .ok (twoAnchorHead 1 0, digestOf 0) from verifyAnchorLogHead_old] at verified
    obtain ⟨rfl, rfl⟩ := Prod.mk.inj (Except.ok.inj verified)
    exact ⟨rfl, rfl, by decide +kernel⟩

end Trstctl.Auditanchor
