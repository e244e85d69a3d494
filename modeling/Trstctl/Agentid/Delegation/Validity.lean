import Trstctl.Agentid.Delegation.Tenancy

/-!
# The validity ceiling of an authority

A record carries two windows: its own, which the gate compares with the time,
and that of the authority it confers, which is only nested in its parent's.
The nesting compares numbers, while `withinNow` reads a zero bound as no bound.
-/

namespace Trstctl.Agentid.Delegation

open Go (Bytes bytes)

/-- Every bound of the parent is a bound of the child that is at least as
tight, where zero is no bound. -/
structure Window.NoLooser (child parent : Window) : Prop where
  notBefore : parent.notBefore ≠ 0 →
    child.notBefore ≠ 0 ∧ parent.notBefore ≤ child.notBefore
  notAfter : parent.notAfter ≠ 0 → child.notAfter ≠ 0 ∧ child.notAfter ≤ parent.notAfter

/-- The child leaves no bound at zero that the parent sets. -/
structure Window.KeepsBounds (child parent : Window) : Prop where
  notBefore : child.notBefore = 0 → parent.notBefore = 0
  notAfter : child.notAfter = 0 → parent.notAfter = 0

variable {now : Int64}

theorem withinNow_iff {window : Window} :
    withinNow window now = true ↔
      (window.notBefore ≠ 0 → window.notBefore ≤ now) ∧
        (window.notAfter ≠ 0 → now ≤ window.notAfter) := by
  unfold withinNow
  by_cases unbounded : window.notBefore = 0 ∧ window.notAfter = 0
  · simp [unbounded.1, unbounded.2]
  · by_cases early : window.notBefore ≠ 0 ∧ now < window.notBefore
    · have outside : ¬ window.notBefore ≤ now := Int64.not_le.mpr early.2
      simp [early.1, early.2, outside]
    · by_cases late : window.notAfter ≠ 0 ∧ now > window.notAfter
      · have outside : ¬ now ≤ window.notAfter := Int64.not_le.mpr late.2
        simp [early, late.1, late.2, outside]
      · rw [if_neg unbounded, if_neg early, if_neg late]
        refine iff_of_true rfl ⟨fun set => ?_, fun set => ?_⟩
        · exact Int64.not_lt.mp fun before => early ⟨set, before⟩
        · exact Int64.not_lt.mp fun after => late ⟨set, after⟩

theorem withinNow_of_noLooser {child parent : Window} (tight : child.NoLooser parent)
    (within : withinNow child now = true) :
    withinNow parent now = true := by
  obtain ⟨begun, unended⟩ := withinNow_iff.mp within
  refine withinNow_iff.mpr ⟨fun set => ?_, fun set => ?_⟩
  · obtain ⟨childSet, bound⟩ := tight.notBefore set
    exact Int64.le_trans bound (begun childSet)
  · obtain ⟨childSet, bound⟩ := tight.notAfter set
    exact Int64.le_trans (unended childSet) bound

theorem noLooser_iff_keepsBounds {child parent : Window}
    (nested : parent.notBefore ≤ child.notBefore ∧ child.notAfter ≤ parent.notAfter) :
    child.NoLooser parent ↔ child.KeepsBounds parent := by
  constructor
  · intro tight
    refine ⟨fun childZero => ?_, fun childZero => ?_⟩
    · by_contra set
      exact (tight.notBefore set).1 childZero
    · by_contra set
      exact (tight.notAfter set).1 childZero
  · intro keeps
    exact ⟨fun set => ⟨fun childZero => set (keeps.notBefore childZero), nested.1⟩,
      fun set => ⟨fun childZero => set (keeps.notAfter childZero), nested.2⟩⟩

/-- The window of the authority that a hop confers. -/
def RecordEnvelope.ceiling (hop : RecordEnvelope) : Window :=
  hop.record.authority.validity

/-- The ceilings of a chain bind a time: it is in every one of them, and none
is looser than its parent's. -/
structure CeilingsBind (chain : List RecordEnvelope) (now : Int64) : Prop where
  within : ∀ hop ∈ chain, withinNow hop.ceiling now = true
  tight : List.IsChain (fun parent child => child.ceiling.NoLooser parent.ceiling) chain

theorem within_of_within_last {root : RecordEnvelope} {rest : List RecordEnvelope}
    (tight : List.IsChain
      (fun parent child : RecordEnvelope => child.ceiling.NoLooser parent.ceiling) (root :: rest))
    (within : ∀ last ∈ (root :: rest).getLast?, withinNow last.ceiling now = true) :
    ∀ hop ∈ root :: rest, withinNow hop.ceiling now = true := by
  induction rest generalizing root with
  | nil =>
      intro hop member
      rw [List.mem_singleton.mp member]
      exact within root rfl
  | cons next rest ih =>
      obtain ⟨first, later⟩ := List.isChain_cons_cons.mp tight
      rw [List.getLast?_cons_cons] at within
      have others := ih later within
      refine List.forall_mem_cons.mpr ⟨?_, others⟩
      exact withinNow_of_noLooser first (others next List.mem_cons_self)

theorem isChain_combine {α : Type} {first second third : α → α → Prop} {items : List α}
    (combine : ∀ left right, first left right → second left right → third left right)
    (firstChain : items.IsChain first) (secondChain : items.IsChain second) :
    items.IsChain third := by
  induction firstChain with
  | nil => exact List.IsChain.nil
  | singleton item => exact List.isChain_singleton item
  | cons_cons related _ ih =>
      obtain ⟨alsoRelated, later⟩ := List.isChain_cons_cons.mp secondChain
      exact List.isChain_cons_cons.mpr
        ⟨combine _ _ related alsoRelated, ih later⟩

theorem ceilingsBind_iff {config : Config} {root : RecordEnvelope} {rest : List RecordEnvelope}
    (narrows : List.IsChain (Narrows config) (root :: rest)) :
    CeilingsBind (root :: rest) now ↔
      List.IsChain (fun parent child => child.ceiling.KeepsBounds parent.ceiling) (root :: rest) ∧
        ∀ last ∈ (root :: rest).getLast?, withinNow last.ceiling now = true := by
  have nested : List.IsChain (fun parent child : RecordEnvelope =>
      parent.ceiling.notBefore ≤ child.ceiling.notBefore ∧
        child.ceiling.notAfter ≤ parent.ceiling.notAfter) (root :: rest) :=
    narrows.imp fun parent child within => (withinParent_iff.mp within).2.2.2.2.2.2.2
  constructor
  · intro binds
    refine ⟨?_, fun last isLast => binds.within last (List.mem_of_getLast? isLast)⟩
    exact isChain_combine
      (fun parent child bounds tight => (noLooser_iff_keepsBounds bounds).mp tight) nested
      binds.tight
  · rintro ⟨keeps, within⟩
    have tight := isChain_combine
      (fun parent child bounds kept => (noLooser_iff_keepsBounds bounds).mpr kept) nested keeps
    exact ⟨within_of_within_last tight within, tight⟩

/-- The ceilings of an approved chain bind the time of the issuance exactly
when every hop keeps the bounds of its parent's ceiling and the ceiling of the
last hop contains the time. -/
theorem verify_ceilingsBind_iff
    (crypto : Crypto)
    (json : Json)
    (config : Config)
    (now : Int64)
    (request : IssuancePreconditions)
    (body : PreconditionsBody)
    (decoded : decodePreconditions json request.preconditions = .ok body)
    (nonempty : body.chain ≠ [])
    (approved : Approves crypto json config now request) :
    CeilingsBind body.chain now ↔
      List.IsChain (fun parent child => child.ceiling.KeepsBounds parent.ceiling) body.chain ∧
        ∀ last ∈ body.chain.getLast?, withinNow last.ceiling now = true := by
  obtain ⟨head, authRef, delegation⟩ := verifyDelegation_of_approves decoded approved
  obtain ⟨root, rest, chain_eq⟩ := List.exists_cons_of_ne_nil nonempty
  rw [chain_eq] at delegation ⊢
  obtain ⟨-, -, narrowing⟩ := verifyDelegation_cons delegation
  exact ceilingsBind_iff (isChain_narrows narrowing)

/-- A root hop whose authority ended at the first second. -/
def expiredHop : RecordEnvelope :=
  { rootHop with
    record := { rootHop.record with
      authority := { rootHop.record.authority with
        validity := { notBefore := 0, notAfter := 1 } } } }

/-- The body of a request with that hop. -/
def expiredBody : PreconditionsBody where
  chain := [expiredHop]
  designatedClass := []
  envelope := []
  reachabilityVerdict := []

/-- A decoder for requests with that hop. -/
def expiredJson : Json :=
  { rootHopJson with preconditions := fun _ => .ok expiredBody }

theorem approves_expiredHop :
    Approves fixedCrypto expiredJson globalConfig 100 (rootHopRequest (bytes "a")) :=
  ⟨_, rfl⟩

/-- A chain whose authority ended long ago is approved. -/
theorem approves_after_ceiling :
    ¬ ∀ (crypto : Crypto) (json : Json) (config : Config) (now : Int64)
        (request : IssuancePreconditions) (body : PreconditionsBody),
      decodePreconditions json request.preconditions = .ok body →
      body.chain ≠ [] →
      Approves crypto json config now request →
      CeilingsBind body.chain now := by
  intro claim
  have binds := claim fixedCrypto expiredJson globalConfig 100 (rootHopRequest (bytes "a"))
    expiredBody rfl (by decide) approves_expiredHop
  exact absurd (binds.within expiredHop List.mem_cons_self) (by decide)

/-- The theorem at the request with the expired ceiling. -/
theorem verify_ceilingsBind_iff_expiredHop :
    CeilingsBind [expiredHop] 100 ↔
      List.IsChain (fun parent child => child.ceiling.KeepsBounds parent.ceiling) [expiredHop] ∧
        ∀ last ∈ [expiredHop].getLast?, withinNow last.ceiling 100 = true :=
  verify_ceilingsBind_iff fixedCrypto expiredJson globalConfig 100 (rootHopRequest (bytes "a"))
    expiredBody rfl (by decide) approves_expiredHop

end Trstctl.Agentid.Delegation
