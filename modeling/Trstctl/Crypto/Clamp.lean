import Trstctl.Crypto.CrossSign

/-!
# The clamp of a cross-certificate

`hierarchyIntersectDNS` (`internal/crypto/hierarchy_ca.go`) computes the DNS
domains of a cross-certificate from those of its target and of its issuer.  Its
inner loop stops at the first domain of the issuer that is nested with a domain of
the target, so a domain of the target that spans several domains of the issuer
contributes the first of them only.
-/

namespace Trstctl.Crypto

open Go (Bytes bytes trimPrefix hasSuffix)

/-- A constraint as it is compared. -/
def compared (domain : Bytes) : Bytes :=
  trimPrefix (Go.toLower (Go.trimSpace domain)) [dot]

theorem dnsConstraintWithin_iff {value parent : Bytes} :
    dnsConstraintWithin value parent = true ↔
      compared value = compared parent ∨ dot :: compared parent <:+ compared value := by
  simp only [dnsConstraintWithin, Bool.or_eq_true, beq_iff_eq, Go.hasSuffix_iff, compared]

theorem dnsConstraintWithin_refl (domain : Bytes) :
    dnsConstraintWithin domain domain = true :=
  dnsConstraintWithin_iff.mpr (.inl rfl)

theorem dnsConstraintWithin_trans {low middle high : Bytes}
    (lower : dnsConstraintWithin low middle = true)
    (upper : dnsConstraintWithin middle high = true) :
    dnsConstraintWithin low high = true := by
  rw [dnsConstraintWithin_iff] at lower upper ⊢
  rcases lower with equal | lower
  · rw [equal]
    exact upper
  · rcases upper with equal | upper
    · rw [← equal]
      exact .inr lower
    · exact .inr ((upper.trans (List.suffix_cons dot _)).trans lower)

theorem dnsConstraintWithin_nested {low left right : Bytes}
    (inLeft : dnsConstraintWithin low left = true)
    (inRight : dnsConstraintWithin low right = true) :
    dnsConstraintWithin left right = true ∨ dnsConstraintWithin right left = true := by
  simp only [dnsConstraintWithin_iff] at inLeft inRight ⊢
  rcases inLeft with equal | inLeft
  · rw [← equal]
    exact .inl inRight
  · rcases inRight with equal | inRight
    · rw [← equal]
      exact .inr (.inr inLeft)
    · -- the shorter of the two ends is an end of the longer one
      rcases List.suffix_or_suffix_of_suffix inLeft inRight with shorter | shorter
      · rcases List.suffix_cons_iff.mp shorter with equal | inner
        · exact .inl (.inl (List.cons_injective equal))
        · exact .inr (.inr inner)
      · rcases List.suffix_cons_iff.mp shorter with equal | inner
        · exact .inl (.inl (List.cons_injective equal).symm)
        · exact .inl (.inr inner)

/-- The first of the issuer's domains that is nested with a domain of the target. -/
def firstNested (issuer : List Bytes) (candidate : Bytes) : Option Bytes :=
  issuer.find? fun allowed =>
    dnsConstraintWithin candidate allowed || dnsConstraintWithin allowed candidate

/-- A domain is within one of the target and within the first of the issuer that is
nested with that one. -/
def Reached (target issuer : List Bytes) (domain : Bytes) : Prop :=
  ∃ candidate ∈ target, ∃ allowed ∈ firstNested issuer candidate,
    dnsConstraintWithin domain candidate = true ∧ dnsConstraintWithin domain allowed = true

/-- Wherever a domain of the target and one of the issuer overlap, the narrower of
the two is reached. -/
def OverlapsReached (target issuer : List Bytes) : Prop :=
  ∀ candidate ∈ target, ∀ allowed ∈ issuer,
    (dnsConstraintWithin candidate allowed = true → Reached target issuer candidate) ∧
      (dnsConstraintWithin allowed candidate = true → Reached target issuer allowed)

theorem narrowerDomain_spec (candidate domain : Bytes) (issuer : List Bytes) :
    (∃ entry ∈ narrowerDomain candidate issuer, dnsConstraintWithin domain entry = true) ↔
      ∃ allowed ∈ firstNested issuer candidate,
        dnsConstraintWithin domain candidate = true ∧
          dnsConstraintWithin domain allowed = true := by
  induction issuer with
  | nil => simp [narrowerDomain, firstNested]
  | cons first rest ih =>
      by_cases within : dnsConstraintWithin candidate first = true
      · have found : firstNested (first :: rest) candidate = some first := by
          simp [firstNested, within]
        rw [narrowerDomain, if_pos within, found]
        simp only [Option.mem_some_iff, exists_eq_left']
        exact ⟨fun inner => ⟨inner, dnsConstraintWithin_trans inner within⟩, And.left⟩
      · by_cases contains : dnsConstraintWithin first candidate = true
        · have found : firstNested (first :: rest) candidate = some first := by
            simp [firstNested, contains]
          rw [narrowerDomain, if_neg within, if_pos contains, found]
          simp only [Option.mem_some_iff, exists_eq_left']
          exact ⟨fun inner => ⟨dnsConstraintWithin_trans inner contains, inner⟩, And.right⟩
        · have skipped : firstNested (first :: rest) candidate = firstNested rest candidate := by
            simp [firstNested, within, contains]
          rw [narrowerDomain, if_neg within, if_neg contains, skipped]
          exact ih

theorem covered_hierarchyIntersectDNS_iff {target issuer : List Bytes} (targetProper : target ≠ [])
    (issuerProper : issuer ≠ []) (domain : Bytes) :
    Allowlist.Covered (dnsConstraintWithin · ·) (hierarchyIntersectDNS target issuer) domain ↔
      Reached target issuer domain := by
  rw [hierarchyIntersectDNS, if_neg (by simpa using issuerProper),
    if_neg (by simpa using targetProper)]
  simp only [Allowlist.Covered, Go.mem_compact, List.mem_insertionSort, List.mem_filterMap, Reached]
  constructor
  · rintro ⟨entry, ⟨candidate, member, collected⟩, within⟩
    exact ⟨candidate, member, (narrowerDomain_spec candidate domain issuer).mp
      ⟨entry, collected, within⟩⟩
  · rintro ⟨candidate, member, reached⟩
    obtain ⟨entry, collected, within⟩ := (narrowerDomain_spec candidate domain issuer).mpr reached
    exact ⟨entry, ⟨candidate, member, collected⟩, within⟩

theorem Reached.covered {target issuer : List Bytes} {domain : Bytes}
    (reached : Reached target issuer domain) :
    Allowlist.Covered (dnsConstraintWithin · ·) target domain ∧
      Allowlist.Covered (dnsConstraintWithin · ·) issuer domain := by
  obtain ⟨candidate, member, allowed, found, inCandidate, inAllowed⟩ := reached
  exact ⟨⟨candidate, member, inCandidate⟩, ⟨allowed, List.mem_of_find?_eq_some found, inAllowed⟩⟩

/-- The clamp is the intersection of the two lists exactly when every overlap of
them is reached. -/
theorem hierarchyIntersectDNS_exact_iff
    (target issuer : List Bytes)
    (targetProper : target ≠ [])
    (issuerProper : issuer ≠ []) :
    (∀ name : Bytes,
        (∃ entry ∈ hierarchyIntersectDNS target issuer, dnsConstraintWithin name entry = true) ↔
          (∃ entry ∈ target, dnsConstraintWithin name entry = true) ∧
            ∃ entry ∈ issuer, dnsConstraintWithin name entry = true) ↔
      OverlapsReached target issuer := by
  have collected := covered_hierarchyIntersectDNS_iff targetProper issuerProper
  have sound : ∀ entry ∈ hierarchyIntersectDNS target issuer,
      Allowlist.Covered (dnsConstraintWithin · ·) target entry ∧
        Allowlist.Covered (dnsConstraintWithin · ·) issuer entry := by
    intro entry member
    exact ((collected entry).mp ⟨entry, member, dnsConstraintWithin_refl entry⟩).covered
  simp only [OverlapsReached, ← collected]
  exact Allowlist.covered_inter_iff dnsConstraintWithin_refl dnsConstraintWithin_trans
    dnsConstraintWithin_nested sound

/-- A target spans two domains of the issuer and lists the second of them itself. -/
theorem hierarchyIntersectDNS_exact_listed :
    OverlapsReached [bytes "example.com", bytes "b.example.com"]
        [bytes "a.example.com", bytes "b.example.com"] ∧
      ∀ name : Bytes,
        (∃ entry ∈ hierarchyIntersectDNS [bytes "example.com", bytes "b.example.com"]
            [bytes "a.example.com", bytes "b.example.com"],
              dnsConstraintWithin name entry = true) ↔
          (∃ entry ∈ [bytes "example.com", bytes "b.example.com"],
              dnsConstraintWithin name entry = true) ∧
            ∃ entry ∈ [bytes "a.example.com", bytes "b.example.com"],
              dnsConstraintWithin name entry = true := by
  have reached : OverlapsReached [bytes "example.com", bytes "b.example.com"]
      [bytes "a.example.com", bytes "b.example.com"] := by
    simp only [OverlapsReached, Reached]
    decide +kernel
  refine ⟨reached, (hierarchyIntersectDNS_exact_iff _ _ ?_ ?_).mpr reached⟩
  · exact List.cons_ne_nil _ _
  · exact List.cons_ne_nil _ _

/-- The second domain of the issuer inside a domain of the target is lost. -/
theorem hierarchyIntersectDNS_loses_second :
    ¬ ∀ (target issuer : List Bytes), target ≠ [] → issuer ≠ [] →
      (∀ entry ∈ target ++ issuer, entry ≠ []) →
      ∀ name : Bytes,
        (∃ entry ∈ hierarchyIntersectDNS target issuer, dnsConstraintWithin name entry = true) ↔
          (∃ entry ∈ target, dnsConstraintWithin name entry = true) ∧
            ∃ entry ∈ issuer, dnsConstraintWithin name entry = true := by
  intro exactly
  have kept := (exactly [bytes "example.com"] [bytes "a.example.com", bytes "b.example.com"]
    (List.cons_ne_nil _ _) (List.cons_ne_nil _ _) (by decide +kernel)
      (bytes "b.example.com")).mpr (by decide +kernel)
  exact absurd kept (by decide +kernel)

end Trstctl.Crypto
