import Trstctl.Go.Case

/-!
# Certification authority authorization

`CAAChecker.Inspect` of `internal/protocols/acme/caa.go`.  The checker walks from
a domain towards its top label and lets the first published record set decide.
The flag of a record is carried into the evidence and never read, so a critical
record with a tag the checker does not know has no effect.
-/

namespace Trstctl.Protocols.Acme

open Go (Bytes bytes)

structure CAARecord where
  flag : UInt8
  tag : Bytes
  value : Bytes
deriving DecidableEq

/-- `CAAResolver`: the record set at one name, or why it cannot be read. -/
abbrev CAAResolver := Bytes → Except Bytes (List CAARecord)

structure CAAInspection where
  governingName : Bytes := []
  records : List CAARecord := []
  relevantTag : Bytes
  allowedIssuers : List Bytes := []
  unrestricted : Bool := false
  authorized : Bool := false

/-- Why issuance is not permitted. -/
inductive CAAError where
  | noResolver
  | lookup (name cause : Bytes)
  | authorizesNone (name : Bytes)
  | issuerNotAuthorized (name issuer : Bytes)

structure CAAChecker where
  resolver : Option CAAResolver
  issuerDomain : Bytes

def caaIssuer (value : Bytes) : Bytes :=
  let field := Go.trimSpace value
  match Go.index (bytes ";") field with
  | some position => Go.trimSpace (field.take position)
  | none => field

def appendUniqueFold (values : List Bytes) (candidate : Bytes) : List Bytes :=
  if values.any fun value => Go.equalFold value candidate then values
  else values ++ [candidate]

def CAAChecker.authorizes (checker : CAAChecker) (value : Bytes) : Bool :=
  let field := caaIssuer value
  if field = [] then false else Go.equalFold field checker.issuerDomain

/-- The records with a tag, as the switch on `strings.ToLower` sorts them. -/
def tagged (tag : String) (records : List CAARecord) : List CAARecord :=
  records.filter fun record => Go.toLower record.tag == bytes tag

/-- The record set that decides, and its tag. -/
def relevantRecords (wildcard : Bool) (records : List CAARecord) : Bytes × List CAARecord :=
  if wildcard && !(tagged "issuewild" records).isEmpty then
    (bytes "issuewild", tagged "issuewild" records)
  else (bytes "issue", tagged "issue" records)

/-- The issuers a record set names, each once. -/
def allowedIssuers (values : List Bytes) (records : List CAARecord) : List Bytes :=
  records.foldl (fun found record =>
    let issuer := caaIssuer record.value
    if issuer = [] then found else appendUniqueFold found issuer) values

def CAAChecker.evaluateInspection (checker : CAAChecker) (inspection : CAAInspection)
    (wildcard : Bool) :
    CAAInspection × Option CAAError :=
  let relevant := relevantRecords wildcard inspection.records
  let inspected := { inspection with
    relevantTag := relevant.1
    allowedIssuers := allowedIssuers inspection.allowedIssuers relevant.2 }
  if relevant.2.isEmpty then (inspected, some (.authorizesNone inspected.governingName))
  else if relevant.2.any fun record => checker.authorizes record.value then
    ({ inspected with authorized := true }, none)
  else (inspected, some (.issuerNotAuthorized inspected.governingName checker.issuerDomain))

/-- The loop of `CAAChecker.Inspect` over the names from a domain upwards. -/
def CAAChecker.walk (checker : CAAChecker) (lookup : CAAResolver) (wildcard : Bool)
    (inspection : CAAInspection) :
    List Bytes → CAAInspection × Option CAAError
  | [] =>
      ({ inspection with governingName := [], unrestricted := true, authorized := true }, none)
  | name :: ancestors =>
      let reached := { inspection with governingName := name }
      match lookup name with
      | .error cause => (reached, some (.lookup name cause))
      | .ok [] => checker.walk lookup wildcard reached ancestors
      | .ok (record :: records) =>
          checker.evaluateInspection { reached with records := record :: records } wildcard

/-- The labels of a domain, without the mark of a wildcard and the final dot. -/
def labels (domain : Bytes) : List Bytes :=
  Go.split 0x2E (Go.trimSuffix (Go.trimPrefix domain (bytes "*.")) (bytes "."))

/-- The names from a domain up to its top label. -/
def namesUpwards (domain : Bytes) : List Bytes :=
  ((labels domain).tails.filter (· ≠ [])).map fun suffix => (bytes ".").intercalate suffix

def CAAChecker.inspect (checker : CAAChecker) (domain : Bytes) (wildcard : Bool) :
    CAAInspection × Option CAAError :=
  let inspection : CAAInspection :=
    { relevantTag := if wildcard then bytes "issuewild" else bytes "issue" }
  match checker.resolver with
  | none => (inspection, some .noResolver)
  | some lookup => checker.walk lookup wildcard inspection (namesUpwards domain)

/-- The records at the first of the names that has any; the names before it
answered with none. -/
def Governs (lookup : CAAResolver) (names : List Bytes) (records : List CAARecord) : Prop :=
  ∃ below name above, names = below ++ name :: above ∧
    (∀ other ∈ below, lookup other = .ok []) ∧ lookup name = .ok records ∧ records ≠ []

/-- A record the issuer has to understand and does not. -/
def CAARecord.CriticalUnknown (record : CAARecord) : Prop :=
  record.flag &&& 128 ≠ 0 ∧
    Go.toLower record.tag ∉ [bytes "issue", bytes "issuewild", bytes "iodef"]

instance (record : CAARecord) : Decidable record.CriticalUnknown :=
  inferInstanceAs (Decidable (record.flag &&& 128 ≠ 0 ∧
    Go.toLower record.tag ∉ [bytes "issue", bytes "issuewild", bytes "iodef"]))

/-- The deciding property set contains a value with the issuer's domain. -/
def NamesIssuer (issuerDomain : Bytes) (wildcard : Bool) (records : List CAARecord) : Prop :=
  ∃ record ∈ (relevantRecords wildcard records).2,
    Go.equalFold (caaIssuer record.value) issuerDomain = true

/-- An authorization follows from the published records. -/
def AuthorizationSound (lookup : CAAResolver) (issuerDomain domain : Bytes)
    (wildcard : Bool) : Prop :=
  (CAAChecker.inspect ⟨some lookup, issuerDomain⟩ domain wildcard).1.authorized = true →
    (∀ name ∈ namesUpwards domain, lookup name = .ok []) ∨
    ∃ records, Governs lookup (namesUpwards domain) records ∧
      (∀ record ∈ records, ¬ record.CriticalUnknown) ∧
      NamesIssuer issuerDomain wildcard records

/-- The governing records authorize the issuer although one of them is critical
and unknown. -/
def IgnoresCritical (lookup : CAAResolver) (issuerDomain domain : Bytes) (wildcard : Bool) : Prop :=
  ∃ records, Governs lookup (namesUpwards domain) records ∧
    (∃ record ∈ records, record.CriticalUnknown) ∧
    ∃ record ∈ (relevantRecords wildcard records).2,
      (⟨some lookup, issuerDomain⟩ : CAAChecker).authorizes record.value = true

variable {checker : CAAChecker}

theorem equalFold_of_authorizes {value : Bytes} (authorizes : checker.authorizes value = true) :
    Go.equalFold (caaIssuer value) checker.issuerDomain = true := by
  unfold CAAChecker.authorizes at authorizes
  dsimp only at authorizes
  split at authorizes
  · cases authorizes
  · exact authorizes

theorem authorized_evaluateInspection {inspection : CAAInspection} {wildcard : Bool}
    (undecided : inspection.authorized = false) :
    (checker.evaluateInspection inspection wildcard).1.authorized = true ↔
      ∃ record ∈ (relevantRecords wildcard inspection.records).2,
        checker.authorizes record.value = true := by
  unfold CAAChecker.evaluateInspection
  dsimp only
  split_ifs with empty authorizes
  · rw [List.isEmpty_iff] at empty
    simp [empty, undecided]
  · simpa using authorizes
  · simp only [undecided, Bool.false_eq_true, false_iff]
    simpa using authorizes

variable {lookup : CAAResolver} {records : List CAARecord}

variable {name : Bytes} {above : List Bytes}

theorem governs_cons (empty : lookup name = .ok []) :
    Governs lookup (name :: above) records ↔ Governs lookup above records := by
  constructor
  · rintro ⟨below, governing, rest, names, silent, answer, published⟩
    cases below with
    | nil =>
        cases names
        rw [empty] at answer
        cases answer
        exact absurd rfl published
    | cons first below =>
        cases names
        exact ⟨below, governing, rest, rfl,
          fun other member => silent other (List.mem_cons_of_mem name member), answer, published⟩
  · rintro ⟨below, governing, rest, names, silent, answer, published⟩
    refine ⟨name :: below, governing, rest, ?_, ?_, answer, published⟩
    · rw [names, List.cons_append]
    · intro other member
      rcases List.mem_cons.mp member with same | member
      · rw [same, empty]
      · exact silent other member

theorem governs_front {answer : List CAARecord}
    (found : lookup name = .ok answer) (published : answer ≠ []) :
    Governs lookup (name :: above) records ↔ records = answer := by
  constructor
  · rintro ⟨below, governing, rest, names, silent, governs, _⟩
    cases below with
    | nil =>
        cases names
        rw [found] at governs
        cases governs
        rfl
    | cons first below =>
        cases names
        have none := silent name List.mem_cons_self
        rw [found] at none
        cases none
        exact absurd rfl published
  · rintro rfl
    exact ⟨[], name, above, rfl, List.forall_mem_nil _, found, published⟩

theorem not_governs_error {cause : Bytes} (failed : lookup name = .error cause) :
    ¬ Governs lookup (name :: above) records := by
  rintro ⟨below, governing, rest, names, silent, governs, _⟩
  cases below with
  | nil =>
      cases names
      rw [failed] at governs
      cases governs
  | cons first below =>
      cases names
      have none := silent name List.mem_cons_self
      rw [failed] at none
      cases none

variable {names : List Bytes}

theorem authorized_walk {wildcard : Bool}
    {inspection : CAAInspection} (undecided : inspection.authorized = false) :
    (checker.walk lookup wildcard inspection names).1.authorized = true ↔
      (∀ name ∈ names, lookup name = .ok []) ∨
      ∃ records, Governs lookup names records ∧
        ∃ record ∈ (relevantRecords wildcard records).2,
          checker.authorizes record.value = true := by
  induction names generalizing inspection with
  | nil => simp [CAAChecker.walk]
  | cons name above ih =>
      rw [CAAChecker.walk, List.forall_mem_cons]
      cases answer : lookup name with
      | error cause =>
          simp [undecided, not_governs_error answer]
      | ok records =>
          cases records with
          | nil =>
              simp only [governs_cons answer, true_and]
              exact ih undecided
          | cons record records =>
              simp only [governs_front answer (List.cons_ne_nil record records)]
              refine (authorized_evaluateInspection ?_).trans ?_
              · exact undecided
              · simp

theorem authorized_inspect (lookup : CAAResolver) (issuerDomain domain : Bytes) (wildcard : Bool) :
    (CAAChecker.inspect ⟨some lookup, issuerDomain⟩ domain wildcard).1.authorized = true ↔
      (∀ name ∈ namesUpwards domain, lookup name = .ok []) ∨
      ∃ records, Governs lookup (namesUpwards domain) records ∧
        ∃ record ∈ (relevantRecords wildcard records).2,
          (⟨some lookup, issuerDomain⟩ : CAAChecker).authorizes record.value = true :=
  authorized_walk rfl

theorem Governs.unique {first second : List CAARecord}
    (governsFirst : Governs lookup names first) (governsSecond : Governs lookup names second) :
    first = second := by
  induction names with
  | nil =>
      obtain ⟨below, name, above, names, _⟩ := governsFirst
      simp at names
  | cons name above ih =>
      cases answer : lookup name with
      | error cause => exact absurd governsFirst (not_governs_error answer)
      | ok records =>
          by_cases empty : records = []
          · subst empty
            rw [governs_cons answer] at governsFirst governsSecond
            exact ih governsFirst governsSecond
          · rw [governs_front answer empty] at governsFirst governsSecond
            rw [governsFirst, governsSecond]

theorem Governs.not_unrestricted (governs : Governs lookup names records) :
    ¬ ∀ name ∈ names, lookup name = .ok [] := by
  intro empty
  obtain ⟨below, name, above, rfl, _, answer, published⟩ := governs
  have none := empty name (by simp)
  rw [answer] at none
  cases none
  exact published rfl

/-- Authorization is sound but where a critical record is ignored. -/
theorem authorizationSound_iff
    (lookup : CAAResolver)
    (issuerDomain domain : Bytes)
    (wildcard : Bool) :
    AuthorizationSound lookup issuerDomain domain wildcard ↔
      ¬ IgnoresCritical lookup issuerDomain domain wildcard := by
  constructor
  · rintro sound ⟨records, governs, ⟨critical, member, unknown⟩, authorizes⟩
    have authorized := (authorized_inspect lookup issuerDomain domain wildcard).mpr
      (.inr ⟨records, governs, authorizes⟩)
    rcases sound authorized with unrestricted | ⟨other, governsOther, known, _⟩
    · exact governs.not_unrestricted unrestricted
    · rw [← governs.unique governsOther] at known
      exact known critical member unknown
  · intro heeded authorized
    rcases (authorized_inspect lookup issuerDomain domain wildcard).mp authorized with
      unrestricted | ⟨records, governs, record, member, authorizes⟩
    · exact .inl unrestricted
    · refine .inr ⟨records, governs, ?_, record, member, equalFold_of_authorizes authorizes⟩
      intro critical criticalMember unknown
      exact heeded ⟨records, governs, ⟨critical, criticalMember, unknown⟩,
        record, member, authorizes⟩

/-- The record set of one domain: an unknown critical property, and the issuer. -/
def criticalZone : CAAResolver := fun name =>
  if name = bytes "example.com" then
    .ok [⟨128, bytes "tbs", bytes "Unknown"⟩, ⟨0, bytes "issue", bytes "ca.test"⟩]
  else .ok []

/-- A critical property with an unknown tag is passed over. -/
theorem critical_property_ignored :
    ¬ AuthorizationSound criticalZone (bytes "ca.test") (bytes "example.com") false := by
  intro sound
  have authorized : (CAAChecker.inspect ⟨some criticalZone, bytes "ca.test"⟩
      (bytes "example.com") false).1.authorized = true := by
    decide +kernel
  have governs : Governs criticalZone (namesUpwards (bytes "example.com"))
      [⟨128, bytes "tbs", bytes "Unknown"⟩, ⟨0, bytes "issue", bytes "ca.test"⟩] :=
    ⟨[], bytes "example.com", [bytes "com"], by decide +kernel,
      List.forall_mem_nil _, by decide +kernel, List.cons_ne_nil _ _⟩
  rcases sound authorized with unrestricted | ⟨records, governsOther, known, _⟩
  · exact governs.not_unrestricted unrestricted
  · rw [← governs.unique governsOther] at known
    exact known _ List.mem_cons_self (by decide +kernel)

end Trstctl.Protocols.Acme
