import Trstctl.Cloudentitlements.Awspolicy.Parser

/-!
# Members that replace one another

The first pass over a policy compares names exactly, the decoder without regard
to case.  A field of an accepted policy is set by at most one member exactly
when no two names of the object are equal but for case.
-/

namespace Trstctl.Cloudentitlements.Awspolicy

open Go (Bytes bytes equalFold)

/-- A kind of object: its fields, those that are strings, and those that must
not be set twice. -/
structure Shape where
  fields : List Bytes
  texts : List Bytes
  watched : List Bytes

/-- The root object.  Nothing reads the `Id`. -/
def rootShape : Shape where
  fields := rootFields
  texts := [bytes "Version", bytes "Id"]
  watched := [bytes "Version", bytes "Statement"]

def statementShape : Shape where
  fields := statementFields
  texts := [bytes "Sid", bytes "Effect"]
  watched := statementFields

namespace Shape

/-- A member sets a field; `null` leaves a string as it is. -/
def sets (shape : Shape) (field : Bytes) (member : Bytes × Bytes) : Bool :=
  fieldOf shape.fields member.1 == some field &&
    !(shape.texts.contains field && member.2 == Go.Json.null)

/-- Every watched field is set by at most one member. -/
def SetOnce (shape : Shape) (members : List (Bytes × Bytes)) : Prop :=
  ∀ field ∈ shape.watched, (members.filter (shape.sets field)).length ≤ 1

instance (shape : Shape) (members : List (Bytes × Bytes)) : Decidable (shape.SetOnce members) :=
  inferInstanceAs (Decidable (∀ field ∈ shape.watched, _))

/-- A member that spells a string field and is `null`, or spells a field that
is not watched. -/
def passedOver (shape : Shape) (member : Bytes × Bytes) : Bool :=
  member.2 == Go.Json.null && shape.texts.any (equalFold member.1) ||
    shape.fields.any fun field => !shape.watched.contains field && equalFold member.1 field

/-- No two names are equal but for case, the members passed over apart. -/
def DistinctNames (shape : Shape) (members : List (Bytes × Bytes)) : Prop :=
  (members.filter fun member => !shape.passedOver member).Pairwise fun first second =>
    equalFold first.1 second.1 = false

instance (shape : Shape) (members : List (Bytes × Bytes)) :
    Decidable (shape.DistinctNames members) :=
  inferInstanceAs (Decidable (List.Pairwise _ _))

/-- Its fields are distinct but for case, and strings and watched fields are
fields. -/
structure Proper (shape : Shape) : Prop where
  distinct : ∀ first ∈ shape.fields, ∀ second ∈ shape.fields,
    equalFold first second = true → first = second
  texts : ∀ field ∈ shape.texts, field ∈ shape.fields
  watched : ∀ field ∈ shape.watched, field ∈ shape.fields

end Shape

theorem rootShape_proper : rootShape.Proper where
  distinct := by decide +kernel
  texts := by decide +kernel
  watched := by decide +kernel

theorem statementShape_proper : statementShape.Proper where
  distinct := by decide +kernel
  texts := by decide +kernel
  watched := by decide +kernel

theorem equalFold_iff {first second : Bytes} :
    equalFold first second = true ↔ Go.foldRunes first = Go.foldRunes second := by
  rw [equalFold, beq_iff_eq]

theorem equalFold_self (text : Bytes) : equalFold text text = true :=
  equalFold_iff.mpr rfl

theorem fieldOf_eq_some_iff {shape : Shape} (proper : shape.Proper) {name field : Bytes} :
    fieldOf shape.fields name = some field ↔
      field ∈ shape.fields ∧ equalFold name field = true := by
  unfold fieldOf
  split_ifs with exact'
  · constructor
    · intro found
      obtain rfl := Option.some.inj found
      exact ⟨exact', equalFold_self name⟩
    · rintro ⟨member, folded⟩
      rw [proper.distinct name exact' field member folded]
  · constructor
    · intro found
      exact ⟨List.mem_of_find?_eq_some found, List.find?_some found⟩
    · rintro ⟨member, folded⟩
      cases found : shape.fields.find? (equalFold name) with
      | none => exact absurd folded (by simpa using List.find?_eq_none.mp found field member)
      | some other =>
          have otherFolded := List.find?_some found
          have same : equalFold other field = true := by
            rw [equalFold_iff] at folded otherFolded ⊢
            rw [← otherFolded, folded]
          rw [proper.distinct other (List.mem_of_find?_eq_some found) field member same]

theorem length_filter_le_one_iff {α : Type} {test : α → Bool} {items : List α} :
    (items.filter test).length ≤ 1 ↔
      items.Pairwise fun first second => ¬ (test first = true ∧ test second = true) := by
  induction items with
  | nil => simp
  | cons item rest ih =>
      rw [List.pairwise_cons, ← ih, List.filter_cons]
      split_ifs with passes
      · have none : (rest.filter test).length = 0 ↔ ∀ other ∈ rest, ¬ test other = true := by
          rw [List.length_eq_zero_iff, List.filter_eq_nil_iff]
        simp only [List.length_cons, passes, true_and]
        rw [← none]
        omega
      · simp [passes]

namespace Shape

variable {shape : Shape} {members : List (Bytes × Bytes)}

/-- A member that is not passed over sets a watched field, the one its name
spells. -/
theorem sets_iff (proper : shape.Proper) {field : Bytes} (watched : field ∈ shape.watched)
    {member : Bytes × Bytes} :
    shape.sets field member = true ↔
      equalFold member.1 field = true ∧ shape.passedOver member = false := by
  have fieldMember := proper.watched field watched
  have spelled : ∀ other ∈ shape.fields, equalFold member.1 field = true →
      equalFold member.1 other = true → other = field := by
    intro other otherMember folded otherFolded
    rw [equalFold_iff] at folded otherFolded
    exact proper.distinct other otherMember field fieldMember
      (equalFold_iff.mpr (otherFolded.symm.trans folded))
  rw [sets, Bool.and_eq_true, beq_iff_eq, fieldOf_eq_some_iff proper, Bool.not_eq_true',
    and_iff_right fieldMember]
  refine and_congr_right fun folded => ?_
  -- The only field that the name spells is the watched one.
  have texts : shape.texts.any (equalFold member.1) = shape.texts.contains field := by
    rw [Bool.eq_iff_iff, List.any_eq_true, List.contains_iff_mem]
    constructor
    · rintro ⟨text, textMember, textFolded⟩
      rwa [← spelled text (proper.texts text textMember) folded textFolded]
    · exact fun member => ⟨field, member, folded⟩
  have unwatched : (shape.fields.any fun field =>
      !shape.watched.contains field && equalFold member.1 field) = false := by
    rw [List.any_eq_false]
    intro other otherMember
    rw [Bool.and_eq_true, Bool.not_eq_true', not_and]
    intro left otherFolded
    rw [spelled other otherMember folded otherFolded] at left
    exact absurd watched (by simpa using left)
  rw [passedOver, unwatched, texts, Bool.or_false, Bool.and_comm]

/-- Every watched field is set once exactly when the names are distinct but for
case, once every name spells a field. -/
theorem setOnce_iff (proper : shape.Proper)
    (named : ∀ member ∈ members, (fieldOf shape.fields member.1).isSome = true) :
    shape.SetOnce members ↔ shape.DistinctNames members := by
  rw [SetOnce, DistinctNames, List.pairwise_filter]
  simp only [length_filter_le_one_iff, List.pairwise_iff_getElem]
  constructor
  · intro once i j iBound jBound ordered firstCounts secondCounts
    by_contra same
    rw [Bool.not_eq_false] at same
    obtain ⟨field, found⟩ := Option.isSome_iff_exists.mp (named _ (List.getElem_mem iBound))
    obtain ⟨fieldMember, folded⟩ := (fieldOf_eq_some_iff proper).mp found
    rw [Bool.not_eq_true'] at firstCounts secondCounts
    have watched : field ∈ shape.watched := by
      by_contra unwatched
      rw [passedOver, Bool.or_eq_false_iff] at firstCounts
      have unspelled := List.any_eq_false.mp firstCounts.2 field fieldMember
      exact unspelled (by simp [unwatched, folded])
    have secondFolded : equalFold members[j].1 field = true := by
      rw [equalFold_iff] at same folded ⊢
      rw [← same, folded]
    exact once field watched i j iBound jBound ordered
      ⟨(sets_iff proper watched).mpr ⟨folded, firstCounts⟩,
        (sets_iff proper watched).mpr ⟨secondFolded, secondCounts⟩⟩
  · rintro distinct field watched i j iBound jBound ordered ⟨first, second⟩
    obtain ⟨firstFolded, firstCounts⟩ := (sets_iff proper watched).mp first
    obtain ⟨secondFolded, secondCounts⟩ := (sets_iff proper watched).mp second
    have apart := distinct i j iBound jBound ordered (by rw [firstCounts]; rfl)
      (by rw [secondCounts]; rfl)
    have same : equalFold members[i].1 members[j].1 = true := by
      rw [equalFold_iff] at firstFolded secondFolded ⊢
      rw [firstFolded, secondFolded]
    rw [apart] at same
    exact Bool.noConfusion same

end Shape

/-- The members of the root object of a body. -/
def rootMembers (raw : Bytes) : List (Bytes × Bytes) :=
  (objectMembers raw).getD []

def statementTexts (raw : Bytes) : List Bytes :=
  ((decodeRoot raw).bind fun root => entries root.statement).getD []

/-- The members of every statement that is decoded. -/
def statementMembers (raw : Bytes) : List (List (Bytes × Bytes)) :=
  (statementTexts raw).map fun text => (objectMembers text).getD []

/-- No member of the root object or of a statement replaces another. -/
def NeverReplaced (raw : Bytes) : Prop :=
  rootShape.SetOnce (rootMembers raw) ∧
    ∀ members ∈ statementMembers raw, statementShape.SetOnce members

instance (raw : Bytes) : Decidable (NeverReplaced raw) :=
  inferInstanceAs (Decidable (_ ∧ _))

/-- No two names of the root object or of a statement are equal but for case,
the members passed over apart. -/
def DistinctlyNamed (raw : Bytes) : Prop :=
  rootShape.DistinctNames (rootMembers raw) ∧
    ∀ members ∈ statementMembers raw, statementShape.DistinctNames members

instance (raw : Bytes) : Decidable (DistinctlyNamed raw) :=
  inferInstanceAs (Decidable (_ ∧ _))

theorem forall_of_foldlM {σ α : Type} {body : σ → α → Option σ} {property : α → Prop}
    (accepts : ∀ state item next, body state item = some next → property item)
    {items : List α} {state result : σ} (decoded : items.foldlM body state = some result) :
    ∀ item ∈ items, property item := by
  induction items generalizing state with
  | nil => exact fun item member => absurd member List.not_mem_nil
  | cons first rest ih =>
      rw [List.foldlM_cons] at decoded
      obtain ⟨next, head, tail⟩ := Option.bind_eq_some_iff.mp decoded
      exact List.forall_mem_cons.mpr ⟨accepts _ _ _ head, ih tail⟩

variable {raw : Bytes}

theorem named_of_decoded {σ : Type} {fields : List Bytes} {body : σ → Bytes × Bytes → Option σ}
    (knows : ∀ state member next, body state member = some next →
      (fieldOf fields member.1).isSome = true)
    {start result : σ}
    (decoded : (objectMembers raw).bind (fun members => members.foldlM body start) = some result) :
    ∀ member ∈ (objectMembers raw).getD [], (fieldOf fields member.1).isSome = true := by
  obtain ⟨members, read, folded⟩ := Option.bind_eq_some_iff.mp decoded
  rw [read]
  exact forall_of_foldlM knows folded

theorem named_of_decodeRoot {root : Root} (decoded : decodeRoot raw = some root) :
    ∀ member ∈ rootMembers raw, (fieldOf rootFields member.1).isSome = true := by
  refine named_of_decoded ?_ decoded
  intro state member next accepted
  obtain ⟨field, found, -⟩ := Option.bind_eq_some_iff.mp accepted
  rw [found]
  rfl

theorem named_of_decodeStatement {rule : Statement} (decoded : decodeStatement raw = some rule) :
    ∀ member ∈ (objectMembers raw).getD [], (fieldOf statementFields member.1).isSome = true := by
  refine named_of_decoded ?_ decoded
  intro state member next accepted
  obtain ⟨field, found, -⟩ := Option.bind_eq_some_iff.mp accepted
  rw [found]
  rfl

/-- What is known of an accepted policy: its root object and each of its
statements were decoded. -/
theorem decoded_of_parse {reader : Reader} {id : Bytes} {document : Document}
    (accepted : parse reader id raw = .ok document) :
    ∃ root raws, decodeRoot raw = some root ∧ entries root.statement = some raws ∧
      raws.length ≠ 0 ∧ id ≠ [] ∧ document.id = id ∧
      raws.mapM (parseStatement reader) = .ok document.statements := by
  obtain ⟨bounds, accepted⟩ := Result.guard_eq_ok.mp accepted
  obtain ⟨-, -, accepted⟩ := Result.bind_eq_ok.mp accepted
  cases decoded : decodeRoot raw with
  | none =>
      rw [decoded] at accepted
      exact absurd accepted (by simp [throw, throwThe, MonadExceptOf.throw])
  | some root =>
      rw [decoded] at accepted
      obtain ⟨statements, parsed, result⟩ := Result.bind_eq_ok.mp accepted
      obtain ⟨-, parsed⟩ := Result.guard_eq_ok.mp parsed
      cases read : entries root.statement with
      | none =>
          rw [read] at parsed
          exact absurd parsed (by simp [throw, throwThe, MonadExceptOf.throw])
      | some raws =>
          rw [read] at parsed
          obtain ⟨count, parsed⟩ := Result.guard_eq_ok.mp parsed
          rw [← Except.ok.inj result]
          rw [not_or] at bounds count
          exact ⟨root, raws, rfl, read, count.1, bounds.1, rfl, parsed⟩

theorem decoded_of_parseStatement {reader : Reader} {rule : Statement}
    (accepted : parseStatement reader raw = .ok rule) :
    decodeStatement raw = some rule ∧ checkStatement reader raw rule = .ok () := by
  unfold parseStatement at accepted
  cases decoded : decodeStatement raw with
  | none =>
      rw [decoded] at accepted
      exact absurd accepted (by simp [throw, throwThe, MonadExceptOf.throw])
  | some found =>
      rw [decoded] at accepted
      obtain ⟨_, checked, result⟩ := Result.bind_eq_ok.mp accepted
      obtain rfl := Except.ok.inj result
      exact ⟨rfl, checked⟩

/-- In an accepted policy no member of the root object or of a statement
replaces another exactly when no two names of one object are equal but for
case, those of members passed over apart. -/
theorem neverReplaced_iff_distinctlyNamed
    (reader : Reader)
    (id raw : Bytes)
    (document : Document)
    (accepted : parse reader id raw = .ok document) :
    NeverReplaced raw ↔ DistinctlyNamed raw := by
  obtain ⟨root, raws, decoded, read, -, -, -, parsed⟩ := decoded_of_parse accepted
  have texts : statementTexts raw = raws := by
    simp [statementTexts, decoded, read]
  refine and_congr (Shape.setOnce_iff rootShape_proper (named_of_decodeRoot decoded)) ?_
  refine forall₂_congr fun members member => ?_
  obtain ⟨text, textMember, rfl⟩ := List.mem_map.mp member
  rw [texts] at textMember
  obtain ⟨rule, -, ruleParsed⟩ := Result.exists_of_mapM_eq_ok parsed text textMember
  exact Shape.setOnce_iff statementShape_proper
    (named_of_decodeStatement (decoded_of_parseStatement ruleParsed).1)

/-- A policy on all of a service, with the given members in its statement. -/
def samplePolicy (members : String) : Bytes :=
  bytes "\x7b\"Version\":\"2012-10-17\",\"Statement\":[\x7b" ++ bytes members ++
    bytes ",\"Action\":\"s3:*\",\"Resource\":\"*\"\x7d]\x7d"

/-- A reader for policies without principals. -/
def sampleReader : Reader where
  jsonString := Go.Json.stringOf
  jsonObject := Go.Json.members
  jsonStrings := decodeStrings
  equalFold := equalFold
  parseFloat _ := none
  parseTime _ := none
  parseInt _ := none
  parseAddr _ := none
  parsePrefix _ := none

/-- The denying statement names each member once. -/
theorem neverReplaced_iff_distinctlyNamed_deny :
    (parse sampleReader (bytes "p") (samplePolicy "\"Effect\":\"Deny\"")).isOk = true ∧
      NeverReplaced (samplePolicy "\"Effect\":\"Deny\"") := by
  refine ⟨by decide +kernel, ?_⟩
  cases accepted : parse sampleReader (bytes "p") (samplePolicy "\"Effect\":\"Deny\"") with
  | error error =>
      have isOk : (parse sampleReader (bytes "p") (samplePolicy "\"Effect\":\"Deny\"")).isOk =
          true := by decide +kernel
      rw [accepted] at isOk
      exact Bool.noConfusion isOk
  | ok document =>
      exact (neverReplaced_iff_distinctlyNamed sampleReader _ _ document accepted).mpr
        (by decide +kernel)

/-- A second `effect` turns a denial into an allowance. -/
theorem effect_replaced :
    (parse sampleReader (bytes "p")
        (samplePolicy "\"Effect\":\"Deny\",\"effect\":\"Allow\"")).map
          (fun document => document.statements.map Statement.effect) = .ok [bytes "Allow"] ∧
      ¬ NeverReplaced (samplePolicy "\"Effect\":\"Deny\",\"effect\":\"Allow\"") := by
  decide +kernel

end Trstctl.Cloudentitlements.Awspolicy
