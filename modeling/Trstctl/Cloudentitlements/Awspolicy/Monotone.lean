import Trstctl.Cloudentitlements.Awspolicy.Denotation
import Trstctl.Cloudentitlements.Awspolicy.Members

/-!
# Rearranged and added policies

A decision does not depend on the order of documents and layers or on how often
a document is given.  Policies that only deny never lead to a permission, and
policies that only allow never lift a denial.
-/

namespace Trstctl.Cloudentitlements.Awspolicy

open Go (Bytes bytes)
open Truth

/-- A document that `Parse` returns. -/
def Document.Parsed (reader : Reader) (document : Document) : Prop :=
  ∃ id raw, parse reader id raw = .ok document

/-- A property of every category and layer. -/
structure Evidence.Each (property : PolicySet → Prop) (evidence : Evidence) : Prop where
  identity : property evidence.identity
  resource : property evidence.resource
  boundary : property evidence.boundary
  session : property evidence.session
  scp : ∀ layer ∈ evidence.scp, property layer
  rcp : ∀ layer ∈ evidence.rcp, property layer

/-- Documents that parsing returned, within the bound on their number. -/
structure PolicySet.Proper (reader : Reader) (set : PolicySet) : Prop where
  parsed : ∀ document ∈ set.documents, document.Parsed reader
  bounded : set.documents.length ≤ 64

/-- A complete set with its documents in another order or repeated; any other
set as it is. -/
structure PolicySet.Rearranges (set set' : PolicySet) : Prop where
  coverage : set'.coverage = set.coverage
  documents : set'.documents = set.documents ∨
    set.coverage = .complete ∧ ∀ document, document ∈ set'.documents ↔ document ∈ set.documents

/-- A complete set with further documents, all of whose statements have the
given effect; any other set as it is. -/
structure PolicySet.Adds (effect : Bytes) (set set' : PolicySet) : Prop where
  coverage : set'.coverage = set.coverage
  documents : set'.documents = set.documents ∨
    set.coverage = .complete ∧ (∀ document ∈ set.documents, document ∈ set'.documents) ∧
      ∀ document ∈ set'.documents, document ∈ set.documents ∨
        ∀ rule ∈ document.statements, rule.effect = effect

/-- Evidence with rearranged sets and permuted layers. -/
structure Evidence.Rearranges (evidence evidence' : Evidence) : Prop where
  identity : evidence.identity.Rearranges evidence'.identity
  resource : evidence.resource.Rearranges evidence'.resource
  boundary : evidence.boundary.Rearranges evidence'.boundary
  session : evidence.session.Rearranges evidence'.session
  scpCoverage : evidence'.scpCoverage = evidence.scpCoverage
  rcpCoverage : evidence'.rcpCoverage = evidence.rcpCoverage
  scp : ∃ permuted, permuted.Perm evidence.scp ∧
    List.Forall₂ PolicySet.Rearranges permuted evidence'.scp
  rcp : ∃ permuted, permuted.Perm evidence.rcp ∧
    List.Forall₂ PolicySet.Rearranges permuted evidence'.rcp

/-- Evidence with documents of one effect added to its sets. -/
structure Evidence.Adds (effect : Bytes) (evidence evidence' : Evidence) : Prop where
  identity : evidence.identity.Adds effect evidence'.identity
  resource : evidence.resource.Adds effect evidence'.resource
  boundary : evidence.boundary.Adds effect evidence'.boundary
  session : evidence.session.Adds effect evidence'.session
  scpCoverage : evidence'.scpCoverage = evidence.scpCoverage
  rcpCoverage : evidence'.rcpCoverage = evidence.rcpCoverage
  scp : List.Forall₂ (PolicySet.Adds effect) evidence.scp evidence'.scp
  rcp : List.Forall₂ (PolicySet.Adds effect) evidence.rcp evidence'.rcp

theorem Document.Parsed.whole {reader : Reader} {document : Document}
    (parsed : document.Parsed reader) :
    document.Whole := by
  obtain ⟨id, raw, accepted⟩ := parsed
  obtain ⟨root, raws, -, -, some, named, same, statements⟩ := decoded_of_parse accepted
  refine ⟨same ▸ named, ?_, ?_⟩
  · intro none
    obtain ⟨first, member⟩ := List.exists_mem_of_length_pos (Nat.pos_of_ne_zero some)
    obtain ⟨rule, ruleMember, -⟩ := Result.exists_of_mapM_eq_ok statements first member
    rw [none] at ruleMember
    exact absurd ruleMember List.not_mem_nil
  · intro rule member
    obtain ⟨text, -, ruleParsed⟩ := Result.exists_of_mem_mapM statements rule member
    obtain ⟨-, checked⟩ := decoded_of_parseStatement ruleParsed
    obtain ⟨-, checked⟩ := Result.guard_eq_ok.mp checked
    obtain ⟨effect, -⟩ := Result.guard_eq_ok.mp checked
    tauto

theorem whole_of_proper {reader : Reader} {evidence : Evidence}
    (proper : evidence.Each (PolicySet.Proper reader)) :
    evidence.Whole where
  identity document member := (proper.identity.parsed document member).whole
  resource document member := (proper.resource.parsed document member).whole
  boundary document member := (proper.boundary.parsed document member).whole
  session document member := (proper.session.parsed document member).whole
  scp layer layerMember document member :=
    ((proper.scp layer layerMember).parsed document member).whole
  rcp layer layerMember document member :=
    ((proper.rcp layer layerMember).parsed document member).whole

section

variable {env : Env} {kind : Kind} {reader : Reader}

theorem mem_allStatements {documents : List Document} {rule : Statement} :
    rule ∈ allStatements documents ↔ ∃ document ∈ documents, rule ∈ document.statements :=
  List.mem_flatMap

variable {set : PolicySet}

theorem categoryValue_complete (complete : set.coverage = .complete)
    (bounded : set.documents.length ≤ 64) :
    categoryValue env kind set =
      .all ((allStatements set.documents).map (ruleGrants env kind)) := by
  unfold categoryValue
  rw [if_neg (by simp [complete]), if_neg (by simp [complete, bounded])]

variable {set' : PolicySet}

theorem PolicySet.Rearranges.categoryValue_eq (rearranges : set.Rearranges set')
    (proper : set.Proper reader) (proper' : set'.Proper reader) :
    categoryValue env kind set' = categoryValue env kind set := by
  rcases rearranges.documents with same | ⟨complete, same⟩
  · have equal : set' = set := by
      cases set
      cases set'
      rw [PolicySet.mk.injEq]
      exact ⟨rearranges.coverage, same⟩
    rw [equal]
  · have complete' : set'.coverage = .complete := rearranges.coverage.trans complete
    rw [categoryValue_complete complete proper.bounded,
      categoryValue_complete complete' proper'.bounded]
    apply Grants.all_eq_of_same_members
    intro grants
    simp only [List.mem_map, mem_allStatements, same]

theorem layersFrom_perm {first second : List PolicySet} (permuted : first.Perm second)
    (found : Truth × Truth) :
    layersFrom env kind found first = layersFrom env kind found second := by
  refine permuted.foldl_eq' ?_ found
  intro layer _ other _ before
  simp only [Truth.and_assoc, Truth.or_assoc]
  rw [Truth.and_comm (categoryValue env kind other).allow,
    Truth.or_comm (categoryValue env kind other).deny]

variable {layers layers' : List PolicySet}

theorem layersFrom_congr
    (same : List.Forall₂
      (fun layer layer' => categoryValue env kind layer' = categoryValue env kind layer)
      layers layers')
    (found : Truth × Truth) :
    layersFrom env kind found layers' = layersFrom env kind found layers := by
  induction same generalizing found with
  | nil => rfl
  | cons first _ ih =>
      rw [layersFrom, layersFrom, List.foldl_cons, List.foldl_cons, first]
      exact ih _

theorem forall₂_of_mem
    {α β : Type} {relation other : α → β → Prop} {first : List α} {second : List β}
    (pointwise : List.Forall₂ relation first second)
    (implies : ∀ item ∈ first, ∀ item' ∈ second, relation item item' → other item item') :
    List.Forall₂ other first second := by
  induction pointwise with
  | nil => exact .nil
  | cons related _ ih =>
      refine .cons (implies _ List.mem_cons_self _ List.mem_cons_self related) ?_
      exact ih fun item member item' member' =>
        implies item (List.mem_cons_of_mem _ member) item' (List.mem_cons_of_mem _ member')

variable {coverage : Coverage}

theorem hierarchyValue_rearranged
    (rearranges : ∃ permuted, permuted.Perm layers ∧
      List.Forall₂ PolicySet.Rearranges permuted layers')
    (proper : ∀ layer ∈ layers, layer.Proper reader)
    (proper' : ∀ layer ∈ layers', layer.Proper reader) :
    hierarchyValue env kind coverage layers' = hierarchyValue env kind coverage layers := by
  obtain ⟨permuted, perm, pointwise⟩ := rearranges
  have lengths : layers'.length = layers.length := pointwise.length_eq.symm.trans perm.length_eq
  have empty : layers' = [] ↔ layers = [] := by
    rw [← List.length_eq_zero_iff, ← List.length_eq_zero_iff, lengths]
  have values : List.Forall₂
      (fun layer layer' => categoryValue env kind layer' = categoryValue env kind layer)
      permuted layers' :=
    forall₂_of_mem pointwise fun layer member layer' member' rearranged =>
      rearranged.categoryValue_eq (proper layer (perm.mem_iff.mp member)) (proper' layer' member')
  unfold hierarchyValue
  simp only [lengths, empty]
  rw [layersFrom_congr values, layersFrom_perm perm]

theorem Evidence.Rearranges.findingsValue_eq {evidence evidence' : Evidence}
    (rearranges : evidence.Rearranges evidence') (proper : evidence.Each (PolicySet.Proper reader))
    (proper' : evidence'.Each (PolicySet.Proper reader)) :
    findingsValue env evidence' = findingsValue env evidence := by
  unfold findingsValue
  rw [rearranges.identity.categoryValue_eq proper.identity proper'.identity,
    rearranges.resource.categoryValue_eq proper.resource proper'.resource,
    rearranges.boundary.categoryValue_eq proper.boundary proper'.boundary,
    rearranges.session.categoryValue_eq proper.session proper'.session,
    rearranges.scpCoverage, rearranges.rcpCoverage,
    hierarchyValue_rearranged rearranges.scp proper.scp proper'.scp,
    hierarchyValue_rearranged rearranges.rcp proper.rcp proper'.rcp]

theorem ruleGrants_of_deny {rule : Statement} (denies : rule.effect = bytes "Deny")
    (absent : (ruleGrants env kind rule).deny = no) :
    ruleGrants env kind rule = noGrants := by
  unfold ruleGrants at absent ⊢
  split_ifs at absent ⊢ with unsupported
  · exact absurd absent (by simp [Grants.unsupported])
  · rw [Grants.add, if_pos denies] at absent ⊢
    change noGrants.deny.or (verdict env kind.resource rule).1 = no at absent
    rw [absent]
    rfl

variable {effect : Bytes}

theorem PolicySet.Adds.categoryValue_cases
    (adds : set.Adds effect set') (proper : set.Proper reader) (proper' : set'.Proper reader) :
    ∃ added : List Grants,
      categoryValue env kind set' = added.foldl Grants.or (categoryValue env kind set) ∧
      ∀ grants ∈ added, ∃ rule, rule.effect = effect ∧ grants = ruleGrants env kind rule := by
  rcases adds.documents with same | ⟨complete, contained, further⟩
  · have equal : set' = set := by
      cases set
      cases set'
      rw [PolicySet.mk.injEq]
      exact ⟨adds.coverage, same⟩
    exact ⟨[], by rw [equal]; rfl, by simp⟩
  · have complete' : set'.coverage = .complete := adds.coverage.trans complete
    rw [categoryValue_complete complete proper.bounded,
      categoryValue_complete complete' proper'.bounded]
    refine ⟨_, Grants.all_eq_foldl_of_subset ?_, ?_⟩
    · intro grants member
      obtain ⟨rule, ruleMember, rfl⟩ := List.mem_map.mp member
      obtain ⟨document, documentMember, inside⟩ := mem_allStatements.mp ruleMember
      exact List.mem_map_of_mem
        (mem_allStatements.mpr ⟨document, contained document documentMember, inside⟩)
    · intro grants member
      obtain ⟨listed, fresh⟩ := List.mem_filter.mp member
      obtain ⟨rule, ruleMember, rfl⟩ := List.mem_map.mp listed
      obtain ⟨document, documentMember, inside⟩ := mem_allStatements.mp ruleMember
      refine ⟨rule, ?_, rfl⟩
      rcases further document documentMember with earlier | only
      · have known : ruleGrants env kind rule ∈
            (allStatements set.documents).map (ruleGrants env kind) :=
          List.mem_map_of_mem (mem_allStatements.mpr ⟨document, earlier, inside⟩)
        exact absurd known (of_decide_eq_true fresh)
      · exact only rule inside

theorem PolicySet.Adds.categoryValue_eq (adds : set.Adds (bytes "Deny") set')
    (proper : set.Proper reader) (proper' : set'.Proper reader)
    (absent : (categoryValue env kind set').deny = no) :
    categoryValue env kind set' = categoryValue env kind set := by
  obtain ⟨added, value, denials⟩ :=
    @PolicySet.Adds.categoryValue_cases env kind reader _ _ _ adds proper proper'
  rw [value] at absent ⊢
  refine Grants.foldl_eq_of_deny_no ?_ absent
  intro grants member grantsAbsent
  obtain ⟨rule, denies, rfl⟩ := denials grants member
  exact ruleGrants_of_deny denies grantsAbsent

theorem PolicySet.Adds.deny_yes (adds : set.Adds effect set')
    (proper : set.Proper reader) (proper' : set'.Proper reader)
    (denied : (categoryValue env kind set).deny = yes) :
    (categoryValue env kind set').deny = yes := by
  obtain ⟨added, value, -⟩ :=
    @PolicySet.Adds.categoryValue_cases env kind reader _ _ _ adds proper proper'
  rw [value]
  exact Grants.foldl_deny_yes denied

theorem deny_no_of_layersFrom {found : Truth × Truth}
    (absent : (layersFrom env kind found layers).2 = no) :
    found.2 = no ∧ ∀ layer ∈ layers, (categoryValue env kind layer).deny = no := by
  induction layers generalizing found with
  | nil => exact ⟨absent, by simp⟩
  | cons layer rest ih =>
      obtain ⟨first, others⟩ := ih absent
      obtain ⟨before, layerAbsent⟩ := Truth.or_eq_no_iff.mp first
      exact ⟨before, List.forall_mem_cons.mpr ⟨layerAbsent, others⟩⟩

theorem layersFrom_deny_yes
    (kept : List.Forall₂
      (fun layer layer' => (categoryValue env kind layer).deny = yes →
        (categoryValue env kind layer').deny = yes)
      layers layers')
    {found found' : Truth × Truth}
    (before : found.2 = yes → found'.2 = yes)
    (denied : (layersFrom env kind found layers).2 = yes) :
    (layersFrom env kind found' layers').2 = yes := by
  induction kept generalizing found found' with
  | nil => exact before denied
  | cons first _ ih =>
      refine ih ?_ denied
      intro either
      rcases Truth.or_eq_yes_iff.mp either with earlier | here
      · exact Truth.or_eq_yes_iff.mpr (.inl (before earlier))
      · exact Truth.or_eq_yes_iff.mpr (.inr (first here))

theorem hierarchyValue_added (adds : List.Forall₂ (PolicySet.Adds (bytes "Deny")) layers layers')
    (proper : ∀ layer ∈ layers, layer.Proper reader)
    (proper' : ∀ layer ∈ layers', layer.Proper reader)
    (absent : (hierarchyValue env kind coverage layers').2 = no) :
    hierarchyValue env kind coverage layers' = hierarchyValue env kind coverage layers := by
  have lengths : layers'.length = layers.length := adds.length_eq.symm
  have empty : layers' = [] ↔ layers = [] := by
    rw [← List.length_eq_zero_iff, ← List.length_eq_zero_iff, lengths]
  unfold hierarchyValue at absent ⊢
  simp only [lengths, empty] at absent ⊢
  split_ifs at absent ⊢
  · rfl
  · refine layersFrom_congr (forall₂_of_mem adds ?_) _
    intro layer member layer' member' added
    exact added.categoryValue_eq (proper layer member) (proper' layer' member')
      ((deny_no_of_layersFrom absent).2 layer' member')

theorem hierarchyValue_deny_yes (adds : List.Forall₂ (PolicySet.Adds effect) layers layers')
    (proper : ∀ layer ∈ layers, layer.Proper reader)
    (proper' : ∀ layer ∈ layers', layer.Proper reader)
    (denied : (hierarchyValue env kind coverage layers).2 = yes) :
    (hierarchyValue env kind coverage layers').2 = yes := by
  have lengths : layers'.length = layers.length := adds.length_eq.symm
  have empty : layers' = [] ↔ layers = [] := by
    rw [← List.length_eq_zero_iff, ← List.length_eq_zero_iff, lengths]
  unfold hierarchyValue at denied ⊢
  simp only [lengths, empty] at denied ⊢
  split_ifs at denied ⊢
  refine layersFrom_deny_yes (forall₂_of_mem adds ?_) id denied
  intro layer member layer' member' added
  exact added.deny_yes (proper layer member) (proper' layer' member')

end

theorem conclude_allowed_iff {request : Request} {found : Findings} :
    (conclude request false found).1 = .allowed ↔
      outsideModel request = false ∧ found.deny = no ∧ found.permitted = yes := by
  unfold conclude
  cases found.deny <;> cases found.permitted <;> cases outsideModel request <;> simp

theorem conclude_explicitDeny_iff {request : Request} {found : Findings} :
    (conclude request false found).1 = .explicitDeny ↔ found.deny = yes := by
  unfold conclude
  cases found.deny <;> cases found.permitted <;> cases outsideModel request <;> simp

section

variable {reader : Reader} {evidence evidence' : Evidence}

theorem Evidence.Adds.findingsValue_eq {env : Env} (adds : evidence.Adds (bytes "Deny") evidence')
    (proper : evidence.Each (PolicySet.Proper reader))
    (proper' : evidence'.Each (PolicySet.Proper reader))
    (absent : (findingsValue env evidence').deny = no) :
    findingsValue env evidence' = findingsValue env evidence := by
  simp only [findingsValue, combine, Truth.or_eq_no_iff] at absent
  obtain ⟨⟨⟨identity, resource⟩, boundary, session⟩, scp, rcp⟩ := absent
  rw [adds.scpCoverage] at scp
  rw [adds.rcpCoverage] at rcp
  unfold findingsValue
  rw [adds.identity.categoryValue_eq proper.identity proper'.identity identity,
    adds.resource.categoryValue_eq proper.resource proper'.resource resource,
    adds.boundary.categoryValue_eq proper.boundary proper'.boundary boundary,
    adds.session.categoryValue_eq proper.session proper'.session session,
    adds.scpCoverage, adds.rcpCoverage,
    hierarchyValue_added adds.scp proper.scp proper'.scp scp,
    hierarchyValue_added adds.rcp proper.rcp proper'.rcp rcp]

theorem Evidence.Adds.findingsValue_deny {env : Env} {effect : Bytes}
    (adds : evidence.Adds effect evidence') (proper : evidence.Each (PolicySet.Proper reader))
    (proper' : evidence'.Each (PolicySet.Proper reader))
    (denied : (findingsValue env evidence).deny = yes) :
    (findingsValue env evidence').deny = yes := by
  simp only [findingsValue, combine, Truth.or_eq_yes_iff, adds.scpCoverage,
    adds.rcpCoverage] at denied ⊢
  rcases denied with ((identity | resource) | boundary | session) | scp | rcp
  · exact .inl (.inl (.inl (adds.identity.deny_yes proper.identity proper'.identity identity)))
  · exact .inl (.inl (.inr (adds.resource.deny_yes proper.resource proper'.resource resource)))
  · exact .inl (.inr (.inl (adds.boundary.deny_yes proper.boundary proper'.boundary boundary)))
  · exact .inl (.inr (.inr (adds.session.deny_yes proper.session proper'.session session)))
  · exact .inr (.inl (hierarchyValue_deny_yes adds.scp proper.scp proper'.scp scp))
  · exact .inr (.inr (hierarchyValue_deny_yes adds.rcp proper.rcp proper'.rcp rcp))

theorem exists_environment {request : Request} (proper : evidence.Each (PolicySet.Proper reader))
    (proper' : evidence'.Each (PolicySet.Proper reader))
    (completed : completes reader request evidence = true)
    (completed' : completes reader request evidence' = true)
    (coverage : evidence'.boundary.coverage = evidence.boundary.coverage) :
    ∃ env,
      (evaluate reader request evidence).decision =
          (conclude request false (findingsValue env evidence)).1 ∧
        (evaluate reader request evidence').decision =
          (conclude request false (findingsValue env evidence')).1 := by
  obtain ⟨facts, valid, decided⟩ := decision_eq_of_completes (whole_of_proper proper) completed
  obtain ⟨facts', valid', decided'⟩ :=
    decision_eq_of_completes (whole_of_proper proper') completed'
  obtain rfl := Except.ok.inj (valid.symm.trans valid')
  refine ⟨environment reader request evidence facts, decided, ?_⟩
  rw [decided', environment, environment, coverage]

end

/-- For a valid request and documents that parsing returned, with every bound
and budget kept: the decision does not depend on the order of documents and
layers or on repetitions, documents that only deny turn no other decision into
a permission, and documents that only allow leave an explicit denial. -/
theorem decision_orderFree_and_monotone
    (reader : Reader)
    (request : Request)
    (evidence evidence' : Evidence)
    (proper : evidence.Each (PolicySet.Proper reader))
    (proper' : evidence'.Each (PolicySet.Proper reader))
    (completed : completes reader request evidence = true)
    (completed' : completes reader request evidence' = true) :
    (evidence.Rearranges evidence' →
        (evaluate reader request evidence').decision =
          (evaluate reader request evidence).decision) ∧
      (evidence.Adds (bytes "Deny") evidence' →
        (evaluate reader request evidence).decision ≠ .allowed →
          (evaluate reader request evidence').decision ≠ .allowed) ∧
      (evidence.Adds (bytes "Allow") evidence' →
        (evaluate reader request evidence).decision = .explicitDeny →
          (evaluate reader request evidence').decision = .explicitDeny) := by
  refine ⟨fun rearranges => ?_, fun adds refused => ?_, fun adds denied => ?_⟩
  · obtain ⟨env, decided, decided'⟩ := exists_environment proper proper' completed completed'
      rearranges.boundary.coverage
    rw [decided, decided', rearranges.findingsValue_eq proper proper']
  · obtain ⟨env, decided, decided'⟩ := exists_environment proper proper' completed completed'
      adds.boundary.coverage
    rw [decided] at refused
    rw [decided']
    intro allowed
    have absent := (conclude_allowed_iff.mp allowed).2.1
    rw [adds.findingsValue_eq proper proper' absent] at allowed
    exact refused allowed
  · obtain ⟨env, decided, decided'⟩ := exists_environment proper proper' completed completed'
      adds.boundary.coverage
    rw [decided, conclude_explicitDeny_iff] at denied
    rw [decided', conclude_explicitDeny_iff]
    exact adds.findingsValue_deny proper proper' denied

/-- A parsed policy with one effect on all of a service. -/
def serviceDocument (effect : Bytes) : Document where
  id := bytes "p"
  statements := [{ emptyStatement with
    effect := effect
    action := [bytes "s3:*"]
    resource := [bytes "*"] }]

/-- The identity policies alone, without organization policies. -/
def identityEvidence (documents : List Document) : Evidence where
  identity := ⟨.complete, documents⟩
  resource := ⟨.absent, []⟩
  boundary := ⟨.absent, []⟩
  session := ⟨.absent, []⟩
  scp := []
  rcp := []
  scpCoverage := .absent
  rcpCoverage := .absent

theorem serviceDocument_parsed :
    (serviceDocument (bytes "Allow")).Parsed sampleReader ∧
      (serviceDocument (bytes "Deny")).Parsed sampleReader :=
  ⟨⟨bytes "p", samplePolicy "\"Effect\":\"Allow\"", by decide +kernel⟩,
    ⟨bytes "p", samplePolicy "\"Effect\":\"Deny\"", by decide +kernel⟩⟩

theorem identityEvidence_proper {documents : List Document}
    (parsed : ∀ document ∈ documents, document.Parsed sampleReader)
    (bounded : documents.length ≤ 64) :
    (identityEvidence documents).Each (PolicySet.Proper sampleReader) where
  identity := ⟨parsed, bounded⟩
  resource := ⟨by simp [identityEvidence], by simp [identityEvidence]⟩
  boundary := ⟨by simp [identityEvidence], by simp [identityEvidence]⟩
  session := ⟨by simp [identityEvidence], by simp [identityEvidence]⟩
  scp := by simp [identityEvidence]
  rcp := by simp [identityEvidence]

/-- An allowance added in front of a denial leaves the denial. -/
theorem decision_orderFree_and_monotone_denied :
    (evaluate sampleReader (readRequest ⟨[], [], true⟩)
      (identityEvidence [serviceDocument (bytes "Allow"),
        serviceDocument (bytes "Deny")])).decision =
        .explicitDeny := by
  obtain ⟨allows, denies⟩ := serviceDocument_parsed
  have proper := @identityEvidence_proper [serviceDocument (bytes "Deny")]
    (by simpa using denies) (by decide)
  have proper' := @identityEvidence_proper
    [serviceDocument (bytes "Allow"), serviceDocument (bytes "Deny")]
    (by simpa using ⟨allows, denies⟩) (by decide)
  refine (decision_orderFree_and_monotone sampleReader (readRequest ⟨[], [], true⟩) _ _ proper
    proper' (by decide +kernel) (by decide +kernel)).2.2 ?_ (by decide +kernel)
  refine ⟨⟨rfl, .inr ⟨rfl, ?_, ?_⟩⟩, ⟨rfl, .inl rfl⟩, ⟨rfl, .inl rfl⟩, ⟨rfl, .inl rfl⟩, rfl, rfl,
    .nil, .nil⟩
  · simp [identityEvidence]
  · simp [identityEvidence, serviceDocument]

end Trstctl.Cloudentitlements.Awspolicy
