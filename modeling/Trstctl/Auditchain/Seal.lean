import Mathlib.Data.List.Forall2
import Trstctl.Go.Calendar
import Trstctl.Go.Hash
import Trstctl.Go.JsonUnescape

/-!
# Records of the audit chain

`Record` (`internal/auditchain/auditchain.go`) with the actor of an event
(`internal/eventspec`).  The position of a record in its stream is no part of
any export and is left out.
-/

namespace Trstctl.Auditchain

open Go (Bytes Time bytes jsonPair jsonString jsonObject jsonArray jsonOptional decimal IsValue
  compactJSON isValue_jsonPair isValue_jsonString laterMembers utf8Valid jsonPair_injective)

structure Actor where
  subject : Bytes
  roles : List Bytes
deriving DecidableEq

/-- An audit record with its place in the chain. -/
structure Record where
  sequence : UInt64
  id : Bytes
  type : Bytes
  tenantID : Bytes
  time : Time
  actor : Option Actor
  data : Bytes
  hash : Bytes
deriving DecidableEq

/-!
## Sealing the audit chain

`SealFrom` (`internal/auditchain/auditchain.go`): every record is hashed together
with the hash before it, in the JSON of its core.  The hash and `json.Valid` are
parameters.
-/

/-- The hash, and `json.Valid`. -/
structure Primitives where
  sha256Sum : Bytes → Bytes
  jsonValid : Bytes → Bool

/-- The roles of an actor, which may be left out. -/
def rolesMember (roles : List Bytes) : List Bytes :=
  jsonOptional (!roles.isEmpty) (jsonPair "roles" (jsonArray (roles.map jsonString)))

/-- `json.Marshal` of an actor. -/
def Actor.json (actor : Actor) : Bytes :=
  jsonObject (jsonPair "subject" (jsonString actor.subject) :: rolesMember actor.roles)

/-- The members of a `recordCore` that are always written. -/
def coreMembers (record : Record) : List Bytes :=
  [jsonPair "sequence" (decimal record.sequence.toNat),
    jsonPair "id" (jsonString record.id),
    jsonPair "type" (jsonString record.type),
    jsonPair "tenant_id" (jsonString record.tenantID),
    jsonPair "time" (jsonString record.time.format)]

/-- The actor of a `recordCore`, which may be left out. -/
def actorMember (record : Record) : List Bytes :=
  (record.actor.map fun actor => jsonPair "actor" actor.json).toList

/-- The data of a `recordCore`, which may be left out. -/
def dataMember (record : Record) : List Bytes :=
  jsonOptional (!record.data.isEmpty) (jsonPair "data" (compactJSON record.data))

/-- The text of a `recordCore`. -/
def coreText (record : Record) : Bytes :=
  jsonObject (coreMembers record ++ (actorMember record ++ dataMember record))

section Seal

variable (primitives : Primitives)

/-- `json.Marshal` of a `recordCore`, which fails on invalid data. -/
def coreJSON (record : Record) : Option Bytes :=
  if record.data ≠ [] ∧ primitives.jsonValid record.data = false then none
  else some (coreText record)

def sha256Hex (text : Bytes) : Bytes :=
  Go.hexEncode (primitives.sha256Sum text)

/-- `SealFrom`: the records with their hashes, and the head. -/
def sealFrom : Bytes → List Record → List Record × Bytes
  | prev, [] => ([], prev)
  | prev, record :: rest =>
      match coreJSON primitives record with
      | none =>
          let later := sealFrom prev rest
          ({ record with hash := [] } :: later.1, later.2)
      | some canonical =>
          let hash := sha256Hex primitives (prev ++ canonical)
          let later := sealFrom hash rest
          ({ record with hash := hash } :: later.1, later.2)

/-- The texts hashed to seal records with valid data. -/
def sealInputs : Bytes → List Record → List Bytes
  | _, [] => []
  | prev, record :: rest =>
      (prev ++ coreText record) ::
        sealInputs (sha256Hex primitives (prev ++ coreText record)) rest

/-- Data that `json.Marshal` takes. -/
def DataValid (record : Record) : Prop :=
  record.data = [] ∨ primitives.jsonValid record.data = true

end Seal

theorem isValue_actorMembers (actor : Actor) :
    ∀ member ∈ jsonPair "subject" (jsonString actor.subject) :: rolesMember actor.roles,
      IsValue member := by
  refine List.forall_mem_cons.mpr
    ⟨isValue_jsonPair _ (isValue_jsonString _), fun member found => ?_⟩
  unfold rolesMember jsonOptional at found
  split at found
  · rw [List.mem_singleton.mp found]
    refine isValue_jsonPair _ (Go.isValue_jsonArray fun text textMember => ?_)
    obtain ⟨role, -, rfl⟩ := List.mem_map.mp textMember
    exact isValue_jsonString role
  · cases found

theorem isValue_actor (actor : Actor) : IsValue actor.json :=
  Go.isValue_jsonObject (isValue_actorMembers actor)

theorem isValue_coreMembers (record : Record) : ∀ member ∈ coreMembers record, IsValue member := by
  simp only [coreMembers, List.forall_mem_cons]
  exact ⟨isValue_jsonPair _ (Go.isValue_decimal _),
    isValue_jsonPair _ (isValue_jsonString _),
    isValue_jsonPair _ (isValue_jsonString _),
    isValue_jsonPair _ (isValue_jsonString _),
    isValue_jsonPair _ (isValue_jsonString _),
    fun member found => absurd found List.not_mem_nil⟩

theorem actor_ne_data (first second rest otherRest : Bytes) :
    jsonPair "actor" first ++ rest ≠ jsonPair "data" second ++ otherRest := by
  intro equal
  have actor : jsonString (bytes "actor") = 0x22 :: 0x61 :: bytes "ctor\"" := by decide +kernel
  have data : jsonString (bytes "data") = 0x22 :: 0x64 :: bytes "ata\"" := by decide +kernel
  rw [jsonPair, jsonPair, actor, data] at equal
  have letters := (List.cons.inj (List.cons.inj equal).2).1
  exact absurd letters (by decide)

theorem dataMember_cases (record : Record) :
    record.data = [] ∧ dataMember record = [] ∨
      record.data ≠ [] ∧ dataMember record = [jsonPair "data" (compactJSON record.data)] := by
  unfold dataMember jsonOptional
  cases record.data with
  | nil => exact Or.inl ⟨rfl, rfl⟩
  | cons byte rest => exact Or.inr ⟨List.cons_ne_nil _ _, rfl⟩

section Members

variable {first second : Record}

theorem dataMember_eq
    (equal : laterMembers 0x7D (dataMember first) = laterMembers 0x7D (dataMember second)) :
    dataMember first = dataMember second := by
  rcases dataMember_cases first with ⟨-, absent⟩ | ⟨-, present⟩
  · rcases dataMember_cases second with ⟨-, otherAbsent⟩ | ⟨-, otherPresent⟩
    · rw [absent, otherAbsent]
    · rw [absent, otherPresent] at equal
      exact absurd (List.cons.inj equal).1 (by decide)
  · rcases dataMember_cases second with ⟨-, otherAbsent⟩ | ⟨-, otherPresent⟩
    · rw [present, otherAbsent] at equal
      exact absurd (List.cons.inj equal).1 (by decide)
    · rw [present, otherPresent] at equal
      rw [present, otherPresent, List.append_cancel_right (List.cons.inj equal).2]

theorem actorMember_dataMember_eq
    (equal : laterMembers 0x7D (actorMember first ++ dataMember first) =
      laterMembers 0x7D (actorMember second ++ dataMember second)) :
    actorMember first = actorMember second ∧ dataMember first = dataMember second := by
  have apart : ∀ (actor : Actor) (record other : Record),
      laterMembers 0x7D (jsonPair "actor" actor.json :: dataMember record) ≠
        laterMembers 0x7D (dataMember other) := by
    intro actor record other same
    rcases dataMember_cases other with ⟨-, absent⟩ | ⟨-, present⟩
    · rw [absent] at same
      exact absurd (List.cons.inj same).1 (by decide)
    · rw [present] at same
      exact actor_ne_data _ _ _ _ (List.cons.inj same).2
  unfold actorMember at equal ⊢
  cases actor_eq : first.actor with
  | none =>
      cases otherActor_eq : second.actor with
      | none =>
          rw [actor_eq, otherActor_eq] at equal
          exact ⟨rfl, dataMember_eq equal⟩
      | some otherActor =>
          rw [actor_eq, otherActor_eq] at equal
          exact absurd equal.symm (apart otherActor second first)
  | some actor =>
      cases otherActor_eq : second.actor with
      | none =>
          rw [actor_eq, otherActor_eq] at equal
          exact absurd equal (apart actor first second)
      | some otherActor =>
          rw [actor_eq, otherActor_eq] at equal
          have values : ∀ actor : Actor,
              ∀ member ∈ [jsonPair "actor" actor.json], IsValue member := by
            intro actor member found
            rw [List.mem_singleton.mp found]
            exact isValue_jsonPair _ (isValue_actor actor)
          obtain ⟨actors, datas⟩ := @Go.eq_of_laterMembers_append_eq 0x7D rfl
            [jsonPair "actor" actor.json] [jsonPair "actor" otherActor.json] _ _ rfl
            (values actor) (values otherActor) equal
          exact ⟨actors, dataMember_eq datas⟩

theorem members_eq_of_coreText_eq (equal : coreText first = coreText second) :
    coreMembers first = coreMembers second ∧ actorMember first = actorMember second ∧
      dataMember first = dataMember second := by
  have opened : ∀ record : Record, ∃ text, coreText record = 0x7B :: text ∧
      laterMembers 0x7D (coreMembers record ++ (actorMember record ++ dataMember record)) =
        0x2C :: text :=
    fun record => ⟨_, Go.jsonJoin_cons _ _ _ _, rfl⟩
  obtain ⟨text, text_eq, later_eq⟩ := opened first
  obtain ⟨otherText, otherText_eq, otherLater_eq⟩ := opened second
  have texts : text = otherText :=
    (List.cons.inj (text_eq.symm.trans (equal.trans otherText_eq))).2
  have later := later_eq.trans ((congrArg (List.cons 0x2C) texts).trans otherLater_eq.symm)
  have lengths : (coreMembers first).length = (coreMembers second).length := rfl
  obtain ⟨cores, tails⟩ := Go.eq_of_laterMembers_append_eq rfl lengths (isValue_coreMembers first)
    (isValue_coreMembers second) later
  exact ⟨cores, actorMember_dataMember_eq tails⟩

end Members

/-- The texts of a record, which JSON may change: its names, and those of its
actor. -/
def Record.texts (record : Record) : List Bytes :=
  [record.id, record.type, record.tenantID] ++
    record.actor.elim [] fun actor => actor.subject :: actor.roles

/-- No text that is not valid UTF-8 differs between two lists. -/
def TextsKept (texts others : List Bytes) : Prop :=
  ∀ pair ∈ texts.zip others, utf8Valid pair.1 = false → pair.1 = pair.2

theorem textsKept_refl (texts : List Bytes) : TextsKept texts texts := by
  intro pair member _
  induction texts with
  | nil => cases member
  | cons text rest ih =>
      rcases List.mem_cons.mp member with rfl | later
      · rfl
      · exact ih later

theorem textsKept_cons {text other : Bytes} {texts others : List Bytes} :
    TextsKept (text :: texts) (other :: others) ↔
      (utf8Valid text = false → text = other) ∧ TextsKept texts others := by
  unfold TextsKept
  rw [List.zip_cons_cons, List.forall_mem_cons]

theorem text_eq {text other : Bytes} (kept : utf8Valid text = false → text = other)
    (equal : jsonString text = jsonString other) :
    text = other := by
  cases valid : utf8Valid text with
  | true => exact Go.eq_of_jsonString_eq valid equal
  | false => exact kept valid

theorem texts_eq {texts others : List Bytes} (kept : TextsKept texts others)
    (equal : texts.map jsonString = others.map jsonString) :
    texts = others := by
  induction texts generalizing others with
  | nil =>
      cases others with
      | nil => rfl
      | cons other more => cases equal
  | cons text rest ih =>
      cases others with
      | nil => cases equal
      | cons other more =>
          obtain ⟨first, later⟩ := textsKept_cons.mp kept
          obtain ⟨heads, tails⟩ := List.cons.inj equal
          rw [text_eq first heads, ih later tails]

/-- Two records are the same but for the white space and the escapes of their
data, and their hashes. -/
structure SameRecord (first second : Record) : Prop where
  sequence : first.sequence = second.sequence
  id : first.id = second.id
  type : first.type = second.type
  tenantID : first.tenantID = second.tenantID
  time : first.time = second.time
  actor : first.actor = second.actor
  present : first.data = [] ↔ second.data = []
  data : compactJSON first.data = compactJSON second.data

theorem SameRecord.texts_eq {first second : Record} (same : SameRecord first second) :
    first.texts = second.texts := by
  unfold Record.texts
  rw [same.id, same.type, same.tenantID, same.actor]

theorem rolesMember_injective {roles others : List Bytes}
    (equal : rolesMember roles = rolesMember others) :
    roles.map jsonString = others.map jsonString := by
  have values : ∀ roles : List Bytes, ∀ text ∈ roles.map jsonString, IsValue text := by
    intro roles text member
    obtain ⟨role, -, rfl⟩ := List.mem_map.mp member
    exact isValue_jsonString role
  cases roles with
  | nil =>
      cases others with
      | nil => rfl
      | cons other more => cases equal
  | cons role rest =>
      cases others with
      | nil => cases equal
      | cons other more =>
          have arrays := jsonPair_injective (List.cons.inj equal).1
          exact Go.eq_of_jsonArray_eq (values (role :: rest)) (values (other :: more)) arrays

theorem actor_eq_of_json_eq {actor other : Actor}
    (kept : TextsKept (actor.subject :: actor.roles) (other.subject :: other.roles))
    (equal : actor.json = other.json) :
    actor = other := by
  have members := Go.eq_of_jsonObject_eq (isValue_actorMembers actor) (isValue_actorMembers other)
    equal
  obtain ⟨subjects, roles⟩ := List.cons.inj members
  obtain ⟨keptSubject, keptRoles⟩ := textsKept_cons.mp kept
  have sameSubject := text_eq keptSubject (jsonPair_injective subjects)
  have sameRoles := texts_eq keptRoles (rolesMember_injective roles)
  cases actor
  cases other
  exact congr (congrArg Actor.mk sameSubject) sameRoles

theorem actor_eq {first second : Record}
    (kept : TextsKept (first.actor.elim [] fun actor => actor.subject :: actor.roles)
      (second.actor.elim [] fun actor => actor.subject :: actor.roles))
    (equal : actorMember first = actorMember second) :
    first.actor = second.actor := by
  unfold actorMember at equal
  cases actor_eq : first.actor with
  | none =>
      cases other_eq : second.actor with
      | none => rfl
      | some other =>
          rw [actor_eq, other_eq] at equal
          cases equal
  | some actor =>
      cases other_eq : second.actor with
      | none =>
          rw [actor_eq, other_eq] at equal
          cases equal
      | some other =>
          rw [actor_eq, other_eq] at equal kept
          have json := jsonPair_injective (List.cons.inj equal).1
          rw [actor_eq_of_json_eq kept json]

theorem data_eq {first second : Record} (equal : dataMember first = dataMember second) :
    (first.data = [] ↔ second.data = []) ∧
      compactJSON first.data = compactJSON second.data := by
  rcases dataMember_cases first with ⟨empty, absent⟩ | ⟨nonempty, present⟩
  · rcases dataMember_cases second with ⟨otherEmpty, -⟩ | ⟨-, otherPresent⟩
    · rw [empty, otherEmpty]
      exact ⟨Iff.rfl, rfl⟩
    · rw [absent, otherPresent] at equal
      cases equal
  · rcases dataMember_cases second with ⟨-, otherAbsent⟩ | ⟨otherNonempty, otherPresent⟩
    · rw [present, otherAbsent] at equal
      cases equal
    · rw [present, otherPresent] at equal
      exact ⟨iff_of_false nonempty otherNonempty, jsonPair_injective (List.cons.inj equal).1⟩

theorem sameRecord_iff {first second : Record} (equal : coreText first = coreText second) :
    SameRecord first second ↔ TextsKept first.texts second.texts := by
  constructor
  · intro same
    rw [same.texts_eq]
    exact textsKept_refl _
  · intro kept
    obtain ⟨cores, actors, datas⟩ := members_eq_of_coreText_eq equal
    simp only [coreMembers, List.cons.injEq, and_true] at cores
    obtain ⟨sequences, ids, types, tenants, times⟩ := cores
    obtain ⟨keptID, kept⟩ := textsKept_cons.mp kept
    obtain ⟨keptType, kept⟩ := textsKept_cons.mp kept
    obtain ⟨keptTenant, keptActor⟩ := textsKept_cons.mp kept
    obtain ⟨present, data⟩ := data_eq datas
    exact
      { sequence := UInt64.toNat_inj.mp (Go.decimal_injective (jsonPair_injective sequences))
        id := text_eq keptID (jsonPair_injective ids)
        type := text_eq keptType (jsonPair_injective types)
        tenantID := text_eq keptTenant (jsonPair_injective tenants)
        time := Go.Time.format_injective (Go.eq_of_jsonString_eq
          (Go.utf8Valid_of_ascii first.time.isAscii_format) (jsonPair_injective times))
        actor := actor_eq keptActor actors
        present := present
        data := data }

section Chain

variable {primitives : Primitives}

theorem coreJSON_of_dataValid {record : Record} (valid : DataValid primitives record) :
    coreJSON primitives record = some (coreText record) := by
  refine if_neg ?_
  rintro ⟨nonempty, invalid⟩
  rcases valid with empty | valid
  · exact nonempty empty
  · rw [valid] at invalid
    cases invalid

theorem head_cons {record : Record} (valid : DataValid primitives record) (prev : Bytes)
    (rest : List Record) :
    (sealFrom primitives prev (record :: rest)).2 =
      (sealFrom primitives (sha256Hex primitives (prev ++ coreText record)) rest).2 := by
  rw [sealFrom, coreJSON_of_dataValid valid]

theorem length_sha256Hex {bound : Set Bytes} (binds : Hash.Binds primitives.sha256Sum bound)
    (text : Bytes) :
    (sha256Hex primitives text).length = 64 := by
  have pairs : ∀ digest : Bytes, (Go.hexEncode digest).length = 2 * digest.length := by
    intro digest
    induction digest with
    | nil => rfl
    | cons byte rest ih =>
        change (Go.hexEncode rest).length + 1 + 1 = 2 * (rest.length + 1)
        omega
  rw [sha256Hex, pairs, binds.length_eq]

theorem coreTexts_eq_of_head_eq {records others : List Record} {prev otherPrev : Bytes}
    (lengths : records.length = others.length) (prevLengths : prev.length = otherPrev.length)
    (valid : ∀ record ∈ records, DataValid primitives record)
    (otherValid : ∀ record ∈ others, DataValid primitives record)
    (binds : Hash.Binds primitives.sha256Sum {text | text ∈ sealInputs primitives prev records})
    (heads : (sealFrom primitives prev records).2 = (sealFrom primitives otherPrev others).2) :
    prev = otherPrev ∧
      List.Forall₂ (fun record other => coreText record = coreText other) records others := by
  induction records generalizing others prev otherPrev with
  | nil =>
      obtain rfl := List.eq_nil_of_length_eq_zero lengths.symm
      exact ⟨heads, List.Forall₂.nil⟩
  | cons record rest ih =>
      cases others with
      | nil => cases lengths
      | cons other more =>
          obtain ⟨recordValid, restValid⟩ := List.forall_mem_cons.mp valid
          obtain ⟨otherRecordValid, moreValid⟩ := List.forall_mem_cons.mp otherValid
          rw [head_cons recordValid, head_cons otherRecordValid] at heads
          have hashLengths : (sha256Hex primitives (prev ++ coreText record)).length =
              (sha256Hex primitives (otherPrev ++ coreText other)).length := by
            rw [length_sha256Hex binds, length_sha256Hex binds]
          obtain ⟨hashes, texts⟩ := ih (Nat.succ.inj lengths) hashLengths restValid
            moreValid (binds.mono fun text member => List.mem_cons_of_mem _ member) heads
          have inputs := binds.eq_of_hash_eq _ List.mem_cons_self _
            (Go.hexEncode_injective hashes.symm)
          obtain ⟨prevs, cores⟩ := List.append_inj inputs.symm prevLengths
          exact ⟨prevs, List.Forall₂.cons cores texts⟩

theorem sameRecords_iff {records others : List Record}
    (texts : List.Forall₂ (fun record other => coreText record = coreText other) records others) :
    List.Forall₂ SameRecord records others ↔
      ∀ pair ∈ records.zip others, TextsKept pair.1.texts pair.2.texts := by
  induction texts with
  | nil => exact ⟨fun _ pair member => absurd member List.not_mem_nil, fun _ => List.Forall₂.nil⟩
  | cons equal rest ih =>
      rw [List.forall₂_cons, List.zip_cons_cons, List.forall_mem_cons, ih,
        sameRecord_iff equal]

end Chain

end Trstctl.Auditchain
