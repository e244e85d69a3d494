import Trstctl.Go.Strings

/-!
# Text encodings and maps of the standard library

Hexadecimal and decimal text, JSON strings as `encoding/json` writes them, and
maps with string keys.
-/

namespace Trstctl.Go

/-- A hexadecimal digit in lower case. -/
def hexDigit (value : Nat) : UInt8 :=
  if value < 10 then (0x30 + value).toUInt8 else (0x57 + value).toUInt8

/-- `hex.EncodeToString`. -/
def hexEncode (text : Bytes) : Bytes :=
  text.flatMap fun byte => [hexDigit (byte.toNat / 16), hexDigit (byte.toNat % 16)]

/-- The verb `%d`. -/
def decimal (value : Int) : Bytes :=
  bytes (toString value)

/-- One rune of a JSON string, from the bytes it was decoded from.  An invalid
byte is written as the escape of U+FFFD. -/
def jsonRune : Rune × Bytes → Bytes
  | (rune, encoding) =>
      if rune = 0x22 then bytes "\\\""
      else if rune = 0x5C then bytes "\\\\"
      else if rune = 0x08 then bytes "\\b"
      else if rune = 0x0C then bytes "\\f"
      else if rune = 0x0A then bytes "\\n"
      else if rune = 0x0D then bytes "\\r"
      else if rune = 0x09 then bytes "\\t"
      else if rune < 0x20 || rune == 0x3C || rune == 0x3E || rune == 0x26 then
        bytes "\\u00" ++ hexEncode [rune.toUInt8]
      else if rune = runeError && encoding.length == 1 then bytes "\\ufffd"
      else if rune = 0x2028 then bytes "\\u2028"
      else if rune = 0x2029 then bytes "\\u2029"
      else encoding

/-- `json.Marshal` of a string. -/
def jsonString (text : Bytes) : Bytes :=
  [0x22] ++ (segments text).flatMap jsonRune ++ [0x22]

/-- One member of a JSON object. -/
def jsonPair (key : String) (value : Bytes) : Bytes :=
  jsonString (bytes key) ++ bytes ":" ++ value

/-- A JSON object or array from its members and its delimiters. -/
def jsonJoin (opening closing : Bytes) (members : List Bytes) : Bytes :=
  opening ++ (members.intersperse (bytes ",")).flatten ++ closing

def jsonObject (members : List Bytes) : Bytes :=
  jsonJoin [0x7B] [0x7D] members

def jsonArray (members : List Bytes) : Bytes :=
  jsonJoin [0x5B] [0x5D] members

/-- `json.Marshal` of a slice, which is `null` when it has no members and was
made by `append` to nil. -/
def jsonSlice (members : List Bytes) : Bytes :=
  if members.isEmpty then bytes "null" else jsonArray members

/-- `json.Marshal` of a boolean. -/
def jsonBool (value : Bool) : Bytes :=
  if value then bytes "true" else bytes "false"

/-- A member that `omitempty` leaves out. -/
def jsonOptional (present : Bool) (member : Bytes) : List Bytes :=
  if present then [member] else []

def base64Digit (value : Nat) : UInt8 :=
  (bytes "ABCDEFGHIJKLMNOPQRSTUVWXYZabcdefghijklmnopqrstuvwxyz0123456789+/").getD value 0

/-- `base64.StdEncoding`, as `json.Marshal` writes bytes. -/
def base64 : Bytes → Bytes
  | [] => []
  | [first] =>
      [base64Digit (first.toNat / 4), base64Digit (first.toNat % 4 * 16), 0x3D, 0x3D]
  | [first, second] =>
      [base64Digit (first.toNat / 4), base64Digit (first.toNat % 4 * 16 + second.toNat / 16),
        base64Digit (second.toNat % 16 * 4), 0x3D]
  | first :: second :: third :: rest =>
      [base64Digit (first.toNat / 4), base64Digit (first.toNat % 4 * 16 + second.toNat / 16),
        base64Digit (second.toNat % 16 * 4 + third.toNat / 64), base64Digit (third.toNat % 64)] ++
        base64 rest

/-- `json.Marshal` of bytes that are not nil. -/
def jsonBytes (value : Bytes) : Bytes :=
  [0x22] ++ base64 value ++ [0x22]

/-- `json.Marshal` of a byte slice, which is nil when it has no bytes. -/
def jsonByteSlice (value : Bytes) : Bytes :=
  if value.isEmpty then bytes "null" else jsonBytes value

/-- A string after `json.Marshal` and `json.Unmarshal`: every invalid byte has
become U+FFFD. -/
def throughJson (text : Bytes) : Bytes :=
  (segments text).flatMap fun segment =>
    if segment.1 == runeError && segment.2.length == 1 then encodeRune runeError else segment.2

/-- A map, as the list of its bindings. -/
abbrev MapOf (Key Value : Type) := List (Key × Value)

/-- A map with string keys. -/
abbrev Map (Value : Type) := MapOf Bytes Value

section

variable {Key Value : Type} [BEq Key]

/-- The assignment `m[key] = value`. -/
def MapOf.set (map : MapOf Key Value) (key : Key) (value : Value) : MapOf Key Value :=
  (key, value) :: map.filter (fun binding => binding.1 != key)

/-- `delete(m, key)`. -/
def MapOf.delete (map : MapOf Key Value) (key : Key) : MapOf Key Value :=
  map.filter (fun binding => binding.1 != key)

variable (map : MapOf Key Value)

theorem MapOf.lookup_filter [LawfulBEq Key] {key other : Key} (different : other ≠ key) :
    List.lookup other (map.filter fun binding => binding.1 != key) = map.lookup other := by
  induction map with
  | nil => rfl
  | cons binding rest ih =>
      obtain ⟨name, value⟩ := binding
      by_cases removed : name = key
      · simp [removed, List.lookup_cons, ih, beq_false_of_ne different]
      · simp [removed, List.lookup_cons, ih]

theorem MapOf.lookup_set [LawfulBEq Key] [DecidableEq Key] (key : Key) (value : Value)
    (other : Key) :
    (map.set key value).lookup other = if other = key then some value else map.lookup other := by
  by_cases same : other = key
  · simp [MapOf.set, same]
  · rw [if_neg same, MapOf.set, List.lookup_cons, beq_false_of_ne same]
    exact map.lookup_filter same

theorem MapOf.lookup_delete [LawfulBEq Key] [DecidableEq Key] (key other : Key) :
    (map.delete key).lookup other = if other = key then none else map.lookup other := by
  by_cases same : other = key
  · rw [if_pos same, same, MapOf.delete, List.lookup_eq_none_iff]
    intro binding member
    have kept := (List.mem_filter.mp member).2
    rwa [bne_comm] at kept
  · rw [if_neg same]
    exact map.lookup_filter same

theorem MapOf.mem_set {map : MapOf Key Value} {key : Key} {value : Value} {binding : Key × Value}
    (member : binding ∈ map.set key value) :
    binding = (key, value) ∨ binding ∈ map := by
  rcases List.mem_cons.mp member with assigned | kept
  · exact .inl assigned
  · exact .inr (List.mem_filter.mp kept).1

theorem MapOf.nodup_set [LawfulBEq Key] {map : MapOf Key Value} (key : Key) (value : Value)
    (nodup : (map.map Prod.fst).Nodup) :
    ((map.set key value).map Prod.fst).Nodup := by
  have others : (map.filter fun binding => binding.1 != key).Sublist map := List.filter_sublist
  refine List.nodup_cons.mpr ⟨?_, nodup.sublist (others.map Prod.fst)⟩
  intro again
  obtain ⟨binding, member, same⟩ := List.mem_map.mp again
  exact bne_iff_ne.mp (List.mem_filter.mp member).2 same

theorem MapOf.lookup_eq_some_iff [LawfulBEq Key] {map : MapOf Key Value} {key : Key} {value : Value}
    (nodup : (map.map Prod.fst).Nodup) :
    map.lookup key = some value ↔ (key, value) ∈ map := by
  induction map with
  | nil => simp
  | cons binding rest ih =>
      obtain ⟨name, bound⟩ := binding
      obtain ⟨fresh, restNodup⟩ := List.nodup_cons.mp nodup
      rw [List.lookup_cons, List.mem_cons, ← ih restNodup]
      by_cases same : key = name
      · subst same
        have unbound : rest.lookup key ≠ some value := by
          intro found
          exact fresh (List.mem_map.mpr ⟨_, (ih restNodup).mp found, rfl⟩)
        simp [unbound, eq_comm]
      · simp [same, beq_false_of_ne same]

theorem MapOf.filter_set [LawfulBEq Key] (key : Key) (value : Value) (kept : Key → Bool) :
    (map.set key value).filter (fun binding => kept binding.1) =
      if kept key then MapOf.set (map.filter fun binding => kept binding.1) key value
      else map.filter fun binding => kept binding.1 := by
  rw [MapOf.set, List.filter_cons, List.filter_filter]
  split
  next => rw [MapOf.set, List.filter_filter]; simp only [Bool.and_comm]
  next outside =>
    refine List.filter_congr fun binding _ => ?_
    by_cases same : binding.1 = key
    · simp [same, outside]
    · simp [same]

theorem MapOf.filter_delete (key : Key) (kept : Key → Bool) :
    (map.delete key).filter (fun binding => kept binding.1) =
      MapOf.delete (map.filter fun binding => kept binding.1) key := by
  rw [MapOf.delete, MapOf.delete, List.filter_filter, List.filter_filter]
  simp only [Bool.and_comm]

theorem MapOf.lookup_kept [LawfulBEq Key] (kept : Key → Bool) {key : Key}
    (isKept : kept key = true) :
    List.lookup key (map.filter fun binding => kept binding.1) = map.lookup key := by
  induction map with
  | nil => rfl
  | cons binding rest ih =>
      obtain ⟨name, value⟩ := binding
      by_cases same : key = name
      · subst same
        simp [isKept]
      · by_cases stays : kept name = true
        · simp [stays, List.lookup_cons, beq_false_of_ne same, ih]
        · simp [stays, List.lookup_cons, beq_false_of_ne same, ih]

theorem MapOf.lookup_map {Other : Type} (change : Value → Other) (key : Key) :
    List.lookup key (map.map fun binding => (binding.1, change binding.2)) =
      (map.lookup key).map change := by
  induction map with
  | nil => rfl
  | cons binding rest ih =>
      obtain ⟨name, value⟩ := binding
      rw [List.map_cons, List.lookup_cons, List.lookup_cons, ih]
      cases key == name with
      | true => rfl
      | false => rfl

end

def Map.keys {Value : Type} (map : Map Value) : List Bytes :=
  map.map Prod.fst

theorem Map.mem_keys {Value : Type} {map : Map Value} {key : Bytes} :
    key ∈ map.keys ↔ ∃ value, map.lookup key = some value := by
  induction map with
  | nil => simp [Map.keys]
  | cons binding rest ih =>
      rw [Map.keys, List.map_cons, List.mem_cons, List.lookup_cons]
      by_cases same : key = binding.1
      · rw [same, beq_self_eq_true]
        exact ⟨fun _ => ⟨binding.2, rfl⟩, fun _ => Or.inl rfl⟩
      · rw [beq_false_of_ne same, ← ih]
        exact ⟨fun member => member.resolve_left same, Or.inr⟩

/-- An order in which maps are ranged over, which the language leaves open. -/
structure MapOrder where
  arrange : List Bytes → List Bytes
  perm : ∀ keys, (arrange keys).Perm keys

def MapOrder.listed : MapOrder where
  arrange keys := keys
  perm keys := List.Perm.refl keys

theorem map_toNat_injective : Function.Injective (List.map UInt8.toNat) :=
  List.map_injective_iff.mpr fun _ _ => UInt8.toNat_inj.mp

theorem map_toNat_lt_iff {text other : Bytes} :
    text.map UInt8.toNat < other.map UInt8.toNat ↔ text < other := by
  induction text generalizing other with
  | nil => cases other <;> simp
  | cons byte rest ih =>
      cases other with
      | nil => simp
      | cons next more =>
          rw [List.map_cons, List.map_cons, List.cons_lt_cons_iff, List.cons_lt_cons_iff,
            ih, UInt8.lt_iff_toNat_lt, UInt8.toNat_inj]

end Trstctl.Go
