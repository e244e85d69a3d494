import Trstctl.Go.Strings
import Trstctl.Library.Result

/-!
# Sealed containers

`internal/crypto/seal/seal.go`: the layouts of the two container versions, their
opening, and the move of a container to another protection domain.  AES-256-GCM,
HMAC-SHA256 and the key wrappers are parameters.
-/

namespace Trstctl.Crypto.Seal

open Go (Bytes bytes)

/-- The errors, with those of a key wrapper. -/
inductive SealError (ε : Type) where
  | format
  | decrypt
  | domain
  | wrapper (error : ε)
deriving DecidableEq

structure KeyWrapper (ε : Type) where
  wrapDEK : Bytes → Except ε Bytes
  unwrapDEK : Bytes → Except ε Bytes

/-- `hmac` under SHA-256 by key and message, and the opening of a ciphertext
under GCM by key, nonce, ciphertext and additional data, which fails also where
no cipher has such a key. -/
structure Primitives where
  hmac : Bytes → Bytes → Bytes
  gcmOpen : Bytes → Bytes → Bytes → Bytes → Option Bytes

def magic : Bytes :=
  bytes "CSL1"

structure ContainerParts where
  domain : Bytes
  domainTag : Bytes
  wrapped : Bytes
  nonce : Bytes
  ciphertext : Bytes
deriving DecidableEq

/-- `binary.BigEndian.Uint16`. -/
def word16 (text : Bytes) : Nat :=
  match text with
  | high :: low :: _ => high.toNat * 256 + low.toNat
  | _ => 0

/-- `binary.BigEndian.PutUint16`. -/
def putWord16 (value : Nat) : Bytes :=
  [(value / 256).toUInt8, value.toUInt8]

section Layout

variable {ε : Type}

def splitVersion (container : Bytes) : Except (SealError ε) (UInt8 × Bytes) :=
  if container.take magic.length ≠ magic then .error .format
  else
    match container.drop magic.length with
    | [] => .error .format
    | version :: body => .ok (version, body)

/-- The end both layouts share: the wrapped key with its length, the nonce and
the ciphertext. -/
def parsePayload (domain domainTag body : Bytes) : Except (SealError ε) ContainerParts :=
  let wlen := word16 body
  let rest := body.drop 2
  if body.length < 2 ∨ wlen = 0 ∨ rest.length < wlen + 12 + 1 then .error .format
  else .ok ⟨domain, domainTag, rest.take wlen, (rest.drop wlen).take 12, (rest.drop wlen).drop 12⟩

def parseV1 (body : Bytes) : Except (SealError ε) ContainerParts :=
  parsePayload [] [] body

def parseV2 (body : Bytes) : Except (SealError ε) ContainerParts :=
  let dlen := word16 body
  let rest := body.drop 2
  if body.length < 2 ∨ dlen = 0 ∨ rest.length < dlen + 32 + 2 then .error .format
  else parsePayload (rest.take dlen) ((rest.drop dlen).take 32) ((rest.drop dlen).drop 32)

def validateDomain (domain : Bytes) : Except (SealError ε) Unit :=
  if domain = [] ∨ 65535 < domain.length then .error .domain else .ok ()

def buildV2 (parts : ContainerParts) : Except (SealError ε) Bytes := do
  validateDomain parts.domain
  if parts.domainTag.length ≠ 32 ∨ parts.wrapped = [] ∨ 65535 < parts.wrapped.length ∨
      parts.nonce.length ≠ 12 ∨ parts.ciphertext = [] then throw .format
  pure (magic ++ [2] ++ putWord16 parts.domain.length ++ parts.domain ++ parts.domainTag ++
    putWord16 parts.wrapped.length ++ parts.wrapped ++ parts.nonce ++ parts.ciphertext)

end Layout

section Opening

variable {ε : Type} (primitives : Primitives)

def domainTag (dek domain : Bytes) : Bytes :=
  primitives.hmac dek (bytes "trstctl.seal.domain.v2" ++ [0] ++ domain)

def openV1 (wrapper : KeyWrapper ε) (body aad : Bytes) : Except (SealError ε) Bytes := do
  let parts ← parseV1 body
  match wrapper.unwrapDEK parts.wrapped with
  | .error _ => throw .decrypt
  | .ok dek =>
      match primitives.gcmOpen dek parts.nonce parts.ciphertext aad with
      | none => throw .decrypt
      | some plaintext => pure plaintext

/-- The key of a container, of 32 bytes. -/
def unwrap (wrapper : KeyWrapper ε) (wrapped : Bytes) : Except (SealError ε) Bytes :=
  match wrapper.unwrapDEK wrapped with
  | .error _ => .error .decrypt
  | .ok dek => if dek.length ≠ 32 then .error .decrypt else .ok dek

/-- `openV2`, with the expected domain where one is required. -/
def openV2 (wrapper : KeyWrapper ε) (body aad : Bytes) (expectedDomain : Option Bytes) :
    Except (SealError ε) Bytes := do
  let parts ← parseV2 body
  if ∃ expected ∈ expectedDomain, parts.domain ≠ expected then throw .domain
  let dek ← unwrap wrapper parts.wrapped
  if parts.domainTag ≠ domainTag primitives dek parts.domain then throw .domain
  match primitives.gcmOpen dek parts.nonce parts.ciphertext aad with
  | none => throw .decrypt
  | some plaintext => pure plaintext

/-- `Open`. -/
def openContainer (wrapper : KeyWrapper ε) (container aad : Bytes) :
    Except (SealError ε) Bytes := do
  let (version, body) ← splitVersion container
  if version = 1 then openV1 primitives wrapper body aad
  else if version = 2 then openV2 primitives wrapper body aad none
  else throw .format

def openDomain (wrapper : KeyWrapper ε) (container aad expectedDomain : Bytes) :
    Except (SealError ε) Bytes := do
  validateDomain expectedDomain
  let (version, body) ← splitVersion container
  if version ≠ 2 then throw .domain
  openV2 primitives wrapper body aad (some expectedDomain)

/-- The parts of a container of either version. -/
def parseContainer (container : Bytes) : Except (SealError ε) (UInt8 × ContainerParts) := do
  let (version, body) ← splitVersion container
  if version = 1 then
    let parts ← parseV1 body
    pure (version, parts)
  else if version = 2 then
    let parts ← parseV2 body
    pure (version, parts)
  else throw .format

def rewrapDomain (source destination : KeyWrapper ε) (container destinationDomain : Bytes) :
    Except (SealError ε) Bytes := do
  validateDomain destinationDomain
  let (version, parts) ← parseContainer container
  let dek ← unwrap source parts.wrapped
  if version = 2 ∧ parts.domainTag ≠ domainTag primitives dek parts.domain then throw .domain
  match destination.wrapDEK dek with
  | .error error => throw (.wrapper error)
  | .ok wrapped =>
      buildV2 ⟨destinationDomain, domainTag primitives dek destinationDomain, wrapped, parts.nonce,
        parts.ciphertext⟩

end Opening

theorem word16_putWord16 {value : Nat} (bounded : value ≤ 65535) (rest : Bytes) :
    word16 (putWord16 value ++ rest) = value := by
  simp only [word16, putWord16, List.cons_append, Nat.toUInt8, UInt8.toNat_ofNat']
  omega

section Layout

variable {ε : Type}

/-- The conditions `buildV2` checks. -/
structure ContainerParts.Buildable (parts : ContainerParts) : Prop where
  domain : parts.domain ≠ [] ∧ parts.domain.length ≤ 65535
  domainTag : parts.domainTag.length = 32
  wrapped : parts.wrapped ≠ [] ∧ parts.wrapped.length ≤ 65535
  nonce : parts.nonce.length = 12
  ciphertext : parts.ciphertext ≠ []

def ContainerParts.body (parts : ContainerParts) : Bytes :=
  putWord16 parts.domain.length ++ (parts.domain ++ (parts.domainTag ++
    (putWord16 parts.wrapped.length ++ (parts.wrapped ++ (parts.nonce ++ parts.ciphertext)))))

theorem validateDomain_eq_ok_iff {domain : Bytes} {valid : Unit} :
    (validateDomain domain : Except (SealError ε) Unit) = .ok valid ↔
      domain ≠ [] ∧ domain.length ≤ 65535 := by
  rw [validateDomain]
  by_cases refused : domain = [] ∨ 65535 < domain.length
  · rw [if_pos refused]
    constructor
    · intro built
      cases built
    · rintro ⟨nonempty, bounded⟩
      rcases refused with empty | long
      · exact absurd empty nonempty
      · omega
  · rw [if_neg refused]
    push Not at refused
    exact ⟨fun _ => refused, fun _ => rfl⟩

theorem buildV2_eq_ok_iff {parts : ContainerParts} {container : Bytes} :
    (buildV2 parts : Except (SealError ε) Bytes) = .ok container ↔
      parts.Buildable ∧ container = magic ++ 2 :: parts.body := by
  have written : magic ++ [2] ++ putWord16 parts.domain.length ++ parts.domain ++
      parts.domainTag ++ putWord16 parts.wrapped.length ++ parts.wrapped ++ parts.nonce ++
      parts.ciphertext = magic ++ 2 :: parts.body := by
    simp [ContainerParts.body]
  simp only [buildV2, Result.bind_eq_ok, validateDomain_eq_ok_iff, Result.guard_eq_ok, written,
    exists_const]
  constructor
  · rintro ⟨domain, formed, built⟩
    push Not at formed
    obtain ⟨tag, nonempty, bounded, nonce, filled⟩ := formed
    exact ⟨⟨domain, tag, ⟨nonempty, bounded⟩, nonce, filled⟩, (Except.ok.inj built).symm⟩
  · rintro ⟨⟨domain, tag, ⟨nonempty, bounded⟩, nonce, filled⟩, rfl⟩
    refine ⟨domain, ?_, rfl⟩
    push Not
    exact ⟨tag, nonempty, bounded, nonce, filled⟩

theorem splitVersion_magic (version : UInt8) (body : Bytes) :
    (splitVersion (magic ++ version :: body) : Except (SealError ε) _) = .ok (version, body) := by
  rw [splitVersion, List.take_left' rfl, if_neg (by simp), List.drop_left' rfl]

theorem parsePayload_append {wrapped nonce ciphertext : Bytes}
    (wrappedLength : wrapped ≠ [] ∧ wrapped.length ≤ 65535) (nonceLength : nonce.length = 12)
    (nonempty : ciphertext ≠ []) (domain tag : Bytes) :
    (parsePayload domain tag (putWord16 wrapped.length ++ (wrapped ++ (nonce ++ ciphertext))) :
        Except (SealError ε) _) =
      .ok ⟨domain, tag, wrapped, nonce, ciphertext⟩ := by
  have positive := List.length_pos_iff.mpr wrappedLength.1
  have filled := List.length_pos_iff.mpr nonempty
  have two : (putWord16 wrapped.length).length = 2 := rfl
  rw [parsePayload, word16_putWord16 wrappedLength.2, List.drop_left' two]
  have fits : ¬ ((putWord16 wrapped.length ++ (wrapped ++ (nonce ++ ciphertext))).length < 2 ∨
      wrapped.length = 0 ∨
      (wrapped ++ (nonce ++ ciphertext)).length < wrapped.length + 12 + 1) := by
    simp only [List.length_append, two]
    omega
  rw [if_neg fits, List.take_left' rfl, List.drop_left' rfl, List.take_left' nonceLength,
    List.drop_left' nonceLength]

theorem parseV2_body {parts : ContainerParts} (buildable : parts.Buildable) :
    (parseV2 parts.body : Except (SealError ε) _) = .ok parts := by
  obtain ⟨domainLength, tagLength, wrappedLength, nonceLength, nonempty⟩ := buildable
  have positive := List.length_pos_iff.mpr domainLength.1
  have two (value : Nat) : (putWord16 value).length = 2 := rfl
  rw [parseV2, ContainerParts.body, word16_putWord16 domainLength.2, List.drop_left' (two _)]
  rw [if_neg, List.take_left' rfl, List.drop_left' rfl, List.take_left' tagLength,
    List.drop_left' tagLength, parsePayload_append wrappedLength nonceLength nonempty]
  simp only [List.length_append, two]
  omega

end Layout

section Opening

variable {ε : Type} {primitives : Primitives}

variable {parts : ContainerParts}

variable {container : Bytes} {version : UInt8}

theorem parseContainer_eq_ok_iff :
    (parseContainer container : Except (SealError ε) _) = .ok (version, parts) ↔
      ∃ body, (splitVersion container : Except (SealError ε) _) = .ok (version, body) ∧
        (version = 1 ∧ (parseV1 body : Except (SealError ε) _) = .ok parts ∨
          version = 2 ∧ (parseV2 body : Except (SealError ε) _) = .ok parts) := by
  simp only [parseContainer, Result.bind_eq_ok, Prod.exists]
  constructor
  · rintro ⟨found, body, split, parsed⟩
    split at parsed
    · rename_i first
      obtain ⟨read, parsing, result⟩ := Result.bind_eq_ok.mp parsed
      obtain ⟨rfl, rfl⟩ := Prod.mk.inj (Except.ok.inj result)
      exact ⟨body, split, Or.inl ⟨first, parsing⟩⟩
    · split at parsed
      · rename_i second
        obtain ⟨read, parsing, result⟩ := Result.bind_eq_ok.mp parsed
        obtain ⟨rfl, rfl⟩ := Prod.mk.inj (Except.ok.inj result)
        exact ⟨body, split, Or.inr ⟨second, parsing⟩⟩
      · cases parsed
  · rintro ⟨body, split, ⟨rfl, parsed⟩ | ⟨rfl, parsed⟩⟩
    · exact ⟨1, body, split, by rw [if_pos rfl, parsed]; rfl⟩
    · exact ⟨2, body, split, by rw [if_neg (by decide), if_pos rfl, parsed]; rfl⟩

theorem payload_of_parsePayload {domain tag body : Bytes}
    (parsed : (parsePayload domain tag body : Except (SealError ε) _) = .ok parts) :
    parts.nonce.length = 12 ∧ parts.ciphertext ≠ [] := by
  rw [parsePayload] at parsed
  split at parsed
  · cases parsed
  · rename_i long
    obtain rfl := Except.ok.inj parsed
    rw [← List.length_pos_iff]
    simp only [List.length_take, List.length_drop] at long ⊢
    omega

theorem payload_of_parseContainer
    (parsed : (parseContainer container : Except (SealError ε) _) = .ok (version, parts)) :
    parts.nonce.length = 12 ∧ parts.ciphertext ≠ [] := by
  obtain ⟨body, -, ⟨-, parsed⟩ | ⟨-, parsed⟩⟩ := parseContainer_eq_ok_iff.mp parsed
  · exact payload_of_parsePayload parsed
  · rw [parseV2] at parsed
    split at parsed
    · cases parsed
    · exact payload_of_parsePayload parsed

variable {wrapper : KeyWrapper ε}

theorem unwrap_eq_ok {wrapped dek : Bytes} (unwrapped : wrapper.unwrapDEK wrapped = .ok dek)
    (size : dek.length = 32) :
    unwrap wrapper wrapped = .ok dek := by
  rw [unwrap, unwrapped]
  simp [size]

theorem openV2_eq {body aad dek : Bytes} {expectedDomain : Option Bytes}
    (parsed : (parseV2 body : Except (SealError ε) _) = .ok parts)
    (expected : ∀ domain ∈ expectedDomain, parts.domain = domain)
    (unwrapped : wrapper.unwrapDEK parts.wrapped = .ok dek) (size : dek.length = 32) :
    openV2 primitives wrapper body aad expectedDomain =
      if parts.domainTag ≠ domainTag primitives dek parts.domain then .error .domain
      else
        match primitives.gcmOpen dek parts.nonce parts.ciphertext aad with
        | none => .error .decrypt
        | some plaintext => .ok plaintext := by
  have met : ¬ ∃ domain ∈ expectedDomain, parts.domain ≠ domain :=
    fun ⟨domain, member, different⟩ => different (expected domain member)
  rw [openV2, parsed]
  change (if ∃ domain ∈ expectedDomain, parts.domain ≠ domain then _ else _) = _
  rw [if_neg met, unwrap_eq_ok unwrapped size]
  rfl

theorem openV1_eq {body aad dek : Bytes}
    (parsed : (parseV1 body : Except (SealError ε) _) = .ok parts)
    (unwrapped : wrapper.unwrapDEK parts.wrapped = .ok dek) :
    openV1 primitives wrapper body aad =
      match primitives.gcmOpen dek parts.nonce parts.ciphertext aad with
      | none => .error .decrypt
      | some plaintext => .ok plaintext := by
  rw [openV1, parsed]
  simp only [bind, Except.bind, unwrapped]
  rfl

theorem payload_of_openContainer {aad plaintext dek : Bytes}
    (parsed : (parseContainer container : Except (SealError ε) _) = .ok (version, parts))
    (unwrapped : wrapper.unwrapDEK parts.wrapped = .ok dek) (size : dek.length = 32)
    (opened : openContainer primitives wrapper container aad = .ok plaintext) :
    primitives.gcmOpen dek parts.nonce parts.ciphertext aad = some plaintext ∧
      (version = 2 → parts.domainTag = domainTag primitives dek parts.domain) := by
  obtain ⟨body, split, versioned⟩ := parseContainer_eq_ok_iff.mp parsed
  rw [openContainer, split] at opened
  rcases versioned with ⟨rfl, read⟩ | ⟨rfl, read⟩
  · change openV1 primitives wrapper body aad = _ at opened
    rw [openV1_eq read unwrapped] at opened
    split at opened
    · cases opened
    · rename_i found
      refine ⟨?_, fun second => absurd second (by decide)⟩
      rw [found, Except.ok.inj opened]
  · change openV2 primitives wrapper body aad none = _ at opened
    rw [openV2_eq read (by simp) unwrapped size] at opened
    split at opened
    · cases opened
    · rename_i tagged
      rw [not_not] at tagged
      split at opened
      · cases opened
      · rename_i found
        exact ⟨by rw [found, Except.ok.inj opened], fun _ => tagged⟩

/-- A container of version 2 opens under no domain but the one it names. -/
theorem openDomain_other {aad other : Bytes}
    (read : (parseV2 parts.body : Except (SealError ε) _) = .ok parts)
    (different : other ≠ parts.domain) :
    openDomain primitives wrapper (magic ++ 2 :: parts.body) aad other = .error .domain := by
  rw [openDomain]
  rcases validated : (validateDomain other : Except (SealError ε) Unit) with error | valid
  · rw [validateDomain] at validated
    split at validated
    · obtain rfl := Except.error.inj validated
      rfl
    · cases validated
  · rw [splitVersion_magic]
    change openV2 primitives wrapper parts.body aad (some other) = _
    rw [openV2, read]
    change (if ∃ expected ∈ some other, parts.domain ≠ expected then _ else _) = _
    rw [if_pos ⟨other, rfl, different.symm⟩]
    rfl

theorem rewrapDomain_eq {destination : KeyWrapper ε} {dek wrapped domain : Bytes}
    (parsed : (parseContainer container : Except (SealError ε) _) = .ok (version, parts))
    (unwrapped : wrapper.unwrapDEK parts.wrapped = .ok dek) (size : dek.length = 32)
    (tagged : version = 2 → parts.domainTag = domainTag primitives dek parts.domain)
    (valid : (validateDomain domain : Except (SealError ε) Unit) = .ok ())
    (wraps : destination.wrapDEK dek = .ok wrapped) :
    rewrapDomain primitives wrapper destination container domain =
      buildV2
        ⟨domain, domainTag primitives dek domain, wrapped, parts.nonce, parts.ciphertext⟩ := by
  have untampered : ¬ (version = 2 ∧
      parts.domainTag ≠ domainTag primitives dek parts.domain) :=
    fun tampered => tampered.2 (tagged tampered.1)
  rw [rewrapDomain, valid, parsed]
  change (unwrap wrapper parts.wrapped >>= _) = _
  rw [unwrap_eq_ok unwrapped size]
  change (if version = 2 ∧ parts.domainTag ≠ domainTag primitives dek parts.domain then _
    else _) = _
  rw [if_neg untampered, wraps]

/-- A container that opens is moved to any valid domain: it opens there to the
same plaintext, under no other expected domain, and with the same nonce and
ciphertext. -/
theorem rewrapDomain_preserves
    {source destination : KeyWrapper ε}
    {container aad plaintext dek wrapped domain : Bytes} {version : UInt8}
    {parts : ContainerParts}
    (tags : ∀ key message, (primitives.hmac key message).length = 32)
    (inverts : ∀ key wrapping, destination.wrapDEK key = .ok wrapping →
      destination.unwrapDEK wrapping = .ok key)
    (parsed : (parseContainer container : Except (SealError ε) _) = .ok (version, parts))
    (unwrapped : source.unwrapDEK parts.wrapped = .ok dek)
    (size : dek.length = 32)
    (opened : openContainer primitives source container aad = .ok plaintext)
    (valid : 1 ≤ domain.length ∧ domain.length ≤ 65535)
    (wraps : destination.wrapDEK dek = .ok wrapped)
    (wrappedLength : 1 ≤ wrapped.length ∧ wrapped.length ≤ 65535) :
    (∃ moved movedParts, rewrapDomain primitives source destination container domain = .ok moved ∧
        openDomain primitives destination moved aad domain = .ok plaintext ∧
        (∀ other, other ≠ domain →
          openDomain primitives destination moved aad other = .error .domain) ∧
        (parseContainer moved : Except (SealError ε) _) = .ok (2, movedParts) ∧
        movedParts.nonce = parts.nonce ∧ movedParts.ciphertext = parts.ciphertext) ∧
      ∀ (built : ContainerParts) (result : Bytes),
        (buildV2 built : Except (SealError ε) _) = .ok result →
          ∃ body, (splitVersion result : Except (SealError ε) _) = .ok (2, body) ∧
            (parseV2 body : Except (SealError ε) _) = .ok built := by
  constructor
  · let moved : ContainerParts :=
      ⟨domain, domainTag primitives dek domain, wrapped, parts.nonce, parts.ciphertext⟩
    obtain ⟨nonce, ciphertext⟩ := payload_of_parseContainer parsed
    obtain ⟨found, tagged⟩ := payload_of_openContainer parsed unwrapped size opened
    have named : domain ≠ [] ∧ domain.length ≤ 65535 :=
      ⟨List.length_pos_iff.mp valid.1, valid.2⟩
    have passes : (validateDomain domain : Except (SealError ε) Unit) = .ok () :=
      validateDomain_eq_ok_iff.mpr named
    have buildable : moved.Buildable :=
      ⟨named, tags _ _, ⟨List.length_pos_iff.mp wrappedLength.1, wrappedLength.2⟩, nonce,
        ciphertext⟩
    have read : (parseV2 moved.body : Except (SealError ε) _) = .ok moved := parseV2_body buildable
    have version2 : (splitVersion (magic ++ 2 :: moved.body) : Except (SealError ε) _) =
        .ok (2, moved.body) := splitVersion_magic 2 moved.body
    refine ⟨magic ++ 2 :: moved.body, moved, ?_, ?_, fun other different => ?_, ?_, rfl, rfl⟩
    · rw [rewrapDomain_eq parsed unwrapped size tagged passes wraps]
      exact buildV2_eq_ok_iff.mpr ⟨buildable, rfl⟩
    · rw [openDomain, passes, version2]
      change openV2 primitives destination moved.body aad (some domain) = _
      have same : ∀ expected ∈ some domain, moved.domain = expected :=
        fun expected member => Option.some.inj member
      rw [openV2_eq read same (inverts dek wrapped wraps) size, if_neg (by simp [moved]), found]
    · exact openDomain_other read different
    · exact parseContainer_eq_ok_iff.mpr ⟨moved.body, version2, Or.inr ⟨rfl, read⟩⟩
  · intro built result building
    obtain ⟨buildable, rfl⟩ := buildV2_eq_ok_iff.mp building
    exact ⟨built.body, splitVersion_magic 2 built.body, parseV2_body buildable⟩

/-- Primitives with tags of 32 bytes, under which every ciphertext is its own
plaintext. -/
def plainPrimitives : Primitives where
  hmac key message := (message.reverse ++ key.reverse ++ List.replicate 32 0).take 32
  gcmOpen _ _ ciphertext _ := some ciphertext

def reversing : KeyWrapper Unit where
  wrapDEK dek := .ok dek.reverse
  unwrapDEK wrapped := .ok wrapped.reverse

/-- A container of version 1 with the payload `9`. -/
def legacyContainer : Bytes :=
  magic ++ [1, 0, 32] ++ List.replicate 32 7 ++ List.replicate 12 8 ++ [9]

/-- A container of the first version still opens after it is moved. -/
theorem rewrapDomain_preserves_legacy :
    ∃ moved, rewrapDomain plainPrimitives reversing reversing legacyContainer [5] = .ok moved ∧
      openDomain plainPrimitives reversing moved [] [5] = .ok [9] := by
  have parsed : (parseContainer legacyContainer : Except (SealError Unit) _) =
      .ok (1, ⟨[], [], List.replicate 32 7, List.replicate 12 8, [9]⟩) := by decide +kernel
  have opened : openContainer plainPrimitives reversing legacyContainer [] = .ok [9] := by
    decide +kernel
  have tags : ∀ key message, (plainPrimitives.hmac key message).length = 32 := by
    intro key message
    simp only [plainPrimitives, List.length_take, List.length_append, List.length_replicate]
    omega
  have inverts : ∀ key wrapping, reversing.wrapDEK key = .ok wrapping →
      reversing.unwrapDEK wrapping = .ok key := by
    intro key wrapping wraps
    obtain rfl := Except.ok.inj wraps
    exact congrArg Except.ok (List.reverse_reverse key)
  obtain ⟨moved, -, rewrapped, reopened, -⟩ := (rewrapDomain_preserves tags inverts parsed rfl
    (by decide +kernel) opened (show 1 ≤ [5].length ∧ [5].length ≤ 65535 by decide) rfl
    (by decide +kernel)).1
  exact ⟨moved, rewrapped, reopened⟩

end Opening

end Trstctl.Crypto.Seal
