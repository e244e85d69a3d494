import Mathlib.Data.Finset.Basic
import Trstctl.Agent.Sshkrl.Serials
import Trstctl.Go.Encoding
import Trstctl.Library.Scanner

/-!
# Reading revocation lists

The binary revocation lists of OpenSSH: a header, then sections of revoked
certificate serials and key IDs under a certificate authority, of public keys
and of key fingerprints.  A list that is read has merged serial ranges in every
scope, and one scope for each authority.
-/

namespace Trstctl.Sshkrl

open Go (Bytes bytes MapOf)
open Trstctl.Result (bind_eq_ok guard_eq_ok)
open Trstctl.Span (Ascending)

/-- Why a list is refused. -/
inductive ParseError where
  | invalidHeader
  | unsupportedFormat
  | truncated
  | signed
  | unsupportedSection (kind : UInt8)
  | unsupportedCertificateSection (kind : UInt8)
  | tooManyEntries
  | malformedSerialList
  | malformedSerialRange
  | invalidSerialRange
  | malformedBitmap
  | negativeBitmap
  | bitmapTooLarge
  | bitmapWraps
  | serialZero
  | keyIDHoldsNul
  | malformedEntry
deriving DecidableEq

def maxKRLBytes : Nat := 128 * 2 ^ 20

def krlMagic : Bytes := bytes "SSHKRL\n\x00"

def maxBitmapBytes : Nat := 16384 / 8

def maxRevocationEntries : Nat := 2 ^ 20

/-- `binary.BigEndian`, for the width of the bytes. -/
def bigEndian (data : Bytes) : Nat :=
  data.foldl (fun value byte => value * 256 + byte.toNat) 0

theorem bigEndian_lt {data : Bytes} (width : data.length ≤ 8) : bigEndian data < 2 ^ 64 := by
  have bound : ∀ (rest : Bytes) (value limit : Nat), value < limit →
      rest.foldl (fun value byte => value * 256 + byte.toNat) value <
        limit * 256 ^ rest.length := by
    intro rest
    induction rest with
    | nil => simp
    | cons byte rest ih =>
        intro value limit below
        have byteBound := byte.toNat_lt
        have next := ih (value * 256 + byte.toNat) (limit * 256) (by omega)
        rwa [Nat.mul_assoc, ← pow_succ'] at next
  have total := bound data 0 1 Nat.one_pos
  calc bigEndian data < 1 * 256 ^ data.length := total
    _ ≤ 256 ^ 8 := by
        rw [Nat.one_mul]
        exact Nat.pow_le_pow_right (by decide) width
    _ = 2 ^ 64 := by decide

/-- `Version`: the header of a list. -/
def version (data : Bytes) : Except ParseError Nat := do
  if data.length < 20 ∨ maxKRLBytes < data.length ∨ data.take 8 ≠ krlMagic then
    throw .invalidHeader
  if bigEndian ((data.drop 8).take 4) ≠ 1 then
    throw .unsupportedFormat
  return bigEndian ((data.drop 12).take 8)

/-- `wire.byte`. -/
def wireByte (input : Bytes) : Except ParseError (UInt8 × Bytes) :=
  match input with
  | [] => throw .truncated
  | byte :: rest => return (byte, rest)

/-- `wire.uint64`. -/
def wireUint64 (input : Bytes) : Except ParseError (Nat × Bytes) :=
  if input.length < 8 then throw .truncated
  else return (bigEndian (input.take 8), input.drop 8)

/-- `wire.string`. -/
def wireString (input : Bytes) : Except ParseError (Bytes × Bytes) :=
  if input.length < 4 then throw .truncated
  else
    let length := bigEndian (input.take 4)
    if input.length < 4 + length then throw .truncated
    else return ((input.drop 4).take length, input.drop (4 + length))

/-- The certificates revoked under one authority. -/
structure CertRevocations where
  serials : List Span
  keyIDs : Finset Bytes
deriving DecidableEq

/-- A scope without revocations. -/
def CertRevocations.empty : CertRevocations where
  serials := []
  keyIDs := ∅

/-- `Revocations`.  The scope of the empty key is that of any authority. -/
structure Revocations where
  version : Nat
  certs : Go.Map CertRevocations
  keys : Finset Bytes
  sha1 : Finset Bytes
  sha256 : Finset Bytes
  entries : Nat
deriving DecidableEq

namespace Revocations

/-- What is revoked under an authority, by the scope of its key alone. -/
def scope (revocations : Revocations) (ca : Bytes) : CertRevocations :=
  (revocations.certs.lookup ca).getD .empty

/-- Give an authority a scope. -/
def setScope (revocations : Revocations) (ca : Bytes) (scope : CertRevocations) : Revocations :=
  { revocations with certs := MapOf.set revocations.certs ca scope }

/-- `certScope`: from here on the authority has a scope. -/
def certScope (revocations : Revocations) (ca : Bytes) : Revocations :=
  revocations.setScope ca (revocations.scope ca)

end Revocations

def count (entries added : Nat) : Except ParseError Nat :=
  if maxRevocationEntries < entries + added then throw .tooManyEntries
  else return entries + added

/-- The list as read so far, with the serial ranges that are not yet merged. -/
structure Parsing where
  revocations : Revocations
  pending : Go.Map (List Span)

namespace Parsing

/-- Count ranges of an authority and keep them for merging. -/
def append (parsing : Parsing) (ca : Bytes) (ranges : List Span) :
    Except ParseError Parsing := do
  let entries ← count parsing.revocations.entries ranges.length
  return {
    revocations := { parsing.revocations with entries := entries }
    pending := MapOf.set parsing.pending ca ((parsing.pending.lookup ca).getD [] ++ ranges)
  }

end Parsing

def listedSerial (ca : Bytes) (parsing : Parsing) (sub : Bytes) :
    Except ParseError (Bytes × Parsing) := do
  let serial := bigEndian (sub.take 8)
  if serial = 0 then throw .serialZero
  let next ← parsing.append ca [⟨serial, serial⟩]
  return (sub.drop 8, next)

def parseSerialList (ca : Bytes) (parsing : Parsing) (sub : Bytes) :
    Except ParseError Parsing := do
  if sub.length % 8 ≠ 0 then throw .malformedSerialList
  Scanner.consume (listedSerial ca) 0 parsing sub

def parseSerialRange (ca : Bytes) (parsing : Parsing) (sub : Bytes) :
    Except ParseError Parsing := do
  if sub.length ≠ 16 then throw .malformedSerialRange
  let lo := bigEndian (sub.take 8)
  let hi := bigEndian (sub.drop 8)
  if lo = 0 ∨ hi < lo then throw .invalidSerialRange
  parsing.append ca [⟨lo, hi⟩]

/-- One bit of a serial bitmap; the last range so far stands first, and is open
when the bit before was set. -/
def bitmapBit (base : Nat) (mpint : Bytes) (ranges : List Span × Bool) (bit : Nat) :
    Except ParseError (List Span × Bool) :=
  if (mpint.getD (mpint.length - 1 - bit / 8) 0).toNat.testBit (bit % 8) then do
    if 0 < bit ∧ (base + bit) % 2 ^ 64 < base then throw .bitmapWraps
    let serial := (base + bit) % 2 ^ 64
    if serial = 0 then throw .serialZero
    match ranges with
    | (last :: before, true) => return ({ last with hi := serial } :: before, true)
    | (out, _) => return (⟨serial, serial⟩ :: out, true)
  else return (ranges.1, false)

def bitmapRanges (sub : Bytes) : Except ParseError (List Span) := do
  let (base, rest) ← wireUint64 sub
  let (mpint, rest) ← wireString rest
  if rest ≠ [] then throw .malformedBitmap
  if 0x80 ≤ mpint.headD 0 then throw .negativeBitmap
  let mpint := mpint.dropWhile (· == 0)
  if maxBitmapBytes < mpint.length then throw .bitmapTooLarge
  let (ranges, _) ← (List.range (mpint.length * 8)).foldlM (bitmapBit base mpint) ([], false)
  return ranges.reverse

def listedKeyID (ca : Bytes) (parsing : Parsing) (ids : Bytes) :
    Except ParseError (Bytes × Parsing) := do
  let (id, rest) ← wireString ids
  if 0 ∈ id then throw .keyIDHoldsNul
  let entries ← count parsing.revocations.entries 1
  let scope := parsing.revocations.scope ca
  let revocations := parsing.revocations.setScope ca { scope with keyIDs := insert id scope.keyIDs }
  return (rest, { parsing with revocations := { revocations with entries := entries } })

/-- What a part of a certificate section of the given kind adds. -/
def parseCertificateKind (ca : Bytes) (parsing : Parsing) (kind : UInt8) (sub : Bytes) :
    Except ParseError Parsing :=
  if kind = 0x20 then parseSerialList ca parsing sub
  else if kind = 0x21 then parseSerialRange ca parsing sub
  else if kind = 0x22 then do
    let ranges ← bitmapRanges sub
    parsing.append ca ranges
  else if kind = 0x23 then Scanner.consume (listedKeyID ca) 0 parsing sub
  else throw (.unsupportedCertificateSection kind)

def parseCertificatePart (ca : Bytes) (parsing : Parsing) (input : Bytes) :
    Except ParseError (Bytes × Parsing) := do
  let (kind, rest) ← wireByte input
  let (sub, rest) ← wireString rest
  let next ← parseCertificateKind ca parsing kind sub
  return (rest, next)

def parseCertificates (parsing : Parsing) (body : Bytes) : Except ParseError Parsing := do
  let (ca, rest) ← wireString body
  let (_, rest) ← wireString rest
  Scanner.consume (parseCertificatePart ca) 0
    { parsing with revocations := parsing.revocations.certScope ca } rest

/-- One key or fingerprint; a `size` of zero allows every length. -/
def listedBlob (size : Nat) (read : Nat × Finset Bytes) (input : Bytes) :
    Except ParseError (Bytes × Nat × Finset Bytes) := do
  let (blob, rest) ← wireString input
  if blob.length = 0 ∨ (size ≠ 0 ∧ blob.length ≠ size) then throw .malformedEntry
  let entries ← count read.1 1
  return (rest, entries, insert blob read.2)

def parseBlobs (size : Nat) (entries : Nat) (into : Finset Bytes) (body : Bytes) :
    Except ParseError (Nat × Finset Bytes) :=
  Scanner.consume (listedBlob size) 0 (entries, into) body

/-- What a section of the given kind adds. -/
def parseSectionKind (parsing : Parsing) (kind : UInt8) (body : Bytes) :
    Except ParseError Parsing :=
  let revocations := parsing.revocations
  if kind = 1 then parseCertificates parsing body
  else if kind = 2 then do
    let (entries, keys) ← parseBlobs 0 revocations.entries revocations.keys body
    return { parsing with revocations := { revocations with entries := entries, keys := keys } }
  else if kind = 3 then do
    let (entries, sha1) ← parseBlobs 20 revocations.entries revocations.sha1 body
    return { parsing with revocations := { revocations with entries := entries, sha1 := sha1 } }
  else if kind = 5 then do
    let (entries, sha256) ← parseBlobs 32 revocations.entries revocations.sha256 body
    return { parsing with revocations := { revocations with entries := entries, sha256 := sha256 } }
  else if kind = 4 then throw .signed
  else throw (.unsupportedSection kind)

/-- One section of the list. -/
def parseSection (parsing : Parsing) (input : Bytes) : Except ParseError (Bytes × Parsing) := do
  let (kind, rest) ← wireByte input
  let (body, rest) ← wireString rest
  let next ← parseSectionKind parsing kind body
  return (rest, next)

/-- The pending ranges of one authority become its serials. -/
def mergePending (revocations : Revocations) (binding : Bytes × List Span) : Revocations :=
  revocations.setScope binding.1
    { revocations.scope binding.1 with serials := mergeSerialRanges binding.2 }

def parseRevocations (data : Bytes) : Except ParseError Revocations := do
  let version ← version data
  let (_, rest) ← wireUint64 (data.drop 20)
  let (_, rest) ← wireUint64 rest
  let (_, rest) ← wireString rest
  let (_, rest) ← wireString rest
  let start : Revocations :=
    { version := version, certs := [], keys := ∅, sha1 := ∅, sha256 := ∅, entries := 0 }
  let parsing ← Scanner.consume parseSection 0 { revocations := start, pending := [] } rest
  return parsing.pending.foldl mergePending parsing.revocations

/-- One scope for each authority, each with merged serial ranges. -/
structure WellFormed (revocations : Revocations) : Prop where
  nodup : (revocations.certs.map Prod.fst).Nodup
  merged : ∀ binding ∈ revocations.certs, Merged binding.2.serials

/-- Every range that waits for merging is acceptable. -/
structure Parsing.Sound (parsing : Parsing) : Prop where
  wellFormed : WellFormed parsing.revocations
  accepted : ∀ binding ∈ parsing.pending, ∀ range ∈ binding.2, Accepted range

theorem Merged.nil : Merged [] where
  toAscending := Ascending.nil
  positive := by simp
  word := by simp

variable {revocations : Revocations}

theorem WellFormed.scope (wellFormed : WellFormed revocations) (ca : Bytes) :
    Merged (revocations.scope ca).serials := by
  unfold Revocations.scope
  cases found : revocations.certs.lookup ca with
  | none => exact Merged.nil
  | some scope =>
      exact wellFormed.merged (ca, scope)
        ((MapOf.lookup_eq_some_iff wellFormed.nodup).mp found)

theorem WellFormed.setScope (wellFormed : WellFormed revocations) (ca : Bytes)
    {scope : CertRevocations} (merged : Merged scope.serials) :
    WellFormed (revocations.setScope ca scope) where
  nodup := MapOf.nodup_set ca scope wellFormed.nodup
  merged binding member := by
    rcases MapOf.mem_set member with assigned | kept
    · rw [assigned]
      exact merged
    · exact wellFormed.merged binding kept

variable {parsing next : Parsing} {ca : Bytes}

theorem Parsing.Sound.append {ranges : List Span} (sound : parsing.Sound)
    (accepted : ∀ range ∈ ranges, Accepted range) (appended : parsing.append ca ranges = .ok next) :
    next.Sound := by
  obtain ⟨entries, -, result⟩ := bind_eq_ok.mp appended
  rw [← Except.ok.inj result]
  refine ⟨⟨sound.wellFormed.nodup, sound.wellFormed.merged⟩, ?_⟩
  intro binding member
  rcases MapOf.mem_set member with assigned | kept
  · rw [assigned]
    intro range rangeMember
    rcases List.mem_append.mp rangeMember with earlier | added
    · cases found : parsing.pending.lookup ca with
      | none =>
          rw [found] at earlier
          exact absurd earlier List.not_mem_nil
      | some waiting =>
          rw [found] at earlier
          obtain ⟨before, after, split, -⟩ := List.lookup_eq_some_iff.mp found
          exact sound.accepted (ca, waiting) (by rw [split]; simp) range earlier
    · exact accepted range added
  · exact sound.accepted binding kept

theorem Parsing.Sound.listedSerial {sub rest : Bytes} (sound : parsing.Sound)
    (read : listedSerial ca parsing sub = .ok (rest, next)) :
    next.Sound := by
  obtain ⟨nonzero, body⟩ := guard_eq_ok.mp read
  obtain ⟨after, appended, result⟩ := bind_eq_ok.mp body
  obtain ⟨-, rfl⟩ := Prod.mk.inj (Except.ok.inj result)
  refine sound.append ?_ appended
  intro range member
  rw [List.mem_singleton.mp member]
  exact ⟨Nat.pos_of_ne_zero nonzero, le_rfl, bigEndian_lt (List.length_take_le 8 sub)⟩

theorem Parsing.Sound.parseSerialRange {sub : Bytes} (sound : parsing.Sound)
    (read : parseSerialRange ca parsing sub = .ok next) :
    next.Sound := by
  obtain ⟨width, body⟩ := guard_eq_ok.mp read
  obtain ⟨valid, appended⟩ := guard_eq_ok.mp body
  rw [not_ne_iff] at width
  rw [not_or, not_lt] at valid
  refine sound.append ?_ appended
  intro range member
  rw [List.mem_singleton.mp member]
  refine ⟨Nat.pos_of_ne_zero valid.1, valid.2, bigEndian_lt ?_⟩
  rw [List.length_drop]
  omega

/-- The ranges of a bitmap before the given bit. -/
def BitsBefore (base bit : Nat) (ranges : List Span) : Prop :=
  ∀ range ∈ ranges, Accepted range ∧ range.hi < base + bit

theorem BitsBefore.step {base bit : Nat} {mpint : Bytes} {ranges next : List Span × Bool}
    (before : BitsBefore base bit ranges.1) (word : base < 2 ^ 64) (small : bit < 2 ^ 64)
    (read : bitmapBit base mpint ranges bit = .ok next) :
    BitsBefore base (bit + 1) next.1 := by
  have later : BitsBefore base (bit + 1) ranges.1 :=
    fun range member => ⟨(before range member).1, (before range member).2.trans (by omega)⟩
  unfold bitmapBit at read
  split at read
  · obtain ⟨straight, body⟩ := guard_eq_ok.mp read
    obtain ⟨nonzero, rest⟩ := guard_eq_ok.mp body
    have serial : (base + bit) % 2 ^ 64 = base + bit := by omega
    dsimp only at rest
    rw [serial] at nonzero rest
    have single : Accepted ⟨base + bit, base + bit⟩ :=
      ⟨Nat.pos_of_ne_zero nonzero, le_rfl, by dsimp only; omega⟩
    split at rest
    · next last earlier =>
        rw [← Except.ok.inj rest]
        obtain ⟨⟨accepted, below⟩, -⟩ := List.forall_mem_cons.mp before
        obtain ⟨-, others⟩ := List.forall_mem_cons.mp later
        have reached := accepted.nonempty
        refine List.forall_mem_cons.mpr ⟨⟨⟨accepted.positive, ?_, single.word⟩, ?_⟩, others⟩
        · dsimp only
          omega
        · dsimp only
          omega
    · rw [← Except.ok.inj rest]
      refine List.forall_mem_cons.mpr ⟨⟨single, ?_⟩, later⟩
      dsimp only
      omega
  · rw [← Except.ok.inj read]
    exact later

theorem accepted_of_bits {base bit count : Nat} {mpint : Bytes} {ranges result : List Span × Bool}
    (before : BitsBefore base bit ranges.1) (word : base < 2 ^ 64) (small : bit + count ≤ 2 ^ 64)
    (read : (List.range' bit count).foldlM (bitmapBit base mpint) ranges = .ok result) :
    ∀ range ∈ result.1, Accepted range := by
  induction count generalizing bit ranges with
  | zero =>
      rw [← Except.ok.inj read]
      exact fun range member => (before range member).1
  | succ count ih =>
      rw [List.range'_succ, List.foldlM_cons] at read
      obtain ⟨next, first, others⟩ := bind_eq_ok.mp read
      exact ih (before.step word (by omega) first) (by omega) others

theorem accepted_of_bitmapRanges {sub : Bytes} {ranges : List Span}
    (read : bitmapRanges sub = .ok ranges) :
    ∀ range ∈ ranges, Accepted range := by
  obtain ⟨⟨base, rest⟩, baseRead, read⟩ := bind_eq_ok.mp read
  obtain ⟨⟨mpint, rest⟩, -, read⟩ := bind_eq_ok.mp read
  obtain ⟨-, read⟩ := guard_eq_ok.mp read
  obtain ⟨-, read⟩ := guard_eq_ok.mp read
  obtain ⟨short, read⟩ := guard_eq_ok.mp read
  obtain ⟨⟨reversed, last⟩, bits, result⟩ := bind_eq_ok.mp read
  obtain ⟨-, word⟩ := Result.lastGuard_eq_ok.mp baseRead
  have baseWord : base < 2 ^ 64 := by
    rw [← (Prod.mk.inj word).1]
    exact bigEndian_lt (List.length_take_le 8 sub)
  rw [List.range_eq_range'] at bits
  have start : BitsBefore base 0 [] := by simp [BitsBefore]
  have all := accepted_of_bits start baseWord (by unfold maxBitmapBytes at short; omega) bits
  rw [← Except.ok.inj result]
  exact fun range member => all range (List.mem_reverse.mp member)

theorem Parsing.Sound.listedKeyID {ids rest : Bytes} (sound : parsing.Sound)
    (read : listedKeyID ca parsing ids = .ok (rest, next)) :
    next.Sound := by
  obtain ⟨⟨id, left⟩, -, read⟩ := bind_eq_ok.mp read
  obtain ⟨-, read⟩ := guard_eq_ok.mp read
  obtain ⟨entries, -, result⟩ := bind_eq_ok.mp read
  obtain ⟨-, rfl⟩ := Prod.mk.inj (Except.ok.inj result)
  obtain ⟨nodup, merged⟩ := @WellFormed.setScope _ sound.wellFormed ca
    { parsing.revocations.scope ca with
      keyIDs := insert id (parsing.revocations.scope ca).keyIDs }
    (sound.wellFormed.scope ca)
  exact ⟨⟨nodup, merged⟩, sound.accepted⟩

theorem Parsing.Sound.parseCertificateKind {sub : Bytes} {kind : UInt8} (sound : parsing.Sound)
    (read : parseCertificateKind ca parsing kind sub = .ok next) :
    next.Sound := by
  unfold Sshkrl.parseCertificateKind at read
  split_ifs at read
  · obtain ⟨-, serials⟩ := guard_eq_ok.mp read
    exact Scanner.consume_keeps Parsing.Sound (fun item before => before.listedSerial item)
      serials sound
  · exact sound.parseSerialRange read
  · obtain ⟨ranges, bitmap, appended⟩ := bind_eq_ok.mp read
    exact sound.append (accepted_of_bitmapRanges bitmap) appended
  · exact Scanner.consume_keeps Parsing.Sound
      (fun item before => before.listedKeyID item) read sound

theorem Parsing.Sound.parseCertificatePart {input rest : Bytes} (sound : parsing.Sound)
    (read : parseCertificatePart ca parsing input = .ok (rest, next)) :
    next.Sound := by
  obtain ⟨⟨kind, left⟩, -, read⟩ := bind_eq_ok.mp read
  obtain ⟨⟨sub, left⟩, -, read⟩ := bind_eq_ok.mp read
  obtain ⟨after, part, result⟩ := bind_eq_ok.mp read
  obtain ⟨-, rfl⟩ := Prod.mk.inj (Except.ok.inj result)
  exact sound.parseCertificateKind part

theorem Parsing.Sound.parseCertificates {body : Bytes} (sound : parsing.Sound)
    (read : parseCertificates parsing body = .ok next) :
    next.Sound := by
  obtain ⟨⟨ca, left⟩, -, read⟩ := bind_eq_ok.mp read
  obtain ⟨⟨reserved, left⟩, -, read⟩ := bind_eq_ok.mp read
  have start : Parsing.Sound { parsing with revocations := parsing.revocations.certScope ca } :=
    ⟨sound.wellFormed.setScope ca (sound.wellFormed.scope ca), sound.accepted⟩
  exact Scanner.consume_keeps Parsing.Sound (fun item before => before.parseCertificatePart item)
    read start

theorem Parsing.Sound.parseSectionKind {kind : UInt8} {body : Bytes} (sound : parsing.Sound)
    (read : parseSectionKind parsing kind body = .ok next) :
    next.Sound := by
  -- Keys and fingerprints leave the scopes of the authorities as they are.
  have same : ∀ {after : Parsing}, after.revocations.certs = parsing.revocations.certs →
      after.pending = parsing.pending → after.Sound := by
    intro after certs pending
    refine ⟨⟨?_, ?_⟩, ?_⟩
    · rw [certs]
      exact sound.wellFormed.nodup
    · rw [certs]
      exact sound.wellFormed.merged
    · rw [pending]
      exact sound.accepted
  unfold Sshkrl.parseSectionKind at read
  dsimp only at read
  split_ifs at read
  · exact sound.parseCertificates read
  all_goals
    obtain ⟨⟨entries, blobs⟩, -, result⟩ := bind_eq_ok.mp read
    rw [← Except.ok.inj result]
    exact same rfl rfl

theorem Parsing.Sound.parseSection {input rest : Bytes} (sound : parsing.Sound)
    (read : parseSection parsing input = .ok (rest, next)) :
    next.Sound := by
  obtain ⟨⟨kind, left⟩, -, read⟩ := bind_eq_ok.mp read
  obtain ⟨⟨body, left⟩, -, read⟩ := bind_eq_ok.mp read
  obtain ⟨after, part, result⟩ := bind_eq_ok.mp read
  obtain ⟨-, rfl⟩ := Prod.mk.inj (Except.ok.inj result)
  exact sound.parseSectionKind part

theorem WellFormed.mergePending {pending : Go.Map (List Span)} (wellFormed : WellFormed revocations)
    (accepted : ∀ binding ∈ pending, ∀ range ∈ binding.2, Accepted range) :
    WellFormed (pending.foldl mergePending revocations) := by
  induction pending generalizing revocations with
  | nil => exact wellFormed
  | cons binding rest ih =>
      obtain ⟨first, others⟩ := List.forall_mem_cons.mp accepted
      exact ih
        (wellFormed.setScope binding.1 (mergeSerialRanges_spec first).1) others

theorem wellFormed_of_parse {data : Bytes} (parsed : parseRevocations data = .ok revocations) :
    WellFormed revocations := by
  obtain ⟨number, -, read⟩ := bind_eq_ok.mp parsed
  obtain ⟨⟨date, left⟩, -, read⟩ := bind_eq_ok.mp read
  obtain ⟨⟨flags, left⟩, -, read⟩ := bind_eq_ok.mp read
  obtain ⟨⟨reserved, left⟩, -, read⟩ := bind_eq_ok.mp read
  obtain ⟨⟨comment, left⟩, -, read⟩ := bind_eq_ok.mp read
  obtain ⟨parsing, sections, result⟩ := bind_eq_ok.mp read
  rw [← Except.ok.inj result]
  have sound := Scanner.consume_keeps Parsing.Sound (fun item before => before.parseSection item)
    sections ⟨⟨List.nodup_nil, by simp⟩, by simp⟩
  exact sound.wellFormed.mergePending sound.accepted

end Trstctl.Sshkrl
