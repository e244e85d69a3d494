import Mathlib.Data.List.GetD
import Trstctl.Agent.Sshkrl.Revocations

/-!
# A list revokes what its bytes say

The serials that the bytes of a revocation list state for an authority: the
numbers of its serial lists, those between the bounds of its serial ranges, and
those of the set bits of its bitmaps, in every section for that authority.  A
list that is read has exactly these serials, as ranges that neither meet nor
touch.
-/

namespace Trstctl.Sshkrl

open Go (Bytes bytes)
open Trstctl.Result (guard_eq_ok bind_eq_ok)
open Trstctl.Span (union mem_union)

/-- A kind and a text, as they stand in a list and in a section for certificates. -/
abbrev Part := UInt8 × Bytes

def readPart (parts : List Part) (input : Bytes) : Except ParseError (Bytes × List Part) := do
  let (kind, rest) ← wireByte input
  let (text, rest) ← wireString rest
  return (rest, parts ++ [(kind, text)])

def partsOf (input : Bytes) : Except ParseError (List Part) :=
  Scanner.consume readPart 0 [] input

/-- The sections of a list, behind its header. -/
def sectionsOf (data : Bytes) : Except ParseError (List Part) := do
  let (_, rest) ← wireUint64 (data.drop 20)
  let (_, rest) ← wireUint64 rest
  let (_, rest) ← wireString rest
  let (_, rest) ← wireString rest
  partsOf rest

/-- The authority of a section for certificates and the parts of the section. -/
def certificatesOf (body : Bytes) : Except ParseError (Bytes × List Part) := do
  let (ca, rest) ← wireString body
  let (_, rest) ← wireString rest
  let parts ← partsOf rest
  return (ca, parts)

/-- The numbers of eight bytes each. -/
def listedSerials (sub : Bytes) : Set Nat :=
  {serial | ∃ index, 8 * index < sub.length ∧
    serial = bigEndian ((sub.drop (8 * index)).take 8)}

/-- The numbers between two bounds of eight bytes each. -/
def rangeSerials (sub : Bytes) : Set Nat :=
  {serial | bigEndian (sub.take 8) ≤ serial ∧ serial ≤ bigEndian (sub.drop 8)}

/-- The numbers of the set bits of a magnitude, counted from a base of eight bytes. -/
def bitmapSerials (sub : Bytes) : Set Nat :=
  {serial | ∃ magnitude rest bit, wireString (sub.drop 8) = .ok (magnitude, rest) ∧
    (bigEndian magnitude).testBit bit = true ∧ serial = bigEndian (sub.take 8) + bit}

/-- The serials that a part of a section for certificates states. -/
def partSerials (part : Part) : Set Nat :=
  if part.1 = 0x20 then listedSerials part.2
  else if part.1 = 0x21 then rangeSerials part.2
  else if part.1 = 0x22 then bitmapSerials part.2
  else ∅

/-- The serials that a section states for an authority. -/
def sectionSerials (ca : Bytes) (part : Part) : Set Nat :=
  {serial | part.1 = 1 ∧ ∃ parts, certificatesOf part.2 = .ok (ca, parts) ∧
    ∃ inner ∈ parts, serial ∈ partSerials inner}

/-- The serials that a list states for an authority. -/
def statedSerials (data ca : Bytes) : Set Nat :=
  {serial | ∃ sections, sectionsOf data = .ok sections ∧
    ∃ part ∈ sections, serial ∈ sectionSerials ca part}

theorem bigEndian_concat (front : Bytes) (byte : UInt8) :
    bigEndian (front ++ [byte]) = 2 ^ 8 * bigEndian front + byte.toNat := by
  rw [bigEndian, List.foldl_append, ← bigEndian, List.foldl_cons, List.foldl_nil, Nat.mul_comm]
  rfl

theorem testBit_bigEndian (mpint : Bytes) (bit : Nat) (inside : bit < mpint.length * 8) :
    (bigEndian mpint).testBit bit =
      (mpint.getD (mpint.length - 1 - bit / 8) 0).toNat.testBit (bit % 8) := by
  induction mpint using List.reverseRecOn generalizing bit with
  | nil => simp at inside
  | append_singleton front byte ih =>
      rw [List.length_append, List.length_singleton] at inside ⊢
      rw [bigEndian_concat, Nat.testBit_two_pow_mul_add _ byte.toNat_lt]
      by_cases low : bit < 8
      · rw [if_pos low, show front.length + 1 - 1 - bit / 8 = front.length by omega,
          show bit % 8 = bit by omega, List.getD_append_right _ _ _ _ (Nat.le_refl _),
          Nat.sub_self]
        rfl
      · rw [if_neg low, ih (bit - 8) (by omega),
          List.getD_append _ _ _ _ (by omega),
          show front.length - 1 - (bit - 8) / 8 = front.length + 1 - 1 - bit / 8 by omega,
          show (bit - 8) % 8 = bit % 8 by omega]

theorem bigEndian_lt_pow (mpint : Bytes) : bigEndian mpint < 2 ^ (mpint.length * 8) := by
  induction mpint using List.reverseRecOn with
  | nil => decide
  | append_singleton front byte ih =>
      have small := byte.toNat_lt
      rw [bigEndian_concat, List.length_append, List.length_singleton, Nat.add_mul, Nat.pow_add]
      have step : bigEndian front + 1 ≤ 2 ^ (front.length * 8) := ih
      calc 2 ^ 8 * bigEndian front + byte.toNat < 2 ^ 8 * (bigEndian front + 1) := by omega
        _ ≤ 2 ^ 8 * 2 ^ (front.length * 8) := Nat.mul_le_mul_left _ step
        _ = 2 ^ (front.length * 8) * 2 ^ (1 * 8) := Nat.mul_comm _ _

theorem bigEndian_dropWhile (mpint : Bytes) :
    bigEndian (mpint.dropWhile (· == 0)) = bigEndian mpint := by
  induction mpint with
  | nil => rfl
  | cons byte rest ih =>
      by_cases zero : byte = 0
      · subst zero
        rw [List.dropWhile_cons_of_pos rfl, ih]
        rfl
      · rw [List.dropWhile_cons_of_neg (by simpa using zero)]

/-- The ranges of a bitmap before the given bit: they have the serials of the bits
before it, and an open one ends with the bit just before. -/
structure Covers (base : Nat) (mpint : Bytes) (bit : Nat) (ranges : List Span × Bool) : Prop where
  before : BitsBefore base bit ranges.1
  serials : ∀ serial, serial ∈ union ranges.1 ↔
    ∃ earlier < bit, (bigEndian mpint).testBit earlier = true ∧ serial = base + earlier
  reaches : ranges.2 = true → ∃ last others, ranges.1 = last :: others ∧ last.hi + 1 = base + bit

theorem Covers.step {base bit : Nat} {mpint : Bytes} {ranges next : List Span × Bool}
    (covers : Covers base mpint bit ranges) (word : base < 2 ^ 64) (small : bit < 2 ^ 64)
    (inside : bit < mpint.length * 8) (read : bitmapBit base mpint ranges bit = .ok next) :
    Covers base mpint (bit + 1) next := by
  have later := covers.before.step word small read
  have split : ∀ serial, (∃ earlier < bit + 1, (bigEndian mpint).testBit earlier = true ∧
      serial = base + earlier) ↔ serial ∈ union ranges.1 ∨
        ((bigEndian mpint).testBit bit = true ∧ serial = base + bit) := by
    intro serial
    rw [covers.serials]
    constructor
    · rintro ⟨earlier, before, set, rfl⟩
      rcases Nat.lt_succ_iff_lt_or_eq.mp before with below | rfl
      · exact .inl ⟨earlier, below, set, rfl⟩
      · exact .inr ⟨set, rfl⟩
    · rintro (⟨earlier, below, set, rfl⟩ | ⟨set, rfl⟩)
      · exact ⟨earlier, by omega, set, rfl⟩
      · exact ⟨bit, by omega, set, rfl⟩
  unfold bitmapBit at read
  rw [← testBit_bigEndian mpint bit inside] at read
  split at read
  · rename_i set
    obtain ⟨straight, body⟩ := guard_eq_ok.mp read
    obtain ⟨nonzero, rest⟩ := guard_eq_ok.mp body
    have serial_eq : (base + bit) % 2 ^ 64 = base + bit := by omega
    dsimp only at rest
    rw [serial_eq] at rest
    split at rest
    · next last others =>
        obtain rfl := Except.ok.inj rest
        obtain ⟨first, behind, listed, ends⟩ := covers.reaches rfl
        obtain ⟨rfl, rfl⟩ := List.cons.inj listed
        have nonempty := (covers.before last List.mem_cons_self).1.nonempty
        refine ⟨later, fun serial => ?_, fun _ => ⟨_, _, rfl, by dsimp only; omega⟩⟩
        rw [split, Span.union_cons, Span.union_cons, Finset.mem_union, Finset.mem_union,
          Span.mem_numbers, Span.mem_numbers]
        constructor
        · rintro (⟨low, high⟩ | member)
          · dsimp only at high
            by_cases latest : serial = base + bit
            · exact .inr ⟨set, latest⟩
            · exact .inl (.inl ⟨low, by omega⟩)
          · exact .inl (.inr member)
        · rintro ((⟨low, high⟩ | member) | ⟨-, rfl⟩)
          · exact .inl ⟨low, by dsimp only; omega⟩
          · exact .inr member
          · refine .inl ⟨?_, Nat.le_refl _⟩
            dsimp only
            omega
    · obtain rfl := Except.ok.inj rest
      refine ⟨later, fun serial => ?_, fun _ => ⟨_, _, rfl, by dsimp only; omega⟩⟩
      rw [split, Span.union_cons, Finset.mem_union, Span.mem_numbers]
      constructor
      · rintro (⟨low, high⟩ | member)
        · exact .inr ⟨set, Nat.le_antisymm high low⟩
        · exact .inl member
      · rintro (member | ⟨-, rfl⟩)
        · exact .inr member
        · exact .inl ⟨Nat.le_refl _, Nat.le_refl _⟩
  · rename_i unset
    obtain rfl := Except.ok.inj read
    refine ⟨later, fun serial => ?_, nofun⟩
    rw [split]
    exact ⟨.inl, fun either => either.resolve_right fun latest => unset latest.1⟩

theorem Covers.bits {base bit count : Nat} {mpint : Bytes} {ranges result : List Span × Bool}
    (covers : Covers base mpint bit ranges) (word : base < 2 ^ 64) (small : bit + count ≤ 2 ^ 64)
    (inside : bit + count ≤ mpint.length * 8)
    (read : (List.range' bit count).foldlM (bitmapBit base mpint) ranges = .ok result) :
    Covers base mpint (bit + count) result := by
  induction count generalizing bit ranges with
  | zero =>
      obtain rfl := Except.ok.inj read
      exact covers
  | succ count ih =>
      rw [List.range'_succ, List.foldlM_cons] at read
      obtain ⟨next, first, others⟩ := bind_eq_ok.mp read
      have following := ih (covers.step word (by omega) (by omega) first) (by omega)
        (by omega) others
      rwa [Nat.add_right_comm] at following

/-- The ranges of a bitmap have the serials that it states. -/
theorem union_of_bitmapRanges {sub : Bytes} {ranges : List Span}
    (read : bitmapRanges sub = .ok ranges) (serial : Nat) :
    serial ∈ union ranges ↔ serial ∈ bitmapSerials sub := by
  obtain ⟨⟨base, rest⟩, baseRead, read⟩ := bind_eq_ok.mp read
  obtain ⟨⟨mpint, left⟩, magnitudeRead, read⟩ := bind_eq_ok.mp read
  obtain ⟨-, read⟩ := guard_eq_ok.mp read
  obtain ⟨-, read⟩ := guard_eq_ok.mp read
  obtain ⟨short, read⟩ := guard_eq_ok.mp read
  obtain ⟨⟨reversed, last⟩, bits, result⟩ := bind_eq_ok.mp read
  obtain ⟨-, header⟩ := Result.lastGuard_eq_ok.mp baseRead
  obtain ⟨rfl, rfl⟩ := Prod.mk.inj header
  have word : bigEndian (sub.take 8) < 2 ^ 64 := bigEndian_lt (List.length_take_le 8 sub)
  have start : Covers (bigEndian (sub.take 8)) (mpint.dropWhile (· == 0)) 0 ([], false) :=
    ⟨by simp [BitsBefore], by simp, nofun⟩
  rw [List.range_eq_range'] at bits
  have covers := start.bits word (by unfold maxBitmapBytes at short; omega) (by omega) bits
  rw [← Except.ok.inj result, Span.union_perm (List.reverse_perm _), covers.serials,
    bigEndian_dropWhile]
  constructor
  · rintro ⟨bit, -, set, rfl⟩
    exact ⟨mpint, left, bit, magnitudeRead, set, rfl⟩
  · rintro ⟨magnitude, remaining, bit, stated, set, rfl⟩
    rw [magnitudeRead] at stated
    obtain ⟨rfl, -⟩ := Prod.mk.inj (Except.ok.inj stated)
    refine ⟨bit, ?_, set, rfl⟩
    by_contra outside
    have bound := bigEndian_lt_pow (mpint.dropWhile (· == 0))
    rw [bigEndian_dropWhile] at bound
    have clear := Nat.testBit_lt_two_pow (bound.trans_le
      (Nat.pow_le_pow_right (by decide) (by omega : _ ≤ bit)))
    rw [set] at clear
    cases clear

/-- The serials of an authority that wait for merging. -/
def Parsing.waiting (parsing : Parsing) (ca : Bytes) : Finset Nat :=
  union ((parsing.pending.lookup ca).getD [])

/-- Reading added the given serials to those that wait, and merged none. -/
structure Accrues (added : Bytes → Set Nat) (parsing next : Parsing) : Prop where
  serials : ∀ ca, (next.revocations.scope ca).serials = (parsing.revocations.scope ca).serials
  distinct : (parsing.pending.map Prod.fst).Nodup → (next.pending.map Prod.fst).Nodup
  waits : ∀ ca serial, serial ∈ next.waiting ca ↔ serial ∈ parsing.waiting ca ∨ serial ∈ added ca

/-- Serials of one authority. -/
def under (ca : Bytes) (serials : Set Nat) (other : Bytes) : Set Nat :=
  {serial | other = ca ∧ serial ∈ serials}

theorem Accrues.of_same {parsing next : Parsing} {added : Bytes → Set Nat}
    (serials : ∀ ca, (next.revocations.scope ca).serials = (parsing.revocations.scope ca).serials)
    (pending : next.pending = parsing.pending) (none : ∀ ca serial, serial ∉ added ca) :
    Accrues added parsing next where
  serials := serials
  distinct := fun nodup => pending ▸ nodup
  waits ca serial := by
    rw [Parsing.waiting, pending]
    exact ⟨.inl, fun either => either.resolve_right (none ca serial)⟩

theorem Accrues.trans {first second both : Bytes → Set Nat} {parsing middle next : Parsing}
    (before : Accrues first parsing middle) (after : Accrues second middle next)
    (together : ∀ ca serial, serial ∈ both ca ↔ serial ∈ first ca ∨ serial ∈ second ca) :
    Accrues both parsing next where
  serials ca := (after.serials ca).trans (before.serials ca)
  distinct := after.distinct ∘ before.distinct
  waits ca serial := by
    rw [after.waits, before.waits, together, or_assoc]

theorem accrues_append {parsing next : Parsing} {ca : Bytes} {ranges : List Span} {added : Set Nat}
    (appended : parsing.append ca ranges = .ok next)
    (stated : ∀ serial, serial ∈ union ranges ↔ serial ∈ added) :
    Accrues (under ca added) parsing next := by
  obtain ⟨entries, -, result⟩ := bind_eq_ok.mp appended
  obtain rfl := Except.ok.inj result
  refine ⟨fun _ => rfl, fun nodup => Go.MapOf.nodup_set _ _ nodup, fun other serial => ?_⟩
  simp only [Parsing.waiting, Go.MapOf.lookup_set, under, Set.mem_ofPred_eq]
  by_cases same : other = ca
  · rw [if_pos same, Option.getD_some, Span.union_append, Finset.mem_union, stated, same]
    simp
  · rw [if_neg same]
    simp [same]

theorem scope_setScope (revocations : Revocations) (ca other : Bytes) (scope : CertRevocations) :
    (revocations.setScope ca scope).scope other =
      if other = ca then scope else revocations.scope other := by
  rw [Revocations.scope, Revocations.setScope, Go.MapOf.lookup_set]
  split
  · rfl
  · rfl

theorem serials_setScope {revocations : Revocations} {ca : Bytes} {scope : CertRevocations}
    (same : scope.serials = (revocations.scope ca).serials) (other : Bytes) :
    ((revocations.setScope ca scope).scope other).serials = (revocations.scope other).serials := by
  rw [scope_setScope]
  split
  · rename_i equal
    rw [equal, same]
  · rfl

theorem mem_listedSerials_iff {sub : Bytes} (proper : sub ≠ []) (serial : Nat) :
    serial ∈ listedSerials sub ↔
      serial = bigEndian (sub.take 8) ∨ serial ∈ listedSerials (sub.drop 8) := by
  have positive := List.length_pos_iff.mpr proper
  constructor
  · rintro ⟨index, inside, rfl⟩
    cases index with
    | zero => exact .inl rfl
    | succ index =>
        refine .inr ⟨index, ?_, ?_⟩
        · rw [List.length_drop]
          omega
        · rw [List.drop_drop, Nat.mul_succ, Nat.add_comm]
  · rintro (rfl | ⟨index, inside, rfl⟩)
    · exact ⟨0, by omega, rfl⟩
    · rw [List.length_drop] at inside
      refine ⟨index + 1, by omega, ?_⟩
      rw [List.drop_drop, Nat.mul_succ, Nat.add_comm 8]

theorem accrues_serials {ca : Bytes} {parsing next : Parsing} {sub : Bytes}
    (read : Scanner.consume (listedSerial ca) 0 parsing sub = .ok next) :
    Accrues (under ca (listedSerials sub)) parsing next := by
  induction length : sub.length using Nat.strongRecOn generalizing sub parsing with
  | ind size ih =>
      cases sub with
      | nil =>
          obtain rfl := Except.ok.inj read
          refine .of_same (fun _ => rfl) rfl ?_
          rintro other serial ⟨-, index, inside, -⟩
          simp at inside
      | cons byte rest =>
          rw [Scanner.consume] at read
          obtain ⟨⟨left, middle⟩, first, others⟩ := bind_eq_ok.mp read
          obtain ⟨-, body⟩ := guard_eq_ok.mp first
          obtain ⟨after, appended, result⟩ := bind_eq_ok.mp body
          obtain ⟨rfl, rfl⟩ := Prod.mk.inj (Except.ok.inj result)
          have skipped : rest.drop (rest.length - ((byte :: rest).drop 8).length) =
              (byte :: rest).drop 8 := by
            rw [List.length_drop, List.length_cons]
            by_cases short : rest.length < 7
            · rw [List.drop_eq_nil_of_le (by omega), List.drop_eq_nil_of_le]
              rw [List.length_cons]
              omega
            · rw [show rest.length - (rest.length + 1 - 8) = 7 by omega]
              rfl
          dsimp only at others
          rw [Scanner.consume_pending, skipped] at others
          have single : ∀ serial, serial ∈ union [(⟨bigEndian ((byte :: rest).take 8),
              bigEndian ((byte :: rest).take 8)⟩ : Span)] ↔
                serial ∈ ({bigEndian ((byte :: rest).take 8)} : Set Nat) := by
            intro serial
            simp only [Span.union_cons, Span.union_nil, Finset.union_empty, Span.mem_numbers,
              Set.mem_singleton_iff]
            omega
          refine (accrues_append appended single).trans (ih _ ?_ others rfl) ?_
          · rw [← length, List.length_drop, List.length_cons]
            omega
          · intro other serial
            simp only [under, Set.mem_ofPred_eq, Set.mem_singleton_iff,
              mem_listedSerials_iff (List.cons_ne_nil byte rest)]
            tauto

theorem accrues_parseSerialRange {ca : Bytes} {parsing next : Parsing} {sub : Bytes}
    (read : parseSerialRange ca parsing sub = .ok next) :
    Accrues (under ca (rangeSerials sub)) parsing next := by
  obtain ⟨-, body⟩ := guard_eq_ok.mp read
  obtain ⟨-, appended⟩ := guard_eq_ok.mp body
  refine accrues_append appended fun serial => ?_
  simp [rangeSerials]

theorem accrues_keyIDs {ca : Bytes} {parsing next : Parsing} {sub : Bytes}
    (read : Scanner.consume (listedKeyID ca) 0 parsing sub = .ok next) :
    Accrues (under ca ∅) parsing next := by
  have nothing : ∀ other serial, serial ∉ under ca ∅ other := by
    rintro other serial ⟨-, none⟩
    exact none
  refine Scanner.consume_keeps (Accrues (under ca ∅) parsing) ?_ read
    (.of_same (fun _ => rfl) rfl nothing)
  intro before ahead left after item accrues
  obtain ⟨⟨id, rest⟩, -, item⟩ := bind_eq_ok.mp item
  obtain ⟨-, item⟩ := guard_eq_ok.mp item
  obtain ⟨entries, -, result⟩ := bind_eq_ok.mp item
  obtain ⟨-, rfl⟩ := Prod.mk.inj (Except.ok.inj result)
  refine accrues.trans (.of_same (fun other => ?_) rfl nothing) fun _ _ => or_self_iff.symm
  exact @serials_setScope before.revocations ca
    { before.revocations.scope ca with
      keyIDs := insert id (before.revocations.scope ca).keyIDs } rfl other

theorem accrues_parseCertificateKind
    {ca : Bytes} {parsing next : Parsing} {kind : UInt8} {sub : Bytes}
    (read : parseCertificateKind ca parsing kind sub = .ok next) :
    Accrues (under ca (partSerials (kind, sub))) parsing next := by
  unfold parseCertificateKind at read
  unfold partSerials
  split_ifs at read with list range bitmap ids
  · obtain ⟨-, serials⟩ := guard_eq_ok.mp read
    rw [if_pos list]
    exact accrues_serials serials
  · rw [if_neg list, if_pos range]
    exact accrues_parseSerialRange read
  · obtain ⟨ranges, bits, appended⟩ := bind_eq_ok.mp read
    rw [if_neg list, if_neg range, if_pos bitmap]
    exact accrues_append appended (union_of_bitmapRanges bits)
  · rw [if_neg list, if_neg range, if_neg bitmap]
    exact accrues_keyIDs read

/-- Serials of the given parts, for one authority. -/
def partsSerials (ca : Bytes) (parts : List Part) : Bytes → Set Nat :=
  under ca {serial | ∃ part ∈ parts, serial ∈ partSerials part}

theorem accrues_parts {ca : Bytes} {parsing next : Parsing} {input : Bytes}
    (read : Scanner.consume (parseCertificatePart ca) 0 parsing input = .ok next) :
    ∃ parts, partsOf input = .ok parts ∧ Accrues (partsSerials ca parts) parsing next := by
  refine Scanner.consume_simulates
    (fun reached parts => Accrues (partsSerials ca parts) parsing reached) ?_ read
    (.of_same (fun _ => rfl) rfl ?_)
  · intro before ahead left after parts item accrues
    obtain ⟨⟨kind, rest⟩, kindRead, item⟩ := bind_eq_ok.mp item
    obtain ⟨⟨sub, rest⟩, subRead, item⟩ := bind_eq_ok.mp item
    obtain ⟨reached, part, result⟩ := bind_eq_ok.mp item
    obtain ⟨rfl, rfl⟩ := Prod.mk.inj (Except.ok.inj result)
    refine ⟨parts ++ [(kind, sub)], ?_, accrues.trans (accrues_parseCertificateKind part) ?_⟩
    · rw [readPart, bind_eq_ok]
      refine ⟨_, kindRead, ?_⟩
      rw [bind_eq_ok]
      exact ⟨_, subRead, rfl⟩
    · intro other serial
      simp only [partsSerials, under, Set.mem_ofPred_eq, List.mem_append, List.mem_singleton]
      constructor
      · rintro ⟨same, inner, member | rfl, stated⟩
        · exact .inl ⟨same, inner, member, stated⟩
        · exact .inr ⟨same, stated⟩
      · rintro (⟨same, inner, member, stated⟩ | ⟨same, stated⟩)
        · exact ⟨same, inner, .inl member, stated⟩
        · exact ⟨same, _, .inr rfl, stated⟩
  · rintro other serial ⟨-, inner, none, -⟩
    cases none

theorem accrues_parseSectionKind {parsing next : Parsing} {kind : UInt8} {body : Bytes}
    (read : parseSectionKind parsing kind body = .ok next) :
    Accrues (fun ca => sectionSerials ca (kind, body)) parsing next := by
  unfold parseSectionKind at read
  dsimp only at read
  by_cases certificates : kind = 1
  · rw [if_pos certificates] at read
    obtain ⟨⟨ca, rest⟩, caRead, read⟩ := bind_eq_ok.mp read
    obtain ⟨⟨reserved, rest⟩, reservedRead, read⟩ := bind_eq_ok.mp read
    obtain ⟨parts, partsRead, accrues⟩ := accrues_parts read
    have stated : certificatesOf body = .ok (ca, parts) := by
      rw [certificatesOf, bind_eq_ok]
      refine ⟨_, caRead, ?_⟩
      rw [bind_eq_ok]
      refine ⟨_, reservedRead, ?_⟩
      rw [bind_eq_ok]
      exact ⟨parts, partsRead, rfl⟩
    refine ⟨fun other => ?_, accrues.distinct, fun other serial => ?_⟩
    · rw [accrues.serials]
      exact serials_setScope rfl other
    · rw [accrues.waits]
      refine or_congr Iff.rfl ?_
      constructor
      · rintro ⟨rfl, inner, member, serialStated⟩
        exact ⟨certificates, parts, stated, inner, member, serialStated⟩
      · rintro ⟨-, others, otherRead, inner, member, serialStated⟩
        rw [stated] at otherRead
        obtain ⟨rfl, rfl⟩ := Prod.mk.inj (Except.ok.inj otherRead)
        exact ⟨rfl, inner, member, serialStated⟩
  · have nothing : ∀ ca serial, serial ∉ sectionSerials ca (kind, body) := by
      rintro ca serial ⟨same, -⟩
      exact certificates same
    rw [if_neg certificates] at read
    split_ifs at read
    all_goals
      obtain ⟨⟨entries, blobs⟩, -, result⟩ := bind_eq_ok.mp read
      obtain rfl := Except.ok.inj result
      exact .of_same (fun _ => rfl) rfl nothing

def sectionsSerials (sections : List Part) (ca : Bytes) : Set Nat :=
  {serial | ∃ part ∈ sections, serial ∈ sectionSerials ca part}

theorem accrues_sections {parsing next : Parsing} {input : Bytes}
    (read : Scanner.consume parseSection 0 parsing input = .ok next) :
    ∃ sections, partsOf input = .ok sections ∧ Accrues (sectionsSerials sections) parsing next := by
  refine Scanner.consume_simulates
    (fun reached sections => Accrues (sectionsSerials sections) parsing reached) ?_ read
    (.of_same (fun _ => rfl) rfl ?_)
  · intro before ahead left after sections item accrues
    obtain ⟨⟨kind, rest⟩, kindRead, item⟩ := bind_eq_ok.mp item
    obtain ⟨⟨body, rest⟩, bodyRead, item⟩ := bind_eq_ok.mp item
    obtain ⟨reached, part, result⟩ := bind_eq_ok.mp item
    obtain ⟨rfl, rfl⟩ := Prod.mk.inj (Except.ok.inj result)
    refine ⟨sections ++ [(kind, body)], ?_, accrues.trans (accrues_parseSectionKind part) ?_⟩
    · rw [readPart, bind_eq_ok]
      refine ⟨_, kindRead, ?_⟩
      rw [bind_eq_ok]
      exact ⟨_, bodyRead, rfl⟩
    · intro ca serial
      simp only [sectionsSerials, Set.mem_ofPred_eq, List.mem_append, List.mem_singleton,
        or_and_right,
        exists_or, exists_eq_left]
  · rintro ca serial ⟨part, none, -⟩
    cases none

theorem serials_mergePending {pending : Go.Map (List Span)}
    (distinct : (pending.map Prod.fst).Nodup) (revocations : Revocations) (ca : Bytes) :
    ((pending.foldl mergePending revocations).scope ca).serials =
      match pending.lookup ca with
      | none => (revocations.scope ca).serials
      | some ranges => mergeSerialRanges ranges := by
  induction pending generalizing revocations with
  | nil => rfl
  | cons binding rest ih =>
      obtain ⟨fresh, others⟩ := List.nodup_cons.mp distinct
      rw [List.foldl_cons, ih others, List.lookup_cons]
      by_cases same : ca = binding.1
      · have absent : List.lookup ca rest = none := by
          rw [List.lookup_eq_none_iff]
          intro other member
          refine bne_iff_ne.mpr fun equal => fresh ?_
          exact List.mem_map.mpr ⟨other, member, equal.symm.trans same⟩
        rw [absent, same, beq_self_eq_true]
        dsimp only
        rw [mergePending, scope_setScope, if_pos rfl]
      · rw [beq_false_of_ne same]
        cases List.lookup ca rest with
        | some ranges => rfl
        | none =>
            dsimp only
            rw [mergePending, scope_setScope, if_neg same]

/-- A list that is read has the serials that its bytes state, each of them a number
of 64 bits other than zero, as ranges with gaps between them. -/
theorem serials_of_parseRevocations
    (data : Bytes)
    (revocations : Revocations)
    (parsed : parseRevocations data = .ok revocations)
    (ca : Bytes) :
    (∀ serial, serial ∈ union (revocations.scope ca).serials ↔ serial ∈ statedSerials data ca) ∧
      (∀ serial ∈ statedSerials data ca, 0 < serial ∧ serial < 2 ^ 64) ∧
      (∀ range ∈ (revocations.scope ca).serials, range.lo ≤ range.hi) ∧
      (revocations.scope ca).serials.Pairwise fun earlier later => earlier.hi + 1 < later.lo := by
  obtain ⟨number, -, read⟩ := bind_eq_ok.mp parsed
  obtain ⟨⟨date, afterDate⟩, dateRead, read⟩ := bind_eq_ok.mp read
  obtain ⟨⟨flags, afterFlags⟩, flagsRead, read⟩ := bind_eq_ok.mp read
  obtain ⟨⟨reserved, afterReserved⟩, reservedRead, read⟩ := bind_eq_ok.mp read
  obtain ⟨⟨comment, left⟩, commentRead, read⟩ := bind_eq_ok.mp read
  obtain ⟨parsing, read, result⟩ := bind_eq_ok.mp read
  obtain ⟨sections, sectionsRead, accrues⟩ := accrues_sections read
  have sound := Scanner.consume_keeps Parsing.Sound (fun item before => before.parseSection item)
    read ⟨⟨List.nodup_nil, by simp⟩, by simp⟩
  have stated : sectionsOf data = .ok sections := by
    simp only [sectionsOf, bind_eq_ok]
    exact ⟨_, dateRead, _, flagsRead, _, reservedRead, _, commentRead, sectionsRead⟩
  have told : ∀ serial, serial ∈ parsing.waiting ca ↔ serial ∈ statedSerials data ca := by
    intro serial
    rw [accrues.waits]
    constructor
    · rintro (none | ⟨part, member, inside⟩)
      · simp [Parsing.waiting] at none
      · exact ⟨sections, stated, part, member, inside⟩
    · rintro ⟨others, otherRead, part, member, inside⟩
      rw [stated] at otherRead
      obtain rfl := Except.ok.inj otherRead
      exact .inr ⟨part, member, inside⟩
  have distinct := accrues.distinct List.nodup_nil
  have serials : ∃ ranges, (revocations.scope ca).serials = mergeSerialRanges ranges ∧
      union ranges = parsing.waiting ca ∧ ∀ range ∈ ranges, Accepted range := by
    obtain rfl := Except.ok.inj result
    refine ⟨(parsing.pending.lookup ca).getD [], ?_, rfl, ?_⟩
    · rw [serials_mergePending distinct]
      cases parsing.pending.lookup ca with
      | none => exact accrues.serials ca
      | some ranges => rfl
    · cases found : parsing.pending.lookup ca with
      | none => simp
      | some ranges =>
          exact sound.accepted (ca, ranges) ((Go.MapOf.lookup_eq_some_iff distinct).mp found)
  obtain ⟨ranges, merged, waiting, accepted⟩ := serials
  obtain ⟨spec, same⟩ := mergeSerialRanges_spec accepted
  rw [merged]
  refine ⟨?_, ?_, spec.nonempty, gaps_mergeSerialRanges accepted⟩
  · intro serial
    rw [same, waiting, told]
  · intro serial member
    rw [← told, ← waiting, ← same, mem_union] at member
    obtain ⟨range, listed, low, high⟩ := member
    have := spec.positive range listed
    have := spec.word range listed
    exact ⟨by omega, by omega⟩

/-- A list whose first section has the serial 5 and the bits 0 and 2 from the serial 6
on, and whose second one has the serials from 9 to 10, both for the authority `A`. -/
def twoSectionList : Bytes :=
  let word (value : UInt8) : Bytes := [0, 0, 0, 0, 0, 0, 0, value]
  let text (value : Bytes) : Bytes := [0, 0, 0, value.length.toUInt8] ++ value
  krlMagic ++ [0, 0, 0, 1] ++ word 7 ++ word 0 ++ word 0 ++ text [] ++ text [] ++
    [1] ++ text (text [0x41] ++ text [] ++ [0x20] ++ text (word 5) ++
      [0x22] ++ text (word 6 ++ text [5])) ++
    [1] ++ text (text [0x41] ++ text [] ++ [0x21] ++ text (word 9 ++ word 10))

/-- The serials of both sections are merged. -/
theorem serials_of_twoSectionList :
    ∃ revocations, parseRevocations twoSectionList = .ok revocations ∧
      (revocations.scope [0x41]).serials = [⟨5, 6⟩, ⟨8, 10⟩] ∧
        ∀ serial, serial ∈ union (revocations.scope [0x41]).serials ↔
          serial ∈ statedSerials twoSectionList [0x41] := by
  have parsed : (parseRevocations twoSectionList).toOption.map
      (fun revocations => (revocations.scope [0x41]).serials) = some [⟨5, 6⟩, ⟨8, 10⟩] := by
    decide +kernel
  cases read : parseRevocations twoSectionList with
  | error error => rw [read] at parsed; cases parsed
  | ok revocations =>
      rw [read] at parsed
      exact ⟨revocations, rfl, Option.some.inj parsed,
        (serials_of_parseRevocations twoSectionList revocations read [0x41]).1⟩

end Trstctl.Sshkrl
