import Mathlib.Algebra.GroupWithZero.Nat
import Mathlib.Algebra.Order.BigOperators.Group.List
import Mathlib.Algebra.Order.Group.Nat
import Trstctl.Go.Ascii
import Trstctl.Library.Subtrees

/-!
# DNS names and DNS name constraints

What a certificate may hold as a DNS name constraint, and when a DNS name is
equal to such an entry or a subdomain of it.  Names are compared without regard
to case and to the final dot of an absolute name; the dot an entry may start
with is no part of its zone.
-/

namespace Trstctl.Crypto

open Go (Bytes bytes trimPrefix trimSuffix foldCase IsAscii IsGraphic lowerByte)

/-- The separator of the labels of a name. -/
def dot : UInt8 := 0x2E

/-- `domainNameValid` of package `x509` for a constraint: the root, or nonempty
labels of graphic characters after an optional dot. -/
def domainNameValid (text : Bytes) : Bool :=
  text.isEmpty ||
    (text.getLast? != some dot &&
      (trimPrefix text [dot]).all (fun byte => 33 ≤ byte && byte ≤ 126) &&
      (Go.split dot (trimPrefix text [dot])).all fun label => !label.isEmpty)

/-- The zone of a name constraint. -/
def zone (entry : Bytes) : Bytes :=
  foldCase (trimPrefix entry [dot])

/-- The name a DNS SAN stands for. -/
def absolute (name : Bytes) : Bytes :=
  foldCase (trimSuffix name [dot])

/-- A DNS name is equal to an entry or a subdomain of it. -/
def InZone (name entry : Bytes) : Prop :=
  Zones.Under dot (absolute name) (zone entry)

instance (name entry : Bytes) : Decidable (InZone name entry) :=
  inferInstanceAs (Decidable (Zones.Under _ _ _))

theorem trimSuffix_of_ne {text : Bytes} (plain : text.getLast? ≠ some dot) :
    trimSuffix text [dot] = text := by
  rw [trimSuffix, if_neg]
  intro ends
  obtain ⟨front, rfl⟩ := Go.hasSuffix_iff.mp ends
  simp at plain

theorem trimSuffix_append (text : Bytes) :
    trimSuffix (text ++ [dot]) [dot] = text := by
  rw [trimSuffix, if_pos]
  · simp
  · exact Go.hasSuffix_iff.mpr (List.suffix_append text [dot])

theorem lowerByte_eq_dot {byte : UInt8} : lowerByte byte = dot ↔ byte = dot := by
  simp only [lowerByte, dot, ← UInt8.toNat_inj, UInt8.le_iff_toNat_le]
  split
  · simp only [UInt8.toNat_add, UInt8.reduceToNat] at *
    omega
  · rfl

theorem trimSuffix_foldCase (text : Bytes) :
    trimSuffix (foldCase text) [dot] = foldCase (trimSuffix text [dot]) := by
  by_cases ends : text.getLast? = some dot
  · obtain ⟨front, rfl⟩ := List.getLast?_eq_some_iff.mp ends
    have lowered : foldCase (front ++ [dot]) = foldCase front ++ [dot] := by
      simp [foldCase, lowerByte_eq_dot.mpr rfl]
    rw [lowered, trimSuffix_append, trimSuffix_append]
  · rw [trimSuffix_of_ne ends, trimSuffix_of_ne]
    intro lowered
    rw [foldCase, List.getLast?_map, Option.map_eq_some_iff] at lowered
    obtain ⟨last, isLast, equal⟩ := lowered
    exact ends (isLast.trans (congrArg some (lowerByte_eq_dot.mp equal)))

theorem trimPrefix_cons (byte : UInt8) (rest : Bytes) :
    trimPrefix (byte :: rest) [dot] = if byte = dot then rest else byte :: rest := by
  by_cases isDot : byte = dot
  · simp [trimPrefix, Go.hasPrefix, isDot]
  · simp [trimPrefix, Go.hasPrefix, isDot, Ne.symm isDot]

theorem trimPrefix_foldCase (text : Bytes) :
    trimPrefix (foldCase text) [dot] = foldCase (trimPrefix text [dot]) := by
  cases text with
  | nil => rfl
  | cons byte rest =>
      rw [foldCase, List.map_cons, trimPrefix_cons, trimPrefix_cons]
      by_cases isDot : byte = dot
      · rw [if_pos (lowerByte_eq_dot.mpr isDot), if_pos isDot]
        rfl
      · rw [if_neg (fun lowered => isDot (lowerByte_eq_dot.mp lowered)), if_neg isDot]
        rfl

variable {entry : Bytes}

section Valid

variable (valid : domainNameValid entry = true)

include valid

theorem domainNameValid.graphic :
    IsGraphic (trimPrefix entry [dot]) := by
  intro byte member
  simp only [domainNameValid, Bool.or_eq_true, Bool.and_eq_true] at valid
  rcases valid with empty | ⟨⟨-, characters⟩, -⟩
  · rw [List.isEmpty_iff.mp empty] at member
    exact absurd member List.not_mem_nil
  · have := List.all_eq_true.mp characters byte member
    simpa [UInt8.le_iff_toNat_le] using this

theorem domainNameValid.graphic_entry :
    IsGraphic entry := by
  cases entry with
  | nil => nofun
  | cons first rest =>
      have graphic := domainNameValid.graphic valid
      rw [trimPrefix_cons] at graphic
      split at graphic
      · rename_i isDot
        intro byte member
        rcases List.mem_cons.mp member with rfl | later
        · rw [isDot]
          decide
        · exact graphic byte later
      · exact graphic

theorem domainNameValid.getLast :
    (trimPrefix entry [dot]).getLast? ≠ some dot := by
  simp only [domainNameValid, Bool.or_eq_true, Bool.and_eq_true, bne_iff_ne] at valid
  rcases valid with empty | ⟨⟨plain, -⟩, -⟩
  · rw [List.isEmpty_iff.mp empty]
    decide
  · intro ends
    obtain ⟨front, equal⟩ := List.getLast?_eq_some_iff.mp ends
    rw [trimPrefix] at equal
    split at equal
    · rename_i starts
      obtain ⟨rest, rfl⟩ := Go.hasPrefix_iff.mp starts
      apply plain
      have : rest = front ++ [dot] := by simpa using equal
      rw [this, ← List.append_assoc, List.getLast?_concat]
    · exact plain (by rw [equal]; simp)

theorem domainNameValid.zone_getLast :
    (zone entry).getLast? ≠ some dot := by
  intro lowered
  rw [zone, foldCase, List.getLast?_map, Option.map_eq_some_iff] at lowered
  obtain ⟨last, isLast, equal⟩ := lowered
  exact domainNameValid.getLast valid (isLast.trans (congrArg some (lowerByte_eq_dot.mp equal)))

theorem domainNameValid.zone_ne_nil (proper : entry ≠ []) :
    zone entry ≠ [] := by
  intro root
  simp only [domainNameValid, Bool.or_eq_true, Bool.and_eq_true, bne_iff_ne] at valid
  rcases valid with empty | ⟨⟨plain, -⟩, -⟩
  · exact proper (List.isEmpty_iff.mp empty)
  · simp only [zone, foldCase, List.map_eq_nil_iff, trimPrefix] at root
    split at root
    · rename_i starts
      obtain ⟨rest, rfl⟩ := Go.hasPrefix_iff.mp starts
      have : rest = [] := by simpa using root
      exact plain (by simp [this])
    · exact proper root

end Valid

/-- A name in lower case that does not end in a dot. -/
def Canonical (name : Bytes) : Prop :=
  foldCase name = name ∧ name.getLast? ≠ some dot

theorem Canonical.absolute {name : Bytes} (canonical : Canonical name) : absolute name = name := by
  rw [Crypto.absolute, trimSuffix_of_ne canonical.2, canonical.1]

theorem lowerByte_lowerByte (byte : UInt8) :
    lowerByte (lowerByte byte) = lowerByte byte := by
  by_cases upper : 0x41 ≤ byte ∧ byte ≤ 0x5A
  · have lowered : ¬ (0x41 ≤ byte + 0x20 ∧ byte + 0x20 ≤ 0x5A) := by
      simp only [UInt8.le_iff_toNat_le, UInt8.toNat_add, UInt8.reduceToNat] at upper ⊢
      omega
    rw [lowerByte, lowerByte, if_pos upper, if_neg lowered]
  · rw [lowerByte, lowerByte, if_neg upper, if_neg upper]

theorem foldCase_foldCase (text : Bytes) : foldCase (foldCase text) = foldCase text := by
  simp [foldCase, lowerByte_lowerByte]

theorem canonical_zone (valid : domainNameValid entry = true) :
    Canonical (zone entry) :=
  ⟨foldCase_foldCase _, domainNameValid.zone_getLast valid⟩

/-- A label that is longer than a number of names. -/
def longLabel (names : List Bytes) : Bytes :=
  List.replicate ((names.map List.length).sum + 1) 0x61

theorem length_lt_longLabel {names : List Bytes} {name : Bytes} (member : name ∈ names) :
    name.length < (longLabel names).length := by
  have listed : name.length ≤ (names.map List.length).sum :=
    List.le_sum_of_mem (List.mem_map_of_mem member)
  simp only [longLabel, List.length_replicate]
  omega

variable (names : List Bytes)

theorem dot_notMem_longLabel : dot ∉ longLabel names := by
  intro member
  exact absurd (List.eq_of_mem_replicate member) (by decide)

theorem canonical_longLabel : Canonical (longLabel names) := by
  refine ⟨?_, fun last => dot_notMem_longLabel names (List.mem_of_getLast? last)⟩
  rw [foldCase, longLabel, List.map_replicate]
  rfl

theorem canonical_append {name : Bytes} (canonical : Canonical name) (proper : name ≠ []) :
    Canonical (longLabel names ++ dot :: name) := by
  constructor
  · have label := (canonical_longLabel names).1
    have rest := canonical.1
    rw [foldCase] at label rest ⊢
    rw [List.map_append, List.map_cons, label, rest, lowerByte_eq_dot.mpr rfl]
  · rw [List.append_cons, List.getLast?_append_of_ne_nil _ proper]
    exact canonical.2

theorem suffix_of_suffix_append {label name ending : Bytes} (single : dot ∉ label)
    (ends : dot :: ending <:+ label ++ dot :: name) :
    dot :: ending <:+ dot :: name := by
  rcases List.suffix_or_suffix_of_suffix ends (List.suffix_append label (dot :: name)) with
    shorter | longer
  · exact shorter
  · obtain ⟨front, equal⟩ := longer
    cases front with
    | nil => exact ⟨[], equal.symm⟩
    | cons byte front =>
        obtain ⟨rfl, rest⟩ := List.cons.inj equal
        obtain ⟨before, whole⟩ := ends
        have split : (before ++ dot :: front) ++ dot :: name = label ++ dot :: name := by
          rw [← whole, ← rest, List.append_assoc]
          rfl
        have label_eq := List.append_cancel_right split
        exact absurd (label_eq ▸ List.mem_append_right before List.mem_cons_self) single

theorem not_inZone_longLabel {names : List Bytes} (member : zone entry ∈ names)
    (proper : zone entry ≠ []) :
    ¬ InZone (longLabel names) entry := by
  intro inZone
  rw [InZone, (canonical_longLabel names).absolute] at inZone
  have equal := inZone.eq_of_single (dot_notMem_longLabel names) proper
  have short := length_lt_longLabel member
  rw [equal] at short
  omega

end Trstctl.Crypto
