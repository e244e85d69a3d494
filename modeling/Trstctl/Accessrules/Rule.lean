import Mathlib.Data.List.Sort
import Trstctl.Go.Strings
import Trstctl.Library.Scanner

/-!
# What the command rules share

The rules for PostgreSQL, MySQL and SSH (`internal/accessrules`) refuse the
same texts before they read anything, tell words by the same bytes and report
each name once.
-/

namespace Trstctl.Accessrules

open Go (Bytes)

/-- The greatest size of a statement. -/
def maxStatementBytes : Nat := 2 ^ 20

/-- A text that a rule refuses before it reads it: over the limit, not UTF-8, or
with a zero byte. -/
def Uninspectable (limit : Nat) (raw : Bytes) : Prop :=
  raw.length > limit ∨ Go.utf8Valid raw = false ∨ 0 ∈ raw

instance (limit : Nat) (raw : Bytes) : Decidable (Uninspectable limit raw) :=
  inferInstanceAs (Decidable (_ ∨ _))

/-- A digit. -/
def pgDigit (byte : UInt8) : Bool :=
  0x30 ≤ byte && byte ≤ 0x39

/-- The start of a word: a letter, an underscore or a byte above ASCII. -/
def pgWordStart (byte : UInt8) : Bool :=
  byte == 0x5F || (0x61 ≤ byte && byte ≤ 0x7A) || (0x41 ≤ byte && byte ≤ 0x5A) || 0x80 ≤ byte

/-- A byte of a word after its start. -/
def pgWord (byte : UInt8) : Bool :=
  pgWordStart byte || pgDigit byte || byte == 0x24

/-- The bytes of a line comment after its opening. -/
def lineComment (rest : Bytes) : Nat :=
  (rest.takeWhile fun byte => byte != 0x0A && byte != 0x0D).length

/-- What an iteration adds to what is found: each name once. -/
def collectStep (out : List Bytes) : Option Bytes → List Bytes
  | none => out
  | some name => if name ∈ out then out else out ++ [name]

/-- The names of the iterations. -/
def collect (found : List (Option Bytes)) : List Bytes :=
  found.foldl collectStep []

theorem mem_collectStep_of_mem {out : List Bytes} {found : Option Bytes} {name : Bytes}
    (member : name ∈ out) :
    name ∈ collectStep out found := by
  unfold collectStep
  split
  · exact member
  · split_ifs
    · exact member
    · exact List.mem_append_left _ member

theorem mem_collectStep {out : List Bytes} {name : Bytes} :
    name ∈ collectStep out (some name) := by
  simp only [collectStep]
  split_ifs with present
  · exact present
  · exact List.mem_append_right _ List.mem_cons_self

theorem mem_collect {found : List (Option Bytes)} {name : Bytes} (member : some name ∈ found) :
    name ∈ collect found := by
  have kept : ∀ (found : List (Option Bytes)) (out : List Bytes),
      name ∈ out ∨ some name ∈ found → name ∈ found.foldl collectStep out := by
    intro found
    induction found with
    | nil => intro out holds; simpa using holds
    | cons first rest ih =>
        intro out holds
        refine ih _ ?_
        rcases holds with member | member
        · exact .inl (mem_collectStep_of_mem member)
        · rcases List.mem_cons.mp member with rfl | member
          · exact .inl mem_collectStep
          · exact .inr member
  exact kept found [] (.inr member)

end Trstctl.Accessrules
