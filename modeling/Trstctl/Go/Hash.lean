import Mathlib.Data.Set.Basic
import Trstctl.Go.Strings

/-!
# Hash functions that bind their inputs

The modelled code trusts a hash with 32-byte digests.  No function from all
byte strings to 32-byte strings is injective, so injectivity is stated of the
strings that are really hashed: nothing else has the digest of one of them.
-/

namespace Trstctl.Hash

open Go (Bytes)

/-- Every digest of `hash` has 32 bytes, and the digest of a string of
`inputs` is the digest of no other string. -/
structure Binds (hash : Bytes → Bytes) (inputs : Set Bytes) : Prop where
  length_eq : ∀ text, (hash text).length = 32
  eq_of_hash_eq : ∀ text ∈ inputs, ∀ other, hash other = hash text → other = text

theorem Binds.mono {hash : Bytes → Bytes} {smaller larger : Set Bytes} (binds : Binds hash larger)
    (contained : smaller ⊆ larger) :
    Binds hash smaller where
  length_eq := binds.length_eq
  eq_of_hash_eq text member := binds.eq_of_hash_eq text (contained member)

/-- The 32-byte big-endian digest of a small number. -/
def digestOf (number : Nat) : Bytes :=
  List.replicate 31 0 ++ [UInt8.ofNat number]

/-- A hash that numbers the given strings and confuses all others. -/
def numbering (inputs : List Bytes) (text : Bytes) : Bytes :=
  digestOf (inputs.idxOf text)

theorem numbering_binds (inputs : List Bytes) (few : inputs.length < 256) :
    Binds (numbering inputs) {text | text ∈ inputs} where
  length_eq text := by
    simp [numbering, digestOf]
  eq_of_hash_eq text member other equal := by
    have indexes : UInt8.ofNat (inputs.idxOf other) = UInt8.ofNat (inputs.idxOf text) := by
      simpa [numbering, digestOf] using equal
    have below : inputs.idxOf text < inputs.length := List.idxOf_lt_length_of_mem member
    have otherBelow : inputs.idxOf other ≤ inputs.length := List.idxOf_le_length
    have same : inputs.idxOf other = inputs.idxOf text := by
      have := congrArg UInt8.toNat indexes
      simp only [UInt8.toNat_ofNat'] at this
      omega
    exact (List.idxOf_inj (List.idxOf_lt_length_iff.mp (same ▸ below))).mp same

end Trstctl.Hash
