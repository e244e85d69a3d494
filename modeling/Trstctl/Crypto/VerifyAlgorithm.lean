import Trstctl.Go.Strings

/-!
# Signatures under a named algorithm

`VerifyAlgorithmMessage` (`internal/crypto/verify_algorithm.go`): which scheme
checks a signature is decided by the name of the algorithm, and a name outside
the switch is refused.  The schemes themselves are parameters.
-/

namespace Trstctl.Crypto

open Go (Bytes bytes)

/-- The schemes behind the switch.  Public keys come first, then the message or
its digest, then the signature. -/
structure Schemes where
  sha256Sum : Bytes → Bytes
  /-- The algorithm of a parsed PKIX key, empty for a key of no listed kind. -/
  publicAlgorithm : Bytes → Option Bytes
  verifyEd25519 : Bytes → Bytes → Bytes → Bool
  verifyMessage : Bytes → Bytes → Bytes → Bool
  /-- `scheme.Verify` and `slhdsa.Verify`, after the key was decoded. -/
  verifyPostQuantum : Bytes → Bytes → Bytes → Bytes → Bool

/-- The algorithms with PKIX keys. -/
def classicalAlgorithms : List Bytes :=
  [bytes "RSA-2048", bytes "RSA-3072", bytes "RSA-4096", bytes "ECDSA-P256", bytes "ECDSA-P384",
    bytes "ECDSA-P521", bytes "Ed25519"]

def latticeAlgorithms : List Bytes :=
  [bytes "ML-DSA-44", bytes "ML-DSA-65", bytes "ML-DSA-87", bytes "Hybrid-Ed25519-Dilithium3"]

def hashBasedAlgorithms : List Bytes :=
  [bytes "SLH-DSA-SHA2-128s", bytes "SLH-DSA-SHA2-128f", bytes "SLH-DSA-SHA2-192s",
    bytes "SLH-DSA-SHA2-256s"]

/-- The names the switch has a case for. -/
def signatureAlgorithms : List Bytes :=
  classicalAlgorithms ++ latticeAlgorithms ++ hashBasedAlgorithms

def checkClassicalPublicAlgorithm (schemes : Schemes) (algorithm key : Bytes) : Bool :=
  schemes.publicAlgorithm key == some algorithm

def verifyAlgorithmMessage (schemes : Schemes) (algorithm key message signature : Bytes) : Bool :=
  if algorithm ∈ classicalAlgorithms then
    if !checkClassicalPublicAlgorithm schemes algorithm key then false
    else if algorithm = bytes "Ed25519" then schemes.verifyEd25519 key message signature
    else schemes.verifyMessage key message signature
  else if algorithm ∈ latticeAlgorithms ∨ algorithm ∈ hashBasedAlgorithms then
    schemes.verifyPostQuantum algorithm key (schemes.sha256Sum message) signature
  else false

theorem mem_signatureAlgorithms_of_verifyAlgorithmMessage (schemes : Schemes)
    {algorithm key message signature : Bytes}
    (verified : verifyAlgorithmMessage schemes algorithm key message signature = true) :
    algorithm ∈ signatureAlgorithms := by
  rw [signatureAlgorithms, List.mem_append, List.mem_append]
  unfold verifyAlgorithmMessage at verified
  split at verified
  · rename_i classical
    exact .inl (.inl classical)
  · split at verified
    · rename_i postQuantum
      exact postQuantum.imp .inr id
    · cases verified

end Trstctl.Crypto
