import Trstctl.Library.Program
import Trstctl.Succession.Record

/-!
# The mint journal

The signer's journal of mint intents and results
(`internal/succession/minter/mint_journal.go`): one sealed file for each
tenant, identity and epoch in one directory.  An intent is published by a hard
link, which fails when the name exists, and a result by a rename over it; both
are followed by a sync of the directory.

A name whose directory was not synced may be forgotten by a power loss.  The
journal therefore holds the directory as it is now and as it was at each moment
since the last sync, and a restart finds under every name what one of these
held.
-/

namespace Trstctl.Succession.Minter

open Go (Bytes bytes Map decimal jsonObject jsonPair jsonString jsonByteSlice)

/-- What a mint is asked for. -/
structure MintRequest where
  identityID : Bytes
  tenantID : Bytes
  deploymentScope : Bytes
  predecessorHandle : Bytes
  assertedPredecessorEpoch : UInt64
  targetAlgorithm : Bytes
  policyRef : Bytes
  policyDecision : Bytes
  authorization : Bytes
  breakGlass : Bytes
  attestation : Bytes
  delegationScope : Bytes
  notBefore : Int
  notAfter : Int

def MintRequest.json (request : MintRequest) : Bytes :=
  jsonObject
    [jsonPair "IdentityID" (jsonString request.identityID),
      jsonPair "TenantID" (jsonString request.tenantID),
      jsonPair "DeploymentScope" (jsonString request.deploymentScope),
      jsonPair "PredecessorHandle" (jsonString request.predecessorHandle),
      jsonPair "AssertedPredecessorEpoch" (decimal request.assertedPredecessorEpoch.toNat),
      jsonPair "TargetAlgorithm" (jsonString request.targetAlgorithm),
      jsonPair "PolicyRef" (jsonString request.policyRef),
      jsonPair "PolicyDecision" (jsonByteSlice request.policyDecision),
      jsonPair "Authorization" (jsonByteSlice request.authorization),
      jsonPair "BreakGlass" (jsonByteSlice request.breakGlass),
      jsonPair "Attestation" (jsonByteSlice request.attestation),
      jsonPair "DelegationScope" (jsonString request.delegationScope),
      jsonPair "NotBefore" (decimal request.notBefore),
      jsonPair "NotAfter" (decimal request.notAfter)]

def mintRequestHash (crypto : Crypto) (request : MintRequest) : Bytes :=
  crypto.sha256Hex request.json

/-- A text written by `EncodeRecord`, given by the record it was written
from. -/
structure EncodedRecord where
  source : SuccessionRecord
deriving DecidableEq

def EncodedRecord.text (encoded : EncodedRecord) : Bytes :=
  encoded.source.json

def encodeRecord (record : SuccessionRecord) : EncodedRecord :=
  { source := record }

/-- `DecodeRecord`, of a text that `EncodeRecord` wrote. -/
def decodeRecord (encoded : EncodedRecord) : SuccessionRecord :=
  encoded.source.throughJson

/-- What a mint returns. -/
structure MintResult where
  epoch : UInt64
  successorAlgorithm : Bytes
  successorPublicDER : Bytes
  encodedRecord : EncodedRecord
deriving DecidableEq

/-- The states of an entry. -/
inductive JournalState where
  | executing
  | completed
deriving DecidableEq

/-- What the gates found before the intent was sealed. -/
structure Passed where
  breakGlassUsed : Bool
  delegationPath : Bytes
  attestDigest : Bytes
  attestType : Bytes
deriving DecidableEq

/-- `MintJournalEntry`.  The result is `none` for the zero value of
`MintResult`, which has no record. -/
structure MintJournalEntry where
  version : Nat
  key : Bytes
  requestHash : Bytes
  state : JournalState
  passed : Passed
  result : Option MintResult
deriving DecidableEq

def mintJournalVersion : Nat := 1

/-- An entry as it is read back: it was sealed as JSON. -/
def MintJournalEntry.throughJson (entry : MintJournalEntry) : MintJournalEntry :=
  { entry with
    key := Go.throughJson entry.key
    requestHash := Go.throughJson entry.requestHash
    passed :=
      { entry.passed with
        delegationPath := Go.throughJson entry.passed.delegationPath
        attestType := Go.throughJson entry.passed.attestType }
    result := entry.result.map fun result =>
      { result with successorAlgorithm := Go.throughJson result.successorAlgorithm } }

/-- The files of the journal directory by name. -/
abbrev Directory := Map MintJournalEntry

/-- The directory as it is now, and as it was at each moment since the last
sync. -/
structure Disk where
  visible : Directory
  unsynced : List Directory

/-- The directories of which a power loss may bring back parts. -/
def Disk.versions (disk : Disk) : List Directory :=
  disk.visible :: disk.unsynced

/-- What a restart may find: under each name a file that one version holds. -/
def Disk.Recovers (disk : Disk) (recovered : Directory) : Prop :=
  ∀ name, ∃ version ∈ disk.versions, recovered.lookup name = version.lookup name

/-- The file of a name cannot be lost: every version holds the visible one. -/
def Disk.Durable (disk : Disk) (name : Bytes) : Prop :=
  ∀ version ∈ disk.versions, version.lookup name = disk.visible.lookup name

/-- A link or rename: the directory before it joins the unsynced versions. -/
def Disk.publish (disk : Disk) (name : Bytes) (entry : MintJournalEntry) : Disk :=
  { visible := disk.visible.set name entry, unsynced := disk.versions }

def Disk.syncDirectory (disk : Disk) : Disk :=
  { disk with unsynced := [] }

/-- How writing and publishing a file ends.  `failed` is a failure before the
link or rename, `unsynced` a failure to sync the directory after it. -/
inductive Publication where
  | failed (error : Bytes)
  | unsynced (error : Bytes)
  | synced

/-- Why an operation of the journal failed. -/
inductive JournalError where
  | io (error : Bytes)
  | bindingOrStateInvalid
  | firstWriter
  | intentMismatch

def path (crypto : Crypto) (key : Bytes) : Bytes :=
  crypto.sha256Hex key ++ bytes ".result"

/-- `durableMintJournal.Load`.  `failure` is a failure to read or unseal the
file. -/
def Disk.load (crypto : Crypto) (failure : Option Bytes) (key : Bytes)
    (disk : Disk) : Except JournalError (Option MintJournalEntry) :=
  match failure with
  | some error => .error (.io error)
  | none =>
      match disk.visible.lookup (path crypto key) with
      | none => .ok none
      | some entry =>
          -- The states other than these two are not representable.
          if entry.version ≠ mintJournalVersion ∨ entry.key ≠ key then
            .error .bindingOrStateInvalid
          else .ok (some entry)

/-- Seals an entry and publishes it under the name of its key. -/
def publishEntry (crypto : Crypto) (publication : Publication)
    (entry : MintJournalEntry) : Program Disk JournalError Unit :=
  let publish := fun disk : Disk => disk.publish (path crypto entry.key) entry.throughJson
  match publication with
  | .failed error => throw (.io error)
  | .unsynced error => do
      Program.update publish
      throw (.io error)
  | .synced => do
      Program.update publish
      Program.update Disk.syncDirectory

/-- The fence of the first writer: the link fails when the name exists. -/
def Disk.link (publication : Publication) (name : Bytes) (disk : Disk) : Except JournalError Unit :=
  match publication, disk.visible.lookup name with
  | .failed error, _ => .error (.io error)
  | _, some _ => .error .firstWriter
  | _, none => .ok ()

/-- `durableMintJournal.Begin`. -/
def beginMint (crypto : Crypto) (publication : Publication) (key requestHash : Bytes)
    (passed : Passed) : Program Disk JournalError Unit := do
  Program.reading (Disk.link publication (path crypto key))
  publishEntry crypto publication
    { version := mintJournalVersion
      key := key
      requestHash := requestHash
      state := .executing
      passed := passed
      result := none }

/-- `durableMintJournal.Complete`. -/
def completeMint (crypto : Crypto) (failure : Option Bytes) (publication : Publication)
    (key requestHash : Bytes) (passed : Passed)
    (result : MintResult) : Program Disk JournalError Unit := do
  let prior ← Program.reading (Disk.load crypto failure key)
  match prior with
  | none => throw .intentMismatch
  | some entry =>
      if entry.state ≠ .executing ∨ entry.requestHash ≠ requestHash then throw .intentMismatch
      publishEntry crypto publication
        { version := mintJournalVersion
          key := key
          requestHash := requestHash
          state := .completed
          passed := passed
          result := some result }

end Trstctl.Succession.Minter
