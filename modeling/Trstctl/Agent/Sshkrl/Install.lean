import Mathlib.Logic.Function.Basic
import Trstctl.Agent.Sshkrl.Comparison
import Trstctl.Go.Json

/-!
# Installing a revocation list

`Apply` replaces the list at the path that the daemon reads, and only by a list
that is not older and keeps every revocation.  The predecessor is kept in a
rollback directory and comes back when the daemon fails with the new list.
Every check, every operation on files and every reload may fail; renames are
atomic, and nothing else writes the target.  No sequence of calls makes a file
revoke less than it did.
-/

namespace Trstctl.Sshkrl

open Go (Bytes bytes)
open Trstctl.Result (bind_eq_ok guard_eq_ok mapError_eq_ok)

/-- What a path leads to. -/
inductive Node where
  | absent
  | special
  | regular (contents : Bytes)
deriving DecidableEq

/-- The files by cleaned path.  Temporary files get names that do not exist and
are left out. -/
abbrev Disk := Bytes → Node

namespace Disk

/-- What a path leads to. -/
def find (disk : Disk) (path : Bytes) : Node :=
  disk (Go.Path.clean path)

/-- A whole file takes the place of what the path led to. -/
def replace (disk : Disk) (path contents : Bytes) : Disk :=
  Function.update disk (Go.Path.clean path) (.regular contents)

end Disk

/-- How a rename ends: atomically, but its success may be reported as a
failure. -/
inductive Rename where
  | done
  | refused
  | unacknowledged
deriving DecidableEq

/-- The disk after a staged file was renamed. -/
def Rename.perform (outcome : Rename) (disk : Disk) (path contents : Bytes) : Disk :=
  match outcome with
  | .refused => disk
  | _ => disk.replace path contents

/-- Where a list is installed, and how. -/
structure Config where
  targetPath : Bytes
  sshdConfigPath : Bytes
  rollbackDir : Bytes
  hasChecks : Bool
  skipReloadOnUnchanged : Bool

/-- Which checks of the daemon succeed. -/
structure Runtime where
  validateSSHD : Bool
  reload : Bool
  health : Bool

/-- How the backup goes: the directory, reading what is there, writing,
renaming and syncing. -/
structure BackupFate where
  privateDirectory : Bool
  inspected : Bool
  read : Bool
  written : Bool
  rename : Rename
  synced : Bool

/-- How the rollback goes. -/
structure RollbackFate where
  staged : Bool
  rename : Rename
  synced : Bool
  runtime : Runtime

/-- The outcomes of everything a call asks of its environment. -/
structure Fate where
  activeKRLPath : Option Bytes
  locked : Bool
  lstat : Bool
  read : Bool
  predecessorValid : Bool
  staged : Bool
  candidateValid : Bool
  backup : BackupFate
  rename : Rename
  synced : Bool
  readBack : Bool
  runtime : Runtime
  rollback : RollbackFate

/-- The steps after the first visible write that may fail. -/
inductive Stage where
  | syncInstalled
  | readBackInstalled
  | verifyRunning

/-- Why a call fails. -/
inductive ApplyError where
  | pathsRequired
  | pathsNotSeparate
  | digestRequired
  | invalidDigest
  | digestMismatch
  | candidateHeader (error : ParseError)
  | activePathUnknown
  | otherActivePath (active : Bytes)
  | notLocked
  | targetMissing
  | targetNotRegular
  | predecessorUnreadable
  | predecessorHeader (error : ParseError)
  | predecessorInvalid
  | notNewer (next previous : Nat)
  | notComparable (error : ParseError)
  | candidateUnparsable (error : ParseError)
  | dropsRevocations (drop : DropError)
  | unchangedRuntime
  | notStaged
  | candidateInvalid
  | rollbackDirectory
  | rollbackNotRegular
  | rollbackNotInspected
  | rollbackDiffers
  | rollbackNotWritten
  | notRenamed
  | rolledBack (stage : Stage)
  | rollbackFailed (stage : Stage)

structure Result where
  changed : Bool
  previousVersion : Nat
  version : Nat
  sha256 : Bytes
  rollbackPath : Bytes

/-- One call of `Apply`. -/
structure Call where
  config : Config
  next : Bytes
  expectedSHA256 : Bytes
  fate : Fate

def revokesNothing (installed : Bytes) : Bool :=
  match parseRevocations installed with
  | .ok revocations => revocations.revokesNothing
  | .error _ => false

def retainsRevocations (installed candidate : Bytes) : Except ApplyError Unit := do
  let held ← (parseRevocations installed).mapError .notComparable
  let next ← (parseRevocations candidate).mapError .candidateUnparsable
  if ¬ (next.dropped held).Empty then throw (.dropsRevocations (next.dropped held))

def verifyRuntime (runtime : Runtime) : Bool :=
  runtime.validateSSHD && runtime.reload && runtime.health

def verifyUnchangedRuntime (config : Config) (runtime : Runtime) : Bool :=
  if config.skipReloadOnUnchanged then runtime.validateSSHD && runtime.health
  else verifyRuntime runtime

section

variable (sha256Hex : Bytes → Bytes)

def checkArguments (call : Call) : Except ApplyError Nat := do
  let config := call.config
  if config.hasChecks = false ∨ Go.Path.isAbs config.targetPath = false ∨
      Go.Path.isAbs config.sshdConfigPath = false ∨ Go.Path.isAbs config.rollbackDir = false then
    throw .pathsRequired
  if Go.Path.clean config.targetPath = Go.Path.clean config.sshdConfigPath ∨
      Go.Path.clean config.rollbackDir = Go.Path.clean (Go.Path.dir config.targetPath) then
    throw .pathsNotSeparate
  if call.expectedSHA256.length ≠ 64 then throw .digestRequired
  if Go.hexDecode call.expectedSHA256 = none then throw .invalidDigest
  if sha256Hex call.next ≠ Go.toLower call.expectedSHA256 then throw .digestMismatch
  (version call.next).mapError .candidateHeader

/-- The target is the path that the daemon reads. -/
def checkActivePath (call : Call) : Except ApplyError Unit :=
  match call.fate.activeKRLPath with
  | none => throw .activePathUnknown
  | some active =>
      if Go.Path.clean active ≠ Go.Path.clean call.config.targetPath then
        throw (.otherActivePath active)
      else return ()

/-- The predecessor at the target. -/
def readPredecessor (disk : Disk) (call : Call) : Except ApplyError Bytes := do
  checkActivePath call
  if call.fate.locked = false then throw .notLocked
  if call.fate.lstat = false then throw .targetMissing
  match disk.find call.config.targetPath with
  | .absent => throw .targetMissing
  | .special => throw .targetNotRegular
  | .regular previous => do
      if maxKRLBytes < previous.length then throw .targetNotRegular
      if call.fate.read = false then throw .predecessorUnreadable
      return previous

/-- The predecessor and both versions, once the candidate may replace it. -/
def accept (disk : Disk) (call : Call) : Except ApplyError (Bytes × Nat × Nat) := do
  let nextVersion ← checkArguments sha256Hex call
  let previous ← readPredecessor disk call
  let previousVersion ← (version previous).mapError .predecessorHeader
  if call.fate.predecessorValid = false then throw .predecessorInvalid
  if nextVersion < previousVersion ∨
      (nextVersion = previousVersion ∧ previous ≠ call.next ∧ revokesNothing previous = false) then
    throw (.notNewer nextVersion previousVersion)
  if previous ≠ call.next then retainsRevocations previous call.next
  return (previous, previousVersion, nextVersion)

/-- The name of a predecessor in the rollback directory. -/
def backupName (target data : Bytes) (version : Nat) : Bytes :=
  Go.Path.base target ++ bytes "-v" ++ Go.decimal version ++ bytes "-" ++
    (sha256Hex data).take 16 ++ bytes ".krl"

def durableBackup (disk : Disk) (config : Config) (data : Bytes) (version : Nat)
    (fate : BackupFate) : Disk × Except ApplyError Bytes :=
  let path := Go.Path.join config.rollbackDir (backupName sha256Hex config.targetPath data version)
  if fate.privateDirectory = false then (disk, .error .rollbackDirectory)
  else if fate.inspected = false then (disk, .error .rollbackNotInspected)
  else
    match disk.find path with
    | .special => (disk, .error .rollbackNotRegular)
    | .regular old =>
        if fate.read = false then (disk, .error .rollbackNotInspected)
        else if old = data then (disk, .ok path)
        else (disk, .error .rollbackDiffers)
    | .absent =>
        if fate.written = false then (disk, .error .rollbackNotWritten)
        else if fate.rename ≠ .done ∨ fate.synced = false then
          (fate.rename.perform disk path data, .error .rollbackNotWritten)
        else (fate.rename.perform disk path data, .ok path)

/-- `rollback`: the disk after it and the error of the call. -/
def rollback (disk : Disk) (config : Config) (previous : Bytes) (fate : RollbackFate)
    (stage : Stage) : Disk × ApplyError :=
  if fate.staged = false then (disk, .rollbackFailed stage)
  else
    let restored := fate.rename.perform disk config.targetPath previous
    if fate.rename ≠ .done ∨ fate.synced = false ∨ verifyRuntime fate.runtime = false then
      (restored, .rollbackFailed stage)
    else (restored, .rolledBack stage)

/-- The stage after the rename at which an installation fails. -/
def failedStage (disk : Disk) (call : Call) : Option Stage :=
  if call.fate.synced = false then some .syncInstalled
  else if call.fate.readBack = false ∨
      disk.find call.config.targetPath ≠ .regular call.next then some .readBackInstalled
  else if verifyRuntime call.fate.runtime = false then some .verifyRunning
  else none

/-- The candidate is staged, validated, renamed over the target and checked. -/
def install (disk : Disk) (call : Call) (previous : Bytes) (result : Result) :
    Disk × Except ApplyError Result :=
  if call.fate.staged = false then (disk, .error .notStaged)
  else if call.fate.candidateValid = false then (disk, .error .candidateInvalid)
  else
    match durableBackup sha256Hex disk call.config previous result.previousVersion
        call.fate.backup with
    | (backed, .error error) => (backed, .error error)
    | (backed, .ok backupPath) =>
        let installed := call.fate.rename.perform backed call.config.targetPath call.next
        if call.fate.rename ≠ .done then (installed, .error .notRenamed)
        else
          match failedStage installed call with
          | some stage =>
              let (restored, error) := rollback installed call.config previous call.fate.rollback
                stage
              (restored, .error error)
          | none => (installed, .ok { result with changed := true, rollbackPath := backupPath })

def apply (disk : Disk) (call : Call) : Disk × Except ApplyError Result :=
  match accept sha256Hex disk call with
  | .error error => (disk, .error error)
  | .ok (previous, previousVersion, nextVersion) =>
      let result : Result := {
        changed := false
        previousVersion := previousVersion
        version := nextVersion
        sha256 := sha256Hex call.next
        rollbackPath := []
      }
      if previous = call.next then
        if verifyUnchangedRuntime call.config call.fate.runtime then (disk, .ok result)
        else (disk, .error .unchangedRuntime)
      else install sha256Hex disk call previous result

/-- The disk after a sequence of calls. -/
def run (disk : Disk) (calls : List Call) : Disk :=
  calls.foldl (fun before call => (apply sha256Hex before call).1) disk

end

/-- What was there is still there. -/
def Grows (before after : Disk) : Prop :=
  ∀ path, before path ≠ .absent → after path = before path

theorem Grows.refl (disk : Disk) : Grows disk disk :=
  fun _ _ => rfl

section

variable {sha256Hex : Bytes → Bytes} {disk : Disk}

/-- A backup only fills a path that led nowhere. -/
theorem grows_durableBackup (config : Config) (data : Bytes) (version : Nat) (fate : BackupFate) :
    Grows disk (durableBackup sha256Hex disk config data version fate).1 := by
  have fills : ∀ path, disk.find path = .absent →
      Grows disk (fate.rename.perform disk path data) := by
    intro path free other taken
    have apart : other ≠ Go.Path.clean path := by
      rintro rfl
      exact taken free
    cases fate.rename with
    | refused => rfl
    | done => exact Function.update_of_ne apart _ _
    | unacknowledged => exact Function.update_of_ne apart _ _
  unfold durableBackup
  dsimp only
  split
  · exact Grows.refl disk
  · split
    · exact Grows.refl disk
    · cases found : disk.find (Go.Path.join config.rollbackDir
          (backupName sha256Hex config.targetPath data version)) with
      | special => exact Grows.refl disk
      | regular old =>
          dsimp only
          split_ifs
          · exact Grows.refl disk
          · exact Grows.refl disk
          · exact Grows.refl disk
      | absent =>
          dsimp only
          split_ifs
          · exact Grows.refl disk
          · exact fills _ found
          · exact fills _ found

/-- What is known of a predecessor that the candidate may replace. -/
structure Admitted (disk : Disk) (call : Call)
    (previous : Bytes) (previousVersion nextVersion : Nat) :
    Prop where
  stored : disk.find call.config.targetPath = .regular previous
  previousVersion_eq : version previous = .ok previousVersion
  nextVersion_eq : version call.next = .ok nextVersion
  ordered : previousVersion ≤ nextVersion
  retained : previous ≠ call.next → retainsRevocations previous call.next = .ok ()

theorem stored_of_readPredecessor {call : Call} {previous : Bytes}
    (read : readPredecessor disk call = .ok previous) :
    disk.find call.config.targetPath = .regular previous := by
  obtain ⟨-, -, read⟩ := bind_eq_ok.mp read
  obtain ⟨-, read⟩ := guard_eq_ok.mp read
  obtain ⟨-, read⟩ := guard_eq_ok.mp read
  cases found : disk.find call.config.targetPath with
  | absent =>
      rw [found] at read
      exact absurd read (by simp [throw, throwThe, MonadExceptOf.throw])
  | special =>
      rw [found] at read
      exact absurd read (by simp [throw, throwThe, MonadExceptOf.throw])
  | regular contents =>
      rw [found] at read
      obtain ⟨-, read⟩ := guard_eq_ok.mp read
      obtain ⟨-, same⟩ := guard_eq_ok.mp read
      rw [Except.ok.inj same]

theorem admitted_of_accept {call : Call} {previous : Bytes} {previousVersion nextVersion : Nat}
    (accepts : accept sha256Hex disk call = .ok (previous, previousVersion, nextVersion)) :
    Admitted disk call previous previousVersion nextVersion := by
  obtain ⟨number, arguments, accepts⟩ := bind_eq_ok.mp accepts
  obtain ⟨old, read, accepts⟩ := bind_eq_ok.mp accepts
  obtain ⟨oldNumber, header, accepts⟩ := bind_eq_ok.mp accepts
  obtain ⟨-, accepts⟩ := guard_eq_ok.mp accepts
  obtain ⟨newer, accepts⟩ := guard_eq_ok.mp accepts
  have candidate : version call.next = .ok number := by
    obtain ⟨-, checked⟩ := guard_eq_ok.mp arguments
    obtain ⟨-, checked⟩ := guard_eq_ok.mp checked
    obtain ⟨-, checked⟩ := guard_eq_ok.mp checked
    obtain ⟨-, checked⟩ := guard_eq_ok.mp checked
    obtain ⟨-, checked⟩ := guard_eq_ok.mp checked
    exact mapError_eq_ok.mp checked
  have done : (old, oldNumber, number) = (previous, previousVersion, nextVersion) ∧
      (old ≠ call.next → retainsRevocations old call.next = .ok ()) := by
    dsimp only at accepts
    split at accepts
    · obtain ⟨_, retains, result⟩ := bind_eq_ok.mp accepts
      exact ⟨Except.ok.inj result, fun _ => retains⟩
    · next same => exact ⟨Except.ok.inj accepts, fun different => absurd different same⟩
  obtain ⟨same, retained⟩ := done
  simp only [Prod.mk.injEq] at same
  obtain ⟨rfl, rfl, rfl⟩ := same
  refine ⟨stored_of_readPredecessor read, mapError_eq_ok.mp header, candidate, ?_, retained⟩
  rw [not_or] at newer
  exact not_lt.mp newer.1

theorem rollback_cases (config : Config) (previous : Bytes) (fate : RollbackFate) (stage : Stage) :
    (rollback disk config previous fate stage).1 = disk ∨
      (rollback disk config previous fate stage).1 = disk.replace config.targetPath previous := by
  have renamed : fate.rename.perform disk config.targetPath previous = disk ∨
      fate.rename.perform disk config.targetPath previous =
        disk.replace config.targetPath previous := by
    cases fate.rename with
    | refused => exact .inl rfl
    | done => exact .inr rfl
    | unacknowledged => exact .inr rfl
  unfold rollback
  dsimp only
  split_ifs
  · exact .inl rfl
  · exact renamed
  · exact renamed

/-- What an installation can do to the disk after the backup. -/
inductive Installs (call : Call) (previous : Bytes) (backed : Disk) : Disk → Prop
  | nothing : Installs call previous backed backed
  | candidate :
      Installs call previous backed (backed.replace call.config.targetPath call.next)
  | restored :
      Installs call previous backed
        ((backed.replace call.config.targetPath call.next).replace call.config.targetPath previous)

theorem install_cases (call : Call) (previous : Bytes) (result : Result) :
    ∃ backed, Grows disk backed ∧
      Installs call previous backed (install sha256Hex disk call previous result).1 := by
  have grows : Grows disk (durableBackup sha256Hex disk call.config previous
      result.previousVersion call.fate.backup).1 := grows_durableBackup _ _ _ _
  unfold install
  split
  · exact ⟨disk, Grows.refl disk, .nothing⟩
  split
  · exact ⟨disk, Grows.refl disk, .nothing⟩
  generalize durableBackup sha256Hex disk call.config previous result.previousVersion
    call.fate.backup = backup at grows ⊢
  obtain ⟨backed, _ | path⟩ := backup
  · exact ⟨backed, grows, .nothing⟩
  refine ⟨backed, grows, ?_⟩
  dsimp only
  cases call.fate.rename with
  | refused => exact .nothing
  | unacknowledged => exact .candidate
  | done =>
      dsimp only [Rename.perform]
      rw [if_neg (by simp)]
      cases failedStage (backed.replace call.config.targetPath call.next) call with
      | none => exact .candidate
      | some stage =>
          dsimp only
          rcases @rollback_cases (backed.replace call.config.targetPath call.next) call.config
            previous call.fate.rollback stage with left | restored
          · rw [left]
            exact .candidate
          · rw [restored]
            exact .restored

theorem apply_cases (call : Call) :
    (apply sha256Hex disk call).1 = disk ∨
      ∃ previous previousVersion nextVersion backed,
        Admitted disk call previous previousVersion nextVersion ∧ previous ≠ call.next ∧
          Grows disk backed ∧ Installs call previous backed (apply sha256Hex disk call).1 := by
  unfold apply
  cases accepts : accept sha256Hex disk call with
  | error error => exact .inl rfl
  | ok admitted =>
      obtain ⟨previous, previousVersion, nextVersion⟩ := admitted
      dsimp only
      split_ifs with unchanged verified
      · exact .inl rfl
      · exact .inl rfl
      · obtain ⟨backed, grows, installs⟩ := install_cases call previous _
        exact .inr ⟨previous, previousVersion, nextVersion, backed, admitted_of_accept accepts,
          unchanged, grows, installs⟩

end

namespace Node

/-- What a file revokes. -/
def revocations : Node → Option Revocations
  | .regular contents => (parseRevocations contents).toOption
  | _ => none

/-- The version of a file. -/
def version : Node → Option Nat
  | .regular contents => (Sshkrl.version contents).toOption
  | _ => none

/-- A file revokes all that it revoked before, in a version that is not lower. -/
structure Upholds (after before : Node) : Prop where
  revocations : ∀ earlier ∈ before.revocations, ∃ later ∈ after.revocations, later.Retains earlier
  version : ∀ earlier ∈ before.version, ∃ later ∈ after.version, earlier ≤ later

theorem Upholds.refl (node : Node) : node.Upholds node where
  revocations earlier member := ⟨earlier, member, .refl earlier⟩
  version earlier member := ⟨earlier, member, le_rfl⟩

theorem Upholds.trans {last between first : Node} (later : last.Upholds between)
    (earlier : between.Upholds first) :
    last.Upholds first where
  revocations revoked member := by
    obtain ⟨middle, middleMember, kept⟩ := earlier.revocations revoked member
    obtain ⟨final, finalMember, keptAgain⟩ := later.revocations middle middleMember
    exact ⟨final, finalMember, keptAgain.trans kept⟩
  version number member := by
    obtain ⟨middle, middleMember, ordered⟩ := earlier.version number member
    obtain ⟨final, finalMember, orderedAgain⟩ := later.version middle middleMember
    exact ⟨final, finalMember, ordered.trans orderedAgain⟩

theorem upholds_absent (node : Node) : node.Upholds .absent where
  revocations _ member := by cases member
  version _ member := by cases member

end Node

theorem retains_of_retainsRevocations {installed candidate : Bytes}
    (retained : retainsRevocations installed candidate = .ok ()) :
    ∃ held next, parseRevocations installed = .ok held ∧ parseRevocations candidate = .ok next ∧
      next.Retains held := by
  obtain ⟨held, heldParsed, rest⟩ := bind_eq_ok.mp retained
  obtain ⟨next, nextParsed, compared⟩ := bind_eq_ok.mp rest
  have heldRead := mapError_eq_ok.mp heldParsed
  have nextRead := mapError_eq_ok.mp nextParsed
  obtain ⟨empty, -⟩ := Result.lastGuard_eq_ok.mp compared
  exact ⟨held, next, heldRead, nextRead,
    (Revocations.dropped_empty_iff (wellFormed_of_parse nextRead)
      (wellFormed_of_parse heldRead)).mp (not_not.mp empty)⟩

section

variable {sha256Hex : Bytes → Bytes} {disk : Disk}

theorem Admitted.upholds {call : Call} {previous : Bytes} {previousVersion nextVersion : Nat}
    (admitted : Admitted disk call previous previousVersion nextVersion)
    (different : previous ≠ call.next) :
    (Node.regular call.next).Upholds (.regular previous) where
  revocations earlier member := by
    obtain ⟨held, next, heldRead, nextRead, retains⟩ :=
      retains_of_retainsRevocations (admitted.retained different)
    rw [Node.revocations, heldRead] at member
    rw [Node.revocations, nextRead]
    obtain rfl := Option.some.inj member
    exact ⟨next, rfl, retains⟩
  version earlier member := by
    rw [Node.version, admitted.previousVersion_eq] at member
    rw [Node.version, admitted.nextVersion_eq]
    obtain rfl := Option.some.inj member
    exact ⟨nextVersion, rfl, admitted.ordered⟩

theorem Grows.upholds {before after : Disk} (grows : Grows before after) (path : Bytes) :
    (after path).Upholds (before path) := by
  by_cases free : before path = .absent
  · rw [free]
    exact Node.upholds_absent _
  · rw [grows path free]
    exact Node.Upholds.refl _

theorem apply_upholds (call : Call) (path : Bytes) :
    ((apply sha256Hex disk call).1 path).Upholds (disk path) := by
  rcases @apply_cases sha256Hex disk call with
    same | ⟨previous, previousVersion, nextVersion, backed, admitted, different, grows, installs⟩
  · rw [same]
    exact Node.Upholds.refl _
  · generalize (apply sha256Hex disk call).1 = after at installs ⊢
    by_cases target : path = Go.Path.clean call.config.targetPath
    · subst target
      have stored : disk (Go.Path.clean call.config.targetPath) = .regular previous :=
        admitted.stored
      cases installs with
      | nothing => exact grows.upholds _
      | candidate =>
          rw [Disk.replace, Function.update_self, stored]
          exact admitted.upholds different
      | restored =>
          rw [Disk.replace, Function.update_self, stored]
          exact Node.Upholds.refl _
    · cases installs with
      | nothing => exact grows.upholds path
      | candidate =>
          rw [Disk.replace, Function.update_of_ne target]
          exact grows.upholds path
      | restored =>
          rw [Disk.replace, Function.update_of_ne target, Disk.replace,
            Function.update_of_ne target]
          exact grows.upholds path

theorem run_upholds (calls : List Call) (path : Bytes) :
    (run sha256Hex disk calls path).Upholds (disk path) := by
  induction calls generalizing disk with
  | nil => exact Node.Upholds.refl _
  | cons call rest ih =>
      exact ih.trans (apply_upholds call path)

end

/-- In every sequence of calls, whatever fails, no file ever revokes less than it
did or goes back to a lower version; and for two lists that are read, nothing is
dropped exactly when the candidate revokes all that the installed one does, and
the serial count is the number of dropped pairs, as far as a word goes. -/
theorem host_never_unrevokes
    (sha256Hex : Bytes → Bytes)
    (disk : Disk)
    (earlier later : List Call)
    (path : Bytes) :
    (run sha256Hex disk (earlier ++ later) path).Upholds (run sha256Hex disk earlier path) ∧
      ∀ {installedData candidateData : Bytes} {installed candidate : Revocations},
        parseRevocations installedData = .ok installed →
        parseRevocations candidateData = .ok candidate →
        ((candidate.dropped installed).Empty ↔ candidate.Retains installed) ∧
          (candidate.dropped installed).serials =
            min (candidate.droppedSerials installed).ncard (2 ^ 64 - 1) := by
  constructor
  · rw [run, List.foldl_append]
    exact run_upholds later path
  · intro installedData candidateData installed candidate installedRead candidateRead
    have installedWellFormed := wellFormed_of_parse installedRead
    have candidateWellFormed := wellFormed_of_parse candidateRead
    exact ⟨Revocations.dropped_empty_iff candidateWellFormed installedWellFormed,
      Revocations.dropped_serials candidateWellFormed installedWellFormed⟩

/-- A list with one part in the scope of any authority. -/
def sampleList (version : Nat) (part : Bytes) : Bytes :=
  krlMagic ++ [0, 0, 0, 1] ++ Go.bigEndian64 version ++ List.replicate 24 0 ++
    [1, 0, 0, 0, (8 + part.length).toUInt8] ++ List.replicate 8 0 ++ part

/-- Version 1 revokes the serial 101. -/
def sampleInstalled : Bytes :=
  sampleList 1 ([0x20, 0, 0, 0, 8] ++ Go.bigEndian64 101)

/-- Version 2 revokes the serials from 100 to 102. -/
def sampleCandidate : Bytes :=
  sampleList 2 ([0x21, 0, 0, 0, 16] ++ Go.bigEndian64 100 ++ Go.bigEndian64 102)

/-- What a sample list revokes. -/
def sampleRevocations (version : Nat) (range : Span) : Revocations where
  version := version
  certs := [([], { serials := [range], keyIDs := ∅ })]
  keys := ∅
  sha1 := ∅
  sha256 := ∅
  entries := 1

/-- The SHA-256 digests of the sample lists. -/
def sampleSHA256Hex (data : Bytes) : Bytes :=
  if data = sampleInstalled then
    bytes "e70e0afa497a668899f86e0b975b4982c5e01be1b783e60acf7785469e3a4ead"
  else if data = sampleCandidate then
    bytes "5294e32dfd0b80365497cf97d0364aed73342186180d302c0cba0ab26c2116e8"
  else []

/-- The daemon reads the installed list at `/etc/ssh/revoked_keys`. -/
def sampleDisk : Disk :=
  Function.update (fun _ => .absent) (bytes "/etc/ssh/revoked_keys") (.regular sampleInstalled)

/-- The candidate is installed, the daemon is not healthy with it, and the
rollback fails as well. -/
def sampleCall : Call where
  config := {
    targetPath := bytes "/etc/ssh/revoked_keys"
    sshdConfigPath := bytes "/etc/ssh/sshd_config"
    rollbackDir := bytes "/var/lib/trstctl/krl"
    hasChecks := true
    skipReloadOnUnchanged := false
  }
  next := sampleCandidate
  expectedSHA256 := sampleSHA256Hex sampleCandidate
  fate := {
    activeKRLPath := some (bytes "/etc/ssh/revoked_keys")
    locked := true
    lstat := true
    read := true
    predecessorValid := true
    staged := true
    candidateValid := true
    backup := {
      privateDirectory := true
      inspected := true
      read := true
      written := true
      rename := .done
      synced := true
    }
    rename := .done
    synced := true
    readBack := true
    runtime := { validateSSHD := true, reload := true, health := false }
    rollback := {
      staged := true
      rename := .refused
      synced := true
      runtime := { validateSSHD := true, reload := true, health := true }
    }
  }

/-- After the failed installation the candidate is in force and upholds the
predecessor; going back would drop two serials. -/
theorem host_never_unrevokes_sample :
    run sampleSHA256Hex sampleDisk [sampleCall] (bytes "/etc/ssh/revoked_keys") =
        .regular sampleCandidate ∧
      (run sampleSHA256Hex sampleDisk [sampleCall] (bytes "/etc/ssh/revoked_keys")).Upholds
        (sampleDisk (bytes "/etc/ssh/revoked_keys")) ∧
      min ((sampleRevocations 1 ⟨101, 101⟩).droppedSerials
        (sampleRevocations 2 ⟨100, 102⟩)).ncard (2 ^ 64 - 1) = 2 := by
  have installed : parseRevocations sampleInstalled = .ok (sampleRevocations 1 ⟨101, 101⟩) := by
    decide +kernel
  have candidate : parseRevocations sampleCandidate = .ok (sampleRevocations 2 ⟨100, 102⟩) := by
    decide +kernel
  obtain ⟨upholds, compares⟩ := host_never_unrevokes sampleSHA256Hex sampleDisk [] [sampleCall]
    (bytes "/etc/ssh/revoked_keys")
  refine ⟨by decide +kernel, upholds, ?_⟩
  rw [← (compares candidate installed).2]
  decide +kernel

end Trstctl.Sshkrl
