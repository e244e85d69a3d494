import Trstctl.Accessrules.Rule

/-!
# The SSH command rule

`SSHOperations` (`internal/accessrules/ssh.go`): the programs in the command
positions of a shell line.  The loop keeps two flags, for a position where a
command may start and for a redirection whose target is still to come.
-/

namespace Trstctl.Accessrules.Ssh

open Go (Bytes bytes)

/-- The greatest size of a line. -/
def maxSSHCommandBytes : Nat := 64 * 1024

/-- The programs that the rule knows. -/
def sshOperationNames : List Bytes :=
  ["bash", "chmod", "chown", "chpasswd", "command", "dd", "env", "exec", "iptables", "kill",
    "mkfs", "mount", "nft", "node", "passwd", "perl", "python", "python3", "reboot", "rm",
    "rmdir", "ruby", "scp", "sftp", "sh", "ssh", "su", "sudo", "systemctl", "umount", "useradd",
    "userdel"].map bytes

/-- The words after which the loop still expects a command. -/
def keywords : List Bytes :=
  ["if", "then", "else", "elif", "while", "until", "do", "!"].map bytes

/-- The bytes that end a word. -/
def breakByte (byte : UInt8) : Bool :=
  (bytes " \t\r\n;|&()\x7b\x7d<>").contains byte

/-- What `sshCommandWord` has read of a word. -/
structure WordState where
  word : Bytes := []
  dynamic : Bool := false
  quoted : Bool := false
  overflow : Bool := false

/-- `add`: up to 4096 bytes are captured. -/
def WordState.add (state : WordState) (capture : Bool) (byte : UInt8) : WordState :=
  if capture && state.word.length < 4096 then { state with word := state.word ++ [byte] }
  else if capture then { state with overflow := true }
  else state

/-- A `$` or a backquote, the start of an expansion. -/
def expands (byte : UInt8) : Bool :=
  byte == 0x24 || byte == 0x60

/-- The loop of `sshCommandWord`, outside or inside quotes: what it reads and the
bytes it passes.  It fails at the end of the text after a backslash and inside
quotes. -/
def wordLoop (capture : Bool) : Option UInt8 → WordState → Bytes → Option (WordState × Nat)
  | none, state, [] => some (state, 0)
  | some _, _, [] => none
  | none, state, byte :: rest =>
      if breakByte byte then some (state, 0)
      else if byte == 0x5C then
        match rest with
        | [] => none
        | next :: after =>
            (wordLoop capture none (if next == 0x0A then state else state.add capture next)
              after).map fun (state, length) => (state, length + 2)
      else if byte == 0x27 || byte == 0x22 then
        (wordLoop capture (some byte) { state with quoted := true } rest).map
          fun (state, length) => (state, length + 1)
      else
        (wordLoop capture none
          ({ state with dynamic := state.dynamic || expands byte }.add capture byte) rest).map
          fun (state, length) => (state, length + 1)
  | some quote, state, byte :: rest =>
      if byte == quote then
        (wordLoop capture none state rest).map fun (state, length) => (state, length + 1)
      else if quote == 0x22 && byte == 0x5C then
        match rest with
        | [] => none
        | next :: after =>
            (wordLoop capture (some quote) (state.add capture next) after).map
              fun (state, length) => (state, length + 2)
      else
        (wordLoop capture (some quote)
          ({ state with dynamic := state.dynamic || (quote == 0x22 && expands byte) }.add capture
            byte) rest).map
          fun (state, length) => (state, length + 1)

/-- `sshCommandWord`: a word has at least one byte and does not overflow. -/
def sshCommandWord (raw : Bytes) (capture : Bool) : Option (WordState × Nat) :=
  match wordLoop capture none {} raw with
  | none => none
  | some (state, length) => if length = 0 ∨ state.overflow = true then none
    else some (state, length)

/-- A byte of the name in an assignment, at its start or later. -/
def nameByte (start : Bool) (byte : UInt8) : Bool :=
  byte == 0x5F || (0x61 ≤ byte && byte ≤ 0x7A) || (0x41 ≤ byte && byte ≤ 0x5A) ||
    (!start && pgDigit byte)

/-- A name: a first byte and further ones. -/
def isName : Bytes → Bool
  | [] => false
  | first :: rest => nameByte true first && rest.all (nameByte false)

/-- A name and an equals sign start the word. -/
def sshAssignment (word : Bytes) : Bool :=
  word.contains 0x3D && isName (word.takeWhile (· != 0x3D))

/-- The bytes after the last slash. -/
def basename (word : Bytes) : Bytes :=
  (word.reverse.takeWhile (· != 0x2F)).reverse

/-- The flags of the loop. -/
structure Flags where
  command : Bool
  redirect : Bool

/-- What a word does to the flags, and the program it names. -/
def readWord (flags : Flags) (word : WordState) : Flags × Option Bytes :=
  if flags.redirect then ({ flags with redirect := false }, none)
  else if !flags.command then (flags, none)
  else if sshAssignment word.word then (flags, none)
  else if !word.quoted && word.word ∈ keywords then (flags, none)
  else
    ({ flags with command := false },
      if !word.dynamic && basename word.word ∈ sshOperationNames then some (basename word.word)
      else none)

/-- The digits of a file descriptor in front of a redirection. -/
def descriptor (flags : Flags) (raw : Bytes) : Nat :=
  let next := (raw.dropWhile pgDigit).head?
  if flags.command = true ∧ (next = some 0x3C ∨ next = some 0x3E) then
    (raw.takeWhile pgDigit).length
  else 0

/-- The iteration at a redirection or a word. -/
def redirectionOrWord (flags : Flags) (raw : Bytes) : Option (Lexeme Flags (Option Bytes)) :=
  let digits := descriptor flags raw
  match raw.drop digits with
  | [] => none
  | byte :: rest =>
      if byte = 0x3C ∨ byte = 0x3E then
        if byte = 0x3C ∧ rest.head? = some 0x3C then none
        else
          some
            { more := digits + (if rest.head? = some byte then 1 else 0)
              state := { flags with redirect := true }
              report := none }
      else
        (sshCommandWord raw (flags.command && !flags.redirect)).map fun (word, length) =>
          { more := length - 1, state := (readWord flags word).1,
            report := (readWord flags word).2 }

/-- One iteration of the loop of `SSHOperations`. -/
def iteration (flags : Flags) : Bytes → Option (Lexeme Flags (Option Bytes))
  | [] => none
  | byte :: rest =>
      if byte = 0x20 ∨ byte = 0x09 ∨ byte = 0x0D then some ⟨0, flags, none⟩
      else if (bytes "\n;|&(\x7b").contains byte then
        some ⟨0, { command := true, redirect := false }, none⟩
      else if byte = 0x29 ∨ byte = 0x7D then some ⟨0, { flags with command := false }, none⟩
      else if byte = 0x23 then some ⟨(rest.takeWhile (· != 0x0A)).length, flags, none⟩
      else redirectionOrWord flags (byte :: rest)

/-- The loop of `SSHOperations` from its flags. -/
def scanFrom (flags : Flags) (raw : Bytes) : Option (List (Option Bytes)) :=
  Scanner.scan (fun flags _ => iteration flags) 0 flags [] raw

/-- `SSHOperations`, with `none` for `ErrUninspectable`. -/
def sshOperations (raw : Bytes) : Option (List Bytes) :=
  if Uninspectable maxSSHCommandBytes raw then none
  else
    (scanFrom { command := true, redirect := false } raw).map fun found =>
      (collect found).insertionSort (· ≤ ·)

end Trstctl.Accessrules.Ssh
