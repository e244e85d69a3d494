import Trstctl.Translog.Membership

/-!
# The log and the bytes of its proofs

`EncodeProof` and `DecodeProof` of `internal/translog/proof.go`, the
two's-complement words of `internal/translog/codec.go`, and the log of
`internal/translog/log.go`.  A nil byte string and an empty one are not told
apart.
-/

namespace Trstctl.Translog

open Go (Bytes bytes bigEndian64)

/-- The number eight bytes spell, `binary.BigEndian.Uint64`. -/
def wordOf (word : Bytes) : Nat :=
  word.foldl (fun number byte => number * 256 + byte.toNat) 0

/-- `putI64BE`: the low eight bits of each arithmetic shift of the number. -/
def putI64BE (value : Int) : Bytes :=
  [56, 48, 40, 32, 24, 16, 8, 0].map fun shift : Nat => (value / 2 ^ shift % 256).toNat.toUInt8

/-- The signed 64-bit integer with the bits of a number. -/
def wrapWord (value : Int) : Int :=
  (value + 2 ^ 63) % 2 ^ 64 - 2 ^ 63

/-- `i64BE`, whose shift `v<<8 | int64(b)` wraps. -/
def i64BE (word : Bytes) : Int :=
  word.foldl (fun value byte => wrapWord (value * 256 + byte.toNat)) 0

theorem bigEndian64_wordOf {word : Bytes} (width : word.length = 8) :
    wordOf word < 2 ^ 64 ∧ bigEndian64 (wordOf word) = word := by
  rcases word with _ | ⟨a, _ | ⟨b, _ | ⟨c, _ | ⟨d, _ | ⟨e, _ | ⟨f, _ | ⟨g, _ | ⟨h, rest⟩⟩⟩⟩⟩⟩⟩⟩
  all_goals simp only [List.length_nil, List.length_cons] at width
  all_goals try omega
  obtain rfl : rest = [] := List.length_eq_zero_iff.mp (by omega)
  have := a.toNat_lt
  have := b.toNat_lt
  have := c.toNat_lt
  have := d.toNat_lt
  have := e.toNat_lt
  have := f.toNat_lt
  have := g.toNat_lt
  have := h.toNat_lt
  simp only [bigEndian64, wordOf, List.foldl_cons, List.foldl_nil, List.cons.injEq, and_true,
    ← UInt8.toNat_inj, Nat.toUInt8, UInt8.toNat_ofNat']
  omega

theorem wordOf_bigEndian64 {value : Nat} (bounded : value < 2 ^ 64) :
    wordOf (bigEndian64 value) = value :=
  have word := bigEndian64_wordOf (Go.length_bigEndian64 value)
  Go.bigEndian64_injective word.1 bounded word.2

theorem putI64BE_eq (value : Int) :
    putI64BE value = bigEndian64 (value % 2 ^ 64).toNat := by
  simp only [putI64BE, bigEndian64, List.map_cons, List.map_nil, List.cons.injEq, and_true,
    ← UInt8.toNat_inj, Nat.toUInt8, UInt8.toNat_ofNat']
  omega

theorem wrapWord_shift (value : Int) (byte : UInt8) :
    wrapWord (wrapWord value * 256 + byte.toNat) = wrapWord (value * 256 + byte.toNat) := by
  unfold wrapWord
  omega

theorem i64BE_eq (word : Bytes) : i64BE word = wrapWord (wordOf word) := by
  have general (number : Nat) :
      word.foldl (fun value byte => wrapWord (value * 256 + byte.toNat)) (wrapWord number) =
        wrapWord (word.foldl (fun number byte => number * 256 + byte.toNat) number : Nat) := by
    induction word generalizing number with
    | nil => rw [List.foldl_nil, List.foldl_nil]
    | cons byte word ih =>
        rw [List.foldl_cons, List.foldl_cons, wrapWord_shift, ← ih,
          Int.natCast_add, Int.natCast_mul, Int.cast_ofNat_Int]
  have start : wrapWord (0 : Nat) = 0 := by
    unfold wrapWord
    omega
  rw [i64BE, wordOf, ← general 0, start]

theorem i64BE_putI64BE {value : Int} (lowest : -2 ^ 63 ≤ value) (bounded : value < 2 ^ 63) :
    i64BE (putI64BE value) = value := by
  rw [i64BE_eq, putI64BE_eq, wordOf_bigEndian64 (by omega), wrapWord]
  omega

theorem putI64BE_i64BE {word : Bytes} (width : word.length = 8) :
    putI64BE (i64BE word) = word := by
  have read := bigEndian64_wordOf width
  have residue : wrapWord (wordOf word) % 2 ^ 64 = wordOf word := by
    unfold wrapWord
    omega
  rw [putI64BE_eq, i64BE_eq, residue, Int.toNat_natCast, read.2]

def writeChunk (chunk : Bytes) : Bytes :=
  bigEndian64 chunk.length ++ chunk

def expect (start text : Bytes) : Option Bytes :=
  if text.length < start.length ∨ text.take start.length ≠ start then none
  else some (text.drop start.length)

/-- A number in eight bytes. -/
def readWord {Value : Type} (decode : Bytes → Value) (text : Bytes) : Option (Value × Bytes) :=
  if text.length < 8 then none else some (decode (text.take 8), text.drop 8)

/-- `(*reader).u64`. -/
def readU64 : Bytes → Option (Nat × Bytes) :=
  readWord wordOf

/-- `(*reader).i64`. -/
def readI64 : Bytes → Option (Int × Bytes) :=
  readWord i64BE

/-- `(*reader).chunk`. -/
def readChunk (text : Bytes) : Option (Bytes × Bytes) := do
  let (length, rest) ← readU64 text
  if rest.length < length then none else some (rest.take length, rest.drop length)

/-- The loop that reads the audit path. -/
def readChunks : Nat → Bytes → Option (List Bytes × Bytes)
  | 0, text => some ([], text)
  | count + 1, text => do
      let (chunk, text) ← readChunk text
      let (chunks, text) ← readChunks count text
      some (chunk :: chunks, text)

def proofDomain : Bytes :=
  bytes "trstctl/pcas/translog/proof/v1"

/-- The bytes of a proof. -/
def encodeProof (proof : Proof) : Bytes :=
  proofDomain ++ (putI64BE proof.sth.treeSize ++ (putI64BE proof.sth.timestamp ++
    (writeChunk proof.sth.rootHash ++ (writeChunk proof.sth.signature ++
      (putI64BE proof.index ++ (bigEndian64 proof.auditPath.length ++
        proof.auditPath.flatMap writeChunk))))))

/-- The reads of `DecodeProof`, each of which fails alike. -/
def parseProof (input : Bytes) : Option Proof := do
  let text ← expect proofDomain input
  let (treeSize, text) ← readU64 text
  let (timestamp, text) ← readI64 text
  let (root, text) ← readChunk text
  let (signature, text) ← readChunk text
  let (index, text) ← readU64 text
  let (count, text) ← readU64 text
  if text.length < count then none
  else if 2 ^ 63 - 1 < treeSize ∨ 2 ^ 63 - 1 < index then none
  else
    let (path, text) ← readChunks count text
    if text ≠ [] then none
    else
      let sth : STH := ⟨treeSize, root, timestamp, signature⟩
      some ⟨sth, index, path⟩

/-- The proof in a text. -/
def decodeProof (input : Bytes) : Except ProofError Proof :=
  match parseProof input with
  | none => .error .malformed
  | some proof => .ok proof

/-- A reader takes from a text exactly what the writer writes of a value. -/
def Reads {Value : Type} (read : Bytes → Option (Value × Bytes)) (write : Value → Bytes)
    (valid : Value → Prop) : Prop :=
  ∀ text value rest, read text = some (value, rest) ↔ valid value ∧ text = write value ++ rest

theorem reads_word {Value : Type} {valid : Value → Prop} {decode : Bytes → Value}
    {encode : Value → Bytes} (width : ∀ value, (encode value).length = 8)
    (decoded : ∀ value, valid value → decode (encode value) = value)
    (encoded : ∀ word, word.length = 8 → valid (decode word) ∧ encode (decode word) = word) :
    Reads (readWord decode) encode valid := by
  intro text value rest
  rw [readWord]
  constructor
  · intro read
    split at read
    · cases read
    · rename_i long
      obtain ⟨rfl, rfl⟩ : decode (text.take 8) = value ∧ text.drop 8 = rest := by
        simpa using read
      have word := encoded (text.take 8) (by rw [List.length_take]; omega)
      exact ⟨word.1, by rw [word.2, List.take_append_drop]⟩
  · rintro ⟨sound, rfl⟩
    have long : ¬ (encode value ++ rest).length < 8 := by
      rw [List.length_append, width]
      omega
    rw [if_neg long, List.take_left' (width value), List.drop_left' (width value),
      decoded value sound]

theorem reads_u64 : Reads readU64 bigEndian64 (· < 2 ^ 64) :=
  reads_word Go.length_bigEndian64 (fun _ => wordOf_bigEndian64) fun _ => bigEndian64_wordOf

theorem reads_i64 : Reads readI64 putI64BE fun value => -2 ^ 63 ≤ value ∧ value < 2 ^ 63 := by
  refine reads_word (fun value => rfl) (fun value range => i64BE_putI64BE range.1 range.2)
    fun word width => ⟨?_, putI64BE_i64BE width⟩
  rw [i64BE_eq, wrapWord]
  omega

theorem reads_chunk : Reads readChunk writeChunk fun chunk => chunk.length < 2 ^ 64 := by
  intro text chunk rest
  simp only [readChunk, Option.bind_eq_bind, Option.bind_eq_some_iff, Prod.exists,
    reads_u64 text]
  constructor
  · rintro ⟨length, tail, ⟨bounded, rfl⟩, taken⟩
    split at taken
    · cases taken
    · obtain ⟨rfl, rfl⟩ : tail.take length = chunk ∧ tail.drop length = rest := by
        simpa using taken
      have exact : (tail.take length).length = length := by
        rw [List.length_take]
        omega
      refine ⟨by omega, ?_⟩
      rw [writeChunk, exact, List.append_assoc, List.take_append_drop]
  · rintro ⟨bounded, rfl⟩
    refine ⟨chunk.length, chunk ++ rest, ⟨bounded, by rw [writeChunk, List.append_assoc]⟩, ?_⟩
    rw [if_neg (by rw [List.length_append]; omega), List.take_left' rfl, List.drop_left' rfl]

theorem reads_chunks (count : Nat) :
    Reads (readChunks count) (List.flatMap writeChunk)
      fun chunks => chunks.length = count ∧ ∀ chunk ∈ chunks, chunk.length < 2 ^ 64 := by
  induction count with
  | zero =>
      intro text chunks rest
      simp only [readChunks, Option.some.injEq, Prod.mk.injEq]
      constructor
      · rintro ⟨rfl, rfl⟩
        simp
      · rintro ⟨⟨none, -⟩, rfl⟩
        obtain rfl := List.length_eq_zero_iff.mp none
        simp
  | succ count ih =>
      intro text chunks rest
      simp only [readChunks, Option.bind_eq_bind, Option.bind_eq_some_iff, Prod.exists,
        reads_chunk text, Option.some.injEq, Prod.mk.injEq]
      constructor
      · rintro ⟨chunk, tail, ⟨bounded, rfl⟩, others, end', read, rfl, rfl⟩
        obtain ⟨⟨rfl, all⟩, rfl⟩ := (ih _ _ _).mp read
        refine ⟨⟨rfl, ?_⟩, by rw [List.flatMap_cons, List.append_assoc]⟩
        exact List.forall_mem_cons.mpr ⟨bounded, all⟩
      · rintro ⟨⟨length, all⟩, rfl⟩
        rcases chunks with _ | ⟨chunk, others⟩
        · cases length
        · have parts := List.forall_mem_cons.mp all
          refine ⟨chunk, others.flatMap writeChunk ++ rest, ⟨parts.1, ?_⟩,
            others, rest, ?_, rfl, rfl⟩
          · rw [List.flatMap_cons, List.append_assoc]
          · exact (ih _ _ _).mpr ⟨⟨by simpa using length, parts.2⟩, rfl⟩

theorem expect_eq_some_iff {start text rest : Bytes} :
    expect start text = some rest ↔ text = start ++ rest := by
  rw [expect]
  constructor
  · intro expected
    split at expected
    · cases expected
    · rename_i found
      push Not at found
      obtain rfl : text.drop start.length = rest := by simpa using expected
      rw [← found.2, List.length_take, min_eq_left found.1, List.take_append_drop]
  · rintro rfl
    rw [if_neg (by simp), List.drop_left' rfl]

/-- A proof whose numbers fit the source's types and whose size and index are
not negative. -/
structure Proof.Sized (proof : Proof) : Prop where
  treeSize : 0 ≤ proof.sth.treeSize ∧ proof.sth.treeSize < 2 ^ 63
  index : 0 ≤ proof.index ∧ proof.index < 2 ^ 63
  timestamp : -2 ^ 63 ≤ proof.sth.timestamp ∧ proof.sth.timestamp < 2 ^ 63
  rootHash : proof.sth.rootHash.length < 2 ^ 64
  signature : proof.sth.signature.length < 2 ^ 64
  pathLength : proof.auditPath.length < 2 ^ 64
  auditPath : ∀ digest ∈ proof.auditPath, digest.length < 2 ^ 64

theorem putI64BE_natCast {value : Nat} (bounded : value < 2 ^ 64) :
    putI64BE value = bigEndian64 value := by
  rw [putI64BE_eq, Int.emod_eq_of_lt (by omega) (by omega), Int.toNat_natCast]

theorem length_le_length_flatMap (chunks : List Bytes) :
    chunks.length ≤ (chunks.flatMap writeChunk).length := by
  induction chunks with
  | nil => simp
  | cons chunk chunks ih =>
      simp only [List.flatMap_cons, List.length_cons, List.length_append, writeChunk,
        Go.length_bigEndian64]
      omega

/-- What is accepted is the encoding of a proof whose numbers fit. -/
theorem parseProof_eq_some_iff {input : Bytes} {proof : Proof} :
    parseProof input = some proof ↔ proof.Sized ∧ input = encodeProof proof := by
  simp only [parseProof, Option.bind_eq_bind, Option.bind_eq_some_iff, Prod.exists,
    expect_eq_some_iff, reads_u64 _, reads_i64 _, reads_chunk _]
  constructor
  · rintro ⟨_, rfl, treeSize, _, ⟨-, rfl⟩, timestamp, _, ⟨stamped, rfl⟩, root, _, ⟨rooted, rfl⟩,
      signature, _, ⟨signed, rfl⟩, index, _, ⟨-, rfl⟩, count, text, ⟨counted, rfl⟩, parsed⟩
    split at parsed
    · cases parsed
    · split at parsed
      · cases parsed
      · rename_i narrow
        simp only [Option.bind_eq_some_iff, Prod.exists, reads_chunks count _] at parsed
        obtain ⟨path, rest, ⟨⟨rfl, paths⟩, rfl⟩, finished⟩ := parsed
        split at finished
        · cases finished
        · rename_i empty
          obtain rfl : rest = [] := by simpa using empty
          obtain rfl := Option.some.inj finished
          have size : 0 ≤ (treeSize : Int) ∧ (treeSize : Int) < 2 ^ 63 := by omega
          have position : 0 ≤ (index : Int) ∧ (index : Int) < 2 ^ 63 := by omega
          refine ⟨⟨size, position, stamped, rooted, signed, counted, paths⟩, ?_⟩
          rw [encodeProof, putI64BE_natCast (by omega), putI64BE_natCast (by omega),
            List.append_nil]
  · rintro ⟨sized, rfl⟩
    obtain ⟨⟨treeSize, root, timestamp, signature⟩, index, path⟩ := proof
    obtain ⟨size, rfl⟩ := Int.eq_ofNat_of_zero_le sized.treeSize.1
    obtain ⟨position, rfl⟩ := Int.eq_ofNat_of_zero_le sized.index.1
    have narrow := sized.treeSize.2
    have narrowIndex := sized.index.2
    simp only at narrow narrowIndex
    rw [encodeProof, putI64BE_natCast (by omega), putI64BE_natCast (by omega)]
    refine ⟨_, rfl, size, _, ⟨by omega, rfl⟩, timestamp, _, ⟨sized.timestamp, rfl⟩, root, _,
      ⟨sized.rootHash, rfl⟩, signature, _, ⟨sized.signature, rfl⟩, position, _, ⟨by omega, rfl⟩,
      path.length, path.flatMap writeChunk, ⟨sized.pathLength, rfl⟩, ?_⟩
    have long := length_le_length_flatMap path
    have read := (reads_chunks path.length (path.flatMap writeChunk) path []).mpr
      ⟨⟨rfl, sized.auditPath⟩, by rw [List.append_nil]⟩
    rw [if_neg (by omega), if_neg (by omega), read]
    simp

theorem decodeProof_eq_ok_iff {input : Bytes} {proof : Proof} :
    decodeProof input = .ok proof ↔ parseProof input = some proof := by
  rw [decodeProof]
  rcases parseProof input with _ | parsed <;> simp

/-- A proof of values of the source's types, whose byte strings are in memory. -/
structure Proof.Representable (proof : Proof) : Prop where
  treeSize : -2 ^ 63 ≤ proof.sth.treeSize ∧ proof.sth.treeSize < 2 ^ 63
  index : -2 ^ 63 ≤ proof.index ∧ proof.index < 2 ^ 63
  timestamp : -2 ^ 63 ≤ proof.sth.timestamp ∧ proof.sth.timestamp < 2 ^ 63
  lengths : proof.sth.rootHash.length < 2 ^ 63 ∧ proof.sth.signature.length < 2 ^ 63 ∧
    proof.auditPath.length < 2 ^ 63 ∧ ∀ digest ∈ proof.auditPath, digest.length < 2 ^ 63

/-- `DecodeProof` inverts `EncodeProof` on proofs whose size and index are not
negative, and accepts nothing but their encodings. -/
theorem proof_round_trips :
    (∀ proof : Proof, proof.Representable → 0 ≤ proof.sth.treeSize → 0 ≤ proof.index →
        decodeProof (encodeProof proof) = .ok proof) ∧
      ∀ input proof, decodeProof input = .ok proof → encodeProof proof = input := by
  constructor
  · intro proof representable size index
    obtain ⟨treeSizes, indexes, timestamp, rootHash, signature, count, paths⟩ := representable
    refine decodeProof_eq_ok_iff.mpr (parseProof_eq_some_iff.mpr ⟨?_, rfl⟩)
    exact ⟨⟨size, treeSizes.2⟩, ⟨index, indexes.2⟩, timestamp, by omega, by omega, by omega,
      fun digest member => by have := paths digest member; omega⟩
  · intro input proof decoded
    exact (parseProof_eq_some_iff.mp (decodeProof_eq_ok_iff.mp decoded)).2.symm

/-- A proof with a timestamp before the epoch. -/
def earlyProof : Proof :=
  ⟨⟨2, [7], -1, []⟩, 1, [[8], []]⟩

/-- Its encoding. -/
def earlyText : Bytes :=
  bytes "trstctl/pcas/translog/proof/v1" ++ [0, 0, 0, 0, 0, 0, 0, 2] ++ List.replicate 8 255 ++
    [0, 0, 0, 0, 0, 0, 0, 1, 7] ++ List.replicate 8 0 ++ [0, 0, 0, 0, 0, 0, 0, 1] ++
      [0, 0, 0, 0, 0, 0, 0, 2] ++ [0, 0, 0, 0, 0, 0, 0, 1, 8] ++ List.replicate 8 0

/-- The early proof and its bytes give each other. -/
theorem proof_round_trips_early :
    decodeProof earlyText = .ok earlyProof ∧ encodeProof earlyProof = earlyText := by
  have encoded : encodeProof earlyProof = earlyText := by decide +kernel
  have decoded := proof_round_trips.1 earlyProof
    ⟨by decide, by decide, by decide, by decide⟩ (by decide) (by decide)
  rw [encoded] at decoded
  exact ⟨decoded, proof_round_trips.2 _ _ decoded⟩

/-- `Log`.  A signer returns a signature or an error. -/
structure Log (ε : Type) where
  leaves : List Bytes
  lh : List Bytes
  signer : Option (Bytes → Except ε Bytes)

namespace Log

variable {ε : Type} (hash : Bytes → Bytes)

/-- The head `headLocked` has signed, at the time `now`. -/
def unsignedHead (now : Int) (log : Log ε) : STH :=
  ⟨log.lh.length, merkleRoot hash log.lh, now, []⟩

def headLocked (now : Int) (log : Log ε) : Except ε STH :=
  let sth := unsignedHead hash now log
  match log.signer with
  | none => .ok sth
  | some sign =>
      match sign (encodeSTH sth) with
      | .error error => .error error
      | .ok signature => .ok { sth with signature := signature }

/-- The log with one more entry. -/
def grown (log : Log ε) (entry : Bytes) : Log ε :=
  { log with leaves := log.leaves ++ [entry], lh := log.lh ++ [leafHash hash entry] }

/-- `Append`, with the log it leaves. -/
def append (now : Int) (entry : Bytes) (log : Log ε) : Except ε (Nat × STH) × Log ε :=
  let idx := log.leaves.length
  let log := log.grown hash entry
  match log.headLocked hash now with
  | .error error => (.error error, log)
  | .ok sth => (.ok (idx, sth), log)

def inclusionProof (log : Log ε) (index : Int) : Except String (List Bytes × Nat) :=
  if index < 0 ∨ log.lh.length ≤ index then .error "translog: index out of range"
  else .ok (Translog.inclusionProof hash log.lh index.toNat, log.lh.length)

/-- Two logs with the same size, leaves, root and inclusion proofs. -/
def Alike (log other : Log ε) : Prop :=
  log.lh.length = other.lh.length ∧ log.leaves = other.leaves ∧
    merkleRoot hash log.lh = merkleRoot hash other.lh ∧
    ∀ index, log.inclusionProof hash index = other.inclusionProof hash index

theorem append_state (now : Int) (entry : Bytes) (log : Log ε) :
    (log.append hash now entry).2 = log.grown hash entry := by
  rw [append]
  rcases (log.grown hash entry).headLocked hash now with error | sth <;> rfl

theorem append_fails_iff (now : Int) (entry : Bytes) (log : Log ε) :
    (∃ error, (log.append hash now entry).1 = .error error) ↔
      ∃ sign ∈ log.signer, ∃ error,
        sign (encodeSTH (unsignedHead hash now (log.grown hash entry))) = .error error := by
  have signer : (log.grown hash entry).signer = log.signer := rfl
  simp only [append, headLocked, signer]
  rcases log.signer with _ | sign
  · simp
  · simp only [Option.mem_def, Option.some.injEq, exists_eq_left']
    rcases sign (encodeSTH (unsignedHead hash now (log.grown hash entry))) with error | signature
      <;> simp

/-- A failed `Append` leaves the log as it was only because none fails: when the
log has no signer or the signer signs the head of the longer log. -/
theorem failed_append_unchanged_iff (now : Int) (entry : Bytes) (log : Log ε) :
    (∀ error, (log.append hash now entry).1 = .error error →
        Alike hash (log.append hash now entry).2 log) ↔
      ∀ sign ∈ log.signer, ∃ signature,
        sign (encodeSTH (unsignedHead hash now (log.grown hash entry))) = .ok signature := by
  have longer : ¬ Alike hash (log.append hash now entry).2 log := by
    rintro ⟨size, -⟩
    rw [append_state, grown, List.length_append, List.length_singleton] at size
    omega
  have fails := append_fails_iff hash now entry log
  constructor
  · intro unchanged sign signs
    by_contra! refused
    obtain ⟨error, failed⟩ := fails.mpr ⟨sign, signs, by
      rcases signed : sign (encodeSTH (unsignedHead hash now (log.grown hash entry))) with
        error | signature
      · exact ⟨error, rfl⟩
      · exact absurd signed (refused signature)⟩
    exact longer (unchanged error failed)
  · intro signed error failed
    obtain ⟨sign, signs, other, refused⟩ := fails.mp ⟨error, failed⟩
    obtain ⟨signature, accepted⟩ := signed sign signs
    rw [accepted] at refused
    cases refused

/-- An empty log whose signer fails keeps the entry of the failed `Append`. -/
theorem failed_append_changes :
    ¬ ∀ (hash : Bytes → Bytes) (now : Int) (entry : Bytes) (log : Log String) (error : String),
      (log.append hash now entry).1 = .error error →
        Alike hash (log.append hash now entry).2 log := by
  intro unchanged
  have alike := unchanged id 0 [7] ⟨[], [], some fun _ => .error "signer unavailable"⟩
    "signer unavailable" rfl
  exact absurd alike.1 (by decide)

/-- `New`. -/
def new (signer : Option (Bytes → Except ε Bytes)) : Log ε :=
  ⟨[], [], signer⟩

/-- The log after entries are appended, each at its time. -/
def appendAll (log : Log ε) (entries : List (Int × Bytes)) : Log ε :=
  entries.foldl (fun log entry => (log.append hash entry.1 entry.2).2) log

theorem appendAll_eq (log : Log ε) (entries : List (Int × Bytes)) :
    log.appendAll hash entries =
      { log with
        leaves := log.leaves ++ entries.map Prod.snd
        lh := log.lh ++ (newTree hash (entries.map Prod.snd)).leafHashes } := by
  induction entries generalizing log with
  | nil => simp [appendAll, newTree]
  | cons entry entries ih =>
      have first : log.appendAll hash (entry :: entries) =
          (log.grown hash entry.2).appendAll hash entries := by
        rw [appendAll, List.foldl_cons, append_state]
        rfl
      rw [first, ih]
      simp [grown, newTree]

theorem headLocked_eq_ok
    {log : Log ε} {now : Int} {head : STH}
    (headed : log.headLocked hash now = .ok head) :
    head.treeSize = log.lh.length ∧ head.rootHash = merkleRoot hash log.lh := by
  unfold headLocked at headed
  split at headed
  · obtain rfl := Except.ok.inj headed
    exact ⟨rfl, rfl⟩
  · dsimp only at headed
    split at headed
    · cases headed
    · obtain rfl := Except.ok.inj headed
      exact ⟨rfl, rfl⟩

/-- What `Append` returned an index for is proven at that index to every later
head, whether or not the signer failed before or after. -/
theorem append_stays_included
    (signer : Option (Bytes → Except ε Bytes))
    (before after : List (Int × Bytes))
    (now : Int)
    (entry : Bytes)
    {index : Nat} {sth : STH}
    (returned : (((new signer).appendAll hash before).append hash now entry).1 = .ok (index, sth))
    (addressable : before.length + after.length < 2 ^ 62) :
    ∃ path size, ((new signer).appendAll hash (before ++ (now, entry) :: after)).inclusionProof
        hash index = .ok (path, size) ∧
      ∀ later head, ((new signer).appendAll hash (before ++ (now, entry) :: after)).headLocked
          hash later = .ok head →
        head.treeSize = size ∧
          verifyInclusion hash entry index head.treeSize path head.rootHash = true := by
  have index_eq : index = before.length := by
    rw [append] at returned
    split at returned
    · cases returned
    · have same : _ = index := congrArg Prod.fst (Except.ok.inj returned)
      rw [← same, appendAll_eq, new]
      simp
  set log := (new signer).appendAll hash (before ++ (now, entry) :: after) with log_eq
  have leaves : log.lh =
      (newTree hash (before.map Prod.snd ++ entry :: after.map Prod.snd)).leafHashes := by
    rw [log_eq, appendAll_eq, new]
    simp
  have length : log.lh.length = before.length + after.length + 1 := by
    rw [leaves]
    simp [newTree]
    omega
  have located : log.lh[index]? = some (leafHash hash entry) := by
    rw [leaves, index_eq]
    simp [newTree]
  have complete := @rootFromInclusion_inclusionProof hash log.lh index _ [] located
  rw [List.append_nil] at complete
  refine ⟨_, _, if_neg (by omega), fun later head headed => ?_⟩
  obtain ⟨size, root⟩ := headLocked_eq_ok hash headed
  refine ⟨size, ?_⟩
  rw [size, root, verifyInclusion, if_neg (by omega), if_neg (by omega), Int.toNat_natCast,
    Int.toNat_natCast, beq_iff_eq]
  exact complete

/-- The second of three entries, with a signer that signs only the log of two. -/
theorem append_stays_included_second :
    let signer : Bytes → Except String Bytes := fun message =>
      if message[35]? = some 2 then .ok message else .error "unavailable"
    ∃ path size, ((new (some signer)).appendAll id [(0, [1]), (1, [2]), (2, [3])]).inclusionProof
      id 1 = .ok (path, size) :=
  (append_stays_included id _ [(0, [1])] [(2, [3])] 1 [2] rfl (by decide)).imp
    fun _ proven => proven.imp fun _ both => both.1

theorem size_eq_of_encodeSTH_eq
    {head other : STH}
    (encoded : encodeSTH head = encodeSTH other) :
    head.treeSize % 2 ^ 64 = other.treeSize % 2 ^ 64 ∧ head.rootHash = other.rootHash := by
  simp only [encodeSTH, List.append_assoc] at encoded
  obtain ⟨sizes, rest⟩ := List.append_inj (List.append_cancel_left encoded)
    ((Go.length_bigEndian64 _).trans (Go.length_bigEndian64 _).symm)
  have roots := (List.append_inj rest
    ((Go.length_bigEndian64 _).trans (Go.length_bigEndian64 _).symm)).2
  have same := Go.bigEndian64_injective (by omega) (by omega) sizes
  exact ⟨by omega, roots⟩

/-- Where the key of a log signs only the heads the log had, a leaf with an
accepted proof is the entry of the log at the index of the proof. -/
theorem logged_of_verifyLeafInclusion
    {verifyMessage : Bytes → Bytes → Bytes → Bool} {key leaf : Bytes} {proof : Proof}
    (signer : Option (Bytes → Except ε Bytes))
    (entries : List (Int × Bytes))
    (addressable : entries.length < 2 ^ 63)
    (unforgeable : ∀ message signature, verifyMessage key message signature = true →
      ∃ front now, front <+: entries ∧
        message = encodeSTH (((new signer).appendAll hash front).unsignedHead hash now))
    (binds : ∀ front, front <+: entries → Hash.Binds hash (logInputs hash (front.map Prod.snd)))
    (accepted : verifyLeafInclusion hash verifyMessage leaf proof key = .ok ()) :
    ∃ m : Nat, proof.index = m ∧ (entries.map Prod.snd)[m]? = some leaf := by
  unfold verifyLeafInclusion at accepted
  split_ifs at accepted with unkeyed unsigned unproven
  rw [Bool.not_eq_true', Bool.not_eq_false] at unsigned unproven
  obtain ⟨front, now, isFront, message_eq⟩ := unforgeable _ _ unsigned
  obtain ⟨size, root⟩ := size_eq_of_encodeSTH_eq message_eq
  have shorter := isFront.length_le
  have whole : proof.sth.treeSize = (front.map Prod.snd).length := by
    have bounded : 0 < proof.sth.treeSize ∧ proof.sth.treeSize ≤ 2 ^ 62 := by
      unfold verifyInclusion at unproven
      split_ifs at unproven with outside large
      omega
    simp only [unsignedHead, appendAll_eq, new, newTree, List.nil_append, List.length_map] at size ⊢
    omega
  rw [whole, root] at unproven
  simp only [unsignedHead, appendAll_eq, new, List.nil_append] at unproven
  obtain ⟨m, index_eq, located, -⟩ := eq_of_verifyInclusion (binds front isFront) unproven
  obtain ⟨later, rfl⟩ := isFront
  refine ⟨m, index_eq, ?_⟩
  rw [List.map_append, List.getElem?_append_left (List.getElem?_eq_some_iff.mp located).1]
  exact located

/-- A key that signs the head of two entries, and the proof of the second. -/
theorem logged_of_verifyLeafInclusion_second :
    ∃ m : Nat, (1 : Int) = m ∧ ([(0, [1]), (0, [2])].map (@Prod.snd Int Bytes))[m]? = some [2] := by
  let hash := Hash.numbering twoEntryInputs
  let head := ((new none : Log Unit).appendAll hash [(0, [1]), (0, [2])]).unsignedHead hash 0
  refine @logged_of_verifyLeafInclusion Unit hash (fun _ message _ => message == encodeSTH head)
    [0] [2] ⟨head, 1, Translog.inclusionProof hash (newTree hash [[1], [2]]).leafHashes 1⟩ none
    [(0, [1]), (0, [2])] (by decide) ?_ ?_ (by decide +kernel)
  · intro message signature signed
    exact ⟨_, 0, List.prefix_rfl, beq_iff_eq.mp signed⟩
  · intro front isFront
    simp only [List.prefix_cons_iff, List.prefix_nil] at isFront
    obtain rfl | ⟨_, rfl, rfl | ⟨_, rfl, rfl⟩⟩ := isFront
    · refine (Hash.numbering_binds twoEntryInputs (by decide)).mono ?_
      simp [logInputs, newTree, merkleInputs]
    · refine (Hash.numbering_binds twoEntryInputs (by decide)).mono ?_
      simp [logInputs, newTree, merkleInputs, twoEntryInputs]
    · exact binds_twoEntryInputs

end Log

end Trstctl.Translog
