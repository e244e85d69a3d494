import Mathlib.Algebra.Group.Int.Defs
import Trstctl.Go.Strings

/-!
# The wire format

`internal/kmip/ttlv.go` and the encoders of `internal/kmip/wire.go`: items of a tag,
a type, a length and a value, padded to eight bytes.  The value of a structure is
its items one after another.  How a tree of items is laid out in bytes is a
relation of its own; the parser finds a tree for exactly the layouts within its
limits, and the encoders write layouts.
-/

namespace Trstctl.Kmip.Ttlv

open Go (Bytes bytes)

/-- `TTLV`: a parsed item with its length. -/
inductive TTLV where
  | node (tag : UInt32) (type : UInt8) (length : UInt32) (value : Bytes) (children : List TTLV)

/-- The tag of an item. -/
def TTLV.tag : TTLV → UInt32
  | .node tag _ _ _ _ => tag

def TTLV.type : TTLV → UInt8
  | .node _ type _ _ _ => type

def TTLV.value : TTLV → Bytes
  | .node _ _ _ value _ => value

def TTLV.children : TTLV → List TTLV
  | .node _ _ _ _ children => children

def ttlvStructure : UInt8 := 0x01

def ttlvInteger : UInt8 := 0x02

def ttlvLongInteger : UInt8 := 0x03

def ttlvBigInteger : UInt8 := 0x04

def ttlvEnumeration : UInt8 := 0x05

def ttlvBoolean : UInt8 := 0x06

def ttlvTextString : UInt8 := 0x07

def ttlvByteString : UInt8 := 0x08

def ttlvDateTime : UInt8 := 0x09

def ttlvInterval : UInt8 := 0x0a

structure TTLVLimits where
  maxFrameSize : Int
  maxFields : Int
  maxDepth : Int

def defaultTTLVLimits : TTLVLimits where
  maxFrameSize := 2 ^ 20
  maxFields := 4096
  maxDepth := 16

def normalizeTTLVLimits (limits : TTLVLimits) : TTLVLimits where
  maxFrameSize :=
    if limits.maxFrameSize ≤ 0 then defaultTTLVLimits.maxFrameSize else limits.maxFrameSize
  maxFields := if limits.maxFields ≤ 0 then defaultTTLVLimits.maxFields else limits.maxFields
  maxDepth := if limits.maxDepth ≤ 0 then defaultTTLVLimits.maxDepth else limits.maxDepth

def ttlvPadding (length : Nat) : Nat :=
  if length % 8 ≠ 0 then 8 - length % 8 else 0

mutual

/-- The number of items in a tree. -/
def TTLV.nodes : TTLV → Nat
  | .node _ _ _ _ children => nodesAll children + 1

/-- The number of items in several trees. -/
def nodesAll : List TTLV → Nat
  | [] => 0
  | first :: rest => first.nodes + nodesAll rest

end

mutual

/-- The depth of a tree. -/
def TTLV.depth : TTLV → Nat
  | .node _ _ _ _ children => depthAll children + 1

/-- The depth of the deepest of several trees. -/
def depthAll : List TTLV → Nat
  | [] => 0
  | first :: rest => max first.depth (depthAll rest)

end

mutual

/-- The bytes that the items of a tree take, with their headers and padding. -/
def TTLV.extent : TTLV → Nat
  | .node _ _ _ value children =>
      8 + (value.length + extentAll children) + ttlvPadding (value.length + extentAll children)

/-- The bytes that several trees take. -/
def extentAll : List TTLV → Nat
  | [] => 0
  | first :: rest => first.extent + extentAll rest

end

/-- The errors of the parser. -/
inductive ParseError where
  | emptyFrame
  | frameSize (size : Nat) (cap : Int)
  | trailing (bytes : Nat)
  | depth (depth : Nat) (cap : Int)
  | truncated (bytes : Nat)
  | fieldCount (cap : Int)
  | valueLength (length : Nat) (cap : Int)
  | remaining (length bytes : Nat)
  | typeLength (type : UInt8) (length want : Nat)
  | unsupported (type : UInt8)

/-- The check of the length of a value that has no items. -/
def checkLeaf (type : UInt8) (length : Nat) : Except ParseError Unit :=
  if type = ttlvInteger ∨ type = ttlvEnumeration ∨ type = ttlvInterval then
    if length ≠ 4 then .error (.typeLength type length 4) else .ok ()
  else if type = ttlvLongInteger ∨ type = ttlvBoolean ∨ type = ttlvDateTime then
    if length ≠ 8 then .error (.typeLength type length 8) else .ok ()
  else if type = ttlvBigInteger ∨ type = ttlvTextString ∨ type = ttlvByteString then .ok ()
  else .error (.unsupported type)

/-- The loop over the items of a structure, with the counter of fields.  Every item
takes at least eight bytes, so there are fewer iterations than bytes. -/
def parseChildren (parse : Bytes → Nat → Except ParseError (TTLV × Nat × Nat)) :
    Nat → Bytes → Nat → Except ParseError (List TTLV × Nat)
  | _, [], fields => .ok ([], fields)
  | 0, value@(_ :: _), _ => .error (.truncated value.length)
  | fuel + 1, value@(_ :: _), fields =>
      match parse value fields with
      | .error error => .error error
      | .ok (child, n, fields) =>
          match parseChildren parse fuel (value.drop n) fields with
          | .error error => .error error
          | .ok (children, fields) => .ok (child :: children, fields)

/-- The number that three bytes spell. -/
def readTag (b0 b1 b2 : UInt8) : Nat :=
  b0.toNat * 2 ^ 16 + b1.toNat * 2 ^ 8 + b2.toNat

/-- The number that four bytes spell. -/
def readLength (b0 b1 b2 b3 : UInt8) : Nat :=
  b0.toNat * 2 ^ 24 + b1.toNat * 2 ^ 16 + b2.toNat * 2 ^ 8 + b3.toNat

/-- The tag, the type and the length at the start of a frame, and what follows. -/
def readHeader : Bytes → Option (UInt32 × UInt8 × Nat × Bytes)
  | t0 :: t1 :: t2 :: type :: l0 :: l1 :: l2 :: l3 :: rest =>
      some (UInt32.ofNat (readTag t0 t1 t2), type, readLength l0 l1 l2 l3, rest)
  | _ => none

/-- `ttlvParser.parseItem`, with the number of levels that are left below the cap:
the item, the bytes it takes and the counter of fields after it. -/
def parseItem (limits : TTLVLimits) : Nat → Nat → Bytes → Nat →
    Except ParseError (TTLV × Nat × Nat)
  | 0, depth, _, _ => .error (.depth depth limits.maxDepth)
  | levels + 1, depth, frame, fields =>
      match readHeader frame with
      | none => .error (.truncated frame.length)
      | some (tag, type, length, rest) =>
          let total := 8 + length + ttlvPadding length
          if limits.maxFields < ((fields + 1 : Nat) : Int) then
            .error (.fieldCount limits.maxFields)
          else if limits.maxFrameSize < (length : Int) then
            .error (.valueLength length limits.maxFrameSize)
          else if frame.length < total then .error (.remaining length (frame.length - 8))
          else if type = ttlvStructure then
            match parseChildren (parseItem limits levels (depth + 1)) (rest.take length).length
                (rest.take length) (fields + 1) with
            | .error error => .error error
            | .ok (children, fields) =>
                .ok (.node tag type (UInt32.ofNat length) [] children, total, fields)
          else
            match checkLeaf type length with
            | .error error => .error error
            | .ok () =>
                .ok (.node tag type (UInt32.ofNat length) (rest.take length) [], total, fields + 1)

def parseTTLVWithLimits (frame : Bytes) (limits : TTLVLimits) : Except ParseError TTLV :=
  let limits := normalizeTTLVLimits limits
  if frame.length = 0 then .error .emptyFrame
  else if limits.maxFrameSize < (frame.length : Int) then
    .error (.frameSize frame.length limits.maxFrameSize)
  else
    match parseItem limits limits.maxDepth.toNat 1 frame 0 with
    | .error error => .error error
    | .ok (root, n, _) =>
        if n ≠ frame.length then .error (.trailing (frame.length - n)) else .ok root

/-- The item that fills a frame. -/
def parseTTLV (frame : Bytes) : Except ParseError TTLV :=
  parseTTLVWithLimits frame defaultTTLVLimits

/-- The header of an item. -/
def header (tag : UInt32) (type : UInt8) (length : Nat) : Bytes :=
  [(tag.toNat / 2 ^ 16).toUInt8, (tag.toNat / 2 ^ 8).toUInt8, tag.toNat.toUInt8, type,
    (length / 2 ^ 24).toUInt8, (length / 2 ^ 16).toUInt8, (length / 2 ^ 8).toUInt8,
    length.toUInt8]

mutual

/-- The bytes lay out the tree: the header of its item, the value or the items in it,
and padding. -/
inductive Laid : TTLV → Bytes → Prop where
  | structured {tag : UInt32} {children : List TTLV} {body padding : Bytes} :
      tag.toNat < 2 ^ 24 → body.length < 2 ^ 32 → LaidAll children body →
        padding.length = ttlvPadding body.length →
          Laid (.node tag ttlvStructure (UInt32.ofNat body.length) [] children)
            (header tag ttlvStructure body.length ++ (body ++ padding))
  | leaf {tag : UInt32} {type : UInt8} {value padding : Bytes} :
      tag.toNat < 2 ^ 24 → value.length < 2 ^ 32 → type ≠ ttlvStructure →
        checkLeaf type value.length = .ok () → padding.length = ttlvPadding value.length →
          Laid (.node tag type (UInt32.ofNat value.length) value [])
            (header tag type value.length ++ (value ++ padding))

/-- The bytes lay out the trees one after another. -/
inductive LaidAll : List TTLV → Bytes → Prop where
  | nil : LaidAll [] []
  | cons {first : TTLV} {rest : List TTLV} {front back : Bytes} :
      Laid first front → LaidAll rest back → LaidAll (first :: rest) (front ++ back)

end

theorem readTag_header (tag : UInt32) (small : tag.toNat < 2 ^ 24) :
    UInt32.ofNat (readTag (tag.toNat / 2 ^ 16).toUInt8 (tag.toNat / 2 ^ 8).toUInt8
      tag.toNat.toUInt8) = tag := by
  rw [← UInt32.toNat_inj, UInt32.toNat_ofNat']
  simp only [readTag, Nat.toUInt8, UInt8.toNat_ofNat']
  omega

theorem readLength_header {length : Nat} (small : length < 2 ^ 32) :
    readLength (length / 2 ^ 24).toUInt8 (length / 2 ^ 16).toUInt8 (length / 2 ^ 8).toUInt8
      length.toUInt8 = length := by
  simp only [readLength, Nat.toUInt8, UInt8.toNat_ofNat']
  omega

theorem header_read (t0 t1 t2 type l0 l1 l2 l3 : UInt8) :
    header (UInt32.ofNat (readTag t0 t1 t2)) type (readLength l0 l1 l2 l3) =
      [t0, t1, t2, type, l0, l1, l2, l3] := by
  have := t0.toNat_lt
  have := t1.toNat_lt
  have := t2.toNat_lt
  have := l0.toNat_lt
  have := l1.toNat_lt
  have := l2.toNat_lt
  have := l3.toNat_lt
  simp only [header, readTag, readLength, List.cons.injEq, and_true, true_and, ← UInt8.toNat_inj,
    Nat.toUInt8, UInt8.toNat_ofNat', UInt32.toNat_ofNat']
  omega

section Parser

variable {limits : TTLVLimits} {levels depth fields : Nat}

theorem parseItem_header {tag : UInt32} {type : UInt8} {length : Nat}
    (tagSmall : tag.toNat < 2 ^ 24) (lengthSmall : length < 2 ^ 32) (rest : Bytes) :
    parseItem limits (levels + 1) depth (header tag type length ++ rest) fields =
      if limits.maxFields < ((fields + 1 : Nat) : Int) then .error (.fieldCount limits.maxFields)
      else if limits.maxFrameSize < (length : Int) then
        .error (.valueLength length limits.maxFrameSize)
      else if rest.length < length + ttlvPadding length then .error (.remaining length rest.length)
      else if type = ttlvStructure then
        match parseChildren (parseItem limits levels (depth + 1)) (rest.take length).length
            (rest.take length) (fields + 1) with
        | .error error => .error error
        | .ok (children, fields) =>
            .ok (.node tag type (UInt32.ofNat length) [] children,
              8 + length + ttlvPadding length, fields)
      else
        match checkLeaf type length with
        | .error error => .error error
        | .ok () =>
            .ok (.node tag type (UInt32.ofNat length) (rest.take length) [],
              8 + length + ttlvPadding length, fields + 1) := by
  have read : readHeader (header tag type length ++ rest) = some (tag, type, length, rest) := by
    simp only [header, List.cons_append, List.nil_append, readHeader,
      readTag_header tag tagSmall, readLength_header lengthSmall]
  have size : (header tag type length ++ rest).length = 8 + rest.length := by
    rw [List.length_append]
    rfl
  have shorter : 8 + rest.length < 8 + length + ttlvPadding length ↔
      rest.length < length + ttlvPadding length := by
    omega
  rw [parseItem, read]
  dsimp only
  rw [size]
  simp only [shorter, Nat.add_sub_cancel_left]

theorem header_of_readHeader {frame rest : Bytes} {tag : UInt32} {type : UInt8} {length : Nat}
    (read : readHeader frame = some (tag, type, length, rest)) :
    tag.toNat < 2 ^ 24 ∧ length < 2 ^ 32 ∧ frame = header tag type length ++ rest := by
  rw [readHeader.eq_def] at read
  split at read
  · rename_i t0 t1 t2 type l0 l1 l2 l3 rest
    cases read
    refine ⟨?_, ?_, ?_⟩
    · have := t0.toNat_lt
      have := t1.toNat_lt
      have := t2.toNat_lt
      rw [UInt32.toNat_ofNat', readTag]
      omega
    · have := l0.toNat_lt
      have := l1.toNat_lt
      have := l2.toNat_lt
      have := l3.toNat_lt
      rw [readLength]
      omega
    · rw [header_read]
      rfl
  · cases read

theorem header_of_parseItem {frame : Bytes} {result : TTLV × Nat × Nat}
    (accepted : parseItem limits levels depth frame fields = .ok result) :
    ∃ below tag type length rest, levels = below + 1 ∧ tag.toNat < 2 ^ 24 ∧ length < 2 ^ 32 ∧
      frame = header tag type length ++ rest := by
  cases levels with
  | zero => cases accepted
  | succ below =>
      rw [parseItem] at accepted
      split at accepted
      · cases accepted
      · rename_i tag type length rest read
        obtain ⟨tagSmall, lengthSmall, whole⟩ := header_of_readHeader read
        exact ⟨below, tag, type, length, rest, rfl, tagSmall, lengthSmall, whole⟩

/-- A parser of items reads layouts: the item is laid out in the bytes it takes, its
nodes are counted within the limit, and its depth is within the levels. -/
def ReadsLayouts (limits : TTLVLimits) (levels : Nat)
    (parse : Bytes → Nat → Except ParseError (TTLV × Nat × Nat)) : Prop :=
  ∀ {frame fields node total after}, parse frame fields = .ok (node, total, after) →
    ∃ front back, frame = front ++ back ∧ front.length = total ∧ Laid node front ∧
      after = fields + node.nodes ∧ (after : Int) ≤ limits.maxFields ∧ node.depth ≤ levels

/-- The loop over the items of a structure takes the whole value. -/
theorem laidAll_of_parseChildren {parse : Bytes → Nat → Except ParseError (TTLV × Nat × Nat)}
    (reads : ReadsLayouts limits levels parse)
    {fuel : Nat} {value : Bytes} {children : List TTLV} {after : Nat}
    (within : (fields : Int) ≤ limits.maxFields)
    (accepted : parseChildren parse fuel value fields = .ok (children, after)) :
    LaidAll children value ∧ after = fields + nodesAll children ∧
      (after : Int) ≤ limits.maxFields ∧ depthAll children ≤ levels := by
  induction fuel generalizing value fields children after with
  | zero =>
      cases value with
      | nil =>
          cases accepted
          exact ⟨.nil, rfl, within, Nat.zero_le _⟩
      | cons byte rest => cases accepted
  | succ fuel ih =>
      cases value with
      | nil =>
          cases accepted
          exact ⟨.nil, rfl, within, Nat.zero_le _⟩
      | cons byte rest =>
          rw [parseChildren] at accepted
          split at accepted
          · cases accepted
          · rename_i child n between read
            split at accepted
            · cases accepted
            · rename_i later final readLater
              cases accepted
              obtain ⟨front, back, split, lengths, laid, counted, bounded, deep⟩ := reads read
              rw [split, ← lengths, List.drop_left] at readLater
              obtain ⟨laidLater, countedLater, boundedLater, deepLater⟩ :=
                ih bounded readLater
              rw [split]
              refine ⟨.cons laid laidLater, ?_, boundedLater, max_le deep deepLater⟩
              rw [countedLater, counted, nodesAll, Nat.add_assoc]

/-- What the parser accepts is a layout within the limits. -/
theorem readsLayouts_parseItem (limits : TTLVLimits) (levels depth : Nat) :
    ReadsLayouts limits levels (parseItem limits levels depth) := by
  induction levels generalizing depth with
  | zero =>
      intro frame fields node total after accepted
      obtain ⟨below, _, _, _, _, none, -⟩ := header_of_parseItem accepted
      cases none
  | succ levels ih =>
      intro frame fields node total after accepted
      obtain ⟨below, tag, type, length, rest, -, tagSmall, lengthSmall, rfl⟩ :=
        header_of_parseItem accepted
      rw [parseItem_header tagSmall lengthSmall] at accepted
      split at accepted
      · cases accepted
      rename_i counted
      split at accepted
      · cases accepted
      split at accepted
      · cases accepted
      rename_i fits
      -- the value, the padding and what follows the item
      have valueLength : (rest.take length).length = length := by
        rw [List.length_take]
        omega
      have paddingLength : ((rest.drop length).take (ttlvPadding length)).length =
          ttlvPadding length := by
        rw [List.length_take, List.length_drop]
        omega
      have parts : rest = rest.take length ++ ((rest.drop length).take (ttlvPadding length) ++
          (rest.drop length).drop (ttlvPadding length)) := by
        rw [List.take_append_drop, List.take_append_drop]
      have taken : (header tag type length ++
          (rest.take length ++ (rest.drop length).take (ttlvPadding length))).length =
            8 + length + ttlvPadding length := by
        rw [List.length_append, List.length_append, valueLength, paddingLength, Nat.add_assoc]
        rfl
      have whole : header tag type length ++ rest = header tag type length ++
          (rest.take length ++ (rest.drop length).take (ttlvPadding length)) ++
            (rest.drop length).drop (ttlvPadding length) := by
        rw [List.append_assoc, List.append_assoc, ← parts]
      split at accepted
      · rename_i structured
        subst structured
        split at accepted
        · cases accepted
        · rename_i children final read
          cases accepted
          obtain ⟨laid, nodes, bounded, deep⟩ := laidAll_of_parseChildren
            (ih (depth + 1)) (by omega) read
          refine ⟨_, _, whole, taken, ?_, ?_, bounded, Nat.succ_le_succ deep⟩
          · have layout := Laid.structured tagSmall (valueLength.symm ▸ lengthSmall) laid
              (paddingLength.trans (congrArg ttlvPadding valueLength.symm))
            rwa [valueLength] at layout
          · rw [nodes, TTLV.nodes]
            omega
      · rename_i other
        split at accepted
        · cases accepted
        · rename_i checked
          cases accepted
          refine ⟨_, _, whole, taken, ?_, rfl, by omega, Nat.succ_le_succ (Nat.zero_le _)⟩
          have layout := @Laid.leaf tag type (rest.take length) _ tagSmall
            (valueLength.symm ▸ lengthSmall) other (by rw [valueLength]; exact checked)
            (paddingLength.trans (congrArg ttlvPadding valueLength.symm))
          rwa [valueLength] at layout

/-- A parser of items accepts every layout within the limits, whatever follows it. -/
def AcceptsLayouts (limits : TTLVLimits) (levels : Nat)
    (parse : Bytes → Nat → Except ParseError (TTLV × Nat × Nat)) : Prop :=
  ∀ {node front} (back : Bytes) (fields : Nat), Laid node front → node.depth ≤ levels →
    ((fields + node.nodes : Nat) : Int) ≤ limits.maxFields →
      (front.length : Int) ≤ limits.maxFrameSize →
        parse (front ++ back) fields = .ok (node, front.length, fields + node.nodes)

theorem Laid.ne_nil {node : TTLV} {front : Bytes} (laid : Laid node front) :
    front ≠ [] := by
  cases laid with
  | structured _ _ _ _ => exact List.cons_ne_nil _ _
  | leaf _ _ _ _ _ => exact List.cons_ne_nil _ _

theorem parseChildren_of_laidAll {parse : Bytes → Nat → Except ParseError (TTLV × Nat × Nat)}
    (accepts : AcceptsLayouts limits levels parse) {children : List TTLV} {value : Bytes}
    (laid : LaidAll children value) (deep : depthAll children ≤ levels)
    (counted : ((fields + nodesAll children : Nat) : Int) ≤ limits.maxFields)
    (fits : (value.length : Int) ≤ limits.maxFrameSize) {fuel : Nat}
    (enough : value.length ≤ fuel) :
    parseChildren parse fuel value fields = .ok (children, fields + nodesAll children) := by
  induction children generalizing value fields fuel with
  | nil =>
      cases laid
      cases fuel <;> rfl
  | cons first rest ih =>
      cases laid with
      | @cons _ _ front back laidFirst laidRest =>
          have proper := List.length_pos_iff.mpr laidFirst.ne_nil
          rw [List.length_append] at fits enough
          rw [depthAll] at deep
          rw [nodesAll] at counted
          obtain ⟨fuel, rfl⟩ : ∃ less, fuel = less + 1 := Nat.exists_eq_add_one.mpr (by omega)
          have read := accepts back fields laidFirst (by omega) (by omega) (by omega)
          obtain ⟨byte, tail, shape⟩ := List.exists_cons_of_ne_nil laidFirst.ne_nil
          have later := @ih (fields + first.nodes) back laidRest (by omega)
            (by omega) (by omega) fuel (by omega)
          have start : front ++ back = byte :: (tail ++ back) := by rw [shape, List.cons_append]
          rw [start] at read ⊢
          rw [parseChildren, read]
          dsimp only
          rw [← start, List.drop_left, later, nodesAll, Nat.add_assoc]

/-- The parser accepts every layout within the limits. -/
theorem acceptsLayouts_parseItem (limits : TTLVLimits) (levels depth : Nat) :
    AcceptsLayouts limits levels (parseItem limits levels depth) := by
  induction levels generalizing depth with
  | zero =>
      intro node front back fields laid deep
      cases node
      cases deep
  | succ levels ih =>
      intro node front back fields laid deep counted fits
      cases laid with
      | @structured tag children body padding tagSmall bodySmall laidAll padded =>
          rw [TTLV.depth] at deep
          rw [TTLV.nodes] at counted
          have size : (header tag ttlvStructure body.length ++ (body ++ padding)).length =
              8 + body.length + ttlvPadding body.length := by
            rw [List.length_append, List.length_append, padded, Nat.add_assoc]
            rfl
          rw [size] at fits ⊢
          have value : (body ++ padding ++ back).take body.length = body := by
            rw [List.append_assoc, List.take_left]
          have read : parseChildren (parseItem limits levels (depth + 1)) body.length body
              (fields + 1) = .ok (children, fields + 1 + nodesAll children) :=
            parseChildren_of_laidAll (ih (depth + 1)) laidAll
              (Nat.le_of_succ_le_succ deep) (by omega) (by omega) (Nat.le_refl _)
          rw [List.append_assoc, parseItem_header tagSmall bodySmall, if_neg (by omega),
            if_neg (by omega), if_neg (by rw [List.length_append, List.length_append]; omega),
            if_pos rfl, value, read, TTLV.nodes]
          dsimp only
          rw [Nat.add_assoc fields 1, Nat.add_comm 1]
      | @leaf tag type value padding tagSmall valueSmall other checked padded =>
          rw [TTLV.nodes, nodesAll] at counted
          have size : (header tag type value.length ++ (value ++ padding)).length =
              8 + value.length + ttlvPadding value.length := by
            rw [List.length_append, List.length_append, padded, Nat.add_assoc]
            rfl
          rw [size] at fits ⊢
          have taken : (value ++ padding ++ back).take value.length = value := by
            rw [List.append_assoc, List.take_left]
          rw [List.append_assoc, parseItem_header tagSmall valueSmall, if_neg (by omega),
            if_neg (by omega), if_neg (by rw [List.length_append, List.length_append]; omega),
            if_neg other, checked, taken, TTLV.nodes, nodesAll]

end Parser

mutual

theorem Laid.length_eq : ∀ {node : TTLV} {front : Bytes}, Laid node front →
    front.length = node.extent
  | _, _, @Laid.structured tag children body padding _ _ laidAll padded => by
      have inner := laidAll.length_eq
      rw [List.length_append, List.length_append, padded, TTLV.extent, ← inner, List.length_nil,
        Nat.zero_add, Nat.add_assoc]
      rfl
  | _, _, @Laid.leaf tag type value padding _ _ _ _ padded => by
      rw [List.length_append, List.length_append, padded, TTLV.extent, extentAll, Nat.add_zero,
        Nat.add_assoc]
      rfl

theorem LaidAll.length_eq : ∀ {children : List TTLV} {body : Bytes}, LaidAll children body →
    body.length = extentAll children
  | _, _, .nil => rfl
  | _, _, .cons laid laidAll => by
      rw [List.length_append, laid.length_eq, laidAll.length_eq, extentAll]

end

def putInt32 (value : Int32) : Bytes :=
  let bits := value.toUInt32.toNat
  [(bits / 2 ^ 24).toUInt8, (bits / 2 ^ 16).toUInt8, (bits / 2 ^ 8).toUInt8, bits.toUInt8]

def putInt64 (value : Int64) : Bytes :=
  Go.bigEndian64 value.toUInt64.toNat

/-- `encodeItem`; none when it panics. -/
def encodeItem (tag : UInt32) (type : UInt8) (value : Bytes) : Option Bytes :=
  let padding := ttlvPadding value.length
  if (value.length : Int) > defaultTTLVLimits.maxFrameSize - 8 - padding then none
  else if value.length > 2 ^ 32 - 1 then none
  else some (header tag type value.length ++ (value ++ List.replicate padding 0))

def encodeStructure (tag : UInt32) (children : List Bytes) : Option Bytes :=
  encodeItem tag ttlvStructure children.flatten

def encodeInteger (tag : UInt32) (value : Int32) : Option Bytes :=
  encodeItem tag ttlvInteger (putInt32 value)

def encodeEnumeration (tag : UInt32) (value : Int32) : Option Bytes :=
  encodeItem tag ttlvEnumeration (putInt32 value)

/-- `encodeDateTime`, of the seconds of the Unix epoch. -/
def encodeDateTime (tag : UInt32) (seconds : Int64) : Option Bytes :=
  encodeItem tag ttlvDateTime (putInt64 seconds)

def encodeText (tag : UInt32) (value : Bytes) : Option Bytes :=
  encodeItem tag ttlvTextString value

def encodeBytes (tag : UInt32) (value : Bytes) : Option Bytes :=
  encodeItem tag ttlvByteString value

/-- A value that is encoded. -/
inductive Leaf where
  | integer (value : Int32)
  | enumeration (value : Int32)
  | dateTime (seconds : Int64)
  | text (value : Bytes)
  | byteString (value : Bytes)

/-- A tree of structures and values. -/
inductive Tree where
  | structured (tag : UInt32) (children : List Tree)
  | leaf (tag : UInt32) (value : Leaf)

namespace Leaf

/-- The type of a value. -/
def type : Leaf → UInt8
  | integer _ => ttlvInteger
  | enumeration _ => ttlvEnumeration
  | dateTime _ => ttlvDateTime
  | text _ => ttlvTextString
  | byteString _ => ttlvByteString

/-- The bytes of a value. -/
def bytes : Leaf → Bytes
  | integer value => putInt32 value
  | enumeration value => putInt32 value
  | dateTime seconds => putInt64 seconds
  | text value => value
  | byteString value => value

/-- The encoding of a value by the encoder for its kind. -/
def encode (tag : UInt32) : Leaf → Option Bytes
  | integer value => encodeInteger tag value
  | enumeration value => encodeEnumeration tag value
  | dateTime seconds => encodeDateTime tag seconds
  | text value => encodeText tag value
  | byteString value => encodeBytes tag value

theorem encode_eq (tag : UInt32) (value : Leaf) :
    value.encode tag = encodeItem tag value.type value.bytes := by
  cases value <;> rfl

theorem checked (value : Leaf) :
    value.type ≠ ttlvStructure ∧ checkLeaf value.type value.bytes.length = .ok () := by
  constructor
  · cases value <;> simp only [type] <;> decide
  · cases value <;> rfl

end Leaf

mutual

/-- The encoding of a tree; none when an encoder panics. -/
def Tree.encode : Tree → Option Bytes
  | .structured tag children => (encodeAll children).bind (encodeStructure tag)
  | .leaf tag value => value.encode tag

/-- The encodings of several trees. -/
def encodeAll : List Tree → Option (List Bytes)
  | [] => some []
  | first :: rest => do
      let front ← first.encode
      let back ← encodeAll rest
      return front :: back

end

mutual

/-- The parsed form of a tree. -/
def Tree.toTTLV : Tree → TTLV
  | .structured tag children =>
      .node tag ttlvStructure (UInt32.ofNat (extentAll (toTTLVAll children))) []
        (toTTLVAll children)
  | .leaf tag value => .node tag value.type (UInt32.ofNat value.bytes.length) value.bytes []

/-- The parsed forms of several trees. -/
def toTTLVAll : List Tree → List TTLV
  | [] => []
  | first :: rest => first.toTTLV :: toTTLVAll rest

end

mutual

/-- Every tag of the tree has three bytes. -/
def Tree.TagsFit : Tree → Prop
  | .structured tag children => tag.toNat < 2 ^ 24 ∧ tagsFitAll children
  | .leaf tag _ => tag.toNat < 2 ^ 24

/-- Every tag of the trees has three bytes. -/
def tagsFitAll : List Tree → Prop
  | [] => True
  | first :: rest => first.TagsFit ∧ tagsFitAll rest

end

theorem encodeItem_of_fits {tag : UInt32} {type : UInt8} {value : Bytes}
    (fits : 8 + value.length + ttlvPadding value.length ≤ 2 ^ 20) :
    encodeItem tag type value = some (header tag type value.length ++
      (value ++ List.replicate (ttlvPadding value.length) 0)) := by
  have cap : defaultTTLVLimits.maxFrameSize = 2 ^ 20 := rfl
  simp only [encodeItem, cap]
  rw [if_neg (by omega), if_neg (by omega)]

mutual

theorem Tree.exists_encode : ∀ {tree : Tree}, tree.TagsFit → tree.toTTLV.extent ≤ 2 ^ 20 →
    ∃ frame, tree.encode = some frame ∧ Laid tree.toTTLV frame
  | .structured tag children, fit, fits => by
      rw [Tree.toTTLV, TTLV.extent, List.length_nil, Nat.zero_add] at fits
      obtain ⟨parts, encoded, laid⟩ := encodeAll_exists fit.2 (by omega)
      have inner := laid.length_eq
      rw [← inner] at fits
      refine ⟨header tag ttlvStructure parts.flatten.length ++ (parts.flatten ++
        List.replicate (ttlvPadding parts.flatten.length) 0), ?_, ?_⟩
      · rw [Tree.encode, encoded, Option.bind_some, encodeStructure, encodeItem_of_fits fits]
      · rw [Tree.toTTLV, ← inner]
        exact .structured fit.1 (by omega) laid List.length_replicate
  | .leaf tag value, fit, fits => by
      rw [Tree.toTTLV, TTLV.extent, extentAll, Nat.add_zero] at fits
      refine ⟨header tag value.type value.bytes.length ++ (value.bytes ++
        List.replicate (ttlvPadding value.bytes.length) 0), ?_, ?_⟩
      · rw [Tree.encode, Leaf.encode_eq, encodeItem_of_fits fits]
      · rw [Tree.toTTLV]
        exact .leaf fit (by omega) value.checked.1 value.checked.2 List.length_replicate

theorem encodeAll_exists : ∀ {children : List Tree}, tagsFitAll children →
    extentAll (toTTLVAll children) ≤ 2 ^ 20 →
      ∃ parts, encodeAll children = some parts ∧ LaidAll (toTTLVAll children) parts.flatten
  | [], _, _ => ⟨[], rfl, .nil⟩
  | first :: rest, fit, fits => by
      rw [toTTLVAll, extentAll] at fits
      obtain ⟨front, frontEncoded, frontLaid⟩ := Tree.exists_encode fit.1 (by omega)
      obtain ⟨back, backEncoded, backLaid⟩ := encodeAll_exists fit.2 (by omega)
      refine ⟨front :: back, ?_, ?_⟩
      · rw [encodeAll, frontEncoded, backEncoded]
        rfl
      · rw [toTTLVAll, List.flatten_cons]
        exact .cons frontLaid backLaid

end

theorem normalizeTTLVLimits_of_pos {limits : TTLVLimits} (frameSize : 0 < limits.maxFrameSize)
    (fields : 0 < limits.maxFields) (depth : 0 < limits.maxDepth) :
    normalizeTTLVLimits limits = limits := by
  rw [normalizeTTLVLimits, if_neg (by omega), if_neg (by omega), if_neg (by omega)]

/-- With positive limits a frame is parsed to a tree exactly when it lays the tree
out, within the limits. -/
theorem parseTTLVWithLimits_eq_ok_iff {limits : TTLVLimits} (frameSize : 0 < limits.maxFrameSize)
    (fields : 0 < limits.maxFields) (depth : 0 < limits.maxDepth) {frame : Bytes} {root : TTLV} :
    parseTTLVWithLimits frame limits = .ok root ↔
      Laid root frame ∧ (frame.length : Int) ≤ limits.maxFrameSize ∧
        (root.nodes : Int) ≤ limits.maxFields ∧ (root.depth : Int) ≤ limits.maxDepth := by
  simp only [parseTTLVWithLimits, normalizeTTLVLimits_of_pos frameSize fields depth]
  constructor
  · intro accepted
    split at accepted
    · cases accepted
    split at accepted
    · cases accepted
    rename_i fits
    split at accepted
    · cases accepted
    · rename_i item n after read
      split at accepted
      · cases accepted
      · rename_i whole
        cases accepted
        obtain ⟨front, back, parts, lengths, laid, counted, bounded, deep⟩ :=
          readsLayouts_parseItem limits _ _ read
        rw [parts, List.length_append] at whole
        obtain rfl : back = [] := List.eq_nil_of_length_eq_zero (by omega)
        rw [List.append_nil] at parts
        rw [parts] at fits ⊢
        exact ⟨laid, by omega, by omega, by omega⟩
  · rintro ⟨laid, fits, counted, deep⟩
    have proper := List.length_pos_iff.mpr laid.ne_nil
    have read := acceptsLayouts_parseItem limits limits.maxDepth.toNat 1 [] 0 laid (by omega)
      (by omega) fits
    rw [List.append_nil] at read
    rw [if_neg (by omega), if_neg (by omega), read]
    simp

/-- Parsing inverts encoding for trees with tags of three bytes, and a parsed tree is
within the limits and accounts for every byte of its frame. -/
theorem parseTTLV_inverts_within_limits :
    (∀ tree : Tree, tree.TagsFit →
      (tree.toTTLV.extent : Int) ≤ defaultTTLVLimits.maxFrameSize →
      (tree.toTTLV.nodes : Int) ≤ defaultTTLVLimits.maxFields →
      (tree.toTTLV.depth : Int) ≤ defaultTTLVLimits.maxDepth →
        ∃ frame, tree.encode = some frame ∧ parseTTLV frame = .ok tree.toTTLV) ∧
    ∀ (frame : Bytes) (limits : TTLVLimits) (root : TTLV),
      0 < limits.maxFrameSize → 0 < limits.maxFields → 0 < limits.maxDepth →
        parseTTLVWithLimits frame limits = .ok root →
          (root.nodes : Int) ≤ limits.maxFields ∧ (root.depth : Int) ≤ limits.maxDepth ∧
            Laid root frame ∧ root.extent = frame.length := by
  constructor
  · intro tree tags fits counted deep
    have cap : defaultTTLVLimits.maxFrameSize = 2 ^ 20 := rfl
    obtain ⟨frame, encoded, laid⟩ := Tree.exists_encode tags (by omega)
    refine ⟨frame, encoded, ?_⟩
    rw [parseTTLV, parseTTLVWithLimits_eq_ok_iff (by decide) (by decide) (by decide)]
    exact ⟨laid, by rw [laid.length_eq]; exact fits, counted, deep⟩
  · intro frame limits root frameSize fields depth accepted
    obtain ⟨laid, -, counted, deep⟩ :=
      (parseTTLVWithLimits_eq_ok_iff frameSize fields depth).mp accepted
    exact ⟨counted, deep, laid, laid.length_eq.symm⟩

/-- A structure of an integer, an empty text and a text that is padded. -/
def sampleTree : Tree :=
  .structured 0x420078 [.leaf 0x42000d (.integer 1), .leaf 0x420094 (.text []),
    .structured 0x42000f [.leaf 0x42005c (.text (bytes "key-1"))]]

/-- The theorem at a tree with values of several lengths. -/
theorem parseTTLV_inverts_sampleTree :
    sampleTree.toTTLV.nodes = 5 ∧
      ∃ frame, sampleTree.encode = some frame ∧ parseTTLV frame = .ok sampleTree.toTTLV := by
  refine ⟨by decide +kernel, parseTTLV_inverts_within_limits.1 sampleTree ?_ ?_ ?_ ?_⟩
  · simp only [sampleTree, Tree.TagsFit, tagsFitAll]
    decide
  · decide +kernel
  · decide +kernel
  · decide +kernel

/-- The first byte of a tag of four bytes is lost. -/
theorem parseTTLV_loses_tag_byte :
    ¬ ∀ tree : Tree,
      (tree.toTTLV.extent : Int) ≤ defaultTTLVLimits.maxFrameSize →
      (tree.toTTLV.nodes : Int) ≤ defaultTTLVLimits.maxFields →
      (tree.toTTLV.depth : Int) ≤ defaultTTLVLimits.maxDepth →
        ∃ frame, tree.encode = some frame ∧ parseTTLV frame = .ok tree.toTTLV := by
  intro inverts
  obtain ⟨frame, encoded, parsed⟩ := inverts (.leaf 0x01000000 (.text [])) (by decide +kernel)
    (by decide +kernel) (by decide +kernel)
  have shape : (Tree.leaf 0x01000000 (.text [])).encode = some [0, 0, 0, 7, 0, 0, 0, 0] := by
    decide +kernel
  rw [shape] at encoded
  cases encoded
  have tag := congrArg (fun result => result.toOption.map TTLV.tag) parsed
  exact absurd tag (by decide +kernel)

end Trstctl.Kmip.Ttlv
