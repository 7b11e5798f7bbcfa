import Adventure.Bytes.Cursor

namespace Adventure

open Bytes

namespace Container

inductive Layout where
  /-- The number of records, then each record behind its length. -/
  | classic
  /-- The position of every record, then the records. -/
  | indexed
  /-- As `indexed`, with a block of `extraWords` words between the positions and the records. -/
  | talkie (extraWords : Nat)
  deriving Repr, DecidableEq

/-- The length of the block between the positions and the records. -/
def Layout.extraLength : Layout → Nat
  | talkie extraWords => 4 * extraWords
  | _ => 0

inductive Error where
  | truncatedIndex (count available : Nat)
  | misalignedIndex (length : Nat)
  | offsetOverflow (ordinal offset length containerLength : Nat)
  | nonMonotonicOffset (ordinal offset previous : Nat)
  | tooLarge (length : Nat)
  | unexpectedExtra
  | extraSize (expected found : Nat)
  | trailingData (offset length : Nat)
  | unterminated (ordinal length : Nat)
  | fault (reason : Fault)
  deriving Repr, DecidableEq

def Error.message : Error → String
  | truncatedIndex count available =>
    s!"index declares {count} records but only {available} bytes follow"
  | misalignedIndex length => s!"index of {length} bytes is not a whole number of offsets"
  | offsetOverflow ordinal offset length containerLength =>
    s!"record {ordinal} at offset {offset} with length {length} runs past the container end " ++
      s!"({containerLength})"
  | nonMonotonicOffset ordinal offset previous =>
    s!"record {ordinal} starts at {offset}, before the previous record at {previous}"
  | tooLarge length => s!"container of {length} bytes exceeds the 32-bit offset range"
  | unexpectedExtra => "unexpected extra header block for a layout without one"
  | extraSize expected found =>
    s!"extra header block holds {found} bytes but the layout expects {expected}"
  | trailingData offset length => s!"{length} bytes follow the final offset {offset}"
  | unterminated ordinal length =>
    s!"last record {ordinal} holds {length} bytes, the final offset must end the container"
  | fault reason => reason.message

/-- Where a record lies in the file. -/
structure IndexEntry where
  record : Nat
  offset : Nat
  length : Nat
  deriving Repr, DecidableEq

end Container

open Container in
/-- The records of a file in order, and the block before them that the layout may have. -/
structure Container where
  layout : Layout
  extra : List UInt8
  records : List (List UInt8)
  deriving Repr, DecidableEq

namespace Container

/-- The records of the classic layout from `ordinal` on, `count` of them. -/
def classicRecords (size : Nat) :
    (count ordinal : Nat) → Cursor → List (List UInt8) → Except Error (List (List UInt8) × Cursor)
  | 0, _, c, gathered => .ok (gathered.reverse, c)
  | count + 1, ordinal, c, gathered => do
    let (length, c) ← c.word32.mapError .fault
    match c.bytes length.toNat with
    | .ok (record, c) => classicRecords size count (ordinal + 1) c (record :: gathered)
    | .error _ => throw (.offsetOverflow ordinal c.position length.toNat size)

def ofClassic (data : List UInt8) : Except Error Container := do
  let (count, c) ← (Cursor.ofBytes data).word32.mapError .fault
  let available := c.remaining
  if available < 4 * count.toNat then throw (.truncatedIndex count.toNat available)
  let (records, c) ← classicRecords data.length count.toNat 0 c []
  if !c.atEnd then throw (.offsetOverflow count.toNat c.position c.remaining data.length)
  return ⟨.classic, [], records⟩

/-- Checks that positions ascend and lie in a file of `size` bytes. The record at a position ends
    where the next one starts. -/
def checkOffsets (size ordinal previous : Nat) : List Nat → Except Error Unit
  | [] => .ok ()
  | offset :: rest =>
    let stop := rest.headD offset
    if offset < previous then .error (.nonMonotonicOffset ordinal offset previous)
    else if size < max offset stop then
      .error (.offsetOverflow ordinal offset (stop - offset) size)
    else checkOffsets size (ordinal + 1) offset rest

/-- Cuts the records out of `data`, which starts at the first of the positions. -/
def cutRecords (data : List UInt8) : List Nat → List (List UInt8)
  | [] => []
  | [_] => [[]]
  | offset :: stop :: rest =>
    data.take (stop - offset) :: cutRecords (data.drop (stop - offset)) (stop :: rest)

def readOffset (c : Cursor) : Except Error (Nat × Cursor) :=
  (c.word32Little.mapError .fault).map fun (offset, c) => (offset.toNat, c)

def ofOffsets (layout : Layout) (data : List UInt8) : Except Error Container := do
  if data.isEmpty then return ⟨layout, [], []⟩
  let size := data.length
  let extraLength := layout.extraLength
  let (first, c) ← readOffset (Cursor.ofBytes data)
  if size < first then throw (.truncatedIndex (first / 4) size)
  if first < extraLength + 4 ∨ (first - extraLength) % 4 ≠ 0 then throw (.misalignedIndex first)
  let (others, c) ← c.times readOffset ((first - extraLength) / 4 - 1) []
  let (extra, c) ← (c.bytes extraLength).mapError .fault
  let offsets := first :: others
  checkOffsets size 0 0 offsets
  let last := offsets.getLastD first
  if last < size then throw (.trailingData last (size - last))
  return ⟨layout, extra, cutRecords c.rest offsets⟩

/-- The container that a file holds in a layout. An empty file holds no records in the offset
    layouts. -/
def ofBytes (data : List UInt8) (layout : Layout) : Except Error Container :=
  match layout with
  | .classic => ofClassic data
  | _ => ofOffsets layout data

/-- The index entries from a record on, when the bytes before it end at `offset`. -/
def indexFrom (lengthField record offset : Nat) : List (List UInt8) → List IndexEntry
  | [] => []
  | data :: rest =>
    ⟨record, offset + lengthField, data.length⟩ ::
      indexFrom lengthField (record + 1) (offset + lengthField + data.length) rest

/-- Where the records lie when the container is written. -/
def index (container : Container) : List IndexEntry :=
  match container.layout with
  | .classic => indexFrom 4 0 4 container.records
  | _ => indexFrom 0 0 (4 * container.records.length + container.extra.length) container.records

/-- The length of the file that the index describes. -/
def indexedLength (index : List IndexEntry) : Nat :=
  match index.getLast? with
  | some last => last.offset + last.length
  | none => 0

def classicBytes (records : List (List UInt8)) : List UInt8 :=
  word32 (UInt32.ofNat records.length) ++
    records.flatMap fun record => word32 (UInt32.ofNat record.length) ++ record

/-- The file of a container, unless its extra block is not what the layout has, its last record
    does not mark the end, or its positions need more than 32 bits. -/
def toBytes (container : Container) : Except Error (List UInt8) := do
  let index := container.index
  let length := indexedLength index
  if 0xffffffff < length then throw (.tooLarge length)
  match container.layout with
  | .classic =>
    if !container.extra.isEmpty then throw .unexpectedExtra
    return classicBytes container.records
  | layout =>
    let expected := layout.extraLength
    let found := container.extra.length
    if expected = 0 ∧ found ≠ 0 then throw .unexpectedExtra
    if found ≠ expected then throw (.extraSize expected found)
    let last := container.records.getLastD []
    if !last.isEmpty then throw (.unterminated (container.records.length - 1) last.length)
    return (index.flatMap fun entry => word32Little (UInt32.ofNat entry.offset)) ++
      container.extra ++ container.records.flatten

end Container

end Adventure
