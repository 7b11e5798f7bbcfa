import Adventure.Script.DecodeError
import Adventure.Script.Reference
import Adventure.World.Item

namespace Adventure

open Bytes

namespace Item

/-- A field of the item or property that starts at `offset`. -/
def part {α : Type} (offset : Nat) (c : Cursor) (read : Cursor → Except Fault (α × Cursor)) :
    Except DecodeError (α × Cursor) :=
  (read c).mapError fun _ => .truncatedOperand offset

/-- The doors that a word of states gives, two bits for each from the lowest on. -/
def readExits (offset : Nat) :
    (count states : Nat) → Cursor → Except DecodeError (List (Option Exit) × Cursor)
  | 0, _, c => .ok ([], c)
  | count + 1, states, c =>
    match DoorState.ofCode? (states % 4) with
    | none => do
      let (exits, c) ← readExits offset count (states / 4) c
      return (none :: exits, c)
    | some state => do
      let (target, c) ← part offset c Cursor.item
      if target = 0 then throw (.malformedOperand offset .exitToNothing)
      let (exits, c) ← readExits offset count (states / 4) c
      return (some ⟨target, state⟩ :: exits, c)

/-- The values of an object whose bits are set in `mask`. -/
def readValues (offset mask : Nat) :
    List Nat → Cursor → Except DecodeError (List (Nat × UInt16) × Cursor)
  | [], c => .ok ([], c)
  | bit :: bits, c =>
    if mask.testBit bit then do
      let (value, c) ← part offset c Cursor.word16
      let (values, c) ← readValues offset mask bits c
      return ((bit, value) :: values, c)
    else readValues offset mask bits c

/-- Words of the property that starts at `offset`. -/
def readWords (offset count : Nat) (c : Cursor) : Except DecodeError (List UInt16 × Cursor) :=
  c.times (fun c => part offset c Cursor.word16) count []

/-- A property of a kind, whose kind word is at `offset`. -/
def readProperty (offset : Nat) (kind : PropertyKind) (c : Cursor) :
    Except DecodeError (Property × Cursor) :=
  match kind with
  | .room => do
    let (table, c) ← part offset c Cursor.word16
    let (states, c) ← part offset c Cursor.word16
    let (exits, c) ← readExits offset Exit.count states.toNat c
    return (.room table exits, c)
  | .object => do
    let (word, c) ← part offset c Cursor.word32
    let mask := word.toNat
    let (description, c) ←
      if mask.testBit 0 then
        (part offset c Cursor.word32).map fun (description, c) => (some description, c)
      else .ok (none, c)
    let (slots, c) ← readValues offset mask ObjectField.bits c
    let (name, c) ← part offset c Cursor.word32
    return (.object name description slots (UInt16.ofNat (mask / 0x10000)), c)
  | .superRoom => do
    let (id, c) ← part offset c Cursor.word16
    let (x, c) ← part offset c Cursor.word16
    let (y, c) ← part offset c Cursor.word16
    let (z, c) ← part offset c Cursor.word16
    let (exits, c) ← readWords offset (x.toNat * y.toNat * z.toNat) c
    return (.superRoom id x y z exits, c)
  | .container => do
    let (volume, c) ← part offset c Cursor.word16
    let (flags, c) ← part offset c Cursor.word16
    return (.container volume flags, c)
  | .chain => do
    let (item, c) ← part offset c Cursor.item
    return (.chain item, c)
  | .inherit => do
    let (item, c) ← part offset c Cursor.item
    return (.inherit item, c)
  | .userFlag => do
    let (flags, c) ← readWords offset Property.userFlagCount c
    return (.userFlag flags, c)

/-- The next property of the item at `offset`, or none at the zero word. -/
def readNextProperty (offset : Nat) (c : Cursor) :
    Except DecodeError (Option Property × Cursor) := do
  let start := c.position
  let (word, c) ← part offset c Cursor.word16
  if word = 0 then return (none, c)
  match PropertyKind.ofCode? word with
  | none => throw (.unknownProperty word start)
  | some kind => do
    let (property, c) ← readProperty start kind c
    return (some property, c)

def read (c : Cursor) : Except DecodeError (Item × Cursor) := do
  let offset := c.position
  let (adjective, c) ← part offset c Cursor.word16
  let (noun, c) ← part offset c Cursor.word16
  let (state, c) ← part offset c Cursor.word16
  let (next, c) ← part offset c Cursor.item
  let (child, c) ← part offset c Cursor.item
  let (parent, c) ← part offset c Cursor.item
  let (actorTable, c) ← part offset c Cursor.word16
  let (className, c) ← part offset c Cursor.word16
  let (propertiesInit, c) ← part offset c Cursor.word32
  let (properties, c) ←
    if propertiesInit = 0 then .ok ([], c) else c.collect (readNextProperty offset)
  return (⟨adjective, noun, state, next, child, parent, actorTable, className, propertiesInit,
    properties⟩, c)

/-- As many items as the base file counts. -/
def readAll (c : Cursor) (count : Nat) : Except DecodeError (List Item × Cursor) :=
  c.times read count []

end Item

end Adventure
