import Adventure.Script.Reference
import Adventure.World.Error
import Adventure.World.Item

namespace Adventure

open Bytes World

namespace Item

def referenceBytes (item : UInt32) : Except Error (List UInt8) :=
  match ItemRef.stored? item with
  | some bytes => .ok bytes
  | none => .error (.unencodableItem item)

/-- The states of doors, two bits for each from the lowest on. -/
def exitStates : List (Option Exit) → Nat
  | [] => 0
  | exit :: rest => (exit.map (·.state.code)).getD 0 + 4 * exitStates rest

/-- The word that tells which values an object has, with its flags in the upper half. -/
def objectMask (description : Option UInt32) (slots : List (Nat × UInt16)) (flags : UInt16) : Nat :=
  slots.foldl (fun mask (bit, _) => mask ||| 1 <<< bit)
    (0x10000 * flags.toNat + if description.isSome then 1 else 0)

/-- The number of doors of a block of rooms. -/
def superRoomExits (x y z : UInt16) : Nat := x.toNat * y.toNat * z.toNat

def propertyBytes (property : Property) : Except Error (List UInt8) :=
  match property with
  | .room table exits =>
    ((exits.filterMap id).mapM fun exit => referenceBytes exit.target).map fun targets =>
      word16 table ++ word16 (UInt16.ofNat (exitStates exits)) ++ targets.flatten
  | .object name description slots flags =>
    .ok (word32 (UInt32.ofNat (objectMask description slots flags)) ++
      (description.map word32).getD [] ++ (slots.flatMap fun (_, value) => word16 value) ++
      word32 name)
  | .superRoom id x y z exits =>
    let wanted := superRoomExits x y z
    if exits.length = wanted then .ok ((id :: x :: y :: z :: exits).flatMap word16)
    else .error (.exitCount x y z wanted exits.length)
  | .container volume flags => .ok (word16 volume ++ word16 flags)
  | .chain item => referenceBytes item
  | .inherit item => referenceBytes item
  | .userFlag flags => .ok (flags.flatMap word16)

/-- The properties of an item, each behind the word for its kind, and the zero word. -/
def propertiesBytes (properties : List Property) : Except Error (List UInt8) :=
  (properties.mapM fun property =>
    (propertyBytes property).map fun bytes => word16 property.kind.code ++ bytes).map
      fun properties => properties.flatten ++ word16 0

def toBytes (item : Item) : Except Error (List UInt8) := do
  let next ← referenceBytes item.next
  let child ← referenceBytes item.child
  let parent ← referenceBytes item.parent
  let properties ←
    if item.propertiesInit = 0 then .ok [] else propertiesBytes item.properties
  return word16 item.adjective ++ word16 item.noun ++ word16 item.state ++ next ++ child ++
    parent ++ word16 item.actorTable ++ word16 item.className ++ word32 item.propertiesInit ++
    properties

def allBytes (items : List Item) : Except Error (List UInt8) :=
  (items.mapM toBytes).map List.flatten

end Item

end Adventure
