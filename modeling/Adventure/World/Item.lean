import Std.Data.TreeMap

namespace Adventure

/-- The kinds of properties, by the word that introduces one. -/
inductive PropertyKind where
  | room
  | object
  | superRoom
  | container
  | chain
  | userFlag
  | inherit
  deriving Repr, DecidableEq

namespace PropertyKind

def code : PropertyKind → UInt16
  | room => 1
  | object => 2
  | superRoom => 4
  | container => 7
  | chain => 8
  | userFlag => 9
  | inherit => 255

def name : PropertyKind → String
  | room => "ROOM"
  | object => "OBJECT"
  | superRoom => "SUPER_ROOM"
  | container => "CONTAINER"
  | chain => "CHAIN"
  | userFlag => "USERFLAG"
  | inherit => "INHERIT"

def all : List PropertyKind := [room, object, superRoom, container, chain, userFlag, inherit]

def ofCode? (code : UInt16) : Option PropertyKind := all.find? (·.code = code)

def ofName? (name : String) : Option PropertyKind := all.find? (·.name = name)

theorem ofCode?_code (kind : PropertyKind) : ofCode? kind.code = some kind := by
  cases kind <;> rfl

end PropertyKind

inductive DoorState where
  | opened
  | closed
  | locked
  deriving Repr, DecidableEq

namespace DoorState

def code : DoorState → Nat
  | opened => 1
  | closed => 2
  | locked => 3

def name : DoorState → String
  | opened => "OPEN"
  | closed => "CLOSED"
  | locked => "LOCKED"

def all : List DoorState := [opened, closed, locked]

/-- The state of a door by its code. There is no door where the code is 0. -/
def ofCode? (code : Nat) : Option DoorState := all.find? (·.code = code)

def ofName? (name : String) : Option DoorState := all.find? (·.name = name)

theorem ofCode?_code (state : DoorState) : ofCode? state.code = some state := by
  cases state <;> rfl

end DoorState

/-- A door of a room and the item behind it. -/
structure Exit where
  target : UInt32
  state : DoorState
  deriving Repr, DecidableEq

namespace Exit

/-- The number of doors that a room may have. -/
def count : Nat := 6

end Exit

namespace ObjectField

/-- The bit of the voice that speaks an object's description. -/
def voiceBit : Nat := 9

/-- The name of a value that an object may have, by its bit. -/
def name (bit : Nat) : String :=
  match bit with
  | 1 => "SIZE"
  | 2 => "WEIGHT"
  | 3 => "VOLUME"
  | 4 => "ICON"
  | 7 => "MENU"
  | 8 => "NUMBER"
  | 9 => "VOICE"
  | 10 => "UNK10"
  | 11 => "UNK11"
  | n => s!"SLOT{n}"

/-- The bits of all values, in the order in which the values are stored. -/
def bits : List Nat := List.range' 1 15

def bit? (field : String) : Option Nat := bits.find? fun bit => name bit = field

end ObjectField

inductive Property where
  /-- A room, with a door or none in each direction. -/
  | room (table : UInt16) (exits : List (Option Exit))
  /-- A name, a description and values by bit, ascending. -/
  | object (name : UInt32) (description : Option UInt32) (slots : List (Nat × UInt16))
      (flags : UInt16)
  /-- A block of rooms, with the doors of all of them. -/
  | superRoom (id x y z : UInt16) (exits : List UInt16)
  | container (volume flags : UInt16)
  | chain (item : UInt32)
  | inherit (item : UInt32)
  | userFlag (flags : List UInt16)
  deriving Repr, DecidableEq

namespace Property

def kind : Property → PropertyKind
  | room .. => .room
  | object .. => .object
  | superRoom .. => .superRoom
  | container .. => .container
  | chain _ => .chain
  | inherit _ => .inherit
  | userFlag _ => .userFlag

/-- The number of flags that a user flag property holds. -/
def userFlagCount : Nat := 4

end Property

/-- An item. The items around it in the world are `next`, `child` and `parent`. -/
structure Item where
  adjective : UInt16
  noun : UInt16
  state : UInt16
  next : UInt32
  child : UInt32
  parent : UInt32
  actorTable : UInt16
  className : UInt16
  /-- Zero in an item that has no list of properties. -/
  propertiesInit : UInt32
  properties : List Property
  deriving Repr, DecidableEq

namespace Item

/-- The number of the first stored item. -/
def first : Nat := 2

/-- An item number as documents have it, which is a word of 32 bits: higher numbers wrap around. -/
def wordNumber (number : Nat) : Nat := number % 0x100000000

theorem wordNumber_lt (number : Nat) : wordNumber number < 0x100000000 := Nat.mod_lt _ (by decide)

/-- The string that names an item, from its first object property. -/
def name? (item : Item) : Option UInt32 :=
  item.properties.findSome? fun
    | .object name .. => some name
    | _ => none

/-- Items with their numbers. -/
def numbered (items : List Item) : List (Nat × Item) :=
  items.zipIdx.map fun (item, index) => (first + index, item)

/-- The strings that name the items. -/
def names (items : List Item) : Std.TreeMap Nat Nat :=
  (numbered items).foldl (fun names (number, item) =>
    match item.name? with
    | some name => names.insert number name.toNat
    | none => names) ∅

/-- The description of an object and the voice that speaks it. -/
def propertyVoice? : Property → Option (Nat × UInt16)
  | .object _ (some description) slots _ =>
    (slots.lookup ObjectField.voiceBit).map fun voice => (description.toNat, voice)
  | _ => none

/-- The descriptions that have a voice. -/
def voices (items : List Item) : List (Nat × UInt16) :=
  items.flatMap fun item => item.properties.filterMap propertyVoice?

end Item

end Adventure
