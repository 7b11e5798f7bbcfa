import Adventure.Text.Blank
import Adventure.Text.Lines
import Adventure.World.Encode
import Adventure.World.Render

namespace Adventure

open Text World

namespace Item

/-- The fields of a block that begins at `line`, in the order of the document, with the lines that
    they stand on. -/
structure Fields where
  line : Nat
  values : List (String × Nat × List Char)
  deriving Repr, DecidableEq

namespace Fields

def add (fields : Fields) (line : Nat) (key : String) (value : List Char) : Except Error Fields :=
  if (fields.values.lookup key).isSome then .error (.malformedLine line (.duplicateField key))
  else .ok { fields with values := fields.values ++ [(key, line, value)] }

/-- Takes a field out, if it is there. -/
def take? (fields : Fields) (key : String) : Option (Nat × List Char) × Fields :=
  (fields.values.lookup key, { fields with values := fields.values.filter (·.1 ≠ key) })

/-- Takes out a field that must be there. -/
def take (fields : Fields) (key : String) : Except Error ((Nat × List Char) × Fields) :=
  match fields.take? key with
  | (some value, fields) => .ok (value, fields)
  | (none, _) => .error (.malformedLine fields.line (.missingField key))

/-- A number below `bound`, from a field. -/
def number (bound line : Nat) (key : String) (value : List Char) : Except Error Nat :=
  match decimal? bound (trim value) with
  | some number => .ok number
  | none => .error (.malformedLine line (.badValue (String.ofList value) key))

def word (fields : Fields) (key : String) : Except Error (UInt16 × Fields) := do
  let ((line, value), fields) ← fields.take key
  return (UInt16.ofNat (← number 0x10000 line key value), fields)

def word32 (fields : Fields) (key : String) : Except Error (UInt32 × Fields) := do
  let ((line, value), fields) ← fields.take key
  return (UInt32.ofNat (← number 0x100000000 line key value), fields)

/-- A number that may be left out. -/
def optional (bound : Nat) (fields : Fields) (key : String) :
    Except Error (Option Nat × Fields) :=
  match fields.take? key with
  | (some (line, value), fields) => (number bound line key value).map fun n => (some n, fields)
  | (none, fields) => .ok (none, fields)

/-- Words between blanks. -/
def wordList (fields : Fields) (key : String) :
    Except Error ((Nat × List UInt16) × Fields) := do
  let ((line, value), fields) ← fields.take key
  let values ← (words value).mapM (number 0x10000 line key)
  return ((line, values.map UInt16.ofNat), fields)

/-- No field is left. -/
def finish (fields : Fields) : Except Error Unit :=
  match fields.values with
  | [] => .ok ()
  | (key, line, _) :: _ => .error (.malformedLine line (.unknownField key))

end Fields

/-- A door: a dash, or an item and a state. -/
def parseExit (line : Nat) (value : List Char) : Except Error (Option Exit) :=
  let bad := .error (.malformedLine line (.badExit (String.ofList value)))
  if value = ['-'] then .ok none
  else
    match words value with
    | [target, state] =>
      match decimal? 0x100000000 target, DoorState.ofName? (String.ofList state) with
      | some target, some state =>
        if target = 0 then bad else .ok (some ⟨UInt32.ofNat target, state⟩)
      | _, _ => bad
    | _ => bad

/-- The doors of the numbers given. -/
def parseExits (fields : Fields) : List Nat → Except Error (List (Option Exit) × Fields)
  | [] => .ok ([], fields)
  | number :: rest => do
    let ((line, value), fields) ← fields.take (exitKey number)
    let exit ← parseExit line value
    let (exits, fields) ← parseExits fields rest
    return (exit :: exits, fields)

/-- Puts a value of an object into an ascending list. -/
def insertValue (bit : Nat) (value : UInt16) : List (Nat × UInt16) → List (Nat × UInt16)
  | [] => [(bit, value)]
  | first :: rest =>
    if bit < first.1 then (bit, value) :: first :: rest
    else if bit = first.1 then (bit, value) :: rest
    else first :: insertValue bit value rest

/-- The values of an object, from all fields that are left. -/
def parseValues (gathered : List (Nat × UInt16)) :
    List (String × Nat × List Char) → Except Error (List (Nat × UInt16))
  | [] => .ok gathered
  | (key, line, value) :: rest =>
    match ObjectField.bit? key with
    | none => .error (.malformedLine line (.unknownField key))
    | some bit => do
      let value ← Fields.number 0x10000 line key value
      parseValues (insertValue bit (UInt16.ofNat value) gathered) rest

/-- The flags of the numbers given. -/
def parseFlags (fields : Fields) : List Nat → Except Error (List UInt16 × Fields)
  | [] => .ok ([], fields)
  | number :: rest => do
    let (flag, fields) ← fields.word s!"{number}"
    let (flags, fields) ← parseFlags fields rest
    return (flag :: flags, fields)

/-- A property of a kind and the fields that are left over. -/
def parsePropertyFields (kind : PropertyKind) (fields : Fields) :
    Except Error (Property × Fields) :=
  match kind with
  | .room => do
    let (table, fields) ← fields.word "TABLE"
    let (exits, fields) ← parseExits fields (List.range' 1 Exit.count)
    return (.room table exits, fields)
  | .object => do
    let (name, fields) ← fields.word32 "NAME"
    let (description, fields) ← fields.optional 0x100000000 "DESCRIPTION"
    let (flags, fields) ← fields.optional 0x10000 "FLAGS"
    let slots ← parseValues [] fields.values
    return (.object name (description.map UInt32.ofNat) slots (UInt16.ofNat (flags.getD 0)),
      { fields with values := [] })
  | .superRoom => do
    let ((line, numbers), fields) ← fields.wordList "SUPER_ROOM"
    match numbers with
    | [id, x, y, z] =>
      let ((_, exits), fields) ← fields.wordList "EXITS"
      let wanted := superRoomExits x y z
      if exits.length ≠ wanted then throw (.exitCount x y z wanted exits.length)
      return (.superRoom id x y z exits, fields)
    | _ => throw (.malformedLine line .superRoomForm)
  | .container => do
    let (volume, fields) ← fields.word "VOLUME"
    let (flags, fields) ← fields.word "FLAGS"
    return (.container volume flags, fields)
  | .chain => do
    let (item, fields) ← fields.word32 "ITEM"
    return (.chain item, fields)
  | .inherit => do
    let (item, fields) ← fields.word32 "ITEM"
    return (.inherit item, fields)
  | .userFlag => do
    let (flags, fields) ← parseFlags fields (List.range' 1 Property.userFlagCount)
    return (.userFlag flags, fields)

def parseProperty (kind : PropertyKind) (fields : Fields) : Except Error Property := do
  let (property, fields) ← parsePropertyFields kind fields
  fields.finish
  return property

/-- The blocks of an item: its own and those of its properties, the last one first. -/
structure Draft where
  header : Fields
  properties : List (PropertyKind × Fields)
  deriving Repr, DecidableEq

namespace Draft

/-- Adds a field to the last block. -/
def addField (draft : Draft) (line : Nat) (key : String) (value : List Char) :
    Except Error Draft :=
  match draft.properties with
  | [] => (draft.header.add line key value).map ({ draft with header := · })
  | (kind, fields) :: rest =>
    (fields.add line key value).map fun fields =>
      { draft with properties := (kind, fields) :: rest }

/-- The item that the blocks make. -/
def finish (draft : Draft) : Except Error Item := do
  let fields := draft.header
  let (adjective, fields) ← fields.word "ADJECTIVE"
  let (noun, fields) ← fields.word "NOUN"
  let (state, fields) ← fields.word "STATE"
  let (next, fields) ← fields.word32 "NEXT"
  let (child, fields) ← fields.word32 "CHILD"
  let (parent, fields) ← fields.word32 "PARENT"
  let (actorTable, fields) ← fields.word "ACTOR_TABLE"
  let (className, fields) ← fields.word "CLASS"
  let (propertiesInit, fields) ← fields.word32 "PROPERTIES"
  let properties ← draft.properties.reverse.mapM fun (kind, fields) => parseProperty kind fields
  fields.finish
  if propertiesInit = 0 ∧ !properties.isEmpty then
    throw (.malformedLine draft.header.line .unannouncedProperties)
  return ⟨adjective, noun, state, next, child, parent, actorTable, className, propertiesInit,
    properties⟩

end Draft

/-- The part of a document that has been read: the finished items, the last one first, and the one
    that is not finished. -/
structure Reading where
  items : List Item
  current : Option Draft
  deriving Repr, DecidableEq

namespace Reading

/-- Finishes the current item. -/
def close (reading : Reading) : Except Error (List Item) :=
  match reading.current with
  | some draft => draft.finish.map (· :: reading.items)
  | none => .ok reading.items

/-- The part of a line before a comment. -/
def uncommented : List Char → List Char
  | '/' :: '/' :: _ => []
  | c :: rest => c :: uncommented rest
  | [] => []

/-- The number of an item, from what stands behind the first equals signs of its line. -/
def itemNumber? (content : List Char) : Option Nat := do
  let content := trim content
  if !"ITEM".toList.isPrefixOf content then none
  let content := trim (content.drop 4)
  if !"==".toList.isSuffixOf content then none
  decimal? 0x100000000 (trim (content.take (content.length - 2)))

def readItemStart (reading : Reading) (line : Nat) (content : List Char) :
    Except Error Reading := do
  let some number := itemNumber? content | throw (.malformedLine line .itemForm)
  let items ← reading.close
  let expected := wordNumber (first + items.length)
  if number ≠ expected then throw (.nonContiguous line expected number)
  return ⟨items, some ⟨⟨line, []⟩, []⟩⟩

def readPropertyStart (reading : Reading) (line : Nat) (content : List Char) :
    Except Error Reading := do
  let some draft := reading.current | throw (.malformedLine line .propertyOutsideItem)
  let name := String.ofList (trim content)
  let some kind := PropertyKind.ofName? name | throw (.malformedLine line (.unknownProperty name))
  let draft := { draft with properties := (kind, ⟨line, []⟩) :: draft.properties }
  return { reading with current := some draft }

def readField (reading : Reading) (line : Nat) (content : List Char) : Except Error Reading := do
  let some draft := reading.current | throw (.malformedLine line .fieldOutsideItem)
  let key := content.takeWhile (!isBlank ·)
  let value := trim (content.dropWhile (!isBlank ·))
  let draft ← draft.addField line (String.ofList key) value
  return { reading with current := some draft }

/-- Adds what a line says. Empty lines and comments say nothing. -/
def readLine (reading : Reading) (line : Nat) (content : List Char) : Except Error Reading :=
  match trim (uncommented content) with
  | [] => .ok reading
  | '=' :: '=' :: '>' :: rest => reading.readPropertyStart line rest
  | '=' :: '=' :: rest => reading.readItemStart line rest
  | content => reading.readField line content

end Reading

/-- The items of an objects document, which are numbered from the first stored item on. -/
def parseAll (document : String) : Except Error (List Item) := do
  let reading ← (Text.numbered (lines document.toList)).foldlM
    (fun (reading : Reading) (line, content) => reading.readLine line content) ⟨[], none⟩
  return (← reading.close).reverse

end Item

end Adventure
