import Adventure.Text.Numeral

namespace Adventure

inductive OperandKind where
  /-- One byte, or `FF` and the number of a variable. -/
  | byte
  | item
  | text
  | voice
  | number
  | var
  | property
  | noun
  | adjective
  /-- The position of a command in the record. -/
  | jump
  /-- Words up to an end mark. -/
  | list
  deriving Repr, DecidableEq

namespace OperandKind

/-- The letter of a kind in a shape. -/
def letter : OperandKind → Char
  | byte => 'B'
  | item => 'I'
  | text => 'T'
  | voice => 'S'
  | number => 'N'
  | var => 'v'
  | property => 'p'
  | noun => 'n'
  | adjective => 'a'
  | jump => 'J'
  | list => 'L'

def all : List OperandKind :=
  [byte, item, text, voice, number, var, property, noun, adjective, jump, list]

def ofLetter? (c : Char) : Option OperandKind := all.find? (·.letter = c)

theorem ofLetter?_letter (kind : OperandKind) : ofLetter? kind.letter = some kind := by
  cases kind <;> rfl

end OperandKind

/-- The letters of a list of operand kinds. -/
def shapeLetters (shape : List OperandKind) : String := String.ofList (shape.map OperandKind.letter)

/-- What a layer of an instruction set says of an opcode. -/
structure OpcodeDefinition where
  code : UInt8
  name : Option String
  shape : List OperandKind
  deriving Repr, DecidableEq

/-- An opcode of an instruction set, with the word that scripts write it with. -/
structure Opcode where
  code : UInt8
  name : Option String
  mnemonic : String
  shape : List OperandKind
  deriving Repr, DecidableEq

namespace Opcode

/-- The two hexadecimal digits of a code, in capital letters. -/
def capitalDigits (code : UInt8) : String :=
  String.ofList ((Text.hexPadded 2 code.toNat).map Char.toUpper)

/-- The word for an opcode that cannot have its name. -/
def numberedMnemonic (code : UInt8) : String := "OP_" ++ capitalDigits code

/-- Code, word and operands in one line. -/
def describe (op : Opcode) : String :=
  s!"(0x{String.ofList (Text.hexPadded 2 op.code.toNat)}) {op.mnemonic} {shapeLetters op.shape}"

end Opcode

end Adventure
