import Adventure.Instruction.Opcode

namespace Adventure

/-- The opcodes of a game in the order of their codes. -/
structure InstructionSet where
  name : String
  opcodes : List Opcode
  deriving Repr, DecidableEq

/-- A code that is no opcode of the set. -/
inductive InstructionSet.Error where
  | unknownOpcode (code : UInt8)
  deriving Repr, DecidableEq

def InstructionSet.Error.message : InstructionSet.Error → String
  | unknownOpcode code =>
    s!"opcode 0x{String.ofList (Text.hexPadded 2 code.toNat)} is not part of the instruction set"

namespace InstructionSet

/-- The byte that ends a line of commands, and so is no opcode. -/
def endOfLine : UInt8 := 0xff

/-- The codes that an opcode can have, in order. -/
def codes : List UInt8 := (List.range 255).map UInt8.ofNat

/-- The last definition of a code. -/
def definition? (layers : List (List OpcodeDefinition)) (code : UInt8) : Option OpcodeDefinition :=
  layers.flatten.reverse.find? (·.code = code)

/-- Gives definitions their mnemonics, when the opcodes before them have those in `taken`. -/
def withMnemonics (taken : List String) : List OpcodeDefinition → List Opcode
  | [] => []
  | ⟨code, name, shape⟩ :: rest =>
    let wanted := name.getD (Opcode.numberedMnemonic code)
    let mnemonic := if wanted ∈ taken then Opcode.numberedMnemonic code else wanted
    ⟨code, name, mnemonic, shape⟩ :: withMnemonics (mnemonic :: taken) rest

/-- The set that layers of definitions make, later ones over earlier ones. A definition of the end
    mark is ignored. -/
def ofLayers (name : String) (layers : List (List OpcodeDefinition)) : InstructionSet :=
  ⟨name, withMnemonics [] (codes.filterMap (definition? layers))⟩

def get? (set : InstructionSet) (code : UInt8) : Option Opcode :=
  set.opcodes.find? (·.code = code)

/-- The opcode that a mnemonic names. -/
def lookup? (set : InstructionSet) (mnemonic : String) : Option Opcode :=
  set.opcodes.reverse.find? (·.mnemonic = mnemonic)

/-- The operands of an opcode. -/
def shape (set : InstructionSet) (code : UInt8) : Except Error (List OperandKind) :=
  match set.get? code with
  | some op => .ok op.shape
  | none => .error (.unknownOpcode code)

end InstructionSet

end Adventure
