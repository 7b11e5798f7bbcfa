import Adventure.Listing.Pool
import Adventure.Listing.Source
import Adventure.Script.Symbols

namespace Adventure

namespace Listing

/-- What the files of a script text are assembled with. -/
structure Assembler where
  set : InstructionSet
  symbols : Symbols

/-- Steps of assembling: they may fail, and they keep what they have put into the pool. -/
abbrev Assembly := EStateM Error StringPool

/-- A step that leaves the pool alone. -/
def check {α : Type} (result : Except Error α) : Assembly α := fun pool =>
  match result with
  | .ok value => .ok value pool
  | .error error => .error error pool

/-- A file that is assembled. If it has texts of its own, it may use the numbers from `low` up to
    before `high` and the global ones, else all. -/
structure Target where
  file : String
  texts : Option (Nat × Nat)
  deriving Repr, DecidableEq

/-- The file may use the string of a number. -/
def Target.allows (target : Target) (id : Nat) : Bool :=
  id < TextIndex.firstBase ||
    match target.texts with
    | some (low, high) => low ≤ id && id < high
    | none => true

/-- An operand, or a jump to a label whose place is not known yet. -/
inductive DraftOperand where
  | known (operand : Operand)
  | label (name : String)
  deriving Repr, DecidableEq

def DraftOperand.size : DraftOperand → Nat
  | known operand => operand.size
  | label _ => 2

structure DraftCommand where
  line : Nat
  offset : Nat
  opcode : UInt8
  operands : List DraftOperand
  deriving Repr, DecidableEq

def DraftCommand.size (command : DraftCommand) : Nat :=
  command.operands.foldr (fun operand size => operand.size + size) 1

/-- The positions of the labels of a file. -/
abbrev LabelPositions := Std.TreeMap String Nat

/-- Where the first pass has come to in the record, and the labels before. -/
structure Layout where
  position : Nat
  labels : LabelPositions

def malformed {α : Type} (line : Nat) (token : String) (fault : OperandFault) : Except Error α :=
  .error (.malformedOperand line token fault)

namespace Assembler

/-- The string of a number exists, or will. -/
def knowsText (assembler : Assembler) (pool : StringPool) (id : Nat) : Bool :=
  (assembler.symbols.text? id).isSome || (pool.get? id).isSome

/-- A text that is declared: its number in the pool. -/
def newText (line : Nat) (token : String) (declared : List Char) : Assembly TextRef := do
  match ← check (quotedText? line declared) with
  | none => check (malformed line token .expectedNewText)
  | some text =>
    match (← get).add (String.ofList text) with
    | none => check (malformed line token .noIdsLeft)
    | some (id, pool) =>
      MonadStateOf.set pool
      return .id (UInt32.ofNat id)

/-- A text that exists: quoted, or by its number. -/
def knownText (assembler : Assembler) (target : Target) (pool : StringPool) (line : Nat)
    (token : String) : Except Error TextRef := do
  match ← quotedText? line token.toList with
  | some text =>
    match assembler.symbols.findText? (String.ofList text) target.allows with
    | some id => return .id (UInt32.ofNat id)
    | none => throw (.unresolvedReference line token)
  | none =>
    match Text.decimal? 0x100000000 token.toList with
    | none => malformed line token .expectedText
    | some id =>
      if !target.allows id then throw (.textOutOfRange line id target.file)
      if !assembler.knowsText pool id then throw (.unresolvedReference line token)
      return .id (UInt32.ofNat id)

def text (assembler : Assembler) (target : Target) (line : Nat) (token : String) :
    Assembly TextRef := do
  match token.toList with
  | ['-', '1'] => return .none
  | ['-', '3'] => return .special
  | '+' :: declared => newText line token declared
  | _ => check (assembler.knownText target (← get) line token)

/-- An item by its number, or by a name that no other item has. -/
def numberedItem (assembler : Assembler) (line : Nat) (token : String) (inner : List Char) :
    Except Error ItemRef := do
  match ← quotedText? line inner with
  | some name =>
    match assembler.symbols.findItems (String.ofList name) with
    | [] => throw (.unresolvedReference line token)
    | [item] => return .id (UInt32.ofNat item)
    | items => malformed line token (.sharedName items)
  | none =>
    match Text.decimal? 0x100000000 inner with
    | none => malformed line token .badItem
    | some item =>
      if item = 1 then malformed line token .playerItem
      else if item ≠ 0 ∧ assembler.symbols.itemCount ≤ item then
        throw (.unresolvedReference line token)
      else return .id (UInt32.ofNat item)

def item (assembler : Assembler) (line : Nat) (token : String) : Except Error ItemRef :=
  if token.toList.head? = some '$' then
    match ItemRef.specialCode? token with
    | some code => .ok (.special code)
    | none => malformed line token .unknownSpecial
  else
    match between? '<' '>' token.toList with
    | some inner => assembler.numberedItem line token inner
    | none => malformed line token .expectedItem

/-- A byte, or a variable in brackets. The byte that marks variables cannot be written. -/
def byte (line : Nat) (token : String) : Except Error Operand :=
  match between? '[' ']' token.toList with
  | some number =>
    match Text.decimal? 0x100 number with
    | some number => .ok (.var (UInt8.ofNat number))
    | none => malformed line token .badVariable
  | none =>
    match Text.decimal? 0x100 token.toList with
    | some value =>
      if value = Script.varMark.toNat then malformed line token .byteIsMark
      else .ok (.byte (UInt8.ofNat value))
    | none => malformed line token .expectedByte

def listValue (line : Nat) (token : String) (field : List Char) : Except Error UInt16 :=
  match Text.decimal? 0x10000 (Text.trim field) with
  | some value =>
    if value = Script.listEnd.toNat then malformed line token .listValueIsEnd
    else .ok (UInt16.ofNat value)
  | none => malformed line token .badListValue

/-- Numbers between commas, in braces. Empty fields count for nothing. -/
def list (line : Nat) (token : String) : Except Error Operand :=
  match between? '\x7b' '\x7d' token.toList with
  | some inner =>
    (((inner.splitOn ',').filter (!·.isEmpty)).mapM (listValue line token)).map .list
  | none => malformed line token .expectedList

/-- An operand of any kind. A jump goes to a position if it is a number, else to a label. -/
def operand (assembler : Assembler) (target : Target) (line : Nat) (kind : OperandKind)
    (token : String) : Assembly DraftOperand :=
  match kind with
  | .byte => return .known (← check (byte line token))
  | .item => return .known (.item (← check (assembler.item line token)))
  | .text => return .known (.text (← assembler.text target line token))
  | .list => return .known (← check (list line token))
  | .jump =>
    match Text.decimal? 0x10000 token.toList with
    | some position => return .known (.jump (UInt16.ofNat position))
    | none => return .label token
  | kind =>
    match Text.decimal? 0x10000 token.toList with
    | some value => return .known (.word kind (UInt16.ofNat value))
    | none => throw (.malformedOperand line token .expectedNumber)

/-- The opcode that a marker gives in hexadecimal. -/
def markedOpcode? (marker : String) : Option UInt8 :=
  let digits := (marker.toList.drop 3).dropLast
  ((Text.numeral? 16 digits).filter (· < 0x100)).map UInt8.ofNat

/-- A command at a position, with its jumps to labels left open. -/
def command (assembler : Assembler) (target : Target) (offset : Nat) (source : SourceCommand) :
    Assembly DraftCommand := do
  let line := source.line
  let mnemonic := source.mnemonic
  let some op := assembler.set.lookup? mnemonic | throw (.unknownMnemonic line mnemonic)
  if let some marker := source.marker then
    if markedOpcode? marker ≠ some op.code then
      throw (.opcodeMismatch line mnemonic op.code marker)
  let expected := op.shape.length
  let found := source.operands.length
  if expected ≠ found then throw (.parameterCount line mnemonic expected found)
  let operands ← (op.shape.zip source.operands).mapM fun (kind, token) =>
    assembler.operand target line kind token
  return ⟨line, offset, op.code, operands⟩

/-- Notes the label of a command, which no other command has. -/
def placeLabel (layout : Layout) (source : SourceCommand) : Except Error Layout :=
  match source.label with
  | none => .ok layout
  | some label =>
    if layout.labels.contains label then .error (.duplicateLabel source.line label)
    else .ok { layout with labels := layout.labels.insert label layout.position }

/-- Lays out commands one after the other; `gathered` holds the earlier ones, last first. -/
def layCommands (assembler : Assembler) (target : Target) (layout : Layout)
    (gathered : List DraftCommand) :
    List SourceCommand → Assembly (List DraftCommand × Layout)
  | [] => return (gathered.reverse, layout)
  | source :: rest => do
    let layout ← check (placeLabel layout source)
    let command ← assembler.command target layout.position source
    let layout := { layout with position := layout.position + command.size }
    layCommands assembler target layout (command :: gathered) rest

/-- A line whose commands have open jumps. -/
abbrev DraftLine := Option LineHeader × List DraftCommand

/-- Lays out lines of a table. A line takes its mark, its header, its commands and its end. -/
def layLines (assembler : Assembler) (target : Target) (table : UInt16) (layout : Layout)
    (gathered : List DraftLine) : List SourceLine → Assembly (List DraftLine × Layout)
  | [] => return (gathered.reverse, layout)
  | source :: rest => do
    let start := { layout with position := layout.position + 2 + LineHeader.size table }
    let (commands, layout) ← assembler.layCommands target start [] source.commands
    let layout := { layout with position := layout.position + 1 }
    layLines assembler target table layout ((source.header, commands) :: gathered) rest

/-- A table whose commands have open jumps. -/
abbrev DraftTable := UInt16 × List DraftLine

/-- Lays out tables. A table takes its mark, its number, its lines and the mark behind them. -/
def layTables (assembler : Assembler) (target : Target) (layout : Layout)
    (gathered : List DraftTable) : List SourceTable → Assembly (List DraftTable × Layout)
  | [] => return (gathered.reverse, layout)
  | source :: rest => do
    let start := { layout with position := layout.position + 4 }
    let (lines, layout) ← assembler.layLines target source.number start [] source.lines
    let layout := { layout with position := layout.position + 2 }
    layTables assembler target layout ((source.number, lines) :: gathered) rest

/-- A jump to where its label is, if a jump can go there. -/
def linkOperand (labels : LabelPositions) (line : Nat) : DraftOperand → Except Error Operand
  | .known operand => .ok operand
  | .label name =>
    match labels[name]? with
    | none => .error (.undefinedLabel line name)
    | some position =>
      if position < 0x10000 then .ok (.jump (UInt16.ofNat position))
      else malformed line name .labelTooFar

def linkCommand (labels : LabelPositions) (draft : DraftCommand) : Except Error Command :=
  (draft.operands.mapM (linkOperand labels draft.line)).map (⟨draft.offset, draft.opcode, ·⟩)

def linkLine (labels : LabelPositions) (draft : DraftLine) : Except Error Line :=
  (draft.2.mapM (linkCommand labels)).map (⟨draft.1, ·⟩)

def linkTable (labels : LabelPositions) (draft : DraftTable) : Except Error Table :=
  (draft.2.mapM (linkLine labels)).map (⟨draft.1, ·⟩)

/-- The tables of a file, from what is written of them. -/
def tables (assembler : Assembler) (target : Target) (sources : List SourceTable) :
    Assembly (List Table) := do
  let (drafts, layout) ← assembler.layTables target ⟨0, ∅⟩ [] sources
  check (drafts.mapM (linkTable layout.labels))

/-- The first table number that the ranges of a file reject, with the line of the first table of
    this number. `line` is that of the file. -/
def checkRanges (line : Nat) (ranges : List TableRange) (sources : List SourceTable) :
    Except Error Unit :=
  match TableRange.rejected? ranges (sources.map (·.number)) with
  | none => .ok ()
  | some number =>
    let line := ((sources.find? (·.number = number)).map (·.line)).getD line
    .error (.tableOutOfRange line number ranges)

/-- The record of a file. `texts` are the numbers of its own strings, if only those and the global
    ones may be used. -/
def assemble (assembler : Assembler) (file : SourceFile) (texts : Option (Nat × Nat)) :
    Assembly (List UInt8) := do
  match file.body with
  | .raw => throw (.malformedLine file.line (.noTables file.name))
  | .tables ranges sources =>
    check (checkRanges file.line ranges sources)
    let tables ← assembler.tables ⟨file.name, texts⟩ sources
    match Script.tablesBytes tables with
    | .ok bytes => return bytes
    | .error error => throw (.malformedOperand file.line file.name (.unencodable error))

/-- The record of a file and the pool behind it, which keeps what a file that cannot be assembled
    has put into it. -/
def assembleWith (assembler : Assembler) (file : SourceFile) (texts : Option (Nat × Nat))
    (pool : StringPool) : Except Error (List UInt8) × StringPool :=
  match (assembler.assemble file texts).run pool with
  | .ok data pool => (.ok data, pool)
  | .error error pool => (.error error, pool)

end Assembler

end Listing

end Adventure
