import Adventure.Listing.Token
import Adventure.Text.Lines

namespace Adventure.Listing

/-- A command as it is written. `marker` is the opcode in parentheses. -/
structure SourceCommand where
  line : Nat
  label : Option String
  marker : Option String
  mnemonic : String
  operands : List String
  deriving Repr, DecidableEq

structure SourceLine where
  line : Nat
  header : Option LineHeader
  commands : List SourceCommand
  deriving Repr, DecidableEq

structure SourceTable where
  line : Nat
  number : UInt16
  lines : List SourceLine
  deriving Repr, DecidableEq

inductive SourceBody where
  /-- The record of this file is kept as it is. -/
  | raw
  | tables (ranges : List TableRange) (tables : List SourceTable)
  deriving Repr, DecidableEq

structure SourceFile where
  line : Nat
  name : String
  body : SourceBody
  deriving Repr, DecidableEq

/-- A word, where a number of `what` should stand. -/
def word (line : Nat) (what token : String) : Except Error UInt16 :=
  match Text.decimal? 0x10000 token.toList with
  | some value => .ok (UInt16.ofNat value)
  | none => .error (.malformedLine line (.badNumber what token))

/-- A range of table numbers, of which none is zero. -/
def range? (token : List Char) : Option TableRange := do
  let low ← Text.decimal? 0x10000 (token.takeWhile (· ≠ ':'))
  let high ← Text.decimal? 0x10000 (token.dropWhile (· ≠ ':')).tail
  if low = 0 ∨ high < low then none else some ⟨UInt16.ofNat low, UInt16.ofNat high⟩

def ranges (line : Nat) (tokens : List String) : Except Error (List TableRange) :=
  if tokens = ["~"] then .ok []
  else tokens.mapM fun token =>
    match range? token.toList with
    | some range => .ok range
    | none => .error (.malformedLine line (.badRange token))

/-- Takes the label off the tokens of a command. -/
def splitLabel (tokens : List String) : Option String × List String :=
  match tokens with
  | first :: rest =>
    let label := first.toList.dropLast
    if first.toList.getLast? = some ':' ∧ !label.isEmpty then (some (String.ofList label), rest)
    else (none, tokens)
  | [] => (none, [])

def isMarker (token : List Char) : Bool :=
  "(0x".toList.isPrefixOf token && token.getLast? == some ')'

/-- Takes the opcode in parentheses off the tokens of a command. -/
def splitMarker (tokens : List String) : Option String × List String :=
  match tokens with
  | first :: rest => if isMarker first.toList then (some first, rest) else (none, tokens)
  | [] => (none, [])

/-- The command that tokens make: perhaps a label and an opcode, a mnemonic, and operands. -/
def sourceCommand (line : Nat) (tokens : List String) : Except Error SourceCommand :=
  let (label, tokens) := splitLabel tokens
  let (marker, tokens) := splitMarker tokens
  match tokens with
  | mnemonic :: operands => .ok ⟨line, label, marker, mnemonic, operands⟩
  | [] => .error (.malformedLine line .missingCommand)

def sourceHeader (line : Nat) (tokens : List String) : Except Error (Option LineHeader) :=
  match tokens with
  | [] => .ok none
  | ["DEF", verb, noun1, noun2] => do
    let verb ← word line "verb" verb
    let noun1 ← word line "noun" noun1
    let noun2 ← word line "noun" noun2
    return some ⟨verb, noun1, noun2⟩
  | _ => .error (.malformedLine line .headerForm)

/-- The file that a section begins, from the tokens behind its first one. -/
def sourceFile (line : Nat) (tokens : List String) : Except Error SourceFile :=
  match tokens with
  | [] => .error (.malformedLine line .missingFileName)
  | [_] => .error (.malformedLine line .missingRanges)
  | [name, "RAW"] => .ok ⟨line, name, .raw⟩
  | name :: tokens => (ranges line tokens).map fun ranges => ⟨line, name, .tables ranges []⟩

/-- The part of a text that has been read: its files, the last one first, and within them tables,
    lines and commands, the last one first as well. -/
abbrev Outline := List SourceFile

namespace Outline

/-- Adds a table to the last file, unless that has none. -/
def addTable? (table : SourceTable) : Outline → Option Outline
  | ⟨line, name, .tables ranges tables⟩ :: files =>
    some (⟨line, name, .tables ranges (table :: tables)⟩ :: files)
  | _ => none

def lastTable? : Outline → Option SourceTable
  | ⟨_, _, .tables _ (table :: _)⟩ :: _ => some table
  | _ => none

def replaceTable (table : SourceTable) : Outline → Outline
  | ⟨line, name, .tables ranges (_ :: tables)⟩ :: files =>
    ⟨line, name, .tables ranges (table :: tables)⟩ :: files
  | files => files

def addLine (outline : Outline) (table : SourceTable) (line : SourceLine) : Outline :=
  outline.replaceTable { table with lines := line :: table.lines }

/-- The last line, with the table that it belongs to and the lines before it. -/
def lastLine? (outline : Outline) : Option (SourceTable × SourceLine × List SourceLine) :=
  match outline.lastTable? with
  | some table =>
    match table.lines with
    | line :: lines => some (table, line, lines)
    | [] => none
  | none => none

/-- The files in the order of the text. -/
def files (outline : Outline) : List SourceFile :=
  outline.reverse.map fun file =>
    match file.body with
    | .raw => file
    | .tables ranges tables =>
      { file with body := .tables ranges (tables.reverse.map fun table =>
          { table with lines := table.lines.reverse.map fun line =>
              { line with commands := line.commands.reverse } }) }

/-- Adds a line of commands. Its header must be there exactly in table 0. -/
def readLineStart (outline : Outline) (line : Nat) (content : List Char) :
    Except Error Outline := do
  let tokens ← tokens line content
  let some table := outline.lastTable? | throw (.malformedLine line .lineOutsideTable)
  let header ← sourceHeader line tokens
  if header.isSome ≠ (table.number = 0) then throw (.malformedLine line .headerMisplaced)
  return outline.addLine table ⟨line, header, []⟩

/-- Adds a file or a table. -/
def readSection (outline : Outline) (line : Nat) (content : List Char) : Except Error Outline := do
  match ← tokens line content with
  | "FILE" :: tokens => return (← sourceFile line tokens) :: outline
  | ["TABLE", number] =>
    let number ← word line "table number" number
    match outline.addTable? ⟨line, number, []⟩ with
    | some outline => return outline
    | none => throw (.malformedLine line .tableOutsideFile)
  | "TABLE" :: _ => throw (.malformedLine line .tableForm)
  | _ => throw (.malformedLine line .sectionForm)

/-- Adds a command to the last line. -/
def readCommand (outline : Outline) (line : Nat) (content : List Char) : Except Error Outline := do
  let tokens ← tokens line content
  if tokens.isEmpty then return outline
  let some (table, last, lines) := outline.lastLine?
    | throw (.malformedLine line .commandOutsideLine)
  let command ← sourceCommand line tokens
  let last := { last with commands := command :: last.commands }
  return outline.replaceTable { table with lines := last :: lines }

/-- Adds what a line of the text says. Empty lines and comments say nothing. -/
def readLine (outline : Outline) (line : Nat) (content : List Char) : Except Error Outline :=
  match Text.trim content with
  | [] => .ok outline
  | '/' :: '/' :: _ => .ok outline
  | '=' :: '=' :: '>' :: rest => outline.readLineStart line rest
  | '=' :: '=' :: rest => outline.readSection line rest
  | content => outline.readCommand line content

end Outline

/-- The files of a script text. -/
def parse (text : String) : Except Error (List SourceFile) :=
  ((Text.numbered (Text.lines text.toList)).foldlM
    (fun (outline : Outline) (line, content) => outline.readLine line content) []).map Outline.files

end Adventure.Listing
