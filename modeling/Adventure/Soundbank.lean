import Std.Data.TreeMap
import Adventure.Bytes.Cursor
import Adventure.Text.Numeral

namespace Adventure

open Bytes

namespace Soundbank

/-- The table ends here even if no sample starts before. -/
def maxIndexEnd : Nat := 0x20000

/-- As many samples as a table has room for. -/
def maxSamples : Nat := maxIndexEnd / 4

/-- The name of a bank's file, which follows the last slash of its path. -/
def fileName (path : String) : String :=
  String.ofList (path.toList.reverse.takeWhile (· ≠ '/')).reverse

/-- The ending of a file's name after its last dot, or `bin` if there is no dot behind its first
    character. -/
def ending (name : String) : String :=
  let stem := name.toList.reverse.dropWhile (· ≠ '.')
  if stem.length ≤ 1 then "bin"
  else String.ofList (name.toList.drop stem.length)

/-- The name that a sample of a bank has as a file of its own. -/
def sampleName (bank : String) (ordinal : Nat) : String :=
  String.ofList ((Text.decimal ordinal).leftpad 4 '0') ++ "." ++ ending (fileName bank)

/-- The offsets that lie before `limit`, which sinks to the smallest of them. -/
def offsetsWithin (bound : List UInt8) (limit : Nat) (c : Cursor) (gathered : List UInt32) :
    Except Fault (List UInt32) :=
  if limit ≤ c.position then .ok gathered.reverse
  else
    match c.word32Little with
    | .error fault => .error fault
    | .ok (offset, c) =>
      match bound with
      | [] => .ok (offset :: gathered).reverse
      | _ :: bound =>
        let limit := if offset = 0 then limit else min limit offset.toNat
        offsetsWithin bound limit c (offset :: gathered)

def offsets (data : List UInt8) : Except Fault (List UInt32) :=
  offsetsWithin data maxIndexEnd (Cursor.ofBytes data) []

/-- A sample of a soundbank. -/
structure Sample where
  ordinal : Nat
  offset : Nat
  data : List UInt8
  deriving Repr, DecidableEq

/-- The samples of a table from `ordinal` on. A sample that would be empty is left out. -/
def samplesFrom (file : Cursor) (size ordinal : Nat) (gathered : List Sample) :
    List UInt32 → Except Fault (List Sample)
  | [] => .ok gathered.reverse
  | offset :: rest =>
    let start := offset.toNat
    let stop := match rest.find? (· ≠ 0) with
      | some next => next.toNat
      | none => size
    if offset = 0 ∨ stop ≤ start then samplesFrom file size (ordinal + 1) gathered rest
    else
      match file.seek start >>= (·.bytes (stop - start)) with
      | .error fault => .error fault
      | .ok (data, _) =>
        samplesFrom file size (ordinal + 1) (⟨ordinal, start, data⟩ :: gathered) rest

def samples (data : List UInt8) : Except Fault (List Sample) := do
  samplesFrom (Cursor.ofBytes data) data.length 0 [] (← offsets data)

/-- The samples of a bank by number. -/
abbrev Bank := Std.TreeMap Nat (List UInt8)

/-- The length of the table of offsets. -/
def Bank.tableLength (bank : Bank) : Nat :=
  match bank.maxKey? with
  | some last => last + 1
  | none => 0

/-- The entries of the table from sample numbers on, when the samples before them end at
    `offset`. -/
def tableFrom (bank : Bank) (offset : Nat) (gathered : List (List UInt8)) :
    List Nat → Except Fault (List UInt8)
  | [] => .ok gathered.reverse.flatten
  | ordinal :: rest =>
    let data := bank.getD ordinal []
    if data.isEmpty then tableFrom bank offset (word32Little 0 :: gathered) rest
    else if 0xffffffff < offset then .error (.fieldOverflow offset 4)
    else tableFrom bank (offset + data.length) (word32Little (UInt32.ofNat offset) :: gathered) rest

/-- The file of a bank. Missing samples and empty ones have a zero in the table. -/
def Bank.toBytes (bank : Bank) : Except Fault (List UInt8) :=
  (tableFrom bank (4 * bank.tableLength) [] (List.range bank.tableLength)).map
    (· ++ bank.values.flatten)

end Soundbank

end Adventure
