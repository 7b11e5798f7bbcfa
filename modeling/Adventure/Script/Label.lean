import Adventure.Script.DecodeError
import Adventure.Script.Table

namespace Adventure

/-- The positions that jumps go to, and the numbers of the commands there. -/
abbrev Labels := Std.TreeMap Nat Nat

namespace Labels

/-- The name of the label of a command, in four digits at least. -/
def name (ordinal : Nat) : List Char := 'L' :: (Text.decimal ordinal).leftpad 4 '0'

/-- The positions of a command that jump, with those that they jump to. -/
def jumps (command : Command) : List (Nat × Nat) :=
  command.operands.filterMap fun
    | .jump target => some (command.offset, target.toNat)
    | _ => none

/-- The labels of a script, or its first jump that goes to no command. -/
def ofScript (script : Script) : Except DecodeError Labels :=
  (script.commands.flatMap jumps).foldlM (fun labels (offset, target) =>
    match script.starts[target]? with
    | some ordinal => .ok (labels.insert target ordinal)
    | none => .error (.invalidJumpTarget offset target)) ∅

end Labels

end Adventure
