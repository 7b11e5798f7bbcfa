import Adventure.Script.Table

namespace Adventure

/-- The voices of each string, ascending. A string without a voice is not in it. -/
abbrev VoiceMap := Std.TreeMap Nat (List UInt16)

namespace VoiceMap

/-- Puts a voice into an ascending list, unless it is there. -/
def insertAscending (voice : UInt16) : List UInt16 → List UInt16
  | [] => [voice]
  | first :: rest =>
    if voice < first then voice :: first :: rest
    else if voice = first then first :: rest
    else first :: insertAscending voice rest

/-- Adds a voice to those of a string. -/
def add (voices : VoiceMap) (text : Nat) (voice : UInt16) : VoiceMap :=
  voices.insert text (insertAscending voice (voices.getD text []))

def addAll (voices : VoiceMap) (pairs : List (Nat × UInt16)) : VoiceMap :=
  pairs.foldl (fun voices (text, voice) => voices.add text voice) voices

end VoiceMap

namespace Command

/-- The first string that a command shows. -/
def firstText? (command : Command) : Option UInt32 :=
  command.operands.findSome? fun
    | .text (.id id) => some id
    | _ => none

/-- The first voice that a command names. -/
def firstVoice? (command : Command) : Option UInt16 :=
  command.operands.findSome? fun
    | .word .voice value => some value
    | _ => none

/-- The string and the voice of a command that has both. -/
def voice? (command : Command) : Option (Nat × UInt16) :=
  match command.firstText?, command.firstVoice? with
  | some text, some voice => some (text.toNat, voice)
  | _, _ => none

end Command

/-- The strings that the commands of a script speak, with their voices. -/
def Script.voices (script : Script) : List (Nat × UInt16) :=
  script.commands.filterMap Command.voice?

end Adventure
