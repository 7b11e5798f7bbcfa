namespace Adventure

inductive Slot.Kind where
  | text
  | tables
  /-- Graphics, music and the like, which are kept as they are. -/
  | other
  deriving Repr, DecidableEq

/-- A record of a game, by the name of the file that it replaces. -/
structure Slot where
  name : String
  kind : Slot.Kind
  deriving Repr, DecidableEq

namespace Slot

def Kind.name : Kind → String
  | text => "text"
  | tables => "tables"
  | other => "opaque"

/-- A run of records. -/
inductive Segment where
  /-- Two graphics files for each zone. -/
  | zones (count : Nat)
  /-- Files that differ in a number, which goes from `first` to `last`. -/
  | numbered (stem ending : String) (first last : Nat)
  | named (name : String)
  /-- The text files in the order of their index. -/
  | textFiles
  /-- The script files in the order of their index. -/
  | tableFiles
  deriving Repr, DecidableEq

/-- The number of a zone, in three digits at least. -/
def zoneNumber (zone : Nat) : String :=
  String.ofList ((Nat.toDigits 10 zone).leftpad 3 '0')

def Segment.slots (texts tables : List String) : Segment → List Slot
  | zones count => (List.range count).flatMap fun zone =>
      [⟨zoneNumber zone ++ "1.VGA", .other⟩, ⟨zoneNumber zone ++ "2.VGA", .other⟩]
  | numbered stem ending first last =>
      (List.range' first (last + 1 - first)).map fun n => ⟨s!"{stem}{n}{ending}", .other⟩
  | named name => [⟨name, .other⟩]
  | textFiles => texts.map (⟨·, .text⟩)
  | tableFiles => tables.map (⟨·, .tables⟩)

/-- The records that the segments of a release lay out. -/
def layout (segments : List Segment) (texts tables : List String) : List Slot :=
  segments.flatMap (Segment.slots texts tables)

end Slot

end Adventure
