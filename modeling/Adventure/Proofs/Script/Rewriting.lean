import Adventure.Proofs.Bytes.Rewriting
import Adventure.Proofs.Script.Starts
import Adventure.Proofs.Script.Writing

namespace Adventure

open Bytes Script

namespace ItemRef

/-- The stored word of an item is written as it has been read, unless it is the one that wraps around. -/
theorem kept {word : UInt32} {written : List UInt8} (h : stored? (ofStored word) = some written) :
    Kept (word32 wrappedWord).isPrefixOf (word32 word) written := by
  by_cases hwrapped : word = wrappedWord
  · subst hwrapped
    cases h
    exact Kept.unless_eq rfl rfl (by decide)
  · obtain rfl := Option.some.inj ((stored?_ofStored_of_ne hwrapped).symm.trans h)
    have hne : word32 wrappedWord ≠ word32 word := fun heq => hwrapped (word32_inj heq.symm)
    exact Kept.unless_eq rfl rfl (iff_of_true rfl hne)

private theorem toBytes_id_eq_ok_iff {item : UInt32} {written : List UInt8} :
    (ItemRef.id item).toBytes = .ok written ↔
      ∃ stored, stored? item = some stored ∧ word16 0 ++ stored = written := by
  rw [toBytes]
  cases stored? item <;> simp

end ItemRef

namespace Operand

/-- An item operand that is stored in the other spelling of item 0. -/
def wraps : Operand → List UInt8 → Bool
  | item _, bytes => (word16 0 ++ word32 ItemRef.wrappedWord).isPrefixOf bytes
  | _, _ => false

private theorem wraps_item {ref : ItemRef} {selector : UInt16} (tail : List UInt8) :
    (item ref).wraps (word16 selector ++ tail) =
      (decide (selector = 0) && (word32 ItemRef.wrappedWord).isPrefixOf tail) := by
  by_cases hselector : selector = 0
  · subst hselector
    rfl
  · rw [decide_eq_false hselector, Bool.false_and, ← Bool.not_eq_true]
    intro hprefix
    obtain ⟨rest, hrest⟩ := List.isPrefixOf_iff_prefix.mp hprefix
    rw [List.append_assoc] at hrest
    exact hselector (word16_inj (List.append_inj hrest rfl).1).symm

theorem Spelled.kept {kind : OperandKind} {operand : Operand} {bytes written : List UInt8}
    (h : operand.Spelled kind bytes) (hwritten : operand.toBytes = .ok written) :
    Kept operand.wraps bytes written := by
  cases h with
  | @special code name h =>
    cases hwritten
    have hselector : code ≠ 0 := by
      rintro rfl
      cases h
    refine (Kept.same _).congr fun tail => ?_
    rw [wraps_item, decide_eq_false hselector, Bool.false_and]
  | @item item word h =>
    obtain ⟨stored, hstored, rfl⟩ := ItemRef.toBytes_id_eq_ok_iff.mp hwritten
    refine ((Kept.same (word16 0)).append (ItemRef.kept (h ▸ hstored))).congr fun tail => ?_
    rw [List.append_assoc, wraps_item]
    rfl
  | _ =>
    cases hwritten
    exact (Kept.same _).congr fun _ => rfl

theorem AllSpelled.kept {shape : List OperandKind} {operands : List Operand} {bytes : List UInt8}
    {parts : List (List UInt8)} (h : AllSpelled shape operands bytes)
    (hparts : operands.mapM Operand.toBytes = .ok parts) :
    Kept (anyAt size wraps operands) bytes parts.flatten := by
  rw [Except.mapM_eq_ok_iff] at hparts
  induction h generalizing parts with
  | nil =>
    cases hparts
    exact (Kept.same []).congr fun _ => rfl
  | cons head _ ih =>
    cases hparts with
    | cons hfirst hothers =>
      rw [List.flatten_cons]
      exact (head.kept hfirst).cons head.length_eq (ih hothers)

end Operand

namespace Command

/-- One of the item operands is stored in the other spelling of item 0, in bytes that start with the
    command. -/
def wraps (command : Command) (bytes : List UInt8) : Bool :=
  anyAt Operand.size Operand.wraps command.operands (bytes.drop 1)

/-- One of the commands wraps in the bytes that stand from `position` on. -/
def anyWraps (position : Nat) (commands : List Command) (bytes : List UInt8) : Bool :=
  commands.any fun command => command.wraps (bytes.drop (command.offset - position))

private theorem anyWraps_drop {position n : Nat} {commands : List Command}
    (h : ∀ command ∈ commands, position + n ≤ command.offset) (bytes : List UInt8) :
    anyWraps (position + n) commands (bytes.drop n) = anyWraps position commands bytes := by
  rw [Bool.eq_iff_iff, anyWraps, anyWraps, List.any_eq_true, List.any_eq_true]
  refine exists_congr fun command => and_congr_right fun hcommand => ?_
  have hle := h command hcommand
  rw [List.drop_drop, show n + (command.offset - (position + n)) = command.offset - position by omega]

variable {set : InstructionSet} {position : Nat} {bytes written : List UInt8}

theorem Spelled.kept {command : Command} (h : command.Spelled set position bytes)
    (hwritten : command.toBytes = .ok written) : Kept (anyWraps position [command]) bytes written := by
  obtain ⟨op, rest, -, hrest, rfl⟩ := h.operands
  obtain ⟨parts, hparts, rfl⟩ := Except.map_eq_ok_iff.mp hwritten
  have hkept := (Kept.same [command.opcode]).append (hrest.kept hparts)
  refine hkept.congr fun tail => ?_
  simp [anyWraps, wraps, h.offset]

end Command

/-- Commands that are kept item by item are kept where the items stand one after the other. -/
theorem Cursor.Listed.kept {ε α : Type} {write : α → Except ε (List UInt8)}
    {spelled : Nat → α → List UInt8 → Prop} {commands : α → List Command} {position : Nat}
    {items : List α} {bytes : List UInt8} {parts : List (List UInt8)}
    (h : Cursor.Listed spelled position items bytes) (hparts : items.mapM write = .ok parts)
    (hstarts : ∀ position a bytes, spelled position a bytes →
      ∀ command ∈ commands a, command.StartsIn position bytes)
    (hitem : ∀ position a bytes written, spelled position a bytes → write a = .ok written →
      Kept (Command.anyWraps position (commands a)) bytes written) :
    Kept (Command.anyWraps position (items.flatMap commands)) bytes parts.flatten := by
  rw [Except.mapM_eq_ok_iff] at hparts
  induction h generalizing parts with
  | nil =>
    cases hparts
    exact (Kept.same []).congr fun _ => rfl
  | cons head tail ih =>
    cases hparts with
    | cons hfirst hothers =>
      rw [List.flatten_cons]
      refine ((hitem _ _ _ _ head hfirst).append (ih hothers)).congr fun rest => ?_
      rw [Command.anyWraps_drop fun command hcommand => (tail.heldIn hstarts command hcommand).le,
        List.flatMap_cons, Command.anyWraps, List.any_append]
      rfl

variable {set : InstructionSet} {position : Nat} {bytes written : List UInt8}

theorem Line.Spelled.kept {table : UInt16} {line : Line} (h : line.Spelled set table position bytes)
    (hwritten : line.toBytes = .ok written) :
    Kept (Command.anyWraps position line.commands) bytes written := by
  obtain ⟨header, commands, hheader, hcommands, rfl⟩ := h.parts
  obtain ⟨parts, hparts, rfl⟩ := Except.map_eq_ok_iff.mp hwritten
  have hstarts : ∀ position command bytes, Command.Spelled set position command bytes →
      ∀ other ∈ [command], Command.StartsIn position bytes other :=
    fun _ _ _ hspelled => List.forall_mem_singleton.mpr hspelled.startsIn
  have hkept := hcommands.kept hparts hstarts fun _ _ _ _ => Command.Spelled.kept
  have hlow := fun command hcommand => (hcommands.heldIn hstarts command hcommand).le
  rw [List.flatMap_singleton', Nat.add_assoc, ← hheader.length_front] at hkept hlow
  rw [hheader.toBytes]
  exact (hkept.between _ _).congr fun tail => (Command.anyWraps_drop hlow _).symm

theorem Table.Spelled.kept {table : Table} (h : table.Spelled set position bytes)
    (hwritten : table.toBytes = .ok written) :
    Kept (Command.anyWraps position table.commands) bytes written := by
  obtain ⟨lines, hlines, rfl⟩ := h.parts
  obtain ⟨parts, hparts, rfl⟩ := Except.map_eq_ok_iff.mp hwritten
  have hkept := hlines.kept hparts (fun _ _ _ => Line.Spelled.startsIn) fun _ _ _ _ => Line.Spelled.kept
  have hlow := fun command hcommand =>
    (hlines.heldIn (fun _ _ _ => Line.Spelled.startsIn) command hcommand).le
  exact (hkept.between (word16 continueMark ++ word16 table.number) _).congr
    fun tail => (Command.anyWraps_drop hlow _).symm

namespace Script

/-- One of the item operands is stored in the other spelling of item 0. -/
def wraps (script : Script) (data : List UInt8) : Bool :=
  script.commands.any fun command => command.wraps (data.drop command.offset)

/-- Tables that are not read from a bare mark are written as they have been read, unless an item operand
    has the other spelling of item 0. -/
theorem kept_of_listed {table : Table} {tables : List Table}
    (h : Cursor.Listed (Table.Spelled set) 0 (table :: tables) bytes) :
    ∃ parts, tablesBytes (table :: tables) = .ok (parts ++ word16 endMark) ∧
      Cursor.Listed (Table.Spelled set) 0 (table :: tables) parts ∧
      Kept (ofTables (table :: tables)).wraps (bytes ++ word16 endMark) (parts ++ word16 endMark) := by
  obtain ⟨parts, hparts, hagain, -⟩ := h.rewrite fun _ _ _ => Table.Spelled.toBytes
  have hkept := h.kept hparts (fun _ _ _ => Table.Spelled.startsIn) fun _ _ _ _ => Table.Spelled.kept
  exact ⟨parts.flatten, by rw [tablesBytes, hparts]; rfl, hagain, hkept.between [] (word16 endMark)⟩

/-- The tables at the start of a buffer are written in the bytes that they have been read from, unless
    these are the mark of no tables or store an item operand in the other spelling of item 0. In any case
    the same tables are read from what is written. -/
theorem read_tables_rewritten (set : InstructionSet) (data : List UInt8) (script : Script) (used : Nat)
    (h : ofBlock set data = .ok (script, used)) :
    used ≤ data.length ∧ ∃ written, tablesBytes script.tables = .ok written ∧
      (written = data.take used ↔
        data.take used ≠ word16 endMark ∧ script.wraps (data.take used) = false) ∧
      ofBlock set written = .ok (script, written.length) := by
  obtain ⟨⟨tables, c⟩, htables, heq⟩ := Except.map_eq_ok_iff.mp h
  cases heq
  have hempty : ofBlock set [] = .ok (ofTables [], 0) := rfl
  rcases readTables_eq_ok_iff.mp htables with ⟨rfl, rfl, rfl⟩ | ⟨bytes, hlisted, hspan⟩
  · exact ⟨Nat.le_refl _, [], rfl, iff_of_true rfl ⟨by decide, rfl⟩, hempty⟩
  · obtain ⟨-, htake, hle⟩ := hspan.take_ofBytes
    rw [htake]
    refine ⟨hle, ?_⟩
    cases tables with
    | nil =>
      cases hlisted
      exact ⟨[], rfl, iff_of_false (by decide) (by simp), hempty⟩
    | cons table tables =>
      obtain ⟨parts, hparts, hagain, hkept⟩ := kept_of_listed hlisted
      have hne : bytes ≠ [] := by
        cases hlisted with
        | cons head _ =>
          exact List.append_ne_nil_of_left_ne_nil ((readTable_readsItem set).ne_nil _ _ _ head) _
      have hread := ofBlock_of_listed hagain []
      rw [List.append_nil] at hread
      refine ⟨_, hparts, ?_, hread⟩
      rw [hkept.eq_iff, ne_eq, List.append_left_eq_self, and_iff_right hne]

/-- Item 0 in both spellings. Behind the table stands a byte that is not read. -/
theorem read_tables_rewritten_wrapped :
    let set := InstructionSet.ofLayers "small" [[⟨0, some "SEE", [.item]⟩]]
    let data : List UInt8 := [0x00, 0x00, 0x00, 0x09, 0x00, 0x00, 0x00, 0x00, 0x00, 0xff, 0xff, 0xff, 0xff,
      0x00, 0x00, 0x00, 0xff, 0xff, 0xff, 0xfe, 0xff, 0x00, 0x01, 0x00, 0x01, 0xaa]
    let tables := [⟨9, [⟨none, [⟨6, 0, [.item (.id 0)]⟩, ⟨13, 0, [.item (.id 0)]⟩]⟩]⟩]
    let script := ofTables tables
    ofBlock set data = .ok (script, 25) ∧ ∃ written, tablesBytes script.tables = .ok written ∧
      written ≠ data.take 25 ∧ ofBlock set written = .ok (script, written.length) := by
  intro set data tables script
  have htables : readTables set (Cursor.ofBytes data) = .ok (tables, ⟨data, 25, [0xaa]⟩) :=
    Except.eq_ok_of_toOption (by decide +kernel)
  have hread : ofBlock set data = .ok (script, 25) := by
    rw [ofBlock, htables]
    rfl
  obtain ⟨-, written, hwritten, hsame, hagain⟩ := read_tables_rewritten set data script 25 hread
  have hwraps : script.wraps (data.take 25) = true := rfl
  refine ⟨hread, written, hwritten, fun heq => ?_, hagain⟩
  rw [(hsame.mp heq).2] at hwraps
  cases hwraps

end Script

end Adventure
