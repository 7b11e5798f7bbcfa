import Adventure.Script.Label
import Adventure.Proofs.Script.Reading

namespace Adventure

open Bytes

/-- Commands that start one after the other, at positions from `low` up to before `high`. -/
structure Command.Ascend (low high : Nat) (commands : List Command) : Prop where
  pairwise : commands.Pairwise (·.offset < ·.offset)
  low_le : ∀ command ∈ commands, low ≤ command.offset
  lt_high : ∀ command ∈ commands, command.offset < high

namespace Command.Ascend

variable {low mid high : Nat} {commands rest : List Command}

theorem nil (low high : Nat) : Ascend low high [] := ⟨.nil, by simp, by simp⟩

theorem append (h : Ascend low mid commands) (h' : Ascend mid high rest) (hlow : low ≤ mid)
    (hhigh : mid ≤ high) : Ascend low high (commands ++ rest) where
  pairwise := by
    rw [List.pairwise_append]
    refine ⟨h.pairwise, h'.pairwise, fun first hfirst second hsecond => ?_⟩
    have hbefore := h.lt_high first hfirst
    have hbehind := h'.low_le second hsecond
    omega
  low_le command hcommand := by
    rcases List.mem_append.mp hcommand with hfront | hback
    · exact h.low_le command hfront
    · exact Nat.le_trans hlow (h'.low_le command hback)
  lt_high command hcommand := by
    rcases List.mem_append.mp hcommand with hfront | hback
    · exact Nat.lt_of_lt_of_le (h.lt_high command hfront) hhigh
    · exact h'.lt_high command hback

private theorem widen {low' high' : Nat} (h : Ascend low high commands) (hlow : low' ≤ low)
    (hhigh : high ≤ high') : Ascend low' high' commands :=
  ⟨h.pairwise, fun command hcommand => Nat.le_trans hlow (h.low_le command hcommand),
    fun command hcommand => Nat.lt_of_lt_of_le (h.lt_high command hcommand) hhigh⟩

end Command.Ascend

/-- Items that hold ascending commands within their own bytes hold them one item after the other. -/
theorem Cursor.Listed.ascend {α : Type} {spelled : Nat → α → List UInt8 → Prop}
    {commands : α → List Command} {position : Nat} {items : List α} {bytes : List UInt8}
    (h : Cursor.Listed spelled position items bytes)
    (hitem : ∀ position a bytes, spelled position a bytes →
      Command.Ascend position (position + bytes.length) (commands a)) :
    Command.Ascend position (position + bytes.length) (items.flatMap commands) := by
  induction h with
  | nil position => exact .nil _ _
  | cons head _ ih =>
    rw [List.flatMap_cons, List.length_append]
    exact (hitem _ _ _ head).append (by rw [← Nat.add_assoc]; exact ih) (by omega) (by omega)

/-- In the bytes from `position` on, something that stands for a command is found where the command
    starts. -/
structure Command.HeldIn (stands : Command → List UInt8 → Prop) (position : Nat) (bytes : List UInt8)
    (command : Command) : Prop where
  le : position ≤ command.offset
  drop : ∃ part rest, stands command part ∧ bytes.drop (command.offset - position) = part ++ rest

namespace Command.HeldIn

variable {stands : Command → List UInt8 → Prop} {position : Nat} {bytes : List UInt8} {command : Command}

theorem append_right (h : command.HeldIn stands position bytes) (tail : List UInt8) :
    command.HeldIn stands position (bytes ++ tail) := by
  obtain ⟨part, rest, hpart, hrest⟩ := h.drop
  refine ⟨h.le, part, rest ++ tail.drop (command.offset - position - bytes.length), hpart, ?_⟩
  rw [List.drop_append, hrest, List.append_assoc]

theorem append_left {front : List UInt8} (h : command.HeldIn stands (position + front.length) bytes) :
    command.HeldIn stands position (front ++ bytes) := by
  obtain ⟨part, rest, hpart, hrest⟩ := h.drop
  have hle := h.le
  refine ⟨by omega, part, rest, hpart, ?_⟩
  have hfront : front.drop (command.offset - position) = [] := List.drop_of_length_le (by omega)
  rw [List.drop_append, hfront, List.nil_append, Nat.sub_sub]
  exact hrest

end Command.HeldIn

/-- What items hold within their own bytes is held where they are spelled one after the other. -/
theorem Cursor.Listed.heldIn {α : Type} {spelled : Nat → α → List UInt8 → Prop}
    {stands : Command → List UInt8 → Prop} {commands : α → List Command} {position : Nat}
    {items : List α} {bytes : List UInt8} (h : Cursor.Listed spelled position items bytes)
    (hitem : ∀ position a bytes, spelled position a bytes →
      ∀ command ∈ commands a, command.HeldIn stands position bytes) :
    ∀ command ∈ items.flatMap commands, command.HeldIn stands position bytes := by
  induction h with
  | nil => simp
  | cons head _ ih =>
    rw [List.flatMap_cons, List.forall_mem_append]
    exact ⟨fun command hcommand => (hitem _ _ _ head command hcommand).append_right _,
      fun command hcommand => (ih command hcommand).append_left⟩

/-- A command starts with its opcode. -/
def Command.StartsIn (position : Nat) (bytes : List UInt8) (command : Command) : Prop :=
  command.HeldIn (fun command part => part = [command.opcode]) position bytes

variable {set : InstructionSet} {position : Nat} {bytes : List UInt8}

theorem Command.Spelled.startsIn {command : Command} (h : command.Spelled set position bytes) :
    command.StartsIn position bytes := by
  obtain ⟨op, rest, -, -, rfl⟩ := h.operands
  refine ⟨Nat.le_of_eq h.offset.symm, _, rest, rfl, ?_⟩
  rw [h.offset, Nat.sub_self, List.drop_zero, List.singleton_append]

theorem Line.Spelled.startsIn {table : UInt16} {line : Line}
    (h : line.Spelled set table position bytes) :
    ∀ command ∈ line.commands, command.StartsIn position bytes := by
  obtain ⟨header, commands, hheader, hcommands, rfl⟩ := h.parts
  have hspelled : ∀ position (command : Command) bytes, command.Spelled set position bytes →
      ∀ other ∈ [command], other.StartsIn position bytes :=
    fun _ _ _ hspelled => List.forall_mem_singleton.mpr hspelled.startsIn
  have hstarts := hcommands.heldIn hspelled
  rw [List.flatMap_singleton', Nat.add_assoc, ← hheader.length_front] at hstarts
  intro command hcommand
  have hstart := hstarts command hcommand
  exact hstart.append_left.append_right _

theorem Table.Spelled.startsIn {table : Table} (h : table.Spelled set position bytes) :
    ∀ command ∈ table.commands, command.StartsIn position bytes := by
  obtain ⟨lines, hlines, rfl⟩ := h.parts
  intro command hcommand
  have hstart := hlines.heldIn (fun _ _ _ => Line.Spelled.startsIn) command hcommand
  exact (Command.HeldIn.append_left hstart).append_right _

/-- The commands of a record start where their opcodes stand in it. -/
theorem Script.Spelled.drop_offset {tables : List Table} (h : Script.Spelled set tables bytes)
    {command : Command} (hcommand : command ∈ tables.flatMap Table.commands) :
    ∃ rest, bytes.drop command.offset = command.opcode :: rest := by
  cases h with
  | empty => cases hcommand
  | tables h =>
    have hstart := h.heldIn (fun _ _ _ => Table.Spelled.startsIn) command hcommand
    obtain ⟨_, rest, rfl, hrest⟩ := (hstart.append_right (word16 Script.endMark)).drop
    exact ⟨rest, hrest⟩

theorem Command.Spelled.ascend {command : Command} (h : command.Spelled set position bytes) :
    Command.Ascend position (position + bytes.length) [command] where
  pairwise := List.pairwise_singleton _ _
  low_le := by simp [h.offset]
  lt_high := by
    have hsize := command.size_pos
    have hlength := h.length_eq
    simp only [List.mem_singleton, forall_eq, h.offset]
    omega

theorem Line.Spelled.ascend {table : UInt16} {line : Line} (h : line.Spelled set table position bytes) :
    Command.Ascend position (position + bytes.length) line.commands := by
  obtain ⟨header, commands, hheader, hcommands, rfl⟩ := h.parts
  have hascend := hcommands.ascend fun _ _ _ => Command.Spelled.ascend
  rw [List.flatMap_singleton'] at hascend
  refine hascend.widen (by omega) ?_
  simp only [List.length_append, length_word16, hheader.length_eq, List.length_singleton]
  omega

theorem Table.Spelled.ascend {table : Table} (h : table.Spelled set position bytes) :
    Command.Ascend position (position + bytes.length) table.commands := by
  obtain ⟨lines, hlines, rfl⟩ := h.parts
  refine (hlines.ascend fun _ _ _ => Line.Spelled.ascend).widen
    (by omega) ?_
  simp only [List.length_append, length_word16]
  omega

/-- The commands of a record start at ascending positions. -/
theorem Script.Spelled.ascend {tables : List Table} (h : Script.Spelled set tables bytes) :
    Command.Ascend 0 bytes.length (tables.flatMap Table.commands) := by
  cases h with
  | empty => exact .nil _ _
  | tables h =>
    refine (h.ascend fun _ _ _ => Table.Spelled.ascend).widen
      (Nat.le_refl _) ?_
    simp

namespace Script

/-- Commands that start at different positions are found by them with their numbers. -/
theorem getElem?_foldl_starts {commands : List Command} {first position ordinal : Nat}
    {starts : Std.TreeMap Nat Nat} (hcommands : commands.Pairwise (·.offset < ·.offset)) :
    ((commands.zipIdx first).foldl
        (fun starts (command, ordinal) => starts.insert command.offset ordinal) starts)[position]? =
      some ordinal ↔
      (∃ index command, commands[index]? = some command ∧ command.offset = position ∧
        ordinal = first + index) ∨
      ((∀ command ∈ commands, command.offset ≠ position) ∧ starts[position]? = some ordinal) := by
  induction commands generalizing first starts with
  | nil => simp
  | cons command commands ih =>
    rw [List.pairwise_cons] at hcommands
    rw [List.zipIdx_cons, List.foldl_cons, ih hcommands.2]
    constructor
    · rintro (⟨index, found, hfound, hoffset, rfl⟩ | ⟨hrest, hstart⟩)
      · exact .inl ⟨index + 1, found, hfound, hoffset, by omega⟩
      · rw [Std.TreeMap.getElem?_insert] at hstart
        split at hstart
        case _ heq =>
          cases hstart
          exact .inl ⟨0, command, rfl, Nat.compare_eq_eq.mp heq, rfl⟩
        case _ hne =>
          have hne : command.offset ≠ position := by
            intro heq
            exact hne (Nat.compare_eq_eq.mpr heq)
          exact .inr ⟨List.forall_mem_cons.mpr ⟨hne, hrest⟩, hstart⟩
    · rintro (⟨index, found, hfound, hoffset, rfl⟩ | ⟨hrest, hstart⟩)
      · cases index with
        | zero =>
          cases hfound
          refine .inr ⟨fun other hother => ?_, by simp [hoffset]⟩
          have := hcommands.1 other hother
          omega
        | succ index => exact .inl ⟨index, found, hfound, hoffset, by omega⟩
      · obtain ⟨hne, hrest⟩ := List.forall_mem_cons.mp hrest
        exact .inr ⟨hrest, by simp [Std.TreeMap.getElem?_insert, hne, hstart]⟩

/-- The map of starts gives the numbers of the commands by their positions. -/
theorem getElem?_starts_iff {tables : List Table} (h : Spelled set tables bytes)
    {position ordinal : Nat} :
    (ofTables tables).starts[position]? = some ordinal ↔
      ∃ command, (tables.flatMap Table.commands)[ordinal]? = some command ∧
        command.offset = position := by
  refine (getElem?_foldl_starts h.ascend.pairwise).trans ?_
  simp

end Script

namespace Labels

variable {script : Script} {labels : Labels}

/-- A step of the search for labels. -/
theorem ofScript_fold {jumps : List (Nat × Nat)} {before after : Labels}
    (h : jumps.foldlM (fun labels (offset, target) =>
      match script.starts[target]? with
      | some ordinal => Except.ok (labels.insert target ordinal)
      | none => Except.error (DecodeError.invalidJumpTarget offset target)) before = .ok after)
    (hbefore : ∀ position ordinal : Nat, before[position]? = some ordinal →
      script.starts[position]? = some ordinal) :
    (∀ position ordinal : Nat, after[position]? = some ordinal →
      script.starts[position]? = some ordinal) ∧
    (∀ position ordinal : Nat, before[position]? = some ordinal → after[position]? = some ordinal) ∧
    ∀ jump ∈ jumps, ∃ ordinal : Nat, after[jump.2]? = some ordinal := by
  induction jumps generalizing before with
  | nil =>
    cases h
    exact ⟨hbefore, fun _ _ h => h, by simp⟩
  | cons jump jumps ih =>
    rw [List.foldlM_cons, Except.bind_eq_ok_iff] at h
    obtain ⟨next, hnext, hrest⟩ := h
    obtain ⟨offset, target⟩ := jump
    dsimp only at hnext
    split at hnext
    case _ ordinal hstart =>
      cases hnext
      obtain ⟨hstarts, hkeeps, hjumps⟩ := ih hrest fun position number hlabel => by
        rw [Std.TreeMap.getElem?_insert] at hlabel
        split at hlabel
        case _ heq =>
          cases hlabel
          rwa [← Nat.compare_eq_eq.mp heq]
        case _ => exact hbefore position number hlabel
      refine ⟨hstarts, fun position number hlabel => hkeeps position number ?_, ?_⟩
      · rw [Std.TreeMap.getElem?_insert]
        split
        case _ heq =>
          rw [← hstart, Nat.compare_eq_eq.mp heq]
          exact hbefore position number hlabel
        case _ => exact hlabel
      · refine List.forall_mem_cons.mpr ⟨⟨ordinal, hkeeps _ _ ?_⟩, hjumps⟩
        simp
    case _ => cases hnext

/-- The labels name starts of commands. -/
theorem ofScript_starts (h : ofScript script = .ok labels) {position ordinal : Nat}
    (hlabel : labels[position]? = some ordinal) : script.starts[position]? = some ordinal :=
  (ofScript_fold h (by simp)).1 position ordinal hlabel

/-- Every jump has a label. -/
theorem ofScript_jump (h : ofScript script = .ok labels) {command : Command}
    (hcommand : command ∈ script.commands) {target : UInt16}
    (hoperand : Operand.jump target ∈ command.operands) :
    ∃ ordinal, labels[target.toNat]? = some ordinal := by
  refine (ofScript_fold h (by simp)).2.2 (command.offset, target.toNat) ?_
  rw [List.mem_flatMap]
  exact ⟨command, hcommand, List.mem_filterMap.mpr ⟨_, hoperand, rfl⟩⟩

end Labels

end Adventure
