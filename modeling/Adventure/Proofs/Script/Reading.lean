import Adventure.Proofs.Script.Spelling

namespace Adventure

open Bytes

namespace Script

variable {set : InstructionSet} {c c' : Cursor}

section operands

variable {offset : Nat}

theorem part_eq_ok_iff {α : Type} {read : Cursor → Except Fault (α × Cursor)} {result : α × Cursor} :
    part offset c read = .ok result ↔ read c = .ok result := by
  simp [part]

private theorem readListValue_some_iff {value : UInt16} :
    readListValue offset c = .ok (some value, c') ↔ value ≠ listEnd ∧ c.Spans (word16 value) c' := by
  simp only [readListValue, Except.bind_eq_ok_iff, Prod.exists, part_eq_ok_iff,
    Cursor.word16_eq_ok_iff, Except.pure_eq_ok_iff, Prod.mk.injEq]
  constructor
  · rintro ⟨stored, d, h, hvalue, rfl⟩
    split at hvalue
    · cases hvalue
    case _ hne =>
      cases hvalue
      exact ⟨hne, h⟩
  · rintro ⟨hne, h⟩
    exact ⟨value, c', h, if_neg hne, rfl⟩

private theorem readListValue_none_iff :
    readListValue offset c = .ok (none, c') ↔ c.Spans (word16 listEnd) c' := by
  simp only [readListValue, Except.bind_eq_ok_iff, Prod.exists, part_eq_ok_iff,
    Cursor.word16_eq_ok_iff, Except.pure_eq_ok_iff, Prod.mk.injEq]
  constructor
  · rintro ⟨stored, d, h, hvalue, rfl⟩
    split at hvalue
    case _ heq => exact heq ▸ h
    · cases hvalue
  · intro h
    exact ⟨listEnd, c', h, if_pos rfl, rfl⟩

/-- The values of a list before its end mark, each a word of its own. -/
theorem readListValue_readsItem (offset : Nat) :
    Cursor.ReadsItem (readListValue offset)
      fun _ value bytes => value ≠ listEnd ∧ bytes = word16 value where
  some_iff c value c' := by
    rw [readListValue_some_iff]
    constructor
    · rintro ⟨hne, h⟩
      exact ⟨_, ⟨hne, rfl⟩, h⟩
    · rintro ⟨bytes, ⟨hne, rfl⟩, h⟩
      exact ⟨hne, h⟩
  ne_nil := by
    rintro position value bytes ⟨-, rfl⟩
    simp [word16]

private theorem listed_values_iff {position : Nat} {values : List UInt16} {bytes : List UInt8} :
    Cursor.Listed (fun _ value bytes => value ≠ listEnd ∧ bytes = word16 value) position values bytes ↔
      listEnd ∉ values ∧ bytes = values.flatMap word16 := by
  rw [Cursor.listed_iff_flatMap fun _ _ _ => Iff.rfl]
  exact and_congr_left' List.forall_mem_ne'

private theorem collect_list_eq_ok_iff {values : List UInt16} :
    c.collect (readListValue offset) = .ok (values, c') ↔
      listEnd ∉ values ∧ c.Spans (values.flatMap word16 ++ word16 listEnd) c' := by
  rw [Cursor.collect_eq_ok_iff (readListValue_readsItem offset)]
  simp only [listed_values_iff, readListValue_none_iff, Cursor.Spans.append_iff]
  constructor
  · rintro ⟨bytes, d, ⟨hvalues, rfl⟩, h, hend⟩
    exact ⟨hvalues, d, h, hend⟩
  · rintro ⟨hvalues, d, h, hend⟩
    exact ⟨_, d, ⟨hvalues, rfl⟩, h, hend⟩

private theorem readOperand_byte_iff {operand : Operand} :
    readOperand offset .byte c = .ok (operand, c') ↔
      ∃ bytes, operand.Spelled .byte bytes ∧ c.Spans bytes c' := by
  simp only [readOperand, Except.bind_eq_ok_iff, Prod.exists, part_eq_ok_iff, Cursor.byte_eq_ok_iff,
    pure, Except.pure]
  constructor
  · rintro ⟨value, d, hvalue, h⟩
    split at h
    case _ hmark =>
      simp only [Except.bind_eq_ok_iff, Prod.exists, part_eq_ok_iff, Cursor.byte_eq_ok_iff,
        Except.ok.injEq, Prod.mk.injEq] at h
      obtain ⟨number, e, hnumber, rfl, rfl⟩ := h
      exact ⟨_, .var number, hmark ▸ hvalue.append hnumber⟩
    case _ hmark =>
      cases h
      exact ⟨_, .byte hmark, hvalue⟩
  · rintro ⟨bytes, hbytes, h⟩
    cases hbytes with
    | byte hmark => exact ⟨_, c', h, if_neg hmark⟩
    | var number =>
      have h : c.Spans ([varMark] ++ [number]) c' := h
      obtain ⟨d, hmark, hnumber⟩ := Cursor.Spans.append_iff.mp h
      refine ⟨_, d, hmark, ?_⟩
      rw [if_pos rfl, Except.bind_eq_ok_iff]
      exact ⟨(number, c'), part_eq_ok_iff.mpr (Cursor.byte_eq_ok_iff.mpr hnumber), rfl⟩
    | word hword => cases hword

private theorem readOperand_item_iff {operand : Operand} :
    readOperand offset .item c = .ok (operand, c') ↔
      ∃ bytes, operand.Spelled .item bytes ∧ c.Spans bytes c' := by
  simp only [readOperand, Except.bind_eq_ok_iff, Prod.exists, part_eq_ok_iff,
    Cursor.word16_eq_ok_iff, pure, Except.pure]
  constructor
  · rintro ⟨selector, d, hselector, h⟩
    split at h
    case _ hzero =>
      simp only [Except.bind_eq_ok_iff, Prod.exists, part_eq_ok_iff, Cursor.item_eq_ok_iff,
        Except.ok.injEq, Prod.mk.injEq] at h
      obtain ⟨item, e, ⟨word, hword, hitem⟩, rfl, rfl⟩ := h
      exact ⟨_, .item hword, hzero ▸ hselector.append hitem⟩
    case _ =>
      split at h
      case _ hname =>
        cases h
        exact ⟨_, .special hname, hselector⟩
      case _ => cases h
  · rintro ⟨bytes, hbytes, h⟩
    cases hbytes with
    | @special code name hname =>
      have hne : code ≠ 0 := by
        rintro rfl
        cases hname
      refine ⟨code, c', h, ?_⟩
      rw [if_neg hne, hname]
    | item hword =>
      obtain ⟨d, hselector, hitem⟩ := Cursor.Spans.append_iff.mp h
      refine ⟨0, d, hselector, ?_⟩
      rw [if_pos rfl, Except.bind_eq_ok_iff]
      exact ⟨_, part_eq_ok_iff.mpr (Cursor.item_eq_ok_iff.mpr ⟨_, hword, hitem⟩), rfl⟩
    | word hword => cases hword

private theorem readOperand_text_iff {operand : Operand} :
    readOperand offset .text c = .ok (operand, c') ↔
      ∃ bytes, operand.Spelled .text bytes ∧ c.Spans bytes c' := by
  simp only [readOperand, Except.bind_eq_ok_iff, Prod.exists, part_eq_ok_iff,
    Cursor.word16_eq_ok_iff, pure, Except.pure]
  constructor
  · rintro ⟨kind, d, hkind, h⟩
    split at h
    case _ hzero =>
      cases h
      exact ⟨_, .noText, hzero ▸ hkind⟩
    case _ =>
      split at h
      case _ hone =>
        simp only [Except.bind_eq_ok_iff, Prod.exists, part_eq_ok_iff, Cursor.word32_eq_ok_iff,
          Except.ok.injEq, Prod.mk.injEq] at h
        obtain ⟨id, e, hid, rfl, rfl⟩ := h
        exact ⟨_, .text id, hone ▸ hkind.append hid⟩
      case _ =>
        split at h
        case _ hthree =>
          cases h
          exact ⟨_, .chosenText, hthree ▸ hkind⟩
        case _ => cases h
  · rintro ⟨bytes, hbytes, h⟩
    cases hbytes with
    | noText => exact ⟨0, c', h, rfl⟩
    | chosenText => exact ⟨3, c', h, rfl⟩
    | text id =>
      obtain ⟨d, hkind, hid⟩ := Cursor.Spans.append_iff.mp h
      refine ⟨1, d, hkind, ?_⟩
      rw [if_neg (by decide), if_pos rfl, Except.bind_eq_ok_iff]
      exact ⟨_, part_eq_ok_iff.mpr (Cursor.word32_eq_ok_iff.mpr hid), rfl⟩
    | word hword => cases hword

private theorem readOperand_list_iff {operand : Operand} :
    readOperand offset .list c = .ok (operand, c') ↔
      ∃ bytes, operand.Spelled .list bytes ∧ c.Spans bytes c' := by
  simp only [readOperand, Except.bind_eq_ok_iff, Prod.exists, collect_list_eq_ok_iff,
    Except.pure_eq_ok_iff, Prod.mk.injEq]
  constructor
  · rintro ⟨values, d, ⟨hvalues, h⟩, rfl, rfl⟩
    exact ⟨_, .list hvalues, h⟩
  · rintro ⟨bytes, hbytes, h⟩
    cases hbytes with
    | list hvalues => exact ⟨_, _, ⟨hvalues, h⟩, rfl, rfl⟩
    | word hword => cases hword

private theorem readOperand_jump_iff {operand : Operand} :
    readOperand offset .jump c = .ok (operand, c') ↔
      ∃ bytes, operand.Spelled .jump bytes ∧ c.Spans bytes c' := by
  simp only [readOperand, Except.bind_eq_ok_iff, Prod.exists, part_eq_ok_iff,
    Cursor.word16_eq_ok_iff, Except.pure_eq_ok_iff, Prod.mk.injEq]
  constructor
  · rintro ⟨target, d, h, rfl, rfl⟩
    exact ⟨_, .jump target, h⟩
  · rintro ⟨bytes, hbytes, h⟩
    cases hbytes with
    | jump target => exact ⟨target, c', h, rfl, rfl⟩
    | word hword => cases hword

private theorem readOperand_word {kind : OperandKind} (hkind : kind.isWord) :
    readOperand offset kind c = (do
      let (value, c) ← part offset c Cursor.word16
      return (.word kind value, c)) := by
  cases kind <;> first | rfl | cases hkind

private theorem readOperand_word_iff {kind : OperandKind} (hkind : kind.isWord) {operand : Operand} :
    readOperand offset kind c = .ok (operand, c') ↔
      ∃ bytes, operand.Spelled kind bytes ∧ c.Spans bytes c' := by
  simp only [readOperand_word hkind, Except.bind_eq_ok_iff, Prod.exists, part_eq_ok_iff,
    Cursor.word16_eq_ok_iff, Except.pure_eq_ok_iff, Prod.mk.injEq]
  constructor
  · rintro ⟨value, d, h, rfl, rfl⟩
    exact ⟨_, .word hkind value, h⟩
  · rintro ⟨bytes, hbytes, h⟩
    cases hbytes with
    | word _ value => exact ⟨value, c', h, rfl, rfl⟩
    | _ => cases hkind

private theorem readOperand_eq_ok_iff {kind : OperandKind} {operand : Operand} :
    readOperand offset kind c = .ok (operand, c') ↔
      ∃ bytes, operand.Spelled kind bytes ∧ c.Spans bytes c' := by
  cases kind with
  | byte => exact readOperand_byte_iff
  | item => exact readOperand_item_iff
  | text => exact readOperand_text_iff
  | list => exact readOperand_list_iff
  | jump => exact readOperand_jump_iff
  | _ => exact readOperand_word_iff rfl

private theorem readOperands_eq_ok_iff {shape : List OperandKind} {gathered operands : List Operand} :
    readOperands offset gathered shape c = .ok (operands, c') ↔
      ∃ new bytes, operands = gathered.reverse ++ new ∧ Operand.AllSpelled shape new bytes ∧
        c.Spans bytes c' := by
  induction shape generalizing c gathered with
  | nil =>
    simp only [readOperands, Except.ok.injEq, Prod.mk.injEq]
    constructor
    · rintro ⟨rfl, rfl⟩
      exact ⟨[], [], by simp, .nil, .nil _⟩
    · rintro ⟨new, bytes, rfl, hnew, h⟩
      cases hnew
      exact ⟨by simp, (Cursor.Spans.nil_iff.mp h).symm⟩
  | cons kind shape ih =>
    unfold readOperands
    constructor
    · intro h
      split at h
      · cases h
      case _ operand d hoperand =>
        obtain ⟨bytes, hbytes, hspan⟩ := readOperand_eq_ok_iff.mp hoperand
        obtain ⟨new, rest, rfl, hrest, hspan'⟩ := ih.mp h
        exact ⟨operand :: new, bytes ++ rest, by simp, .cons hbytes hrest, hspan.append hspan'⟩
    · rintro ⟨new, bytes, rfl, hnew, hspan⟩
      cases hnew with
      | cons head tail =>
        obtain ⟨d, hhead, htail⟩ := Cursor.Spans.append_iff.mp hspan
        simp only [readOperand_eq_ok_iff.mpr ⟨_, head, hhead⟩]
        exact ih.mpr ⟨_, _, by simp, tail, htail⟩

end operands

section commands

variable {command : Command}

private theorem readCommand_none_iff :
    readCommand set c = .ok (none, c') ↔ c.Spans [InstructionSet.endOfLine] c' := by
  simp only [readCommand, Except.bind_eq_ok_iff, Prod.exists, Except.mapError_eq_ok_iff,
    Cursor.byte_eq_ok_iff, pure, Except.pure]
  constructor
  · rintro ⟨opcode, d, hopcode, h⟩
    split at h
    case _ hend =>
      cases h
      exact hend ▸ hopcode
    case _ =>
      obtain ⟨shape, -, h⟩ := Except.bind_eq_ok_iff.mp h
      obtain ⟨operands, -, h⟩ := Except.bind_eq_ok_iff.mp h
      cases h
  · intro h
    exact ⟨_, c', h, if_pos rfl⟩

private theorem shape_eq_ok_iff {code : UInt8} {shape : List OperandKind} :
    set.shape code = .ok shape ↔ ∃ op, set.get? code = some op ∧ op.shape = shape := by
  unfold InstructionSet.shape
  cases set.get? code <;> simp

private theorem readCommand_some_iff :
    readCommand set c = .ok (some command, c') ↔
      ∃ bytes, command.Spelled set c.position bytes ∧ c.Spans bytes c' := by
  simp only [readCommand, Except.bind_eq_ok_iff, Prod.exists, Except.mapError_eq_ok_iff,
    Cursor.byte_eq_ok_iff, pure, Except.pure]
  constructor
  · rintro ⟨opcode, d, hopcode, h⟩
    split at h
    · cases h
    case _ hend =>
      simp only [Except.bind_eq_ok_iff, Prod.exists, Except.mapError_eq_ok_iff, shape_eq_ok_iff,
        readOperands_eq_ok_iff, Except.ok.injEq, Prod.mk.injEq, Option.some.injEq] at h
      obtain ⟨shape, ⟨op, hop, rfl⟩, operands, e, ⟨new, bytes, rfl, hnew, hspan⟩, rfl, rfl⟩ := h
      refine ⟨opcode :: bytes, ⟨rfl, hend, op, bytes, hop, by simpa using hnew, rfl⟩, ?_⟩
      exact hopcode.append hspan
  · rintro ⟨bytes, ⟨hoffset, hend, op, rest, hop, hrest, rfl⟩, h⟩
    have h : c.Spans ([command.opcode] ++ rest) c' := h
    obtain ⟨d, hopcode, hspan⟩ := Cursor.Spans.append_iff.mp h
    refine ⟨command.opcode, d, hopcode, ?_⟩
    simp only [if_neg hend, Except.bind_eq_ok_iff, Prod.exists, Except.mapError_eq_ok_iff,
      shape_eq_ok_iff, readOperands_eq_ok_iff, Except.ok.injEq, Prod.mk.injEq, Option.some.injEq]
    refine ⟨_, ⟨op, hop, rfl⟩, command.operands, c', ⟨_, rest, rfl, hrest, hspan⟩, ?_, rfl⟩
    rw [← hoffset]

theorem readCommand_readsItem (set : InstructionSet) :
    Cursor.ReadsItem (readCommand set) (Command.Spelled set) where
  some_iff _ _ _ := readCommand_some_iff
  ne_nil := by
    rintro position command bytes ⟨-, -, op, rest, -, -, rfl⟩
    exact List.cons_ne_nil _ _

end commands

section structure_words

private theorem structureWord_eq_ok_iff {offset : Nat} {value : UInt16} :
    structureWord offset c = .ok (value, c') ↔ c.Spans (word16 value) c' := by
  simp [structureWord, Cursor.word16_eq_ok_iff]

private theorem readMark_true_iff : readMark c = .ok (true, c') ↔ c.Spans (word16 continueMark) c' := by
  simp only [readMark, Except.bind_eq_ok_iff, Prod.exists, structureWord_eq_ok_iff, pure,
    Except.pure]
  constructor
  · rintro ⟨mark, d, hmark, h⟩
    split at h
    case _ hcontinue =>
      cases h
      exact hcontinue ▸ hmark
    case _ =>
      split at h <;> cases h
  · intro h
    exact ⟨_, c', h, if_pos rfl⟩

private theorem readMark_false_iff : readMark c = .ok (false, c') ↔ c.Spans (word16 endMark) c' := by
  simp only [readMark, Except.bind_eq_ok_iff, Prod.exists, structureWord_eq_ok_iff, pure,
    Except.pure]
  constructor
  · rintro ⟨mark, d, hmark, h⟩
    split at h
    · cases h
    case _ =>
      split at h
      case _ hend =>
        cases h
        exact hend ▸ hmark
      case _ => cases h
  · intro h
    exact ⟨_, c', h, rfl⟩

private theorem readHeader_eq_ok_iff {table : UInt16} {header : Option LineHeader} :
    readHeader table c = .ok (header, c') ↔
      ∃ bytes, LineHeader.Spelled table header bytes ∧ c.Spans bytes c' := by
  unfold readHeader
  by_cases htable : table = 0
  · subst htable
    simp only [ne_eq, not_true_eq_false, if_false, Except.bind_eq_ok_iff, Prod.exists,
      structureWord_eq_ok_iff, Except.pure_eq_ok_iff, Prod.mk.injEq]
    constructor
    · rintro ⟨verb, d, hverb, noun1, e, hnoun1, noun2, f, hnoun2, rfl, rfl⟩
      exact ⟨_, .present _, (hverb.append hnoun1).append hnoun2⟩
    · rintro ⟨bytes, hbytes, h⟩
      cases hbytes with
      | absent hne => exact absurd rfl hne
      | present header =>
        obtain ⟨e, hfront, hnoun2⟩ := Cursor.Spans.append_iff.mp h
        obtain ⟨d, hverb, hnoun1⟩ := Cursor.Spans.append_iff.mp hfront
        exact ⟨_, d, hverb, _, e, hnoun1, _, c', hnoun2, rfl, rfl⟩
  · simp only [ne_eq, htable, not_false_eq_true, if_true, Except.pure_eq_ok_iff,
      Prod.mk.injEq]
    constructor
    · rintro ⟨rfl, rfl⟩
      exact ⟨[], .absent htable, .nil _⟩
    · rintro ⟨bytes, hbytes, h⟩
      cases hbytes with
      | absent _ => exact ⟨rfl, (Cursor.Spans.nil_iff.mp h).symm⟩
      | present => exact absurd rfl htable

end structure_words

section lines

variable {number : UInt16} {line : Line}

private theorem readLine_none_iff :
    readLine set number c = .ok (none, c') ↔ c.Spans (word16 endMark) c' := by
  simp only [readLine, Except.bind_eq_ok_iff, Prod.exists, pure, Except.pure]
  constructor
  · rintro ⟨more, d, hmark, h⟩
    cases more with
    | false =>
      cases h
      exact readMark_false_iff.mp hmark
    | true =>
      simp [Except.bind_eq_ok_iff] at h
  · intro h
    exact ⟨false, c', readMark_false_iff.mpr h, rfl⟩

private theorem readLine_some_iff :
    readLine set number c = .ok (some line, c') ↔
      ∃ bytes, line.Spelled set number c.position bytes ∧ c.Spans bytes c' := by
  simp only [readLine, Except.bind_eq_ok_iff, Prod.exists, pure, Except.pure]
  constructor
  · rintro ⟨more, d, hmark, h⟩
    cases more with
    | false => cases h
    | true =>
      simp only [Bool.not_true, Bool.false_eq_true, if_false, Except.bind_eq_ok_iff, Prod.exists,
        Except.mapError_eq_ok_iff, readHeader_eq_ok_iff,
        Cursor.collect_eq_ok_iff (readCommand_readsItem set), readCommand_none_iff, Except.ok.injEq,
        Prod.mk.injEq, Option.some.injEq] at h
      obtain ⟨header, e, ⟨hbytes, hheader, hspan⟩, commands, f, ⟨cbytes, g, hlisted, hcommands, hend⟩,
        rfl, rfl⟩ := h
      have hmark := readMark_true_iff.mp hmark
      rw [hspan.position, hmark.position, hheader.length_eq] at hlisted
      exact ⟨_, ⟨hbytes, cbytes, hheader, hlisted, rfl⟩,
        ((hmark.append hspan).append hcommands).append hend⟩
  · rintro ⟨bytes, ⟨header, commands, hheader, hlisted, rfl⟩, h⟩
    obtain ⟨g, hfront, hend⟩ := Cursor.Spans.append_iff.mp h
    obtain ⟨e, hfront, hcommands⟩ := Cursor.Spans.append_iff.mp hfront
    obtain ⟨d, hmark, hspan⟩ := Cursor.Spans.append_iff.mp hfront
    refine ⟨true, d, readMark_true_iff.mpr hmark, ?_⟩
    simp only [Bool.not_true, Bool.false_eq_true, if_false, Except.bind_eq_ok_iff, Prod.exists,
      Except.mapError_eq_ok_iff, readHeader_eq_ok_iff,
      Cursor.collect_eq_ok_iff (readCommand_readsItem set), readCommand_none_iff, Except.ok.injEq,
      Prod.mk.injEq, Option.some.injEq]
    have hposition : e.position = c.position + 2 + LineHeader.size number := by
      rw [hspan.position, hmark.position, hheader.length_eq]
      rfl
    exact ⟨_, e, ⟨header, hheader, hspan⟩, _, c', ⟨commands, g, hposition ▸ hlisted, hcommands, hend⟩,
      rfl, rfl⟩

theorem readLine_readsItem (set : InstructionSet) (number : UInt16) :
    Cursor.ReadsItem (readLine set number) (Line.Spelled set number) where
  some_iff _ _ _ := readLine_some_iff
  ne_nil := by
    rintro position line bytes ⟨header, commands, -, -, rfl⟩
    simp

end lines

section tables

variable {table : Table} {data : List UInt8} {script : Script}

private theorem readTable_none_iff : readTable set c = .ok (none, c') ↔ c.Spans (word16 endMark) c' := by
  simp only [readTable, Except.bind_eq_ok_iff, Prod.exists, pure, Except.pure]
  constructor
  · rintro ⟨more, d, hmark, h⟩
    cases more with
    | false =>
      cases h
      exact readMark_false_iff.mp hmark
    | true =>
      simp [Except.bind_eq_ok_iff] at h
  · intro h
    exact ⟨false, c', readMark_false_iff.mpr h, rfl⟩

private theorem readTable_some_iff :
    readTable set c = .ok (some table, c') ↔
      ∃ bytes, table.Spelled set c.position bytes ∧ c.Spans bytes c' := by
  simp only [readTable, Except.bind_eq_ok_iff, Prod.exists, pure, Except.pure]
  constructor
  · rintro ⟨more, d, hmark, h⟩
    cases more with
    | false => cases h
    | true =>
      simp only [Bool.not_true, Bool.false_eq_true, if_false, Except.bind_eq_ok_iff, Prod.exists,
        structureWord_eq_ok_iff, Except.ok.injEq, Prod.mk.injEq, Option.some.injEq] at h
      obtain ⟨number, e, hnumber, lines, f, hlines, rfl, rfl⟩ := h
      obtain ⟨bytes, g, hlisted, hspan, hend⟩ :=
        (Cursor.collect_eq_ok_iff (readLine_readsItem set number)).mp hlines
      have hmark := readMark_true_iff.mp hmark
      rw [hnumber.position, hmark.position] at hlisted
      exact ⟨_, ⟨bytes, hlisted, rfl⟩,
        ((hmark.append hnumber).append hspan).append (readLine_none_iff.mp hend)⟩
  · rintro ⟨bytes, ⟨lines, hlisted, rfl⟩, h⟩
    obtain ⟨g, hfront, hend⟩ := Cursor.Spans.append_iff.mp h
    obtain ⟨e, hfront, hspan⟩ := Cursor.Spans.append_iff.mp hfront
    obtain ⟨d, hmark, hnumber⟩ := Cursor.Spans.append_iff.mp hfront
    refine ⟨true, d, readMark_true_iff.mpr hmark, ?_⟩
    simp only [Bool.not_true, Bool.false_eq_true, if_false, Except.bind_eq_ok_iff, Prod.exists,
      structureWord_eq_ok_iff, Except.ok.injEq, Prod.mk.injEq, Option.some.injEq]
    have hposition : e.position = c.position + 4 := by
      rw [hnumber.position, hmark.position]
      rfl
    have hlines := (Cursor.collect_eq_ok_iff (readLine_readsItem set table.number)).mpr
      ⟨lines, g, hposition ▸ hlisted, hspan, readLine_none_iff.mpr hend⟩
    exact ⟨_, e, hnumber, _, c', hlines, rfl, rfl⟩

theorem readTable_readsItem (set : InstructionSet) :
    Cursor.ReadsItem (readTable set) (Table.Spelled set) where
  some_iff _ _ _ := readTable_some_iff
  ne_nil := by
    rintro position table bytes ⟨lines, -, rfl⟩
    simp [word16]

/-- The tables at the start of a buffer, whatever follows them. Only an empty buffer holds no tables
    without a mark. -/
theorem readTables_eq_ok_iff {tables : List Table} :
    readTables set (Cursor.ofBytes data) = .ok (tables, c') ↔
      (data = [] ∧ tables = [] ∧ c' = Cursor.ofBytes []) ∨
      ∃ bytes, Cursor.Listed (Table.Spelled set) 0 tables bytes ∧
        (Cursor.ofBytes data).Spans (bytes ++ word16 endMark) c' := by
  unfold readTables
  split
  case _ hend =>
    have hdata : data = [] := by simpa [Cursor.atEnd, Cursor.ofBytes] using hend
    subst hdata
    simp only [Except.ok.injEq, Prod.mk.injEq, true_and]
    constructor
    · rintro ⟨rfl, rfl⟩
      exact .inl ⟨rfl, rfl⟩
    · rintro (⟨rfl, rfl⟩ | ⟨bytes, -, h⟩)
      · exact ⟨rfl, rfl⟩
      · have hlength := h.length_rest
        simp only [Cursor.ofBytes, List.length_nil, List.length_append, length_word16] at hlength
        omega
  case _ hend =>
    have hdata : data ≠ [] := by simpa [Cursor.atEnd, Cursor.ofBytes] using hend
    simp only [Cursor.collect_eq_ok_iff (readTable_readsItem set), readTable_none_iff, hdata,
      false_and, false_or, Cursor.Spans.append_iff]
    constructor
    · rintro ⟨bytes, d, hlisted, hspan, hmark⟩
      exact ⟨bytes, hlisted, d, hspan, hmark⟩
    · rintro ⟨bytes, hlisted, d, hspan, hmark⟩
      exact ⟨bytes, d, hlisted, hspan, hmark⟩

/-- Tables are read from where they are spelled with the mark behind them, whatever follows. -/
theorem ofBlock_of_listed {tables : List Table} {bytes : List UInt8}
    (h : Cursor.Listed (Table.Spelled set) 0 tables bytes) (tail : List UInt8) :
    ofBlock set (bytes ++ word16 endMark ++ tail) =
      .ok (ofTables tables, (bytes ++ word16 endMark).length) := by
  have hspan := Cursor.spans_advance (c := Cursor.ofBytes (bytes ++ word16 endMark ++ tail)) rfl
  rw [ofBlock, readTables_eq_ok_iff.mpr (.inr ⟨bytes, h, hspan⟩)]
  simp [Except.map, Cursor.ofBytes]

/-- A record is read exactly if it spells tables and nothing follows them. -/
theorem ofRecord_eq_ok_iff :
    ofRecord set data = .ok script ↔
      script = ofTables script.tables ∧ Script.Spelled set script.tables data := by
  simp only [ofRecord, ofBlock, Except.bind_eq_ok_iff, Prod.exists, Except.map_eq_ok_iff,
    readTables_eq_ok_iff, pure, Except.pure, Prod.mk.injEq]
  constructor
  · rintro ⟨read, used, ⟨tables, c', htables, rfl, rfl⟩, h⟩
    split at h
    · cases h
    case _ hused =>
      cases h
      refine ⟨rfl, ?_⟩
      rcases htables with ⟨rfl, rfl, rfl⟩ | ⟨bytes, hlisted, hspan⟩
      · exact .empty
      · have hposition := hspan.position
        have hlength := hspan.length_rest
        have hrest := hspan.rest
        simp only [Cursor.ofBytes, Nat.zero_add] at hposition hlength hrest
        have hnil : c'.rest = [] := by
          rw [← List.length_eq_zero_iff]
          omega
        rw [hrest, hnil, List.append_nil]
        exact .tables hlisted
  · rintro ⟨hscript, hspelled⟩
    refine ⟨script, data.length, ⟨script.tables, ⟨data, data.length, []⟩, ?_, hscript.symm, rfl⟩, ?_⟩
    · generalize script.tables = tables at hspelled
      cases hspelled with
      | empty => exact .inl ⟨rfl, rfl, rfl⟩
      | @tables _ bytes hlisted =>
        refine .inr ⟨bytes, hlisted, ?_, ?_⟩
        · simp [Cursor.ofBytes]
        · simp [Cursor.ofBytes, Cursor.advance]
    · simp

end tables

end Script

end Adventure
