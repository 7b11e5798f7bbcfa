import Adventure.Proofs.Bytes.Extended
import Adventure.Proofs.Script.Reading

namespace Adventure

open Bytes

/-- The data end too early. -/
inductive DecodeError.Early : DecodeError → Prop
  | truncatedOperand (offset : Nat) : Early (.truncatedOperand offset)
  | unexpectedEnd (offset : Nat) : Early (.unexpectedEnd offset)

namespace Script

/-- Reading has come to the end of the data. -/
def Stop.Early (stop : Stop) : Prop := stop.error.Early

section commands

private theorem part_outlasts {α : Type} {read : Cursor → Except Fault (α × Cursor)}
    (hread : Cursor.Steady (fun _ => True) read) (offset : Nat) (c : Cursor) (tail : List UInt8) :
    Cursor.Outlasts Stop.Early tail (part offset c read) (part offset (c.extend tail) read) :=
  (hread c tail).mapError fun _ _ => DecodeError.Early.truncatedOperand offset

private theorem readListValue_steady (offset : Nat) : Cursor.Steady Stop.Early (readListValue offset) := by
  intro c tail
  refine (part_outlasts Cursor.word16_outlasts offset c tail).bind fun value c => ?_
  exact .ok _ c

private theorem readOperand_steady (offset : Nat) (kind : OperandKind) :
    Cursor.Steady Stop.Early (readOperand offset kind) := by
  intro c tail
  have hword := part_outlasts Cursor.word16_outlasts offset c tail
  cases kind with
  | byte =>
    refine (part_outlasts Cursor.byte_outlasts offset c tail).bind fun value c => .ite ?_ (.ok _ c)
    exact (part_outlasts Cursor.byte_outlasts offset c tail).bind fun number c => .ok _ c
  | item =>
    refine hword.bind fun selector c => .ite ?_ ?_
    · exact (part_outlasts Cursor.item_outlasts offset c tail).bind fun item c => .ok _ c
    · cases hname : ItemRef.specialName? selector with
      | some name => exact .ok _ c
      | none => exact .error _
  | text =>
    refine hword.bind fun kind c => .ite (.ok _ c) (.ite ?_ (.ite (.ok _ c) (.error _)))
    exact (part_outlasts Cursor.word32_outlasts offset c tail).bind fun id c => .ok _ c
  | jump => exact hword.bind fun target c => .ok _ c
  | list =>
    exact (Cursor.collect_steady (readListValue_steady offset) (readListValue_readsItem offset) c tail).bind
      fun values c => .ok _ c
  | _ => exact hword.bind fun value c => .ok _ c

private theorem readOperands_steady (offset : Nat) (gathered : List Operand) (shape : List OperandKind) :
    Cursor.Steady Stop.Early (readOperands offset gathered shape) := by
  intro c tail
  induction shape generalizing c gathered with
  | nil => exact .ok _ c
  | cons kind shape ih =>
    have hread := readOperand_steady offset kind c tail
    unfold readOperands
    generalize readOperand offset kind c = now, readOperand offset kind (c.extend tail) = later at hread
    cases hread with
    | ok operand d => exact ih (operand :: gathered) d
    | error stop => exact .error stop
    | lacks h => exact .lacks h _

private theorem readCommand_steady (set : InstructionSet) : Cursor.Steady Stop.Early (readCommand set) := by
  intro c tail
  have hopcode : Cursor.Outlasts Stop.Early tail
      (c.byte.mapError fun _ => ⟨.unexpectedEnd c.position, c.position⟩)
      ((c.extend tail).byte.mapError fun _ => ⟨.unexpectedEnd c.position, c.position⟩) :=
    (Cursor.byte_outlasts c tail).mapError fun _ _ => DecodeError.Early.unexpectedEnd c.position
  refine hopcode.bind fun opcode d => .ite (.ok _ d) (.check fun shape => ?_)
  exact (readOperands_steady c.position [] shape d tail).bind fun operands d => .ok _ d

end commands

section structure_words

private theorem structureWord_outlasts (offset : Nat) (c : Cursor) (tail : List UInt8) :
    Cursor.Outlasts DecodeError.Early tail (structureWord offset c) (structureWord offset (c.extend tail)) :=
  (Cursor.word16_outlasts c tail).mapError fun _ _ => .unexpectedEnd offset

private theorem readMark_steady : Cursor.Steady DecodeError.Early readMark := by
  intro c tail
  refine (structureWord_outlasts c.position c tail).bind fun mark next => ?_
  exact .ite (.ok _ next) (.ite (.ok _ next) (.error _))

private theorem readHeader_steady (table : UInt16) : Cursor.Steady DecodeError.Early (readHeader table) := by
  intro c tail
  refine .ite (.ok _ c) ?_
  refine (structureWord_outlasts c.position c tail).bind fun verb d => ?_
  refine (structureWord_outlasts c.position d tail).bind fun noun1 d => ?_
  exact (structureWord_outlasts c.position d tail).bind fun noun2 d => .ok _ d

end structure_words

section tables

variable (set : InstructionSet)

private theorem readLine_steady (table : UInt16) : Cursor.Steady DecodeError.Early (readLine set table) := by
  intro c tail
  refine (readMark_steady c tail).bind fun more c => .ite (.ok _ c) ?_
  refine (readHeader_steady table c tail).bind fun header c => ?_
  have hcommands := Cursor.collect_steady (readCommand_steady set) (readCommand_readsItem set) c tail
  exact (hcommands.mapError (f := Stop.error) fun _ h => h).bind fun commands c => .ok _ c

private theorem readTable_steady : Cursor.Steady DecodeError.Early (readTable set) := by
  intro c tail
  refine (readMark_steady c tail).bind fun more c => .ite (.ok _ c) ?_
  refine (structureWord_outlasts c.position c tail).bind fun number c => ?_
  exact (Cursor.collect_steady (readLine_steady set number) (readLine_readsItem set number) c tail).bind
    fun lines c => .ok _ c

end tables

variable {set : InstructionSet} {data : List UInt8} {script : Script} {used : Nat}

/-- A script is read from the bytes that it takes, whatever follows them. -/
theorem ofBlock_take_append (h : ofBlock set data = .ok (script, used)) (hused : 0 < used) :
    used ≤ data.length ∧ ∀ tail, ofBlock set (data.take used ++ tail) = .ok (script, used) := by
  obtain ⟨⟨tables, c⟩, htables, heq⟩ := Except.map_eq_ok_iff.mp h
  cases heq
  rcases readTables_eq_ok_iff.mp htables with ⟨-, -, rfl⟩ | ⟨bytes, hlisted, hspan⟩
  · exact absurd hused (Nat.lt_irrefl 0)
  · obtain ⟨hposition, htake, hle⟩ := hspan.take_ofBytes
    refine ⟨hle, fun tail => ?_⟩
    rw [htake, hposition]
    exact ofBlock_of_listed hlisted tail

/-- What is read from the start of the data is read from all of them, unless the data end too early. -/
theorem ofBlock_outlasts (hne : data ≠ []) (tail : List UInt8) :
    ofBlock set (data ++ tail) = ofBlock set data ∨
      ∃ fault, DecodeError.Early fault ∧ ofBlock set data = .error fault := by
  have htables {bytes : List UInt8} (h : bytes ≠ []) :
      readTables set (Cursor.ofBytes bytes) = (Cursor.ofBytes bytes).collect (readTable set) :=
    if_neg (by simpa [Cursor.atEnd, Cursor.ofBytes] using h)
  have hread := Cursor.collect_steady (readTable_steady set) (readTable_readsItem set) (Cursor.ofBytes data) tail
  rw [Cursor.extend_ofBytes, ← htables hne, ← htables (List.append_ne_nil_of_left_ne_nil hne tail)] at hread
  unfold ofBlock
  generalize readTables set (Cursor.ofBytes data) = now, readTables set (Cursor.ofBytes (data ++ tail)) = later
    at hread ⊢
  cases hread with
  | ok tables c => exact .inl rfl
  | error fault => exact .inl rfl
  | lacks h => exact .inr ⟨_, h, rfl⟩

/-- The tables at the start of a buffer are read from the bytes that they take, whatever follows. Where some
    of these bytes are missing at the end, reading fails because of that. -/
theorem read_tables_cut_off (set : InstructionSet) (data : List UInt8) (script : Script) (used : Nat)
    (h : ofBlock set data = .ok (script, used)) (hused : 0 < used) :
    used ≤ data.length ∧ (∀ tail, ofBlock set (data.take used ++ tail) = .ok (script, used)) ∧
      ∀ front, front <+: data.take used → front ≠ [] → front ≠ data.take used →
        ∃ offset, ofBlock set front = .error (.unexpectedEnd offset) ∨
          ofBlock set front = .error (.truncatedOperand offset) := by
  obtain ⟨hle, hkept⟩ := ofBlock_take_append h hused
  refine ⟨hle, hkept, ?_⟩
  rintro front ⟨back, hfront⟩ hne hproper
  have hall := hkept []
  rw [List.append_nil, ← hfront] at hall
  rcases ofBlock_outlasts hne back with hsame | ⟨fault, hearly, hfault⟩
  · have hshort := (ofBlock_take_append (hsame.symm.trans hall) hused).1
    have hlength := congrArg List.length hfront
    rw [List.length_append, List.length_take, Nat.min_eq_left hle] at hlength
    have hback : back = [] := List.length_eq_zero_iff.mp (by omega)
    rw [hback, List.append_nil] at hfront
    exact absurd hfront hproper
  · cases hearly with
    | truncatedOperand offset => exact ⟨offset, .inr hfault⟩
    | unexpectedEnd offset => exact ⟨offset, .inl hfault⟩

/-- Behind the table stands a byte that is not read. The cut is in the list of the command. -/
theorem read_tables_cut_off_in_list :
    let set := InstructionSet.ofLayers "small" [[⟨4, some "PICK", [.byte, .list]⟩]]
    let data : List UInt8 := [0x00, 0x00, 0x00, 0x07, 0x00, 0x00, 0x04, 0x09, 0x00, 0x02, 0xff, 0xff, 0xff,
      0x00, 0x01, 0x00, 0x01, 0xaa]
    let script := ofTables [⟨7, [⟨none, [⟨6, 4, [.byte 9, .list [2]]⟩]⟩]⟩]
    ofBlock set data = .ok (script, 17) ∧ ofBlock set (data.take 17) = .ok (script, 17) ∧
      ∃ offset, ofBlock set (data.take 11) = .error (.unexpectedEnd offset) ∨
        ofBlock set (data.take 11) = .error (.truncatedOperand offset) := by
  intro set data script
  have htables : readTables set (Cursor.ofBytes data) =
      .ok ([⟨7, [⟨none, [⟨6, 4, [.byte 9, .list [2]]⟩]⟩]⟩], ⟨data, 17, [0xaa]⟩) :=
    Except.eq_ok_of_toOption (by decide +kernel)
  have hread : ofBlock set data = .ok (script, 17) := by
    rw [ofBlock, htables]
    rfl
  obtain ⟨-, hkept, hcut⟩ := read_tables_cut_off set data script 17 hread (by decide)
  exact ⟨hread, hkept [], hcut (data.take 11) (by decide) (by decide) (by decide)⟩

end Script

end Adventure
