import Adventure.Proofs.Bytes.Operations
import Adventure.Proofs.Script.Reference

namespace Adventure

open Bytes

/-- A value in the form in which it is written. -/
inductive Datum where
  | word16 (value : UInt16)
  | word32 (value : UInt32)
  | word32Little (value : UInt32)
  | terminated (text : List UInt8)
  | padded (text : List UInt8) (width : Nat)
  | item (id : UInt32)
  deriving Repr, DecidableEq

namespace Datum

/-- Why a value is not written. -/
inductive Refusal where
  | overflow (fault : Fault)
  | unstored (id : UInt32)
  deriving Repr, DecidableEq

def toBytes : Datum → Except Refusal (List UInt8)
  | word16 value => .ok (Bytes.word16 value)
  | word32 value => .ok (Bytes.word32 value)
  | word32Little value => .ok (Bytes.word32Little value)
  | terminated text => .ok (Bytes.terminated text)
  | padded text width => (Bytes.padded text width).mapError .overflow
  | item id =>
    match ItemRef.stored? id with
    | some bytes => .ok bytes
    | none => .error (.unstored id)

/-- Writes a field behind what a buffer has. A value that is refused leaves the buffer as it was. -/
def write (buffer : List UInt8) (field : Datum) : Except Refusal Unit × List UInt8 :=
  match field.toBytes with
  | .ok bytes => (.ok (), buffer ++ bytes)
  | .error refusal => (.error refusal, buffer)

/-- The buffer behind writes, one after the other. -/
def writeAll (buffer : List UInt8) (fields : List Datum) : List UInt8 :=
  fields.foldl (fun buffer field => (field.write buffer).2) buffer

/-- The value has a form as bytes: a padded text is no longer than its field, and an item is not the
    player. -/
def Fits : Datum → Prop
  | padded text width => text.length ≤ width
  | item id => id ≠ 1
  | _ => True

instance : DecidablePred Fits
  | padded text width => inferInstanceAs (Decidable (text.length ≤ width))
  | item id => inferInstanceAs (Decidable (id ≠ 1))
  | word16 _ | word32 _ | word32Little _ | terminated _ => .isTrue trivial

/-- A text has no NUL, which would end it early. -/
def NulFree : Datum → Prop
  | terminated text => 0 ∉ text
  | padded text _ => 0 ∉ text
  | _ => True

/-- The operation that reads fields of this kind. -/
def reading : Datum → Cursor.Operation
  | word16 _ => .word16
  | word32 _ => .word32
  | word32Little _ => .word32Little
  | terminated _ => .terminated
  | padded _ width => .padded width
  | item _ => .item

/-- The value, as it is answered when it is read. -/
def answer : Datum → Cursor.Answer
  | word16 value => .word16 value
  | word32 value => .word32 value
  | word32Little value => .word32 value
  | terminated text => .bytes text
  | padded text _ => .bytes text
  | item id => .word32 id

/-- A value that has no form as bytes, and why. -/
inductive Refused : Datum → Refusal → Prop
  | tooLong {text : List UInt8} {width : Nat} (h : width < text.length) :
      Refused (padded text width) (.overflow (.fieldOverflow text.length width))
  | player : Refused (item 1) (.unstored 1)

variable {field : Datum} {fields : List Datum} {buffer bytes : List UInt8}

private theorem toBytes_cases (field : Datum) : (field.Fits ∧ ∃ bytes, field.toBytes = .ok bytes) ∨
    (¬field.Fits ∧ ∃ refusal, field.Refused refusal ∧ field.toBytes = .error refusal) := by
  cases field with
  | padded text width =>
    by_cases hlong : width < text.length
    · refine .inr ⟨Nat.not_le_of_lt hlong, _, .tooLong hlong, ?_⟩
      rw [toBytes, Bytes.padded, if_pos hlong]
      rfl
    · refine .inl ⟨Nat.le_of_not_lt hlong, text ++ List.replicate (width - text.length) 0, ?_⟩
      rw [toBytes, Bytes.padded, if_neg hlong]
      rfl
  | item id =>
    by_cases hplayer : id = 1
    · subst hplayer
      exact .inr ⟨fun hfits => hfits rfl, _, .player, rfl⟩
    · obtain ⟨bytes, hbytes⟩ := Option.ne_none_iff_exists'.mp (mt ItemRef.stored?_eq_none_iff.mp hplayer)
      exact .inl ⟨hplayer, bytes, by rw [toBytes, hbytes]⟩
  | _ => exact .inl ⟨trivial, _, rfl⟩

/-- A write puts bytes behind the buffer, or it is refused for a reason that the value gives. -/
theorem write_cases (buffer : List UInt8) (field : Datum) :
    (field.Fits ∧ ∃ bytes, field.write buffer = (.ok (), buffer ++ bytes)) ∨
    (¬field.Fits ∧ ∃ refusal, field.Refused refusal ∧ field.write buffer = (.error refusal, buffer)) := by
  unfold write
  rcases field.toBytes_cases with ⟨hfits, bytes, hbytes⟩ | ⟨hrefused, refusal, hwhy, hbytes⟩
  · exact .inl ⟨hfits, bytes, by rw [hbytes]⟩
  · exact .inr ⟨hrefused, refusal, hwhy, by rw [hbytes]⟩

/-- The buffer has the bytes of the fields that fit, one after the other. -/
theorem writeAll_eq (buffer : List UInt8) (fields : List Datum) :
    ∃ parts, (fields.filter (Fits ·)).mapM toBytes = .ok parts ∧
      writeAll buffer fields = buffer ++ parts.flatten := by
  induction fields generalizing buffer with
  | nil => exact ⟨[], rfl, (List.append_nil buffer).symm⟩
  | cons field fields ih =>
    have hcons : writeAll buffer (field :: fields) = writeAll (field.write buffer).2 fields := rfl
    rw [hcons, write]
    rcases field.toBytes_cases with ⟨hfits, bytes, hbytes⟩ | ⟨hrefused, refusal, -, hbytes⟩
    · obtain ⟨parts, hparts, hbuffer⟩ := ih (buffer ++ bytes)
      refine ⟨bytes :: parts, ?_, ?_⟩
      · rw [List.filter_cons, if_pos (decide_eq_true hfits), List.mapM_cons, hbytes, hparts]
        rfl
      · rw [hbytes, List.flatten_cons, ← List.append_assoc]
        exact hbuffer
    · obtain ⟨parts, hparts, hbuffer⟩ := ih buffer
      refine ⟨parts, ?_, ?_⟩
      · rwa [List.filter_cons, if_neg (by simpa using hrefused)]
      · rw [hbytes]
        exact hbuffer

/-- What is written for a field is read as its value, wherever it stands. -/
theorem perform_reading {c d : Cursor} (hnul : field.NulFree) (hbytes : field.toBytes = .ok bytes)
    (hspan : c.Spans bytes d) : c.perform field.reading = .ok (field.answer, d) := by
  cases field with
  | word16 value =>
    cases hbytes
    rw [reading, Cursor.perform, Cursor.word16_eq_ok_iff.mpr hspan]
    rfl
  | word32 value =>
    cases hbytes
    rw [reading, Cursor.perform, Cursor.word32_eq_ok_iff.mpr hspan]
    rfl
  | word32Little value =>
    cases hbytes
    rw [reading, Cursor.perform, Cursor.word32Little_eq_ok_iff.mpr hspan]
    rfl
  | terminated text =>
    cases hbytes
    rw [reading, Cursor.perform, Cursor.terminated_of_spans hspan hnul]
    rfl
  | padded text width =>
    have hpadded := Except.mapError_eq_ok_iff.mp hbytes
    have hlength := length_padded hpadded
    have htext : untilNul bytes = text := by
      unfold Bytes.padded at hpadded
      split at hpadded
      · cases hpadded
      · cases hpadded
        exact untilNul_append_replicate hnul _
    rw [reading, Cursor.perform, Cursor.padded_eq_ok_iff.mpr ⟨bytes, hlength, htext, hspan⟩]
    rfl
  | item id =>
    have hstored : ItemRef.stored? id = some bytes := by
      rw [toBytes] at hbytes
      split at hbytes
      case _ hstored =>
        cases hbytes
        exact hstored
      case _ => cases hbytes
    obtain ⟨word, hword, rfl⟩ := ItemRef.stored?_eq_some hstored
    rw [reading, Cursor.perform, Cursor.item_eq_ok_iff.mpr ⟨word, hword, hspan⟩]
    rfl

end Datum

namespace Cursor

/-- The answers to operations that are done one after the other, and the cursor behind them. -/
def performAll (c : Cursor) : List Operation → Except Fault (List Answer × Cursor)
  | [] => .ok ([], c)
  | operation :: rest => do
    let (answer, d) ← c.perform operation
    let (answers, d) ← d.performAll rest
    return (answer :: answers, d)

private theorem performAll_readings {fields : List Datum} {parts : List (List UInt8)} {c d : Cursor}
    (hnul : ∀ field ∈ fields, field.NulFree) (hparts : fields.mapM Datum.toBytes = .ok parts)
    (hspan : c.Spans parts.flatten d) :
    c.performAll (fields.map Datum.reading) = .ok (fields.map Datum.answer, d) := by
  rw [Except.mapM_eq_ok_iff] at hparts
  induction hparts generalizing c with
  | nil =>
    obtain rfl := Spans.nil_iff.mp hspan
    rfl
  | cons head _ ih =>
    obtain ⟨hfirst, hrest⟩ := List.forall_mem_cons.mp hnul
    rw [List.flatten_cons] at hspan
    obtain ⟨e, hhead, htail⟩ := Spans.append_iff.mp hspan
    rw [List.map_cons, List.map_cons, performAll, Datum.perform_reading hfirst head hhead]
    show (do let (answers, d) ← e.performAll _; return (_ :: answers, d)) = _
    rw [ih hrest htail]
    rfl

/-- All of a buffer is passed at its end. -/
theorem spans_ofBytes (data : List UInt8) : (ofBytes data).Spans data ⟨data, data.length, []⟩ where
  rest := (List.append_nil data).symm
  cursor := by simp [ofBytes, advance]

end Cursor

open Datum in
/-- Fields with texts without NULs are written into an empty buffer. The ones that fit are read back by
    operations of their kinds, in the same order and with the same values, and reading them ends where the
    buffer does. A write that is refused tells why and changes nothing: only a padded text that is too long
    and the player are refused. -/
theorem written_fields_read {fields : List Datum} (hnul : ∀ field ∈ fields, field.NulFree) :
    (let buffer := writeAll [] fields
      let written := fields.filter (Fits ·)
      (Cursor.ofBytes buffer).performAll (written.map reading) =
        .ok (written.map answer, ⟨buffer, buffer.length, []⟩)) ∧
    ∀ (buffer : List UInt8) (field : Datum),
      (field.Fits ∧ ∃ bytes, field.write buffer = (.ok (), buffer ++ bytes)) ∨
      (¬field.Fits ∧ ∃ refusal, field.Refused refusal ∧ field.write buffer = (.error refusal, buffer)) := by
  refine ⟨?_, write_cases⟩
  obtain ⟨parts, hparts, hbuffer⟩ := writeAll_eq [] fields
  have hwritten : ∀ field ∈ fields.filter (Fits ·), field.NulFree := fun field hfield =>
    hnul field (List.mem_of_mem_filter hfield)
  rw [hbuffer, List.nil_append]
  exact Cursor.performAll_readings hwritten hparts (Cursor.spans_ofBytes _)

open Datum in
theorem written_fields_read_around_refused :
    let fields : List Datum := [.word16 0x0102, .padded [0x61, 0x62, 0x63] 2, .item 1, .item 0,
      .item 0xffffffff, .terminated [], .word32Little 0x01020304, .padded [0x61] 3, .word32 0xffffffff]
    let buffer : List UInt8 := [1, 2, 0xff, 0xff, 0xff, 0xff, 0xff, 0xff, 0xff, 0xfd, 0, 4, 3, 2, 1, 0x61, 0, 0,
      0xff, 0xff, 0xff, 0xff]
    writeAll [] fields = buffer ∧
    (Cursor.ofBytes buffer).performAll
        [.word16, .item, .item, .terminated, .word32Little, .padded 3, .word32] =
      .ok ([.word16 0x0102, .word32 0, .word32 0xffffffff, .bytes [], .word32 0x01020304, .bytes [0x61],
        .word32 0xffffffff], ⟨buffer, 22, []⟩) := by
  intro fields buffer
  have hnul : ∀ field ∈ fields, field.NulFree := by simp [fields, NulFree]
  exact ⟨by decide, (written_fields_read hnul).1⟩

end Adventure
