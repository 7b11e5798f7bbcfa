import Adventure.Proofs.Bytes.Text
import Adventure.Proofs.Text.Names
import Adventure.Script.Ranges

namespace Adventure

open Bytes

/-- The bytes that spell a range. No range begins at zero. -/
def TableRange.Spelled (_position : Nat) (range : TableRange) (bytes : List UInt8) : Prop :=
  range.low ≠ 0 ∧ bytes = word16 range.low ++ word16 range.high

/-- The bytes that spell an entry of the table index: a name with its NUL, and the ranges up to a zero
    word. -/
def TableIndexEntry.Spelled (_position : Nat) (entry : TableIndexEntry) (bytes : List UInt8) : Prop :=
  ∃ name, name ≠ [] ∧ 0 ∉ name ∧ Text.isAscii name ∧ entry.file = Text.ofAscii name ∧
    (∀ range ∈ entry.ranges, range.low ≠ 0) ∧
    bytes = terminated name ++ (entry.ranges.flatMap fun range => word16 range.low ++ word16 range.high) ++
      word16 0

namespace TableIndex

variable {c c' : Cursor}

private theorem readRange_none_iff : readRange c = .ok (none, c') ↔ c.Spans (word16 0) c' := by
  simp only [readRange, Except.bind_eq_ok_iff, Prod.exists, Except.mapError_eq_ok_iff,
    Cursor.word16_eq_ok_iff, pure, Except.pure]
  constructor
  · rintro ⟨low, d, hlow, h⟩
    split at h
    case _ hzero =>
      cases h
      exact hzero ▸ hlow
    case _ =>
      obtain ⟨_, _, h⟩ := Except.bind_eq_ok_iff.mp h
      cases h
  · intro h
    exact ⟨0, c', h, if_pos rfl⟩

private theorem readRange_readsItem : Cursor.ReadsItem readRange TableRange.Spelled where
  some_iff c range c' := by
    simp only [readRange, Except.bind_eq_ok_iff, Prod.exists, Except.mapError_eq_ok_iff,
      Cursor.word16_eq_ok_iff, pure, Except.pure]
    constructor
    · rintro ⟨low, d, hlow, h⟩
      split at h
      · cases h
      case _ hne =>
        simp only [Except.bind_eq_ok_iff, Prod.exists, Except.mapError_eq_ok_iff,
          Cursor.word16_eq_ok_iff, Except.ok.injEq, Prod.mk.injEq, Option.some.injEq] at h
        obtain ⟨high, e, hhigh, rfl, rfl⟩ := h
        exact ⟨_, ⟨hne, rfl⟩, hlow.append hhigh⟩
    · rintro ⟨_, ⟨hne, rfl⟩, h⟩
      obtain ⟨d, hlow, hhigh⟩ := Cursor.Spans.append_iff.mp h
      refine ⟨range.low, d, hlow, ?_⟩
      simp only [if_neg hne, Except.bind_eq_ok_iff, Prod.exists, Except.mapError_eq_ok_iff,
        Cursor.word16_eq_ok_iff, Except.ok.injEq, Prod.mk.injEq, Option.some.injEq]
      exact ⟨range.high, c', hhigh, rfl, rfl⟩
  ne_nil := by
    rintro position range bytes ⟨-, rfl⟩
    simp [word16]

private theorem listed_ranges_iff {position : Nat} {ranges : List TableRange} {bytes : List UInt8} :
    Cursor.Listed TableRange.Spelled position ranges bytes ↔ (∀ range ∈ ranges, range.low ≠ 0) ∧
      bytes = ranges.flatMap fun range => word16 range.low ++ word16 range.high :=
  Cursor.listed_iff_flatMap fun _ _ _ => Iff.rfl

private theorem collect_readRange_eq_ok_iff {ranges : List TableRange} :
    c.collect readRange = .ok (ranges, c') ↔ (∀ range ∈ ranges, range.low ≠ 0) ∧
      c.Spans ((ranges.flatMap fun range => word16 range.low ++ word16 range.high) ++ word16 0) c' := by
  rw [Cursor.collect_eq_ok_iff readRange_readsItem]
  simp only [listed_ranges_iff, readRange_none_iff, Cursor.Spans.append_iff]
  constructor
  · rintro ⟨_, d, ⟨hranges, rfl⟩, h, hend⟩
    exact ⟨hranges, d, h, hend⟩
  · rintro ⟨hranges, d, h, hend⟩
    exact ⟨_, d, ⟨hranges, rfl⟩, h, hend⟩

theorem readEntry_readsItem : Cursor.ReadsItem readEntry TableIndexEntry.Spelled where
  some_iff c entry c' := by
    constructor
    · intro h
      unfold readEntry at h
      generalize hterminated : c.terminated = read at h
      obtain ⟨name, d⟩ := read
      obtain ⟨hzero, hspan⟩ := Cursor.spans_of_terminated hterminated
      dsimp only at h
      split at h
      · cases h
      case _ hname =>
        split at h
        · cases h
        case _ hascii =>
          simp only [Except.bind_eq_ok_iff, Prod.exists, collect_readRange_eq_ok_iff,
            Except.pure_eq_ok_iff, Prod.mk.injEq, Option.some.injEq] at h
          obtain ⟨ranges, e, ⟨hranges, hrest⟩, rfl, rfl⟩ := h
          rcases hspan with hspan | ⟨-, hend⟩
          · refine ⟨_, ⟨name, by simpa using hname, hzero, by simpa using hascii, rfl, hranges, rfl⟩, ?_⟩
            rw [List.append_assoc]
            exact hspan.append hrest
          · have hlength := hrest.length_rest
            simp only [hend, List.length_nil, List.length_append, length_word16] at hlength
            omega
    · rintro ⟨_, ⟨name, hname, hzero, hascii, hfile, hranges, rfl⟩, h⟩
      rw [List.append_assoc] at h
      obtain ⟨d, hspan, hrest⟩ := Cursor.Spans.append_iff.mp h
      have hnonempty : name.isEmpty = false := by simpa using hname
      unfold readEntry
      rw [Cursor.terminated_of_spans hspan hzero]
      simp only [hnonempty, hascii, Bool.not_true, Bool.false_eq_true, if_false,
        collect_readRange_eq_ok_iff.mpr ⟨hranges, hrest⟩, ← hfile]
      rfl
  ne_nil := by
    rintro position entry _ ⟨name, hname, -, -, -, -, rfl⟩
    simp [terminated]

/-- The empty name ends the index. -/
theorem readEntry_none (h : c.Spans [0] c') : readEntry c = .ok (none, c') := by
  have hname : c.terminated = ([], c') := Cursor.terminated_of_spans h List.not_mem_nil
  rw [readEntry, hname]
  rfl

/-- The index of a game names its files in ASCII, and none of its ranges begins at zero. -/
def Stored (index : List TableIndexEntry) : Prop :=
  ∀ entry ∈ index, ∃ position bytes, entry.Spelled position bytes

theorem stored_of_ofBytes {data : List UInt8} {index : List TableIndexEntry}
    (h : ofBytes data = .ok index) : Stored index := by
  obtain ⟨⟨_, c⟩, hcollect, rfl⟩ := Except.map_eq_ok_iff.mp h
  obtain ⟨bytes, d, hlisted, -, -⟩ := (Cursor.collect_eq_ok_iff readEntry_readsItem).mp hcollect
  exact hlisted.exists_spelled

/-- The ranges of a file can be replaced by others that do not begin at zero. -/
theorem Stored.map_ranges {index : List TableIndexEntry} (h : Stored index)
    {edit : TableIndexEntry → TableIndexEntry} (hfile : ∀ entry, (edit entry).file = entry.file)
    (hranges : ∀ entry ∈ index, (edit entry).ranges = entry.ranges ∨
      ∀ range ∈ (edit entry).ranges, range.low ≠ 0) : Stored (index.map edit) := by
  intro edited hedited
  obtain ⟨entry, hentry, rfl⟩ := List.mem_map.mp hedited
  obtain ⟨position, _, name, hne, hzero, hascii, hname, hlow, -⟩ := h entry hentry
  refine ⟨position, _, name, hne, hzero, hascii, (hfile entry).trans hname, ?_, rfl⟩
  rcases hranges entry hentry with heq | hnew
  · rw [heq]
    exact hlow
  · exact hnew

/-- What is written for an entry that can be read spells it. -/
theorem entryBytes_spelled {entry : TableIndexEntry} {position : Nat} {bytes : List UInt8}
    (h : entry.Spelled position bytes) : entryBytes entry = bytes := by
  obtain ⟨name, -, -, hascii, hfile, -, rfl⟩ := h
  rw [entryBytes, hfile, Text.utf8_ofAscii hascii]

/-- A table index is read back as it was written. -/
theorem ofBytes_toBytes {index : List TableIndexEntry} (h : Stored index) :
    ofBytes (toBytes index) = .ok index := by
  have hlisted : ∀ position, Cursor.Listed TableIndexEntry.Spelled position index
      (index.flatMap entryBytes) := by
    induction index with
    | nil => exact fun _ => .nil _
    | cons entry index ih =>
      obtain ⟨⟨_, bytes, hentry⟩, hrest⟩ := List.forall_mem_cons.mp h
      intro position
      rw [List.flatMap_cons, entryBytes_spelled hentry]
      exact .cons hentry (ih hrest _)
  have hspan := Cursor.spans_advance (c := Cursor.ofBytes (toBytes index)) (List.append_nil _).symm
  obtain ⟨d, hentries, hend⟩ := Cursor.Spans.append_iff.mp hspan
  rw [ofBytes, (Cursor.collect_eq_ok_iff readEntry_readsItem).mpr
    ⟨_, d, hlisted 0, hentries, readEntry_none hend⟩]
  rfl

end TableIndex

end Adventure
