import Adventure.Proofs.Bytes.Rewriting
import Adventure.Proofs.Bytes.Text
import Adventure.Proofs.Text.Names
import Adventure.Strings.Index

namespace Adventure

open Bytes

/-- The bytes that spell an entry of the text index: a field for the name, and the bound. -/
def TextIndexEntry.Spelled (_position : Nat) (entry : TextIndexEntry) (bytes : List UInt8) : Prop :=
  ∃ field, field.length = TextIndex.nameWidth ∧ Text.isAscii (untilNul field) ∧
    entry.name = Text.ofAscii (untilNul field) ∧ bytes = field ++ word16 entry.baseMax

namespace TextIndex

variable {index : List TextIndexEntry} {entry : TextIndexEntry} {data bytes written : List UInt8}
  {position : Nat} {c c' : Cursor}

/-- The number of bytes that an entry takes. -/
def entrySize : Nat := nameWidth + 2

private theorem length_of_spelled (h : entry.Spelled position bytes) : bytes.length = entrySize := by
  obtain ⟨field, hlength, -, -, rfl⟩ := h
  rw [List.length_append, hlength, length_word16]
  rfl

/-- The index ends only where the data do. -/
theorem readEntry_none_iff : readEntry c = .ok (none, c') ↔ c.rest = [] ∧ c' = c := by
  unfold readEntry
  by_cases hend : c.rest = []
  · simp [Cursor.atEnd, hend, pure, Except.pure, eq_comm]
  · simp only [Cursor.atEnd, List.isEmpty_iff, hend, if_false, false_and, iff_false]
    intro h
    obtain ⟨_, -, h⟩ := Except.bind_eq_ok_iff.mp h
    split at h
    · cases h
    · obtain ⟨_, -, h⟩ := Except.bind_eq_ok_iff.mp h
      cases h

theorem readEntry_readsItem : Cursor.ReadsItem readEntry TextIndexEntry.Spelled where
  some_iff c entry c' := by
    unfold readEntry
    constructor
    · intro h
      split at h
      · cases h
      · obtain ⟨⟨name, d⟩, hname, h⟩ := Except.bind_eq_ok_iff.mp h
        obtain ⟨field, hlength, rfl, hspan⟩ := Cursor.padded_eq_ok_iff.mp (Except.mapError_eq_ok_iff.mp hname)
        dsimp only at h
        split at h
        · cases h
        case _ hascii =>
          obtain ⟨⟨baseMax, e⟩, hbound, h⟩ := Except.bind_eq_ok_iff.mp h
          rw [Except.mapError_eq_ok_iff, Cursor.word16_eq_ok_iff] at hbound
          cases h
          exact ⟨_, ⟨field, hlength, by simpa using hascii, rfl, rfl⟩, hspan.append hbound⟩
    · rintro ⟨_, ⟨field, hlength, hascii, hname, rfl⟩, h⟩
      obtain ⟨d, hfield, hbound⟩ := Cursor.Spans.append_iff.mp h
      have hmore : c.atEnd = false := by
        rw [Cursor.atEnd, hfield.rest]
        cases field with
        | nil => cases hlength
        | cons => rfl
      have hread := Cursor.padded_eq_ok_iff.mpr ⟨field, hlength, rfl, hfield⟩
      rw [if_neg (by simp [hmore])]
      refine Except.bind_eq_ok_iff.mpr ⟨_, Except.mapError_eq_ok_iff.mpr hread, ?_⟩
      simp only [hascii, Bool.not_true, Bool.false_eq_true, if_false]
      refine Except.bind_eq_ok_iff.mpr
        ⟨_, Except.mapError_eq_ok_iff.mpr (Cursor.word16_eq_ok_iff.mpr hbound), ?_⟩
      rw [← hname]
      rfl
  ne_nil position entry bytes h hnil := by
    have hlength := length_of_spelled h
    rw [hnil] at hlength
    cases hlength

/-- All data are spelled by the entries that are read from them. -/
theorem ofBytes_eq_ok_iff :
    ofBytes data = .ok index ↔ Cursor.Listed TextIndexEntry.Spelled 0 index data := by
  unfold ofBytes
  simp only [Except.map_eq_ok_iff, Prod.exists, Cursor.collect_eq_ok_iff readEntry_readsItem,
    readEntry_none_iff]
  constructor
  · rintro ⟨_, d, ⟨bytes, _, hlisted, hspan, hend, rfl⟩, rfl⟩
    have hdata : data = bytes ++ d.rest := hspan.rest
    rw [hend, List.append_nil] at hdata
    exact hdata ▸ hlisted
  · intro h
    have hspan := Cursor.spans_advance (c := Cursor.ofBytes data) (List.append_nil _).symm
    exact ⟨index, _, ⟨data, _, h, hspan, by simp [Cursor.ofBytes], rfl⟩, rfl⟩

private theorem padded_of_length_le {name : List UInt8} {width : Nat} (h : name.length ≤ width) :
    padded name width = .ok (name ++ List.replicate (width - name.length) 0) :=
  if_neg (Nat.not_lt.mpr h)

private theorem entryBytes_eq_ok_iff : entryBytes entry = .ok bytes ↔
    (Text.utf8 entry.name).length ≤ nameWidth ∧
      bytes = Text.utf8 entry.name ++
        List.replicate (nameWidth - (Text.utf8 entry.name).length) 0 ++ word16 entry.baseMax := by
  unfold entryBytes
  rw [Except.bind_eq_ok_iff]
  simp only [Except.mapError_eq_ok_iff, Except.pure_eq_ok_iff]
  constructor
  · rintro ⟨field, hfield, rfl⟩
    by_cases hle : (Text.utf8 entry.name).length ≤ nameWidth
    · rw [padded_of_length_le hle, Except.ok.injEq] at hfield
      exact ⟨hle, hfield ▸ rfl⟩
    · rw [padded, if_pos (Nat.lt_of_not_le hle)] at hfield
      cases hfield
  · rintro ⟨hle, rfl⟩
    exact ⟨_, padded_of_length_le hle, rfl⟩

/-- An index is written exactly if its names fit into their fields. -/
theorem exists_toBytes_iff : (∃ data, toBytes index = .ok data) ↔
    ∀ entry ∈ index, (Text.utf8 entry.name).length ≤ nameWidth := by
  have hentry : ∀ entry, (∃ bytes, entryBytes entry = .ok bytes) ↔
      (Text.utf8 entry.name).length ≤ nameWidth := by simp [entryBytes_eq_ok_iff]
  simp only [← hentry, ← Except.exists_mapM_iff, toBytes, Except.map_eq_ok_iff]
  constructor
  · rintro ⟨_, parts, hparts, -⟩
    exact ⟨parts, hparts⟩
  · rintro ⟨parts, hparts⟩
    exact ⟨_, parts, hparts, rfl⟩

private theorem spelled_of_entryBytes (hplain : Text.PlainName entry.name) (h : entryBytes entry = .ok bytes)
    (position : Nat) : entry.Spelled position bytes := by
  obtain ⟨hle, rfl⟩ := entryBytes_eq_ok_iff.mp h
  obtain ⟨hascii, hzero, hname⟩ := hplain.stored
  refine ⟨_, ?_, ?_, ?_, rfl⟩
  · rw [List.length_append, List.length_replicate]
    omega
  · rwa [untilNul_append_replicate hzero]
  · rw [untilNul_append_replicate hzero, hname]

private theorem plainName_of_spelled (h : entry.Spelled position bytes) : Text.PlainName entry.name := by
  obtain ⟨field, -, hascii, hname, -⟩ := h
  exact hname ▸ Text.plainName_ofAscii hascii (zero_not_mem_untilNul field)

/-- An index that has been written is read back if its names are plain, and only then. -/
theorem ofBytes_toBytes_iff (h : toBytes index = .ok data) :
    ofBytes data = .ok index ↔ ∀ entry ∈ index, Text.PlainName entry.name := by
  obtain ⟨parts, hparts, rfl⟩ := Except.map_eq_ok_iff.mp h
  rw [ofBytes_eq_ok_iff]
  constructor
  · intro hlisted entry hentry
    obtain ⟨position, bytes, hspelled⟩ := hlisted.exists_spelled entry hentry
    exact plainName_of_spelled hspelled
  · intro hplain
    exact .of_mapM hparts (fun entry hentry bytes hbytes => spelled_of_entryBytes (hplain entry hentry) hbytes) 0

/-- A name field at the start of these bytes holds something behind its first NUL. -/
def trails (bytes : List UInt8) : Bool :=
  ((bytes.take nameWidth).dropWhile (· != 0)).any (· != 0)

private theorem trails_eq_false_iff : trails bytes = false ↔
    ∀ b ∈ (bytes.take nameWidth).dropWhile (· != 0), b = 0 := by
  simp [trails]

/-- What is written for an entry that has been read differs from it at most behind the first NUL of the
    name. -/
theorem entryBytes_kept (h : entry.Spelled position bytes) (hwritten : entryBytes entry = .ok written) :
    Kept trails bytes written := by
  obtain ⟨field, hlength, hascii, hname, rfl⟩ := h
  obtain ⟨-, rfl⟩ := entryBytes_eq_ok_iff.mp hwritten
  rw [hname, Text.utf8_ofAscii hascii]
  have hsplit : untilNul field ++ field.dropWhile (· != 0) = field := List.takeWhile_append_dropWhile
  have hrest : (field.dropWhile (· != 0)).length = nameWidth - (untilNul field).length := by
    rw [← hlength, ← congrArg List.length hsplit, List.length_append]
    omega
  have htrails : ∀ tail, trails (field ++ tail) = trails field := fun tail => by
    rw [trails, trails, ← hlength, List.take_left, List.take_length]
  refine ⟨?_, ?_, fun tail => by rw [List.append_assoc, htrails, htrails]⟩
  · have := congrArg List.length hsplit
    rw [List.length_append, hrest] at this
    simp only [List.length_append, List.length_replicate]
    omega
  · have hsame : ∀ filled, untilNul field ++ filled = field ↔ field.dropWhile (· != 0) = filled := by
      intro filled
      conv_lhs => rhs; rw [← hsplit]
      rw [List.append_right_inj, eq_comm]
    rw [htrails, trails_eq_false_iff, ← hlength, List.take_length, List.append_left_inj, hsame, hlength,
      List.eq_replicate_iff, and_iff_right hrest]

/-- Of equal entries one after the other, each starts at a multiple of their size. -/
theorem anyAt_eq_false_iff {size : Nat} {holds : List UInt8 → Bool} :
    anyAt (fun _ => size) (fun _ => holds) index bytes = false ↔
      ∀ place < index.length, holds (bytes.drop (size * place)) = false := by
  induction index generalizing bytes with
  | nil => simp [anyAt]
  | cons entry index ih =>
    rw [anyAt, Bool.or_eq_false_iff, ih]
    simp only [List.drop_drop]
    constructor
    · rintro ⟨hfirst, hrest⟩ place hplace
      cases place with
      | zero => exact hfirst
      | succ place =>
        rw [Nat.mul_succ, Nat.add_comm]
        exact hrest place (Nat.lt_of_succ_lt_succ hplace)
    · intro h
      refine ⟨h 0 (Nat.zero_lt_succ _), fun place hplace => ?_⟩
      rw [Nat.add_comm, ← Nat.mul_succ]
      exact h (place + 1) (Nat.succ_lt_succ hplace)

private theorem exists_written_of_ofBytes (h : ofBytes data = .ok index) :
    ∃ written, toBytes index = .ok written ∧
    Kept (anyAt (fun _ => entrySize) (fun _ => trails) index) data written := by
  have hlisted := ofBytes_eq_ok_iff.mp h
  obtain ⟨written, hwritten⟩ : ∃ written, toBytes index = .ok written := by
    refine exists_toBytes_iff.mpr fun entry hentry => ?_
    obtain ⟨position, bytes, field, hlength, hascii, hname, -⟩ := hlisted.exists_spelled entry hentry
    rw [hname, Text.utf8_ofAscii hascii, ← hlength]
    exact (List.takeWhile_sublist _).length_le
  obtain ⟨parts, hparts, rfl⟩ := Except.map_eq_ok_iff.mp hwritten
  exact ⟨_, hwritten, .listed hlisted hparts (fun _ _ _ hspelled => length_of_spelled hspelled)
    fun _ _ _ _ hspelled hbytes => entryBytes_kept hspelled hbytes⟩

/-- An index is written exactly if each of its names has at most seven bytes, and what is written is read as
    the same index exactly if the names are plain. An index that has been read is written in as many bytes as
    it was read from. They are read as the same index, and are the same bytes exactly if behind the first NUL
    of each name field there are only NULs. -/
theorem padded_index_read :
    (∀ index,
      ((∃ data, toBytes index = .ok data) ↔ ∀ entry ∈ index, (Text.utf8 entry.name).length ≤ 7) ∧
      ∀ data, toBytes index = .ok data →
        (ofBytes data = .ok index ↔ ∀ entry ∈ index, Text.PlainName entry.name)) ∧
    ∀ data index, ofBytes data = .ok index → ∃ written, toBytes index = .ok written ∧
      written.length = data.length ∧ ofBytes written = .ok index ∧
      (written = data ↔
        ∀ place < index.length, ∀ b ∈ ((data.drop (9 * place)).take 7).dropWhile (· != 0), b = 0) := by
  refine ⟨fun index => ⟨exists_toBytes_iff, fun data => ofBytes_toBytes_iff⟩, fun data index h => ?_⟩
  obtain ⟨written, hwritten, hkept⟩ := exists_written_of_ofBytes h
  have hplain : ∀ entry ∈ index, Text.PlainName entry.name := by
    intro entry hentry
    obtain ⟨position, bytes, hspelled⟩ := (ofBytes_eq_ok_iff.mp h).exists_spelled entry hentry
    exact plainName_of_spelled hspelled
  refine ⟨written, hwritten, hkept.length, (ofBytes_toBytes_iff hwritten).mpr hplain, ?_⟩
  rw [hkept.eq_iff, anyAt_eq_false_iff]
  exact forall₂_congr fun place _ => trails_eq_false_iff

/-- Behind the NUL of the second name stands a letter, which is not written. -/
theorem padded_index_read_trailing :
    let data : List UInt8 :=
      [84, 69, 88, 84, 48, 49, 0, 0x80, 0x10, 84, 50, 0, 88, 0, 0, 0, 0x80, 0x20]
    let index : List TextIndexEntry := [⟨"TEXT01", 0x8010⟩, ⟨"T2", 0x8020⟩]
    ofBytes data = .ok index ∧ ∃ written, toBytes index = .ok written ∧ written.length = 18 ∧
      ofBytes written = .ok index ∧ (∀ entry ∈ index, Text.PlainName entry.name) ∧ written ≠ data := by
  intro data index
  have hread : ofBytes data = .ok index := by decide +kernel
  obtain ⟨written, hwritten, hlength, hagain, hsame⟩ := padded_index_read.2 data index hread
  have htrailing : ¬∀ b ∈ ((data.drop (9 * 1)).take 7).dropWhile (· != 0), b = 0 := by decide +kernel
  have hplain := ((padded_index_read.1 index).2 written hwritten).mp hagain
  exact ⟨hread, written, hwritten, hlength, hagain, hplain, fun heq =>
    htrailing (hsame.mp heq 1 (by decide))⟩

end TextIndex

end Adventure
