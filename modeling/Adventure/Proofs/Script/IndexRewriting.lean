import Mathlib.Data.List.Infix
import Adventure.Proofs.Script.Index

namespace Adventure

open Bytes

/-- An entry that can stand in a table index: its name does not end early, and neither do its ranges. -/
structure TableIndexEntry.Storable (entry : TableIndexEntry) : Prop where
  name_ne : entry.file ≠ ""
  name_plain : Text.PlainName entry.file
  low_ne : ∀ range ∈ entry.ranges, range.low ≠ 0

theorem TableIndexEntry.storable_iff {entry : TableIndexEntry} (position : Nat) :
    entry.Storable ↔ entry.Spelled position (TableIndex.entryBytes entry) := by
  constructor
  · rintro ⟨hne, hplain, hlow⟩
    obtain ⟨hascii, hzero, hname⟩ := hplain.stored
    refine ⟨Text.utf8 entry.file, fun hempty => hne ?_, hzero, hascii, hname.symm, hlow, rfl⟩
    rw [← hname, hempty]
    rfl
  · rintro ⟨name, hne, hzero, hascii, hfile, hlow, -⟩
    refine ⟨fun hempty => hne ?_, hfile ▸ Text.plainName_ofAscii hascii hzero, hlow⟩
    rw [← Text.utf8_ofAscii hascii, ← hfile, hempty]
    rfl

namespace TableIndex

variable {index : List TableIndexEntry} {data bytes : List UInt8} {position : Nat} {c c' : Cursor}

private theorem stored_iff : Stored index ↔ ∀ entry ∈ index, entry.Storable := by
  refine forall₂_congr fun entry _ => ?_
  constructor
  · rintro ⟨position, bytes, h⟩
    exact (entry.storable_iff position).mpr (entryBytes_spelled h ▸ h)
  · exact fun h => ⟨0, _, (entry.storable_iff 0).mp h⟩

/-- Entries one after the other are spelled by what is written for them. -/
theorem listed_entries_iff : Cursor.Listed TableIndexEntry.Spelled position index bytes ↔
    (∀ entry ∈ index, entry.Storable) ∧ bytes = index.flatMap entryBytes := by
  refine Cursor.listed_iff_flatMap fun position entry bytes => ?_
  constructor
  · intro h
    have hbytes := entryBytes_spelled h
    exact ⟨(TableIndexEntry.storable_iff position).mpr (hbytes ▸ h), hbytes.symm⟩
  · rintro ⟨hstorable, rfl⟩
    exact (TableIndexEntry.storable_iff position).mp hstorable

/-- The index ends where the data do, or at a NUL. -/
theorem rest_of_readEntry_none (h : readEntry c = .ok (none, c')) :
    c.rest = [] ∨ ∃ tail, c.rest = 0 :: tail := by
  have hname : untilNul c.rest = [] := by
    unfold readEntry at h
    generalize hterminated : c.terminated = read at h
    obtain ⟨name, d⟩ := read
    dsimp only at h
    split at h
    case _ hempty =>
      obtain ⟨rfl, -⟩ := Prod.mk.inj hterminated
      exact List.isEmpty_iff.mp hempty
    split at h
    · cases h
    · obtain ⟨_, _, h⟩ := Except.bind_eq_ok_iff.mp h
      cases h
  have hrest := eq_untilNul_or c.rest
  rwa [hname] at hrest

/-- What is read of an index is spelled in front of its end. -/
theorem exists_rest_of_ofBytes (h : ofBytes data = .ok index) : (∀ entry ∈ index, entry.Storable) ∧
    ∃ rest, data = index.flatMap entryBytes ++ rest ∧ (rest = [] ∨ ∃ tail, rest = 0 :: tail) := by
  obtain ⟨⟨_, c⟩, hcollect, rfl⟩ := Except.map_eq_ok_iff.mp h
  obtain ⟨_, d, hlisted, hspan, hend⟩ := (Cursor.collect_eq_ok_iff readEntry_readsItem).mp hcollect
  obtain ⟨hstorable, rfl⟩ := listed_entries_iff.mp hlisted
  exact ⟨hstorable, d.rest, hspan.rest, rest_of_readEntry_none hend⟩

/-- An index is read back as it was written exactly if its names are plain and not empty and no range of it
    begins at zero. Every index that is read is such a one, and is written as the front of the data that it
    was read from, or as these data and the NUL that they lack. -/
theorem written_index_read : (∀ index, ofBytes (toBytes index) = .ok index ↔ ∀ entry ∈ index, entry.Storable) ∧
    ∀ data index, ofBytes data = .ok index → (∀ entry ∈ index, entry.Storable) ∧
      (toBytes index <+: data ∨ toBytes index = data ++ [0]) := by
  refine ⟨fun index => ⟨fun h => (exists_rest_of_ofBytes h).1, fun h => ofBytes_toBytes (stored_iff.mpr h)⟩,
    fun data index h => ?_⟩
  obtain ⟨hstorable, rest, rfl, hrest⟩ := exists_rest_of_ofBytes h
  refine ⟨hstorable, ?_⟩
  rw [toBytes]
  rcases hrest with rfl | ⟨tail, rfl⟩
  · exact .inr (by rw [List.append_nil])
  · refine .inl ⟨tail, ?_⟩
    rw [List.append_assoc]
    rfl

/-- An index with two ranges and with none, and data that end behind its last entry or go on behind its
    end. -/
theorem written_index_read_unended :
    let index : List TableIndexEntry := [⟨"T1", [⟨1, 10⟩, ⟨0x100, 0⟩]⟩, ⟨"T2", []⟩]
    let entries : List UInt8 := [84, 49, 0, 0, 1, 0, 10, 1, 0, 0, 0, 0, 0, 84, 50, 0, 0, 0]
    ofBytes (toBytes index) = .ok index ∧
      ofBytes entries = .ok index ∧ toBytes index = entries ++ [0] ∧
      ofBytes (entries ++ [0, 7, 7]) = .ok index ∧ toBytes index <+: entries ++ [0, 7, 7] := by
  intro index entries
  have hstorable : ∀ entry ∈ index, entry.Storable := by
    refine List.forall_mem_cons.mpr ⟨⟨by decide, by decide, by decide⟩, List.forall_mem_singleton.mpr ?_⟩
    exact ⟨by decide, by decide, by decide⟩
  have hentries : ofBytes entries = .ok index := by decide +kernel
  have hlonger : ofBytes (entries ++ [0, 7, 7]) = .ok index := by decide +kernel
  obtain ⟨hwritten, hread⟩ := written_index_read
  have hshort : ¬toBytes index <+: entries := by decide +kernel
  have hlong : toBytes index ≠ entries ++ [0, 7, 7] ++ [0] := by decide +kernel
  exact ⟨(hwritten index).mpr hstorable, hentries, ((hread _ _ hentries).2.resolve_left hshort),
    hlonger, (hread _ _ hlonger).2.resolve_right hlong⟩

end TableIndex

end Adventure
