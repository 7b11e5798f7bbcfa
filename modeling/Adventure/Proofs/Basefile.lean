import Adventure.Basefile
import Adventure.Proofs.Bytes.Reading
import Adventure.Proofs.Strings.Table

namespace Adventure.Basefile

open Bytes

/-- The header counts the strings and their bytes, and the bytes are read as these strings. -/
structure Consistent (base : Basefile) : Prop where
  version : base.header.version = knownVersion
  count : base.header.strings.toNat = base.strings.entries.length
  size : base.header.textSize.toNat = base.strings.toBytes.length
  strings : StringTable.ofBytes 0 base.strings.toBytes = .ok base.strings

variable {base : Basefile}

private theorem read_eq_ok_iff {header : Header} {c : Cursor} :
    Header.read c = .ok header ↔ ∃ c', c.Spans header.toBytes c' := by
  simp only [Header.read, Except.bind_eq_ok_iff, Except.pure_eq_ok_iff, Prod.exists,
    Cursor.word32_eq_ok_iff]
  constructor
  · rintro ⟨totalItems, d, htotal, version, e, hversion, items, f, hitems, strings, g, hstrings, textSize, c',
      htextSize, rfl⟩
    exact ⟨c', (((htotal.append hversion).append hitems).append hstrings).append htextSize⟩
  · rintro ⟨c', h⟩
    obtain ⟨g, h, htextSize⟩ := Cursor.Spans.append_iff.mp h
    obtain ⟨f, h, hstrings⟩ := Cursor.Spans.append_iff.mp h
    obtain ⟨e, h, hitems⟩ := Cursor.Spans.append_iff.mp h
    obtain ⟨d, htotal, hversion⟩ := Cursor.Spans.append_iff.mp h
    exact ⟨_, d, htotal, _, e, hversion, _, f, hitems, _, g, hstrings, _, c', htextSize, rfl⟩

theorem Consistent.writtenHeader_eq (h : base.Consistent) : base.writtenHeader = base.header := by
  rw [writtenHeader, ← h.count, ← h.size, UInt32.ofNat_toNat, UInt32.ofNat_toNat]

/-- The base files that are read are the consistent ones, from the bytes that are written for them. -/
theorem ofBytes_eq_ok_iff {input : List UInt8} :
    ofBytes input = .ok base ↔ base.Consistent ∧ base.toBytes = input := by
  simp only [ofBytes, Except.bind_eq_ok_iff, Except.throw_else_eq_ok_iff, Except.pure_eq_ok_iff,
    Except.mapError_eq_ok_iff, Prod.exists, Cursor.bytes_eq_ok_iff, read_eq_ok_iff, not_not]
  constructor
  · rintro ⟨block, c, ⟨hblock, hspan⟩, header, ⟨e, hheader⟩, hversion, texts, d, ⟨hlength, htexts⟩, strings,
      hstrings, hcount, rfl⟩
    have hbytes := StringTable.toBytes_ofBytes hstrings
    have hconsistent : Consistent ⟨header, strings, d.rest⟩ :=
      ⟨hversion, hcount.symm, by rw [hbytes, hlength], by rw [hbytes, hstrings]⟩
    have hrest : e.rest = [] := by
      have hlength := hheader.length_rest
      have hsize : header.toBytes.length = headerSize := rfl
      rw [hsize, Cursor.ofBytes, hblock] at hlength
      exact List.eq_nil_of_length_eq_zero (by omega)
    have hheaderBytes : block = header.toBytes ++ e.rest := hheader.rest
    have hinput : input = block ++ texts ++ d.rest := (hspan.append htexts).rest
    refine ⟨hconsistent, ?_⟩
    rw [toBytes, hconsistent.writtenHeader_eq, hbytes, hinput, hheaderBytes, hrest, List.append_nil]
  · rintro ⟨h, rfl⟩
    have hfile : (Cursor.ofBytes base.toBytes).rest =
        base.header.toBytes ++ base.strings.toBytes ++ base.data := by
      rw [Cursor.ofBytes, toBytes, h.writtenHeader_eq]
    have hspan := Cursor.spans_advance hfile
    generalize (Cursor.ofBytes base.toBytes).advance
      (base.header.toBytes ++ base.strings.toBytes).length = after at hspan
    have hrest : after.rest = base.data := by
      have hsplit := hspan.rest
      rw [hfile, List.append_cancel_left_eq] at hsplit
      exact hsplit.symm
    obtain ⟨c, hblock, htexts⟩ := Cursor.Spans.append_iff.mp hspan
    exact ⟨base.header.toBytes, c, ⟨rfl, hblock⟩, base.header,
      ⟨_, Cursor.spans_advance (List.append_nil _).symm⟩, h.version, base.strings.toBytes, after,
      ⟨h.size.symm, htexts⟩, base.strings, h.strings, h.count.symm, by rw [hrest]⟩

theorem consistent_of_ofBytes {input : List UInt8} (h : ofBytes input = .ok base) : base.Consistent :=
  (ofBytes_eq_ok_iff.mp h).1

/-- A base file that has been read is written as it was. -/
theorem toBytes_ofBytes {input : List UInt8} (h : ofBytes input = .ok base) : base.toBytes = input :=
  (ofBytes_eq_ok_iff.mp h).2

/-- A consistent base file is read back as it was written. -/
theorem Consistent.ofBytes_toBytes (h : base.Consistent) : ofBytes base.toBytes = .ok base :=
  ofBytes_eq_ok_iff.mpr ⟨h, rfl⟩

/-- Counting the objects anew changes the two counters of objects and nothing else. -/
theorem setObjectCount_eq_ok_iff {count : Nat} {counted : Basefile} :
    base.setObjectCount count = .ok counted ↔ count + base.dynamicCount < 0x100000000 ∧
      counted = ⟨⟨UInt32.ofNat (count + base.dynamicCount), base.header.version, UInt32.ofNat count,
        base.header.strings, base.header.textSize⟩, base.strings, base.data⟩ := by
  unfold setObjectCount
  dsimp only
  split
  case _ hfits => simp [hfits, eq_comm]
  case _ hfull => simp [hfull]

/-- The objects that are counted are those that were given, and the others stay as many as they were. -/
theorem counts_of_setObjectCount {count : Nat} {counted : Basefile}
    (h : base.setObjectCount count = .ok counted) : counted.objectCount = count ∧
      counted.header.totalItems.toNat = count + base.dynamicCount := by
  obtain ⟨hfits, rfl⟩ := setObjectCount_eq_ok_iff.mp h
  exact ⟨UInt32.toNat_ofNat_of_lt' (Nat.lt_of_le_of_lt (Nat.le_add_right _ _) hfits),
    UInt32.toNat_ofNat_of_lt' hfits⟩

/-- A base file stays consistent when its objects are counted anew and its data are replaced. -/
theorem Consistent.setObjectCount (h : base.Consistent) {count : Nat} {counted : Basefile}
    (hcount : base.setObjectCount count = .ok counted) (data : List UInt8) :
    { counted with data := data }.Consistent ∧ counted.strings = base.strings := by
  obtain ⟨-, rfl⟩ := setObjectCount_eq_ok_iff.mp hcount
  exact ⟨⟨h.version, h.count, h.size, h.strings⟩, rfl⟩

/-- A base file with the header that is written for it. -/
def recounted (base : Basefile) : Basefile := { base with header := base.writtenHeader }

theorem toBytes_recounted (base : Basefile) : base.recounted.toBytes = base.toBytes := rfl

/-- A base file is read back with the header that is written for it, if the size of its strings fits
    the header. -/
theorem consistent_recounted (hversion : base.header.version = knownVersion)
    (hbase : base.strings.base = 0) (hzero : ∀ entry ∈ base.strings.entries, 0 ∉ entry)
    (hsize : base.strings.toBytes.length < 0x100000000) : base.recounted.Consistent where
  version := hversion
  count := UInt32.toNat_ofNat_of_lt' (Nat.lt_of_le_of_lt base.strings.length_entries_le hsize)
  size := UInt32.toNat_ofNat_of_lt' hsize
  strings := by
    have hread := StringTable.ofBytes_toBytes hzero
    rw [hbase] at hread
    exact hread

/-- A base file is read back in no other case: a size that does not fit the header is cut off there, and
    so many strings are not found in fewer bytes. -/
theorem exists_ofBytes_toBytes_iff (hversion : base.header.version = knownVersion)
    (hbase : base.strings.base = 0) (hzero : ∀ entry ∈ base.strings.entries, 0 ∉ entry)
    (hcount : base.strings.entries.length < 0x100000000) :
    (∃ again, ofBytes base.toBytes = .ok again) ↔ base.strings.toBytes.length < 0x100000000 := by
  constructor
  · rintro ⟨again, hagain⟩
    obtain ⟨hconsistent, hbytes⟩ := ofBytes_eq_ok_iff.mp hagain
    have hread : ∀ other : Basefile, other.toBytes = base.toBytes →
        Header.read (Cursor.ofBytes base.toBytes) = .ok other.writtenHeader := by
      intro other hother
      have hfile : (Cursor.ofBytes base.toBytes).rest =
          other.writtenHeader.toBytes ++ (other.strings.toBytes ++ other.data) := by
        rw [Cursor.ofBytes, ← hother, toBytes, List.append_assoc]
      exact read_eq_ok_iff.mpr ⟨_, Cursor.spans_advance hfile⟩
    have hheader : again.header = base.writtenHeader := by
      rw [← hconsistent.writtenHeader_eq]
      exact Except.ok.inj ((hread again hbytes).symm.trans (hread base rfl))
    have hlength : again.strings.entries.length = base.strings.entries.length := by
      rw [← hconsistent.count, hheader]
      exact UInt32.toNat_ofNat_of_lt' hcount
    rw [toBytes, toBytes, hconsistent.writtenHeader_eq, hheader, List.append_assoc, List.append_assoc,
      List.append_cancel_left_eq] at hbytes
    have hentries := StringTable.entries_eq_of_append (StringTable.zero_not_mem_entries hconsistent.strings)
      hzero hlength hbytes
    have hsize : base.strings.toBytes.length = again.header.textSize.toNat := by
      rw [hconsistent.size, StringTable.toBytes, StringTable.toBytes, hentries]
    rw [hsize]
    exact again.header.textSize.toNat_lt
  · intro hsize
    exact ⟨_, (consistent_recounted hversion hbase hzero hsize).ofBytes_toBytes⟩

end Adventure.Basefile
