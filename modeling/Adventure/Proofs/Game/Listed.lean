import Adventure.Proofs.Game.Editing
import Adventure.Proofs.Game.Texts

namespace Adventure

namespace StringTable

variable {table : StringTable}

private theorem mem_ids_iff {id : Nat} :
    id ∈ table.ids ↔ ∃ index < table.entries.length, id = table.base + index := by
  rw [ids, List.mem_range'_1]
  constructor
  · rintro ⟨hle, hlt⟩
    exact ⟨id - table.base, by omega, by omega⟩
  · rintro ⟨index, hlt, rfl⟩
    omega

private theorem get?_add (table : StringTable) (index : Nat) :
    table.get? (table.base + index) = table.entries[index]? := by
  rw [get?, if_neg (Nat.not_lt.mpr (Nat.le_add_right _ _)), Nat.add_sub_cancel_left]

private theorem mem_ids_of_get? {id : Nat} {bytes : List UInt8} (h : table.get? id = some bytes) :
    id ∈ table.ids := by
  unfold get? at h
  split at h
  · cases h
  case _ hle =>
    obtain ⟨hlt, -⟩ := List.getElem?_eq_some_iff.mp h
    exact mem_ids_iff.mpr ⟨id - table.base, hlt, by omega⟩

private theorem get?_append {id : Nat} (hid : id ∈ table.ids) (more : List (List UInt8)) :
    get? { table with entries := table.entries ++ more } id = table.get? id := by
  obtain ⟨index, hlt, rfl⟩ := mem_ids_iff.mp hid
  rw [get?_add table, ← List.getElem?_append_left hlt]
  exact get?_add { table with entries := table.entries ++ more } index

/-- Strings are written as no bytes only if there are none. -/
theorem isEmpty_toBytes (table : StringTable) : table.toBytes.isEmpty = table.entries.isEmpty := by
  obtain ⟨base, entries⟩ := table
  cases entries with
  | nil => rfl
  | cons entry entries => simp [toBytes, Bytes.terminated]

end StringTable

theorem StringsDocument.id_of_contiguousTexts {file : String} {lines : List StringEntry} {base index : Nat}
    {texts : List String} {line : StringEntry} (h : contiguousTexts file lines base = .ok texts)
    (hline : lines[index]? = some line) : line.id = base + index := by
  obtain ⟨text, -, htext⟩ := forall₂_exists_right (Except.mapM_eq_ok_iff.mp h)
    (List.mk_mem_zipIdx_iff_getElem?.mpr hline)
  dsimp only at htext
  split at htext
  case _ hid => exact hid
  case _ => cases htext

namespace Game

/-- What lines make of a table: the strings of their numbers are the texts of the lines, the strings of the
    other numbers stay, and the numbers do too. -/
structure TableEdited (language : Language) (lines : List StringEntry) (old new : StringTable) : Prop where
  base : new.base = old.base
  numbers : ∀ id ∈ old.ids, id ∈ new.ids
  listed : ∀ line ∈ lines, (new.get? line.id).map language.decode = some line.text
  kept : ∀ id ∈ old.ids, (∀ line ∈ lines, line.id ≠ id) → new.get? id = old.get? id

namespace TableEdited

variable {language : Language} {lines : List StringEntry} {old new : StringTable} {file : String}

theorem refl (language : Language) (table : StringTable) : TableEdited language [] table table :=
  ⟨rfl, fun _ hid => hid, by simp, fun _ _ _ => rfl⟩

/-- The lines of a file are the strings of its first numbers, so if none is missing, none is kept. -/
theorem of_edited {fits : Nat → Nat → Bool}
    (h : StringTables.edited file lines old fits language = .ok new)
    (hlength : old.entries.length ≤ new.entries.length) : TableEdited language lines old new := by
  obtain ⟨hbase, -, hencoded⟩ := StringTables.edited_eq_ok h
  unfold StringTables.edited at h
  simp only [Except.bind_eq_ok_iff, Except.mapError_eq_ok_iff] at h
  obtain ⟨texts, htexts, -⟩ := h
  have hcount : lines.length = new.entries.length := by
    rw [← hencoded.length_eq, List.length_map]
  refine ⟨hbase, fun id hid => ?_, fun line hline => ?_, fun id hid hother => ?_⟩
  · obtain ⟨index, hlt, rfl⟩ := StringTable.mem_ids_iff.mp hid
    exact StringTable.mem_ids_iff.mpr ⟨index, by omega, by rw [hbase]⟩
  · obtain ⟨index, hindex⟩ := List.mem_iff_getElem?.mp hline
    rw [StringsDocument.id_of_contiguousTexts htexts hindex, ← hbase, StringTable.get?_add,
      ← List.getElem?_map, Language.map_decode_encoded hencoded, List.getElem?_map, hindex,
      Option.map_some]
  · obtain ⟨index, hlt, rfl⟩ := StringTable.mem_ids_iff.mp hid
    have hindex : index < lines.length := by omega
    exact absurd (StringsDocument.id_of_contiguousTexts htexts (List.getElem?_eq_getElem hindex))
      (hother _ (List.getElem_mem hindex))

/-- Strings that are put behind the others have numbers of their own. -/
theorem append (h : TableEdited language lines old new) (more : List (List UInt8)) :
    TableEdited language lines old { new with entries := new.entries ++ more } := by
  refine ⟨h.base, fun id hid => ?_, fun line hline => ?_, fun id hid hother => ?_⟩
  · obtain ⟨index, hlt, rfl⟩ := StringTable.mem_ids_iff.mp (h.numbers id hid)
    refine StringTable.mem_ids_iff.mpr ⟨index, ?_, rfl⟩
    rw [List.length_append]
    omega
  · obtain ⟨bytes, hbytes, hdecode⟩ := Option.map_eq_some_iff.mp (h.listed line hline)
    rw [StringTable.get?_append (StringTable.mem_ids_of_get? hbytes), hbytes, Option.map_some, hdecode]
  · rw [StringTable.get?_append (h.numbers id hid), h.kept id hid hother]

end TableEdited

/-- The lines that edit a text file. Those with the name of the base file edit the global strings. -/
def textLines (variant : Variant) (lines : List StringEntry) (file : String) : List StringEntry :=
  if file = variant.baseFile then [] else lines.filter (·.file = file)

/-- What lines make of a text file: no string more or less, and each of them can be stored. -/
structure TextEdited (variant : Variant) (language : Language) (lines : List StringEntry)
    (old new : String × StringTable) : Prop where
  name : new.1 = old.1
  count : new.2.entries.length = old.2.entries.length
  stored : ∀ entry ∈ new.2.entries, 0 ∉ entry
  edited : TableEdited language (textLines variant lines old.1) old.2 new.2

namespace StringTables

variable {variant : Variant} {language : Language} {tables after : StringTables}
  {group : String × List StringEntry} {groups : List (String × List StringEntry)}
  {lines : List StringEntry} {name : String}

private theorem basefile_edit (h : edit variant language tables group = .ok after)
    (hname : group.1 ≠ variant.baseFile) : after.basefile = tables.basefile := by
  obtain ⟨hbasefile, -⟩ | ⟨-, hbasefile, -⟩ := edit_eq_ok_iff.mp h
  · exact absurd hbasefile hname
  · exact hbasefile

private theorem basefile_foldlM_edit (h : groups.foldlM (edit variant language) tables = .ok after)
    (hname : variant.baseFile ∉ groups.map Prod.fst) : after.basefile = tables.basefile := by
  refine Except.foldlM_invariant (fun current : StringTables =>
    current.basefile = tables.basefile) ?_ rfl h
  intro group hgroup before after hbefore hedit
  rw [basefile_edit hedit fun heq => hname (heq ▸ List.mem_map_of_mem hgroup), hbefore]

/-- The base file has the texts of its lines in the end. -/
theorem basefile_foldlM_edit_of_mem (h : groups.foldlM (edit variant language) tables = .ok after)
    (hnodup : (groups.map Prod.fst).Nodup) (hmem : (variant.baseFile, lines) ∈ groups) :
    edited variant.baseFile lines { tables.basefile with base := 0 } (· ≤ ·) language =
      .ok after.basefile := by
  obtain ⟨front, back, before, edited, rfl, hfront, hedit, hback⟩ := Except.exists_foldlM_of_mem hmem h
  simp only [List.map_append, List.map_cons, List.nodup_append, List.nodup_cons] at hnodup
  obtain ⟨-, ⟨hbackName, -⟩, hapart⟩ := hnodup
  have hfrontName : variant.baseFile ∉ front.map Prod.fst := fun hname =>
    hapart variant.baseFile hname variant.baseFile List.mem_cons_self rfl
  obtain ⟨-, -, hedited⟩ | ⟨hne, -⟩ := edit_eq_ok_iff.mp hedit
  · rw [← basefile_foldlM_edit hfront hfrontName, hedited, basefile_foldlM_edit hback hbackName]
  · exact absurd rfl hne

/-- A text file with the name of the base file is not edited. -/
theorem lookup_baseFile_foldlM_edit (h : groups.foldlM (edit variant language) tables = .ok after) :
    after.files.lookup variant.baseFile = tables.files.lookup variant.baseFile := by
  refine Except.foldlM_invariant (fun current : StringTables =>
    current.files.lookup variant.baseFile = tables.files.lookup variant.baseFile) ?_ rfl h
  intro group _ before after hbefore hedit
  by_cases hname : variant.baseFile = group.1
  · obtain ⟨-, hfiles, -⟩ | ⟨hne, -⟩ := edit_eq_ok_iff.mp hedit
    · rw [hfiles, hbefore]
    · exact absurd hname.symm hne
  · rw [lookup_edit hedit hname, hbefore]

variable (h : (StringsDocument.group lines).foldlM (edit variant language) tables = .ok after)

include h

/-- What the lines of a strings document make of the global strings. -/
theorem basefile_group (hbase : tables.basefile.base = 0) :
    TableEdited language (lines.filter (·.file = variant.baseFile)) tables.basefile after.basefile ∧
      after.basefile.entries.length = max tables.basefile.entries.length
        (lines.filter (·.file = variant.baseFile)).length := by
  by_cases hlines : lines.filter (·.file = variant.baseFile) = []
  · rw [basefile_foldlM_edit h (StringsDocument.not_mem_group hlines), hlines, List.length_nil, Nat.max_zero]
    exact ⟨.refl _ _, rfl⟩
  · have hedited := basefile_foldlM_edit_of_mem h (StringsDocument.nodup_group lines)
      (StringsDocument.mem_group_iff.mpr ⟨rfl, hlines⟩)
    have hstored : { tables.basefile with base := 0 } = tables.basefile := by rw [← hbase]
    rw [hstored] at hedited
    obtain ⟨-, hfits, hencoded⟩ := edited_eq_ok hedited
    have hle := of_decide_eq_true hfits
    have hcount := hencoded.length_eq
    rw [List.length_map] at hcount
    exact ⟨.of_edited hedited hle, by omega⟩

private theorem lookup_group {old : StringTable} (hold : tables.files.lookup name = some old)
    (hzero : ∀ entry ∈ old.entries, 0 ∉ entry) : ∃ new, after.files.lookup name = some new ∧
      TextEdited variant language lines (name, old) (name, new) := by
  by_cases hname : name = variant.baseFile
  · subst hname
    refine ⟨old, (lookup_baseFile_foldlM_edit h).trans hold, rfl, rfl, hzero, ?_⟩
    rw [textLines, if_pos rfl]
    exact .refl _ _
  by_cases hlines : lines.filter (·.file = name) = []
  · refine ⟨old, (lookup_foldlM_edit h (StringsDocument.not_mem_group hlines)).trans hold, rfl, rfl, hzero, ?_⟩
    rw [textLines, if_neg hname, hlines]
    exact .refl _ _
  · obtain ⟨table, new, htable, hedited, hnew⟩ := lookup_foldlM_edit_of_mem h
      (StringsDocument.nodup_group lines) hname (StringsDocument.mem_group_iff.mpr ⟨rfl, hlines⟩)
    rw [hold] at htable
    cases htable
    obtain ⟨-, hfits, hencoded⟩ := edited_eq_ok hedited
    have hlength := of_decide_eq_true hfits
    refine ⟨new, hnew, rfl, hlength.symm, Language.zero_not_mem_encoded hencoded, ?_⟩
    rw [textLines, if_neg hname]
    exact .of_edited hedited (Nat.le_of_eq hlength)

/-- What the lines of a strings document make of the strings of the text files. -/
theorem files_group (hbase : tables.basefile.base = 0) (hnodup : (tables.files.map Prod.fst).Nodup)
    (hzero : ∀ file ∈ tables.files, ∀ entry ∈ file.2.entries, 0 ∉ entry) :
    List.Forall₂ (TextEdited variant language lines) tables.files after.files := by
  have hgrown := (grown_foldlM_edit hbase h).files
  have hnames : after.files.map Prod.fst = tables.files.map Prod.fst :=
    forall₂_map_eq_iff.mp (hgrown.flip.imp fun _ _ hsame => hsame.1)
  obtain ⟨hlength, hpairs⟩ := List.forall₂_iff_zip.mp hgrown
  refine List.forall₂_iff_zip.mpr ⟨hlength, fun {old new} hpair => ?_⟩
  obtain ⟨hold, hnew⟩ := List.of_mem_zip hpair
  have hname := (hpairs hpair).1
  obtain ⟨found, hfound, hedited⟩ := lookup_group h (lookup_eq_some_of_mem hnodup hold) (hzero old hold)
  have hlookup := lookup_eq_some_of_mem (hnames ▸ hnodup) hnew
  rw [hname, hfound] at hlookup
  cases hlookup
  rw [← hname] at hedited
  exact ⟨hname, hedited.count, hedited.stored, hname ▸ hedited.edited⟩

/-- Every line is one of the base file or of a text file. -/
theorem file_of_mem_lines {line : StringEntry} (hline : line ∈ lines) :
    line.file = variant.baseFile ∨ line.file ∈ tables.files.map Prod.fst := by
  by_cases hname : line.file = variant.baseFile
  · exact .inl hname
  · have hlines : lines.filter (·.file = line.file) ≠ [] :=
      List.ne_nil_of_mem (List.mem_filter.mpr ⟨hline, decide_eq_true rfl⟩)
    obtain ⟨table, -, htable, -⟩ := lookup_foldlM_edit_of_mem h
      (StringsDocument.nodup_group lines) hname (StringsDocument.mem_group_iff.mpr ⟨rfl, hlines⟩)
    exact .inr (List.mem_map_of_mem (f := Prod.fst) (mem_of_lookup htable))

end StringTables

end Game

end Adventure
