import Adventure.Game.Extract
import Adventure.Proofs.Game.Editing
import Adventure.Proofs.Strings.Document

namespace Adventure.Game

open Text

variable {language : Language} {shown : Option VoiceMap}

private theorem file_stringEntries {file : String} {table : StringTable} :
    ∀ entry ∈ stringEntries shown language file table, entry.file = file := by
  intro entry hentry
  obtain ⟨_, -, rfl⟩ := List.mem_map.mp hentry
  rfl

private theorem mapM_numbered (file : String) (base : Nat) (texts : List String) (index : Nat) :
    List.Forall₂ (fun (entry : StringEntry × Nat) text =>
      (if entry.1.id = base + entry.2 then .ok entry.1.text
        else .error (.nonContiguous file (base + entry.2) entry.1.id) : Except Strings.Error String) =
          .ok text)
      ((((List.range' (base + index) texts.length).zip texts).map fun (id, text) =>
        (⟨file, id, text, shown.map fun voices => voices.getD id []⟩ : StringEntry)).zipIdx index)
      texts := by
  induction texts generalizing index with
  | nil => exact .nil
  | cons text texts ih =>
    rw [List.length_cons, List.range'_succ, List.zip_cons_cons, List.map_cons, List.zipIdx_cons]
    exact .cons (if_pos rfl) (ih (index + 1))

/-- The strings of a table are numbered without a gap. -/
theorem contiguousTexts_stringEntries (file : String) (table : StringTable) :
    StringsDocument.contiguousTexts file (stringEntries shown language file table) table.base =
      .ok (table.decode language) := by
  have hlength : table.entries.length = (table.decode language).length := by
    rw [StringTable.decode, List.length_map]
  rw [StringsDocument.contiguousTexts, Except.mapM_eq_ok_iff, stringEntries, StringTable.ids, hlength]
  exact mapM_numbered file table.base (table.decode language) 0

/-- Texts that have been decoded are encoded to the same bytes. -/
theorem encodeTable_decode (file : String) {table : StringTable}
    (hzero : ∀ entry ∈ table.entries, 0 ∉ entry) :
    encodeTable file table.base (table.decode language) language = .ok table := by
  refine encodeTable_eq_ok_iff.mpr ⟨rfl, ?_⟩
  rw [StringTable.decode, List.forall₂_map_left_iff]
  apply List.forall₂_same.mpr
  intro entry hentry
  exact language.encode_decode (hzero entry hentry)

private theorem edited_stringEntries {file : String} {table edited : StringTable} {fits : Nat → Nat → Bool}
    (hzero : ∀ entry ∈ table.entries, 0 ∉ entry)
    (h : StringTables.edited file (stringEntries shown language file table) table fits language =
      .ok edited) : edited = table := by
  unfold StringTables.edited at h
  rw [contiguousTexts_stringEntries] at h
  simp only [Except.mapError, bind, Except.bind] at h
  split at h
  · cases h
  · rw [encodeTable_decode file hzero] at h
    exact (Except.ok.inj h).symm

/-- The strings of a file are those that its table is printed as. -/
theorem filter_flatMap_stringEntries {tables : List (String × StringTable)} {file : String}
    {table : StringTable} (hnodup : (tables.map Prod.fst).Nodup) (hmem : (file, table) ∈ tables) :
    (tables.flatMap fun (file, table) => stringEntries shown language file table).filter
      (·.file = file) = stringEntries shown language file table := by
  induction tables with
  | nil => cases hmem
  | cons first tables ih =>
    obtain ⟨name, old⟩ := first
    rw [List.map_cons, List.nodup_cons] at hnodup
    rw [List.flatMap_cons, List.filter_append]
    rcases List.mem_cons.mp hmem with heq | hmem
    · cases heq
      have hfirst : (stringEntries shown language file table).filter (·.file = file) =
          stringEntries shown language file table :=
        List.filter_eq_self.mpr fun entry hentry => by simpa using file_stringEntries entry hentry
      have hothers : (tables.flatMap fun (file, table) => stringEntries shown language file table).filter
          (·.file = file) = [] := by
        refine List.filter_eq_nil_iff.mpr fun entry hentry => ?_
        obtain ⟨⟨other, _⟩, hother, hentry⟩ := List.mem_flatMap.mp hentry
        have hname : other ∈ tables.map Prod.fst := List.mem_map_of_mem (f := Prod.fst) hother
        have hne : other ≠ file := by
          rintro rfl
          exact hnodup.1 hname
        rw [file_stringEntries entry hentry]
        simpa using hne
      rw [hfirst, hothers, List.append_nil]
    · have hfile : file ∈ tables.map Prod.fst := List.mem_map_of_mem (f := Prod.fst) hmem
      have hne : name ≠ file := by
        rintro rfl
        exact hnodup.1 hfile
      have hfirst : (stringEntries shown language name old).filter (·.file = file) = [] := by
        refine List.filter_eq_nil_iff.mpr fun entry hentry => ?_
        rw [file_stringEntries entry hentry]
        simpa using hne
      rw [hfirst, List.nil_append, ih hnodup.2 hmem]

/-- The strings of tables are grouped as they are printed, but for the tables without strings. -/
theorem mem_group {tables : List (String × StringTable)} (hnodup : (tables.map Prod.fst).Nodup)
    {group : String × List StringEntry} (h : group ∈ StringsDocument.group
      (tables.flatMap fun (file, table) => stringEntries shown language file table)) :
    ∃ table, (group.1, table) ∈ tables ∧ group.2 = stringEntries shown language group.1 table := by
  obtain ⟨file, hfile, rfl⟩ := List.mem_map.mp h
  rw [StringsDocument.files, List.mem_eraseDups] at hfile
  obtain ⟨entry, hentry, rfl⟩ := List.mem_map.mp hfile
  obtain ⟨⟨file, table⟩, htable, hentry⟩ := List.mem_flatMap.mp hentry
  rw [file_stringEntries entry hentry]
  exact ⟨table, htable, filter_flatMap_stringEntries hnodup htable⟩

theorem lookup_eq_some_of_mem {tables : List (String × StringTable)} {file : String}
    {table : StringTable} (hnodup : (tables.map Prod.fst).Nodup) (hmem : (file, table) ∈ tables) :
    tables.lookup file = some table := by
  obtain ⟨front, back, rfl⟩ := List.append_of_mem hmem
  refine List.lookup_eq_some_iff.mpr ⟨front, back, rfl, fun other hother => ?_⟩
  rw [List.map_append, List.nodup_append] at hnodup
  simpa using (hnodup.2.2 other.1 (List.mem_map_of_mem hother) file List.mem_cons_self).symm

private theorem replaceTable_of_lookup {tables : List (String × StringTable)} {file : String}
    {table : StringTable} (h : tables.lookup file = some table) :
    StringTables.replaceTable file table tables = tables := by
  induction tables with
  | nil => cases h
  | cons first tables ih =>
    obtain ⟨name, old⟩ := first
    by_cases hname : name = file
    · subst hname
      rw [List.lookup_cons_self] at h
      cases h
      rw [StringTables.replaceTable, if_pos rfl]
    · have hne : (file == name) = false := by simpa using Ne.symm hname
      rw [List.lookup_cons, hne] at h
      rw [StringTables.replaceTable, if_neg hname, ih h]

/-- Tables that have been read and have names of their own. -/
structure StringTables.Proper (variant : Variant) (tables : StringTables) : Prop where
  base : tables.basefile.base = 0
  entries : ∀ entry ∈ tables.basefile.entries, 0 ∉ entry
  fileEntries : ∀ file ∈ tables.files, ∀ entry ∈ file.2.entries, 0 ∉ entry
  names : (variant.baseFile :: tables.files.map Prod.fst).Nodup
  plain : ∀ name ∈ variant.baseFile :: tables.files.map Prod.fst, '\t' ∉ name.toList ∧ '\n' ∉ name.toList

/-- The strings document of tables edits them to what they are. -/
theorem editAll_render {variant : Variant} {tables edited : StringTables} (hproper : tables.Proper variant)
    (h : tables.editAll variant language (StringsDocument.render
      (((variant.baseFile, tables.basefile) :: tables.files).flatMap
        fun (file, table) => stringEntries shown language file table)) = .ok edited) :
    edited = tables := by
  have hnodup : (((variant.baseFile, tables.basefile) :: tables.files).map Prod.fst).Nodup :=
    hproper.names
  unfold StringTables.editAll at h
  simp only [Except.bind_eq_ok_iff, Except.mapError_eq_ok_iff] at h
  obtain ⟨entries, hparse, hfold⟩ := h
  have hplain : ∀ entry ∈ ((variant.baseFile, tables.basefile) :: tables.files).flatMap
      (fun (file, table) => stringEntries shown language file table),
      '\t' ∉ entry.file.toList ∧ '\n' ∉ entry.file.toList := by
    intro entry hentry
    obtain ⟨file, hfile, hentry⟩ := List.mem_flatMap.mp hentry
    rw [file_stringEntries entry hentry]
    exact hproper.plain file.1 (List.mem_map_of_mem (f := Prod.fst) hfile)
  obtain ⟨-, rfl⟩ := (StringsDocument.parse_render_eq_ok_iff hplain).mp hparse
  refine Except.foldlM_invariant (· = tables) ?_ rfl hfold
  rintro ⟨file, entries⟩ hgroup before result hbefore hedit
  obtain ⟨table, hmem, hentries⟩ := mem_group hnodup hgroup
  dsimp only at hmem hentries
  subst hentries
  simp only [StringTables.edit, hbefore] at hedit
  by_cases hfile : file = variant.baseFile
  · subst hfile
    have hbasefile : table = tables.basefile := by
      have hlookup := lookup_eq_some_of_mem hnodup hmem
      rw [List.lookup_cons_self] at hlookup
      exact (Option.some.inj hlookup).symm
    have hstored : { tables.basefile with base := 0 } = tables.basefile := by rw [← hproper.base]
    rw [if_pos rfl, hstored, hbasefile, Except.bind_eq_ok_iff] at hedit
    obtain ⟨edited, hedited, hresult⟩ := hedit
    cases hresult
    rw [edited_stringEntries hproper.entries hedited]
  · have hmem : (file, table) ∈ tables.files := by
      refine (List.mem_cons.mp hmem).resolve_left fun heq => hfile ?_
      exact congrArg Prod.fst heq
    have hlookup := lookup_eq_some_of_mem (List.nodup_cons.mp hproper.names).2 hmem
    rw [if_neg hfile, hlookup, Except.bind_eq_ok_iff] at hedit
    obtain ⟨edited, hedited, hresult⟩ := hedit
    cases hresult
    rw [edited_stringEntries (hproper.fileEntries _ hmem) hedited, replaceTable_of_lookup hlookup]

end Adventure.Game
