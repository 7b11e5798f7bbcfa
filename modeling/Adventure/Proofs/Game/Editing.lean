import Mathlib.Data.List.Nodup
import Adventure.Game.Rebuild
import Adventure.Proofs.CodePage.Page
import Adventure.Proofs.Strings.Table

namespace Adventure

namespace StringsDocument

private theorem nodup_eraseDups (names : List String) : names.eraseDups.Nodup := by
  cases names with
  | nil => simp
  | cons name names =>
    rw [List.eraseDups_cons, List.nodup_cons, List.mem_eraseDups]
    exact ⟨by simp, nodup_eraseDups _⟩
termination_by names.length
decreasing_by
  rw [List.length_cons]
  exact Nat.lt_succ_of_le (List.length_filter_le _ _)

theorem nodup_group (entries : List StringEntry) : ((group entries).map Prod.fst).Nodup := by
  have hnames : (group entries).map Prod.fst = files entries := by
    rw [group, List.map_map]
    exact List.map_id _
  rw [hnames]
  exact nodup_eraseDups _

/-- The strings of a file, if it is listed. -/
theorem mem_group_iff {entries lines : List StringEntry} {file : String} :
    (file, lines) ∈ group entries ↔ lines = entries.filter (·.file = file) ∧ lines ≠ [] := by
  rw [group, List.mem_map]
  constructor
  · rintro ⟨_, hfile, heq⟩
    cases heq
    rw [files, List.mem_eraseDups] at hfile
    obtain ⟨entry, hentry, rfl⟩ := List.mem_map.mp hfile
    refine ⟨rfl, List.ne_nil_of_mem (a := entry) ?_⟩
    exact List.mem_filter.mpr ⟨hentry, decide_eq_true rfl⟩
  · rintro ⟨rfl, hne⟩
    obtain ⟨entry, hentry⟩ := List.exists_mem_of_ne_nil _ hne
    obtain ⟨hmem, hfile⟩ := List.mem_filter.mp hentry
    refine ⟨file, ?_, rfl⟩
    rw [files, List.mem_eraseDups]
    exact List.mem_map.mpr ⟨entry, hmem, of_decide_eq_true hfile⟩

/-- A file without lines is not listed. -/
theorem not_mem_group {lines : List StringEntry} {file : String} (h : lines.filter (·.file = file) = []) :
    file ∉ (group lines).map Prod.fst := by
  intro hmem
  obtain ⟨⟨_, listed⟩, hgroup, rfl⟩ := List.mem_map.mp hmem
  obtain ⟨rfl, hne⟩ := mem_group_iff.mp hgroup
  exact hne h

private theorem contiguousTexts_eq_ok {file : String} {entries : List StringEntry} {base : Nat}
    {texts : List String} (h : contiguousTexts file entries base = .ok texts) :
    texts = entries.map (·.text) := by
  have hpaired : List.Forall₂ (fun (entry : StringEntry) text => entry.text = text) entries texts := by
    refine (forall₂_zipIdx_iff fun (entry : StringEntry) text => entry.text = text).mp
      ((Except.mapM_eq_ok_iff.mp h).imp ?_)
    rintro ⟨entry, index⟩ text htext
    dsimp only at htext
    split at htext
    · exact Except.ok.inj htext
    · cases htext
  rw [← List.map_id texts]
  exact (forall₂_map_eq_iff.mp hpaired).symm

end StringsDocument

namespace Game

variable {variant : Variant} {language : Language} {file name : String} {table : StringTable}

/-- The strings of a table are what the texts are encoded to. -/
theorem encodeTable_eq_ok_iff {base : Nat} {texts : List String} :
    encodeTable file base texts language = .ok table ↔ table.base = base ∧
      List.Forall₂ (fun text bytes => language.encode text = .ok bytes) texts table.entries := by
  have hnumbered : encodeTable file base texts language =
      (texts.zipIdx.mapM fun text =>
        (language.encode text.1).mapError (Error.text file (base + text.2))).map (⟨base, ·⟩) := rfl
  simp only [hnumbered, Except.map_eq_ok_iff, Except.mapM_eq_ok_iff, Except.mapError_eq_ok_iff,
    forall₂_zipIdx_iff fun (text : String) bytes => language.encode text = .ok bytes]
  constructor
  · rintro ⟨entries, hentries, rfl⟩
    exact ⟨rfl, hentries⟩
  · rintro ⟨rfl, hentries⟩
    exact ⟨table.entries, hentries, rfl⟩

theorem mem_of_lookup {tables : List (String × StringTable)} (h : tables.lookup name = some table) :
    (name, table) ∈ tables := by
  obtain ⟨front, back, rfl, -⟩ := List.lookup_eq_some_iff.mp h
  exact List.mem_append_right _ List.mem_cons_self

namespace StringTables

variable {tables before after : StringTables} {group : String × List StringEntry}
  {groups : List (String × List StringEntry)} {entries : List StringEntry} {fits : Nat → Nat → Bool}

/-- The edited strings of a file are the texts of its lines. -/
theorem edited_eq_ok {result : StringTable} (h : edited file entries table fits language = .ok result) :
    result.base = table.base ∧ fits table.entries.length result.entries.length ∧
      List.Forall₂ (fun text bytes => language.encode text = .ok bytes) (entries.map (·.text))
        result.entries := by
  unfold edited at h
  simp only [Except.bind_eq_ok_iff, Except.mapError_eq_ok_iff] at h
  obtain ⟨texts, htexts, h⟩ := h
  obtain rfl := StringsDocument.contiguousTexts_eq_ok htexts
  split at h
  · cases h
  case _ hfits =>
    obtain ⟨hbase, hencoded⟩ := encodeTable_eq_ok_iff.mp h
    rw [hencoded.length_eq] at hfits
    exact ⟨hbase, by simpa using hfits, hencoded⟩

/-- What the strings of one file edit: those of the base file, or those of the first file of the name. -/
theorem edit_eq_ok_iff : edit variant language tables group = .ok after ↔
    (group.1 = variant.baseFile ∧ after.files = tables.files ∧
      edited group.1 group.2 { tables.basefile with base := 0 } (· ≤ ·) language = .ok after.basefile) ∨
    (group.1 ≠ variant.baseFile ∧ after.basefile = tables.basefile ∧
      ∃ table result, tables.files.lookup group.1 = some table ∧
        edited group.1 group.2 table (· = ·) language = .ok result ∧
        after.files = replaceTable group.1 result tables.files) := by
  obtain ⟨file, entries⟩ := group
  obtain ⟨basefile, files⟩ := after
  by_cases hfile : file = variant.baseFile
  · simp only [edit, if_pos hfile, Except.bind_eq_ok_iff, Except.pure_eq_ok_iff, mk.injEq]
    constructor
    · rintro ⟨table, htable, rfl, rfl⟩
      exact .inl ⟨hfile, rfl, htable⟩
    · rintro (⟨-, rfl, htable⟩ | ⟨hne, -⟩)
      · exact ⟨_, htable, rfl, rfl⟩
      · exact absurd hfile hne
  · simp only [edit, if_neg hfile]
    cases hlookup : tables.files.lookup file with
    | none => simp [throw, throwThe, MonadExceptOf.throw, hfile]
    | some table =>
      simp only [Except.bind_eq_ok_iff, Except.pure_eq_ok_iff, mk.injEq]
      constructor
      · rintro ⟨result, hedited, rfl, rfl⟩
        exact .inr ⟨hfile, rfl, table, result, rfl, hedited, rfl⟩
      · rintro (⟨heq, -⟩ | ⟨-, rfl, _, result, htable, hedited, rfl⟩)
        · exact absurd heq hfile
        · cases htable
          exact ⟨result, hedited, rfl, rfl⟩

theorem lookup_replaceTable {result : StringTable} {files : List (String × StringTable)}
    (h : files.lookup file = some table) :
    (replaceTable file result files).lookup name = if name = file then some result else files.lookup name := by
  induction files with
  | nil => cases h
  | cons first files ih =>
    obtain ⟨other, old⟩ := first
    by_cases hother : other = file
    · subst hother
      rw [replaceTable, if_pos rfl]
      by_cases hname : name = other
      · rw [hname, if_pos rfl, List.lookup_cons_self]
      · have hne : (name == other) = false := by simpa using hname
        rw [if_neg hname, List.lookup_cons, List.lookup_cons, hne]
    · have hne : (file == other) = false := by simpa using Ne.symm hother
      rw [List.lookup_cons, hne] at h
      rw [replaceTable, if_neg hother]
      by_cases hname : name = other
      · subst hname
        rw [List.lookup_cons_self, if_neg hother, List.lookup_cons_self]
      · have hne : (name == other) = false := by simpa using hname
        rw [List.lookup_cons, hne, ih h, List.lookup_cons, hne]

/-- The strings of one file do not touch those of another one. -/
theorem lookup_edit (h : edit variant language tables group = .ok after) (hname : name ≠ group.1) :
    after.files.lookup name = tables.files.lookup name := by
  obtain ⟨-, hfiles, -⟩ | ⟨-, -, table, result, hlookup, -, hfiles⟩ := edit_eq_ok_iff.mp h
  · rw [hfiles]
  · rw [hfiles, lookup_replaceTable hlookup, if_neg hname]

theorem lookup_foldlM_edit (h : groups.foldlM (edit variant language) tables = .ok after)
    (hname : name ∉ groups.map Prod.fst) : after.files.lookup name = tables.files.lookup name := by
  refine Except.foldlM_invariant (fun current : StringTables =>
    current.files.lookup name = tables.files.lookup name) ?_ rfl h
  intro group hgroup before after hbefore hedit
  have hne : name ≠ group.1 := by
    rintro rfl
    exact hname (List.mem_map_of_mem hgroup)
  rw [lookup_edit hedit hne, hbefore]

/-- A file that is listed has the texts of its lines in the end. -/
theorem lookup_foldlM_edit_of_mem (h : groups.foldlM (edit variant language) tables = .ok after)
    (hnodup : (groups.map Prod.fst).Nodup) (hname : name ≠ variant.baseFile)
    (hmem : (name, entries) ∈ groups) : ∃ table result, tables.files.lookup name = some table ∧
      edited name entries table (· = ·) language = .ok result ∧
      after.files.lookup name = some result := by
  obtain ⟨front, back, before, edited, rfl, hfront, hedit, hback⟩ := Except.exists_foldlM_of_mem hmem h
  simp only [List.map_append, List.map_cons, List.nodup_append, List.nodup_cons] at hnodup
  obtain ⟨-, ⟨hbackName, -⟩, hapart⟩ := hnodup
  have hfrontName : name ∉ front.map Prod.fst := fun hname => hapart name hname name List.mem_cons_self rfl
  obtain ⟨hfile, -⟩ | ⟨-, -, table, result, hlookup, hedited, hfiles⟩ := edit_eq_ok_iff.mp hedit
  · exact absurd hfile hname
  · refine ⟨table, result, ?_, hedited, ?_⟩
    · rw [← lookup_foldlM_edit hfront hfrontName, hlookup]
    · rw [lookup_foldlM_edit hback hbackName, hfiles, lookup_replaceTable hlookup, if_pos rfl]

/-- The strings of files, but for their contents: the numbers of each file are the same, and the base
    file has the same numbers or more. -/
structure Grown (before after : StringTables) : Prop where
  base : after.basefile.base = 0
  global : before.basefile.entries.length ≤ after.basefile.entries.length
  files : List.Forall₂ (fun old new : String × StringTable => new.1 = old.1 ∧ new.2.ids = old.2.ids)
    before.files after.files

theorem Grown.refl (hbase : tables.basefile.base = 0) : tables.Grown tables :=
  ⟨hbase, Nat.le_refl _, List.forall₂_same.mpr fun _ _ => ⟨rfl, rfl⟩⟩

private theorem forall₂_replaceTable {result : StringTable} {files : List (String × StringTable)}
    (h : files.lookup file = some table) (hids : result.ids = table.ids) :
    List.Forall₂ (fun old new : String × StringTable => new.1 = old.1 ∧ new.2.ids = old.2.ids) files
      (replaceTable file result files) := by
  induction files with
  | nil => cases h
  | cons first files ih =>
    obtain ⟨other, old⟩ := first
    by_cases hother : other = file
    · subst hother
      rw [List.lookup_cons_self] at h
      cases h
      rw [replaceTable, if_pos rfl]
      exact .cons ⟨rfl, hids⟩ (List.forall₂_same.mpr fun _ _ => ⟨rfl, rfl⟩)
    · have hne : (file == other) = false := by simpa using Ne.symm hother
      rw [List.lookup_cons, hne] at h
      rw [replaceTable, if_neg hother]
      exact .cons ⟨rfl, rfl⟩ (ih h)

theorem Grown.edit (h : before.Grown tables) (hedit : edit variant language tables group = .ok after) :
    before.Grown after := by
  obtain ⟨-, hfiles, hedited⟩ | ⟨-, hbasefile, table, result, hlookup, hedited, hfiles⟩ :=
    edit_eq_ok_iff.mp hedit
  · obtain ⟨hbase, hfits, -⟩ := edited_eq_ok hedited
    exact ⟨hbase, Nat.le_trans h.global (of_decide_eq_true hfits), hfiles ▸ h.files⟩
  · obtain ⟨hbase, hfits, -⟩ := edited_eq_ok hedited
    have hids : result.ids = table.ids := by
      rw [StringTable.ids, StringTable.ids, hbase, of_decide_eq_true hfits]
    refine ⟨hbasefile ▸ h.base, hbasefile ▸ h.global, ?_⟩
    rw [hfiles]
    exact forall₂_trans (fun _ _ _ h h' => ⟨h'.1.trans h.1, h'.2.trans h.2⟩) h.files
      (forall₂_replaceTable hlookup hids)

/-- Editing keeps the numbers of all strings. -/
theorem grown_foldlM_edit (hbase : tables.basefile.base = 0)
    (h : groups.foldlM (edit variant language) tables = .ok after) : tables.Grown after :=
  Except.foldlM_invariant (tables.Grown ·) (fun _ _ _ _ hbefore hedit => hbefore.edit hedit) (.refl hbase) h

/-- Editing leaves no byte in a global string that ends strings. -/
theorem zero_not_mem_foldlM_edit (hzero : ∀ entry ∈ tables.basefile.entries, 0 ∉ entry)
    (h : groups.foldlM (edit variant language) tables = .ok after) :
    ∀ entry ∈ after.basefile.entries, 0 ∉ entry := by
  refine Except.foldlM_invariant (fun current : StringTables =>
    ∀ entry ∈ current.basefile.entries, 0 ∉ entry) ?_ hzero h
  intro group _ before after hbefore hedit
  obtain ⟨-, -, hedited⟩ | ⟨-, hbasefile, -⟩ := edit_eq_ok_iff.mp hedit
  · exact Language.zero_not_mem_encoded (edited_eq_ok hedited).2.2
  · exact hbasefile ▸ hbefore

end StringTables

end Game

end Adventure
