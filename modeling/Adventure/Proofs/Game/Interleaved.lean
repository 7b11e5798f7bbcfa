import Adventure.Proofs.Game.Edited

namespace Adventure

open Text

namespace StringsDocument

/-- The lines of a document without their ends, but for empty ones. -/
def content (document : String) : List (List Char) :=
  ((lines document.toList).map dropReturn).filter (!·.isEmpty)

/-- The file that a line is about, which is its first field. -/
def fileOf (line : List Char) : String := String.ofList ((line.splitOn '\t').headD [])

/-- Two documents have the same lines for each file, in the same order. How the lines of different files
    are interleaved is left open, and empty lines do not count. -/
def SameLines (document other : String) : Prop :=
  ∀ file, (content document).filter (fileOf · = file) = (content other).filter (fileOf · = file)

theorem SameLines.symm {document other : String} (h : SameLines document other) :
    SameLines other document := fun file => (h file).symm

theorem SameLines.mem {document other : String} (h : SameLines document other) {line : List Char}
    (hline : line ∈ content other) : line ∈ content document := by
  have hmem : line ∈ (content other).filter (fileOf · = fileOf line) :=
    List.mem_filter.mpr ⟨hline, decide_eq_true rfl⟩
  rw [← h (fileOf line)] at hmem
  exact (List.mem_filter.mp hmem).1

/-- The string on a line that is not empty. -/
def entryOf (line : List Char) : Except Strings.LineError StringEntry :=
  StringEntry.ofFields (line.splitOn '\t')

private theorem file_eq_fileOf {line : List Char} {entry : StringEntry} (h : entryOf line = .ok entry) :
    entry.file = fileOf line := by
  unfold entryOf StringEntry.ofFields at h
  unfold fileOf
  generalize line.splitOn '\t' = fields at h ⊢
  split at h
  · simp only [pure_bind] at h
    split at h
    · obtain ⟨_, -, h⟩ := Except.bind_eq_ok_iff.mp h
      cases h
      rfl
    · cases h
  · simp only [pure_bind] at h
    split at h
    · split at h
      · obtain ⟨_, -, h⟩ := Except.bind_eq_ok_iff.mp h
        cases h
        rfl
      · cases h
    · cases h
  · cases h

/-- What a line gives, which does not depend on its number. -/
def Gives (line : List Char) (result : Option StringEntry) : Prop :=
  if dropReturn line = [] then result = none
  else ∃ entry, entryOf (dropReturn line) = .ok entry ∧ some entry = result

private theorem parseLine_eq_ok_iff {number : Nat} {line : List Char} {result : Option StringEntry} :
    parseLine number line = .ok result ↔ Gives line result := by
  by_cases hempty : dropReturn line = []
  · simp [Gives, parseLine, hempty, eq_comm]
  · simp [Gives, parseLine, hempty, entryOf, Except.map_eq_ok_iff]

/-- Empty lines are passed over. -/
theorem forall₂_gives_iff {raw : List (List Char)} {entries : List StringEntry} :
    (∃ found, List.Forall₂ Gives raw found ∧ found.filterMap id = entries) ↔
      List.Forall₂ (fun line entry => entryOf line = .ok entry)
        ((raw.map dropReturn).filter (!·.isEmpty)) entries := by
  induction raw generalizing entries with
  | nil => simp [eq_comm]
  | cons line raw ih =>
    rw [List.map_cons, List.filter_cons]
    by_cases hempty : dropReturn line = []
    · rw [if_neg (by simp [hempty]), ← ih]
      simp [List.forall₂_cons_left_iff, Gives, hempty]
    · rw [if_pos (by simpa using hempty), List.forall₂_cons_left_iff]
      simp only [List.forall₂_cons_left_iff, Gives, if_neg hempty, ← ih]
      constructor
      · rintro ⟨_, ⟨_, found, ⟨entry, hentry, rfl⟩, hfound, rfl⟩, rfl⟩
        exact ⟨entry, _, hentry, ⟨found, hfound, rfl⟩, rfl⟩
      · rintro ⟨entry, _, hentry, ⟨found, hfound, rfl⟩, rfl⟩
        exact ⟨_, ⟨_, found, ⟨entry, hentry, rfl⟩, hfound, rfl⟩, rfl⟩

private theorem parse_eq_ok_iff {document : String} {entries : List StringEntry} :
    parse document = .ok entries ↔
      List.Forall₂ (fun line entry => entryOf line = .ok entry) (content document) entries := by
  rw [parse, Except.map_eq_ok_iff]
  simp only [Except.mapM_eq_ok_iff, numbered, List.forall₂_map_left_iff, parseLine_eq_ok_iff,
    forall₂_zipIdx_iff Gives, forall₂_gives_iff, content]

/-- The strings of a file are on the lines of the file. -/
theorem forall₂_filter_file {raw : List (List Char)} {entries : List StringEntry}
    (h : List.Forall₂ (fun line entry => entryOf line = .ok entry) raw entries) (file : String) :
    List.Forall₂ (fun line entry => entryOf line = .ok entry) (raw.filter (fileOf · = file))
      (entries.filter (·.file = file)) := by
  refine List.rel_filter (fun line entry hentry => ?_) h
  simp [file_eq_fileOf hentry]

private theorem forall₂_entryOf_unique {raw : List (List Char)} {entries others : List StringEntry}
    (h : List.Forall₂ (fun line entry => entryOf line = .ok entry) raw entries)
    (h' : List.Forall₂ (fun line entry => entryOf line = .ok entry) raw others) : entries = others := by
  rw [← Except.mapM_eq_ok_iff] at h h'
  exact Except.ok.inj (h.symm.trans h')

/-- Documents with the same lines for each file are read as the same strings for each file. -/
theorem SameLines.parse {document other : String} (h : SameLines document other)
    {entries : List StringEntry} (hparse : parse document = .ok entries) :
    ∃ others, StringsDocument.parse other = .ok others ∧
      ∀ file, others.filter (·.file = file) = entries.filter (·.file = file) := by
  simp only [parse_eq_ok_iff] at hparse ⊢
  have hread : ∀ line ∈ content other, ∃ entry, entryOf line = .ok entry := by
    intro line hline
    obtain ⟨entry, -, hentry⟩ := forall₂_exists_right hparse (h.mem hline)
    exact ⟨entry, hentry⟩
  obtain ⟨others, hothers⟩ : ∃ others,
      List.Forall₂ (fun line entry => entryOf line = .ok entry) (content other) others := by
    cases hmap : (content other).mapM entryOf with
    | ok others => exact ⟨others, Except.mapM_eq_ok_iff.mp hmap⟩
    | error =>
      obtain ⟨line, hline, herror⟩ := Except.mapM_eq_error hmap
      obtain ⟨entry, hentry⟩ := hread line hline
      rw [hentry] at herror
      cases herror
  refine ⟨others, hothers, fun file => ?_⟩
  have hlines := forall₂_filter_file hothers file
  rw [← h file] at hlines
  exact forall₂_entryOf_unique hlines (forall₂_filter_file hparse file)

/-- The groups of two lists of strings that have the same strings for each file are the same but for
    their order. -/
theorem group_perm {entries others : List StringEntry}
    (h : ∀ file, others.filter (·.file = file) = entries.filter (·.file = file)) :
    (group others).Perm (group entries) := by
  have hnodup : ∀ entries : List StringEntry, (group entries).Nodup := fun entries =>
    (nodup_group entries).of_map
  refine (List.perm_ext_iff_of_nodup (hnodup _) (hnodup _)).mpr ?_
  rintro ⟨file, lines⟩
  rw [mem_group_iff, mem_group_iff, h file]

end StringsDocument

namespace Game

namespace StringTables

variable {variant : Variant} {language : Language}

private theorem replaceTable_comm {file other : String} (hne : file ≠ other) (table result : StringTable)
    (files : List (String × StringTable)) :
    replaceTable file table (replaceTable other result files) =
      replaceTable other result (replaceTable file table files) := by
  induction files with
  | nil => rfl
  | cons first files ih =>
    obtain ⟨name, old⟩ := first
    by_cases hname : name = file
    · subst hname
      simp [replaceTable, hne]
    · by_cases hother : name = other
      · subst hother
        simp [replaceTable, hname]
      · simp [replaceTable, hname, hother, ih]

/-- The strings of different files are edited in any order. -/
theorem edit_comm {start result : StringTables} {group other : String × List StringEntry}
    (hne : group.1 ≠ other.1)
    (h : (edit variant language start group >>= (edit variant language · other)) = .ok result) :
    (edit variant language start other >>= (edit variant language · group)) = .ok result := by
  obtain ⟨middle, hgroup, hother⟩ := Except.bind_eq_ok_iff.mp h
  rw [Except.bind_eq_ok_iff]
  simp only [edit_eq_ok_iff] at hgroup hother ⊢
  rcases hgroup with ⟨hbase, hfiles, hedited⟩ | ⟨hgroup, hbasefile, table, text, hlookup, hedited, hfiles⟩
  · obtain ⟨hfile, -⟩ | ⟨hother, hbasefile, table, text, hlookup, hedited', hfiles'⟩ := hother
    · exact absurd (hbase.trans hfile.symm) hne
    · refine ⟨⟨start.basefile, result.files⟩, .inr ⟨hother, rfl, table, text, ?_, hedited', ?_⟩,
        .inl ⟨hbase, rfl, ?_⟩⟩
      · rw [← hfiles, hlookup]
      · rw [hfiles', hfiles]
      · rw [hbasefile, hedited]
  · obtain ⟨hbase, hfiles', hedited'⟩ |
      ⟨hother, hbasefile', table', text', hlookup', hedited', hfiles'⟩ := hother
    · refine ⟨⟨result.basefile, start.files⟩, .inl ⟨hbase, rfl, ?_⟩,
        .inr ⟨hgroup, rfl, table, text, hlookup, hedited, ?_⟩⟩
      · rw [← hbasefile, hedited']
      · rw [hfiles', hfiles]
    · rw [hfiles, lookup_replaceTable hlookup, if_neg hne.symm] at hlookup'
      refine ⟨⟨start.basefile, replaceTable other.1 text' start.files⟩,
        .inr ⟨hother, rfl, table', text', hlookup', hedited', rfl⟩,
        .inr ⟨hgroup, hbasefile'.trans hbasefile, table, text, ?_, hedited, ?_⟩⟩
      · rw [lookup_replaceTable hlookup', if_neg hne, hlookup]
      · rw [hfiles', hfiles, replaceTable_comm hne.symm]

private theorem editAll_congr {document other : String} (h : StringsDocument.SameLines document other)
    {tables after : StringTables} (hedit : tables.editAll variant language document = .ok after) :
    tables.editAll variant language other = .ok after := by
  simp only [editAll, Except.bind_eq_ok_iff, Except.mapError_eq_ok_iff] at hedit ⊢
  obtain ⟨entries, hentries, hfold⟩ := hedit
  obtain ⟨others, hothers, hfiles⟩ := h.parse hentries
  refine ⟨others, hothers, (Except.foldlM_perm (StringsDocument.group_perm hfiles) ?_ _ _).mpr hfold⟩
  rintro ⟨file, lines⟩ hlines ⟨name, texts⟩ htexts start result
  by_cases hname : file = name
  · subst hname
    rw [(StringsDocument.mem_group_iff.mp hlines).1, (StringsDocument.mem_group_iff.mp htexts).1]
    exact id
  · exact edit_comm hname

end StringTables

/-- A game is rebuilt the same from two strings documents that have the same lines for each file, however
    the lines of different files are interleaved. -/
theorem rebuild_interleaved (game : Game) (language : Language) (edits : Edits) {document other : String}
    (h : StringsDocument.SameLines document other) (rebuilt : Rebuilt) :
    game.rebuild language { edits with strings := some document } = .ok rebuilt ↔
      game.rebuild language { edits with strings := some other } = .ok rebuilt := by
  have hedit : ∀ tables after : StringTables,
      tables.editAll game.variant language document = .ok after ↔
        tables.editAll game.variant language other = .ok after := fun tables after =>
    ⟨StringTables.editAll_congr h, StringTables.editAll_congr h.symm⟩
  simp only [rebuild, Except.bind_eq_ok_iff, hedit]

/-- The lines of two files, and the same lines in another order between empty ones. -/
def listed : String := "T1\t32768\tC\nGAMEPC\t0\tD\nGAMEPC\t1\tE\n"

def interleaved : String := "\nGAMEPC\t0\tD\nT1\t32768\tC\r\n\r\nGAMEPC\t1\tE"

private theorem sameLines_listed : StringsDocument.SameLines listed interleaved := by
  have hlisted : StringsDocument.content listed =
      ["T1\t32768\tC".toList, "GAMEPC\t0\tD".toList, "GAMEPC\t1\tE".toList] := by decide +kernel
  have hinterleaved : StringsDocument.content interleaved =
      ["GAMEPC\t0\tD".toList, "T1\t32768\tC".toList, "GAMEPC\t1\tE".toList] := by decide +kernel
  have htext : StringsDocument.fileOf "T1\t32768\tC".toList = "T1" := by decide +kernel
  have hfirst : StringsDocument.fileOf "GAMEPC\t0\tD".toList = "GAMEPC" := by decide +kernel
  have hsecond : StringsDocument.fileOf "GAMEPC\t1\tE".toList = "GAMEPC" := by decide +kernel
  have hapart : "GAMEPC" ≠ "T1" := by decide
  intro file
  rw [hlisted, hinterleaved]
  by_cases hfile : "T1" = file
  · subst hfile
    simp only [List.filter_cons, htext, hfirst, hsecond, hapart, decide_true, decide_false,
      Bool.false_eq_true, if_true, if_false]
  · simp only [List.filter_cons, htext, hfirst, hsecond, hfile, decide_false, Bool.false_eq_true, if_false]

/-- A rebuild of `scriptedGame` with two global strings and another text. -/
def listedRebuilt : Rebuilt where
  basefile := [0, 0, 0, 3, 0, 0, 0, 128, 0, 0, 0, 1, 0, 0, 0, 2, 0, 0, 0, 4, 68, 0, 69, 0, 0, 0, 0, 5, 0, 0,
    255, 255, 255, 255, 255, 255, 255, 255, 255, 255, 255, 255, 0, 0, 0, 0, 0, 0, 0, 0, 0, 0, 0, 1, 0, 0,
    255, 0, 1, 0, 1, 0xaa, 0xbb]
  container := none
  files := [("T1", [67, 0])]

theorem rebuild_interleaved_scripted :
    StringsDocument.SameLines listed interleaved ∧
      scriptedGame.rebuild .english ⟨some listed, none, none⟩ = .ok listedRebuilt ∧
      scriptedGame.rebuild .english ⟨some interleaved, none, none⟩ = .ok listedRebuilt := by
  have hlisted : scriptedGame.rebuild .english ⟨some listed, none, none⟩ = .ok listedRebuilt :=
    Except.eq_ok_of_toOption (by decide +kernel)
  have hsame := rebuild_interleaved scriptedGame .english ⟨none, none, none⟩ sameLines_listed listedRebuilt
  exact ⟨sameLines_listed, hlisted, hsame.mp hlisted⟩

end Game

end Adventure
