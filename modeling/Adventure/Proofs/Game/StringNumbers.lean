import Adventure.Proofs.Game.Edited
import Adventure.Proofs.Game.Installed
import Adventure.Proofs.Game.Kept
import Adventure.Proofs.Game.Listed

namespace Adventure.Game

open Listing

variable {game again : Game} {language : Language} {edits : Edits} {rebuilt : Rebuilt} {parts : Parts}
  {files : Files}

/-- How many global strings there are before the scripts declare any: those of the game, or all that the
    lines list if these are more. -/
def globalCount (game : Game) (lines : List StringEntry) : Nat :=
  max game.basefile.strings.entries.length (lines.filter (·.file = game.variant.baseFile)).length

/-- What the strings of a game are after it has been rebuilt with lines that edit them and scripts that
    declare others. `old` and `new` are the strings of the text files before and after. -/
structure StringsEdited (language : Language) (lines : List StringEntry) (added : List String)
    (game again : Game) (old new : List (String × StringTable)) : Prop where
  bases : again.textBases = game.textBases
  texts : List.Forall₂ (TextEdited game.variant language lines) old new
  global : TableEdited language (lines.filter (·.file = game.variant.baseFile)) game.basefile.strings
    again.basefile.strings
  known : ∀ line ∈ lines, line.file = game.variant.baseFile ∨ line.file ∈ old.map Prod.fst
  declared : (again.basefile.strings.entries.drop (game.globalCount lines)).map language.decode =
    added.eraseDups
  count : again.basefile.strings.entries.length = game.globalCount lines + added.eraseDups.length
  limit : again.basefile.strings.entries.length ≤ 0x8000

namespace Parts.Of

section

variable (h : parts.Of game language edits rebuilt)

include h

/-- The strings that are declared are those of the sections, in the order in which they are first used. -/
theorem added_eq : parts.assemblies.pool.added =
    (parts.sections.flatMap (SourceFile.declared game.variant.set)).eraseDups :=
  Assemblies.foldlM_declares h.assemblies [] rfl

/-- The global strings are the edited ones with the declared ones behind them. -/
theorem strings_declared : ∃ encoded, parts.strings =
    { parts.tables.basefile with entries := parts.tables.basefile.entries ++ encoded } ∧
      encoded.map language.decode =
        (parts.sections.flatMap (SourceFile.declared game.variant.set)).eraseDups := by
  obtain ⟨encoded, hencoded, hstrings, -⟩ := withDeclared_eq_ok h.strings
  exact ⟨encoded, hstrings, h.added_eq ▸ Language.map_decode_encoded hencoded⟩

variable (hload : load game.variant files.source = .ok game) (hvariant : game.variant ∈ Variant.all)
  (hnames : game.TextNamesApart)

include hload hvariant hnames

private theorem textsEdited : List.Forall₂ (TextEdited game.variant language parts.lines) parts.texts
    parts.tables.files := by
  refine StringTables.files_group h.tables
    (StringTable.ofBytes_base (sound_of_load hvariant hload).basefile.strings)
    (names_textTables h.texts ▸ nodup_textNames hvariant hload hnames) fun file hfile => ?_
  obtain ⟨_, _, -, htable⟩ := exists_of_mem_textTables h.texts hfile
  exact StringTable.zero_not_mem_entries htable

/-- The record of a text file holds its edited strings. -/
theorem record?_stored_text {name : String} {table : StringTable}
    (htable : (name, table) ∈ parts.tables.files) :
    (parts.stored game).record? name = some table.toBytes := by
  have hsame : parts.tables.files.map Prod.fst = game.textIndex.map (·.name) := by
    rw [← names_textTables h.texts]
    exact forall₂_map_eq_iff.mp
      ((h.textsEdited hload hvariant hnames).flip.imp fun _ _ hedited => hedited.name)
  have hname : name ∈ game.textIndex.map (·.name) := hsame ▸ List.mem_map_of_mem (f := Prod.fst) htable
  obtain ⟨record, hrecord, hslot⟩ := exists_text_record hvariant hload hname
  obtain rfl : record.slot.name = name := by rw [hslot]
  have hkind : record.slot.kind = .text := by rw [hslot]
  rw [parts.record?_stored, hnames.find?_text hrecord hkind, Option.map_some, recordData, hkind]
  dsimp only
  rw [lookup_eq_some_of_mem (hsame ▸ nodup_textNames hvariant hload hnames) htable]
  rfl

end

end Parts.Of

section

variable {lines : List StringEntry} {old new : List (String × StringTable)}
  (htexts : game.textTables = .ok old)
  (hedited : List.Forall₂ (TextEdited game.variant language lines) old new)
  (hindex : again.textIndex = game.textIndex)
  (hrecords : ∀ table ∈ new, again.record? table.1 = some table.2.toBytes)

include htexts hedited hindex hrecords

/-- Text files of as many strings as before have the bases that they had. -/
theorem textBases_of_texts : again.textBases = game.textBases := by
  unfold textBases TextIndex.bases
  rw [hindex]
  refine basesFrom_congr fun entry hentry => ?_
  have hname : entry.name ∈ old.map Prod.fst := by
    rw [names_textTables htexts]
    exact List.mem_map_of_mem hentry
  obtain ⟨before, hbefore, heq⟩ := List.mem_map.mp hname
  obtain ⟨after, hafter, htable⟩ := forall₂_exists_right hedited hbefore
  obtain ⟨base, data, hdata, hread⟩ := exists_of_mem_textTables htexts hbefore
  rw [← heq, hdata, ← htable.name, hrecords after hafter, Option.getD_some, Option.getD_some,
    ← StringTable.toBytes_ofBytes hread, StringTable.isEmpty_toBytes, StringTable.isEmpty_toBytes,
    Bool.eq_iff_iff, List.isEmpty_iff_length_eq_zero, List.isEmpty_iff_length_eq_zero, htable.count]

/-- So they are read with the numbers that they had. -/
theorem textTables_of_texts : again.textTables = .ok new := by
  refine textTables_eq_ok_iff.mpr ?_
  rw [hindex, textBases_of_texts htexts hedited hindex hrecords]
  have hpaired := forall₂_comp (textTables_eq_ok_iff.mp htexts) hedited
  refine (((List.forall₂_and_left _ _).mpr ⟨hrecords, hpaired.flip⟩).flip).imp ?_
  rintro ⟨entry, base⟩ after ⟨hrecord, before, ⟨hname, data, -, hread⟩, htable⟩
  have hbase : after.2.base = base := htable.edited.base.trans (StringTable.ofBytes_base hread)
  refine ⟨htable.name.trans hname, after.2.toBytes, ?_, ?_⟩
  · rw [← hrecord, htable.name, hname]
  · rw [← hbase]
    exact StringTable.ofBytes_toBytes htable.stored

end

/-- A game that has the strings of a rebuilt one has them as the documents say. -/
theorem Parts.Of.stringsEdited (h : parts.Of game language edits rebuilt) (hsound : game.Sound)
    (hload : load game.variant files.source = .ok game) (hnames : game.TextNamesApart)
    (hstrings : again.basefile.strings = parts.strings) (hindex : again.textIndex = game.textIndex)
    (hrecords : ∀ name ∈ game.textIndex.map (·.name), again.record? name = (parts.stored game).record? name) :
    again.textTables = .ok parts.tables.files ∧ StringsEdited language parts.lines
      (parts.sections.flatMap (SourceFile.declared game.variant.set)) game again parts.texts
        parts.tables.files := by
  have hedited := h.textsEdited hload hsound.variant hnames
  have hread : ∀ table ∈ parts.tables.files, again.record? table.1 = some table.2.toBytes := by
    intro table htable
    obtain ⟨old, hold, htext⟩ := forall₂_exists_left hedited htable
    have hname : table.1 ∈ game.textIndex.map (·.name) := by
      rw [← names_textTables h.texts, htext.name]
      exact List.mem_map_of_mem hold
    rw [hrecords _ hname, h.record?_stored_text hload hsound.variant hnames htable]
  obtain ⟨hglobal, hcount⟩ := StringTables.basefile_group h.tables
    (StringTable.ofBytes_base hsound.basefile.strings)
  obtain ⟨encoded, hadded, hdecoded⟩ := h.strings_declared
  refine ⟨textTables_of_texts h.texts hedited hindex hread,
    textBases_of_texts h.texts hedited hindex hread, hedited, ?_,
    fun line hline => StringTables.file_of_mem_lines h.tables hline, ?_, ?_, ?_⟩
  · rw [hstrings, hadded]
    exact hglobal.append encoded
  · rw [hstrings, hadded, globalCount, ← hcount, List.drop_left, hdecoded]
  · rw [hstrings, hadded, globalCount, ← hcount, List.length_append, ← hdecoded, List.length_map]
  · rw [hstrings]
    exact h.length_strings_le

/-- The strings of a rebuilt game have the numbers that they had: no number is lost, a line of the strings
    document is the text of its own number, all others keep their bytes, and what the scripts declare
    follows. A text file must not share its name with another file of the game, and the global strings have
    to take less than 4 GiB, as their size is a word of 32 bits. -/
theorem rebuild_keeps_string_numbers {variant : Variant} (hvariant : variant ∈ Variant.all)
    (hload : load variant files.source = .ok game) (hnames : game.TextNamesApart)
    (hloose : variant.container = none → game.LooseNamesApart)
    (hrebuild : game.rebuild language edits = .ok rebuilt) (hsize : game.StringsFit language edits rebuilt) :
    ∃ again lines sections old new, load variant (rebuilt.install variant files).source = .ok again ∧
      edits.lines = .ok lines ∧ edits.sections variant = .ok sections ∧ game.textTables = .ok old ∧
      again.textTables = .ok new ∧
      StringsEdited language lines (sections.flatMap (SourceFile.declared variant.set)) game again old new := by
  have hsound := sound_of_load hvariant hload
  obtain ⟨parts, hparts⟩ := rebuild_eq_ok_iff.mp hrebuild
  obtain ⟨rfl, -⟩ := load_eq_ok_iff.mp hload
  obtain ⟨again, hagain, hbasefile, hindex, hrecords⟩ :=
    hparts.reload_texts hsound hload hnames hloose (hsize parts hparts)
  have hstrings : again.basefile.strings = parts.strings := by
    rw [hbasefile, Basefile.recounted, hparts.strings_basefile]
  obtain ⟨hnew, hedited⟩ := hparts.stringsEdited hsound hload hnames hstrings hindex hrecords
  exact ⟨again, parts.lines, parts.sections, parts.texts, parts.tables.files, hagain, hparts.lines,
    hparts.sections, hparts.texts, hnew, hedited⟩

/-- In `scriptedFiles`, the string of the text file gets another text, and the script file declares one. -/
theorem rebuild_keeps_string_numbers_scripted : ∃ again lines sections old new,
    load .simon1 scriptedFiles.source = .ok scriptedGame ∧ scriptedGame.TextNamesApart ∧
      scriptedGame.LooseNamesApart ∧ scriptedGame.rebuild .english scriptedEdits = .ok scriptedRebuilt ∧
      scriptedGame.StringsFit .english scriptedEdits scriptedRebuilt ∧
      load .simon1 (scriptedRebuilt.install .simon1 scriptedFiles).source = .ok again ∧
      scriptedEdits.lines = .ok lines ∧ scriptedEdits.sections .simon1 = .ok sections ∧
      scriptedGame.textTables = .ok old ∧ again.textTables = .ok new ∧
      StringsEdited .english lines (sections.flatMap (SourceFile.declared Variant.simon1.set)) scriptedGame
        again old new := by
  have hnames : scriptedGame.TextNamesApart := by decide +kernel
  have hloose : scriptedGame.LooseNamesApart := by decide +kernel
  have hsize : scriptedGame.StringsFit .english scriptedEdits scriptedRebuilt :=
    stringsFit_of_length_lt (by decide)
  obtain ⟨again, lines, sections, old, new, hedited⟩ := rebuild_keeps_string_numbers
    (by simp [Variant.all]) load_scripted hnames (fun _ => hloose) rebuild_scripted hsize
  exact ⟨again, lines, sections, old, new, load_scripted, hnames, hloose, rebuild_scripted, hsize, hedited⟩

/-- The files of a game that lists its base file as a text file. -/
def selfListedFiles : Files := (∅ : Files)
  |>.insert "GAMEPC" [0, 0, 0, 0, 0, 0, 0, 128, 0, 0, 0, 0, 0, 0, 0, 0, 0, 0, 0, 0]
  |>.insert "STRIPPED.TXT" [71, 65, 77, 69, 80, 67, 0, 0x80, 0x10]

/-- The game of `selfListedFiles`. -/
def selfListedGame : Game where
  variant := .simon1
  basefile := ⟨⟨0, 128, 0, 0, 0⟩, ⟨0, []⟩, []⟩
  textIndex := [⟨"GAMEPC", 0x8010⟩]
  tableIndex := []
  records := [⟨⟨"GAMEPC", .text⟩, [0, 0, 0, 0, 0, 0, 0, 128, 0, 0, 0, 0, 0, 0, 0, 0, 0, 0, 0, 0]⟩]
  extra := none

/-- `selfListedGame` with one global string more. -/
def selfListedRebuilt : Rebuilt where
  basefile := [0, 0, 0, 0, 0, 0, 0, 128, 0, 0, 0, 0, 0, 0, 0, 1, 0, 0, 0, 2, 65, 0]
  container := none
  files := []

/-- That no other slot has the name of a text file is not enough. Where the base file is a text file too, a
    new global string changes the number of its strings. -/
theorem rebuild_renumbers_basefile : load .simon1 selfListedFiles.source = .ok selfListedGame ∧
    selfListedGame.TextNamesApart ∧
    selfListedGame.rebuild .english ⟨some "GAMEPC\t0\tA\n", none, none⟩ = .ok selfListedRebuilt ∧
    selfListedGame.textTables.map (·.map fun table => table.2.entries.length) = .ok [19] ∧
    (load .simon1 (selfListedRebuilt.install .simon1 selfListedFiles).source >>= textTables).map
      (·.map fun table => table.2.entries.length) = .ok [18] := by
  refine ⟨load_eq_ok_iff.mpr ⟨rfl, ⟨selfListedGame.basefile.toBytes, ?_, ?_⟩, ?_, ?_, ?_⟩, ?_, ?_, ?_, ?_⟩
  case refine_1 | refine_6 => decide +kernel
  all_goals exact Except.eq_ok_of_toOption (by decide +kernel)

end Adventure.Game
