import Adventure.Proofs.Game.Assembled
import Adventure.Proofs.Game.Kept
import Adventure.Proofs.Game.Parts
import Adventure.Proofs.Game.Texts
import Adventure.Proofs.World.Document

namespace Adventure.Game

open Listing

/-- The names of a game's text and script files do not break the lines of the documents, and belong to
    one file each. -/
structure DistinctNames (game : Game) : Prop where
  texts : ∀ entry ∈ game.textIndex, '\t' ∉ entry.name.toList ∧ '\n' ∉ entry.name.toList
  scripts : ∀ entry ∈ game.tableIndex, IsToken entry.file.toList
  apart : (game.textIndex.map (·.name) ++ game.tableIndex.map (·.file)).Nodup
  basefile : game.variant.baseFile ∉ game.textIndex.map (·.name) ++ game.tableIndex.map (·.file)
  indexes : ∀ name ∈ game.textIndex.map (·.name) ++ game.tableIndex.map (·.file),
    game.variant.textIndex ≠ some name ∧ game.variant.tableIndex ≠ some name
  others : ∀ record ∈ game.records, record.slot.kind = .other →
    record.slot.name ∉ game.textIndex.map (·.name) ++ game.tableIndex.map (·.file)

instance (game : Game) : Decidable game.DistinctNames :=
  decidable_of_iff ((∀ entry ∈ game.textIndex, '\t' ∉ entry.name.toList ∧ '\n' ∉ entry.name.toList) ∧
      (∀ entry ∈ game.tableIndex, IsToken entry.file.toList) ∧
      (game.textIndex.map (·.name) ++ game.tableIndex.map (·.file)).Nodup ∧
      game.variant.baseFile ∉ game.textIndex.map (·.name) ++ game.tableIndex.map (·.file) ∧
      (∀ name ∈ game.textIndex.map (·.name) ++ game.tableIndex.map (·.file),
        game.variant.textIndex ≠ some name ∧ game.variant.tableIndex ≠ some name) ∧
      ∀ record ∈ game.records, record.slot.kind = .other →
        record.slot.name ∉ game.textIndex.map (·.name) ++ game.tableIndex.map (·.file))
    ⟨fun ⟨htexts, hscripts, hapart, hbasefile, hindexes, hothers⟩ =>
      ⟨htexts, hscripts, hapart, hbasefile, hindexes, hothers⟩,
      fun ⟨htexts, hscripts, hapart, hbasefile, hindexes, hothers⟩ =>
        ⟨htexts, hscripts, hapart, hbasefile, hindexes, hothers⟩⟩

theorem DistinctNames.namesApart {game : Game} (h : game.DistinctNames) : game.NamesApart :=
  ⟨h.apart, h.basefile, h.indexes, h.others⟩

variable {game : Game} {resident : Resident} {tables : List (String × StringTable)}

theorem Sound.set_listable (h : game.Sound) : game.variant.set.Listable :=
  InstructionSet.shipped_listable _ h.set_mem_shipped

theorem Sound.baseFile_plain (h : game.Sound) : IsToken game.variant.baseFile.toList ∧
    '\t' ∉ game.variant.baseFile.toList ∧ '\n' ∉ game.variant.baseFile.toList := by
  have hnames : ∀ name ∈ Variant.all.map (·.baseFile), IsToken name.toList ∧ '\t' ∉ name.toList ∧
      '\n' ∉ name.toList := by
    decide +kernel
  exact hnames _ (List.mem_map_of_mem h.variant)

/-- The strings of a game as they are edited. -/
theorem properTables (hsound : game.Sound) (hnames : game.DistinctNames) (h : game.textTables = .ok tables) :
    StringTables.Proper game.variant ⟨game.basefile.strings, tables⟩ where
  base := StringTable.ofBytes_base hsound.basefile.strings
  entries := StringTable.zero_not_mem_entries hsound.basefile.strings
  fileEntries := by
    rintro ⟨file, table⟩ hmem
    obtain ⟨_, _, -, htable⟩ := exists_of_mem_textTables h hmem
    exact StringTable.zero_not_mem_entries htable
  names := by
    rw [names_textTables h]
    have hbasefile := hnames.basefile
    rw [List.mem_append, not_or] at hbasefile
    exact List.nodup_cons.mpr ⟨hbasefile.1, (List.nodup_append.mp hnames.apart).1⟩
  plain := by
    rw [names_textTables h]
    refine List.forall_mem_cons.mpr ⟨hsound.baseFile_plain.2, fun name hname => ?_⟩
    obtain ⟨entry, hentry, rfl⟩ := List.mem_map.mp hname
    exact hnames.texts entry hentry

/-- The parts that a game is rebuilt from without edits: what its documents show, the bytes of its
    items, and the scripts that have been assembled. -/
structure Unedited where
  tables : List (String × StringTable)
  resident : Resident
  files : List ScriptFile
  objects : List UInt8
  counted : Basefile
  assembled : List Assembled

namespace Unedited

/-- The script of the base file, if it has been assembled. -/
def script? (parts : Unedited) (game : Game) : Option Assembled :=
  parts.assembled.find? (·.file = game.variant.baseFile)

/-- The scripts of the other files that have been assembled. -/
def others (parts : Unedited) (game : Game) : List Assembled :=
  parts.assembled.filter (·.file ≠ game.variant.baseFile)

def basefile (parts : Unedited) (game : Game) : Basefile :=
  { parts.counted with data := basefileData parts.resident parts.objects (parts.script? game) }

def records (parts : Unedited) (game : Game) : List Record :=
  game.records.map fun record =>
    { record with data := recordData parts.tables (parts.others game) record }

/-- The game that is stored anew. -/
def stored (parts : Unedited) (game : Game) : Game :=
  { game with basefile := parts.basefile game, records := parts.records game }

/-- The parts are those of a game, and a rebuild answers their files. -/
structure Of (parts : Unedited) (game : Game) (rebuilt : Rebuilt) : Prop where
  tables : game.textTables = .ok parts.tables
  resident : game.resident = .ok parts.resident
  files : game.scriptFiles parts.resident = .ok parts.files
  objects : Item.allBytes parts.resident.items = .ok parts.objects
  counted : game.basefile.setObjectCount parts.resident.items.length = .ok parts.counted
  assembled : ∀ record ∈ parts.assembled, record.IsOf parts.files
  packed : ∃ container changed, game.packRecords (parts.records game) = .ok (container, changed) ∧
    rebuilt = ⟨(parts.basefile game).toBytes, container, changed ++ game.indexFiles (parts.others game)⟩

end Unedited

private theorem names_scriptFiles {files : List ScriptFile} (h : game.scriptFiles resident = .ok files) :
    files.map (·.name) = game.variant.baseFile :: game.tableIndex.map (·.file) := by
  unfold scriptFiles at h
  obtain ⟨found, hfound, heq⟩ := Except.bind_eq_ok_iff.mp h
  cases heq
  have hall := Except.mapM_eq_ok_iff.mp hfound
  rw [List.map_cons, List.cons.injEq, and_iff_right rfl]
  clear h hfound
  generalize game.tableIndex = index at hall ⊢
  induction hall with
  | nil => rfl
  | cons head _ ih =>
    rw [List.map_cons, List.map_cons, ih]
    split at head
    · cases head
      rfl
    · cases head

/-- The objects document of a game edits its items to what they are. -/
theorem editItems_own {symbols : Symbols} {items : List Item} {objects : List UInt8}
    (hstored : ∀ item ∈ resident.items, item.Stored)
    (h : game.editItems resident (some (Item.renderAll resident.items symbols)) = .ok (items, objects)) :
    items = resident.items ∧ Item.allBytes resident.items = .ok objects := by
  simp only [editItems, Except.bind_eq_ok_iff, Except.throw_else_eq_ok_iff, Except.pure_eq_ok_iff,
    Except.mapError_eq_ok_iff, Prod.mk.injEq] at h
  obtain ⟨parsed, hparse, -, bytes, hbytes, rfl, rfl⟩ := h
  obtain rfl := Except.ok.inj ((Item.parseAll_renderAll hstored).symm.trans hparse)
  exact ⟨rfl, hbytes⟩

private theorem withDeclared_nil {strings declared : StringTable} {language : Language}
    (h : game.withDeclared strings [] language = .ok declared) : declared = strings := by
  obtain ⟨encoded, hencoded, rfl, -⟩ := withDeclared_eq_ok h
  cases hencoded
  rw [List.append_nil]

/-- A game that is rebuilt from its own documents keeps its strings and its items, and the records that
    are assembled hold the scripts of its files. -/
theorem rebuild_own (hsound : game.Sound) (hnames : game.DistinctNames) {language : Language}
    {extraction : Extraction} {rebuilt : Rebuilt} (hextract : game.extract language = .ok extraction)
    (h : game.rebuild language ⟨some extraction.strings, some extraction.scripts,
      some extraction.objects⟩ = .ok rebuilt) : ∃ parts : Unedited, parts.Of game rebuilt := by
  unfold extract at hextract
  simp only [Except.bind_eq_ok_iff] at hextract
  obtain ⟨tables, htables, resident, hresident, files, hfiles, hresult⟩ := hextract
  cases hresult
  obtain ⟨⟨c, hread, -⟩, hscript⟩ := resident_eq_ok hresident
  have htokens : ∀ file ∈ files, IsToken file.name.toList := by
    intro file hfile
    have hname : file.name ∈ files.map (·.name) := List.mem_map_of_mem hfile
    rw [names_scriptFiles hfiles] at hname
    rcases List.mem_cons.mp hname with heq | hname
    · rw [heq]
      exact hsound.baseFile_plain.1
    · obtain ⟨entry, hentry, heq⟩ := List.mem_map.mp hname
      rw [← heq]
      exact hnames.scripts entry hentry
  unfold rebuild at h
  simp only [Except.bind_eq_ok_iff, Except.mapError_eq_ok_iff, htables, hresident, Except.ok.injEq,
    exists_eq_left', Prod.exists] at h
  obtain ⟨edited, hedited, items, objects, hitems, assemblies, hassemblies, strings, hstrings, counted,
    hcounted, container, changed, hpacked, hrebuilt⟩ := h
  obtain rfl := editAll_render (properTables hsound hnames htables) hedited
  obtain ⟨rfl, hobjects⟩ := editItems_own (Item.stored_of_readAll hread) hitems
  obtain ⟨hpool, hassembled⟩ := ofDocument_listings hsound.set_listable (fun _ => rfl) (fun _ => rfl)
    (sound_scriptFiles hscript hfiles) htokens hassemblies
  rw [hpool] at hstrings
  obtain rfl := withDeclared_nil hstrings
  cases hrebuilt
  exact ⟨⟨tables, resident, files, objects, counted, assemblies.records⟩, htables, hresident, hfiles,
    hobjects, hcounted, hassembled, container, changed, hpacked, rfl⟩

namespace Unedited

variable {parts : Unedited} {rebuilt : Rebuilt}

theorem record?_stored (name : String) : (parts.stored game).record? name =
    (game.records.find? (·.slot.name = name)).map (recordData parts.tables (parts.others game)) :=
  record?_map rfl name

/-- A script of another file that has been assembled belongs to a script file of the table index. -/
theorem Of.mem_others (h : parts.Of game rebuilt) {record : Assembled}
    (hrecord : record ∈ parts.others game) : ∃ entry ∈ game.tableIndex, ∃ data script labels,
      record.file = entry.file ∧ record.ranges = entry.ranges ∧ game.record? entry.file = some data ∧
      decodeRecord game.variant.set entry.ranges data = .ok (script, labels) ∧
      Script.tablesBytes script.tables = .ok record.data := by
  obtain ⟨hassembled, hother⟩ := List.mem_filter.mp hrecord
  obtain ⟨file, hfile, script, labels, hscript, hname, hranges, hbytes⟩ := h.assembled record hassembled
  rcases mem_scriptFiles h.files hfile with rfl | ⟨entry, hentry, data, hdata, rfl⟩
  · simp [hname] at hother
  · exact ⟨entry, hentry, data, script, labels, hname, hranges, hdata, hscript, hbytes⟩

theorem Of.record?_text (h : parts.Of game rebuilt) (hnames : game.DistinctNames)
    {entry : TextIndexEntry} (hentry : entry ∈ game.textIndex) :
    (parts.stored game).record? entry.name = game.record? entry.name := by
  have hname : entry.name ∈ game.textIndex.map (·.name) := List.mem_map_of_mem hentry
  rw [record?_stored, record?]
  cases hfound : game.records.find? (·.slot.name = entry.name) with
  | none => rfl
  | some record =>
    have hslot : record.slot.name = entry.name := by simpa using List.find?_some hfound
    have hdata : game.record? entry.name = some record.data := by rw [record?, hfound]; rfl
    rw [Option.map_some, Option.map_some, Option.some.injEq, recordData, hslot]
    cases hkind : record.slot.kind with
    | other => rfl
    | text =>
      cases hlookup : parts.tables.lookup entry.name with
      | none => rfl
      | some table =>
        obtain ⟨base, data, hread, htable⟩ := exists_of_mem_textTables h.tables (mem_of_lookup hlookup)
        rw [hdata] at hread
        cases hread
        exact StringTable.toBytes_ofBytes htable
    | tables =>
      cases hfind : (parts.others game).find? (·.file = entry.name) with
      | none => rfl
      | some assembled =>
        obtain ⟨other, hother, _, _, _, hfile, -⟩ := h.mem_others (List.mem_of_find?_eq_some hfind)
        have hsame : assembled.file = entry.name := by simpa using List.find?_some hfind
        have hscript : entry.name ∈ game.tableIndex.map (·.file) := by
          rw [← hsame, hfile]
          exact List.mem_map_of_mem hother
        exact absurd rfl ((List.nodup_append.mp hnames.apart).2.2 _ hname _ hscript)

/-- A record of the table index is decoded as before. -/
theorem Of.record?_script (h : parts.Of game rebuilt) (hnames : game.DistinctNames)
    {entry : TableIndexEntry} (hentry : entry ∈ game.tableIndex) :
    ((parts.stored game).record? entry.file).map (decodeRecord game.variant.set entry.ranges) =
      (game.record? entry.file).map (decodeRecord game.variant.set entry.ranges) := by
  have hname : entry.file ∈ game.tableIndex.map (·.file) := List.mem_map_of_mem hentry
  rw [record?_stored, record?]
  cases hfound : game.records.find? (·.slot.name = entry.file) with
  | none => rfl
  | some record =>
    have hslot : record.slot.name = entry.file := by simpa using List.find?_some hfound
    have hdata : game.record? entry.file = some record.data := by rw [record?, hfound]; rfl
    rw [Option.map_some, Option.map_some, Option.map_some, Option.map_some, Option.some.injEq,
      recordData, hslot]
    cases hkind : record.slot.kind with
    | other => rfl
    | text =>
      cases hlookup : parts.tables.lookup entry.file with
      | none => rfl
      | some table =>
        have htext : entry.file ∈ game.textIndex.map (·.name) := by
          rw [← names_textTables h.tables]
          exact List.mem_map_of_mem (f := Prod.fst) (mem_of_lookup hlookup)
        exact absurd rfl ((List.nodup_append.mp hnames.apart).2.2 _ htext _ hname)
    | tables =>
      cases hfind : (parts.others game).find? (·.file = entry.file) with
      | none => rfl
      | some assembled =>
        obtain ⟨other, hother, data, script, labels, hfile, -, hread, hdecode, hbytes⟩ :=
          h.mem_others (List.mem_of_find?_eq_some hfind)
        have hsame : assembled.file = entry.file := by simpa using List.find?_some hfind
        obtain rfl : other = entry :=
          List.inj_on_of_nodup_map (List.nodup_append.mp hnames.apart).2.1 hother hentry
            (hfile.symm.trans hsame)
        rw [hdata] at hread
        cases hread
        exact (decodeRecord_tablesBytes hdecode hbytes).trans hdecode.symm

/-- The script of the base file that has been assembled is the resident one. -/
theorem Of.script?_eq_some (h : parts.Of game rebuilt) (hnames : game.DistinctNames) {record : Assembled}
    (hrecord : parts.script? game = some record) : ∃ script used, parts.resident.script = .ok (script, used) ∧
      Script.tablesBytes script.tables = .ok record.data := by
  have hfile : record.file = game.variant.baseFile := by simpa using List.find?_some hrecord
  obtain ⟨file, hmem, script, labels, hscript, hname, -, hbytes⟩ :=
    h.assembled record (List.mem_of_find?_eq_some hrecord)
  rcases mem_scriptFiles h.files hmem with rfl | ⟨entry, hentry, _, _, rfl⟩
  · obtain ⟨⟨read, used⟩, hread, hlabelled⟩ := Except.bind_eq_ok_iff.mp hscript
    obtain ⟨rfl, -⟩ := labelled_eq_ok hlabelled
    exact ⟨script, used, hread, hbytes⟩
  · have hother : game.variant.baseFile ∈ game.tableIndex.map (·.file) := by
      rw [← hfile, hname]
      exact List.mem_map_of_mem hentry
    exact absurd (List.mem_append_right _ hother) hnames.basefile

/-- The items and the resident script are read again from where they have been stored. -/
theorem Of.resident_stored (h : parts.Of game rebuilt) (hnames : game.DistinctNames)
    (hbare : ∀ tail, parts.resident.rest = Bytes.word16 Script.endMark ++ tail → tail = []) :
    ∃ again, (parts.stored game).resident = .ok again ∧ again.items = parts.resident.items ∧
      again.script.map Prod.fst = parts.resident.script.map Prod.fst := by
  obtain ⟨⟨c, hread, -⟩, hscript⟩ := resident_eq_ok h.resident
  have hcount : (parts.basefile game).objectCount = parts.resident.items.length :=
    (Basefile.counts_of_setObjectCount h.counted).1
  let tail := storedRest parts.resident (parts.script? game)
  have hitems := Item.readAll_allBytes (Item.stored_of_readAll hread) h.objects tail
  refine ⟨⟨parts.resident.items, parts.objects.length, tail, Script.ofBlock game.variant.set tail⟩, ?_, rfl, ?_⟩
  · have hdata : (parts.stored game).basefile.data = parts.objects ++ tail := rfl
    have hobjects : (parts.stored game).basefile.objectCount = parts.resident.items.length := hcount
    rw [Game.resident, hdata, hobjects, hitems]
    rfl
  · dsimp only
    cases hfound : parts.script? game with
    | none =>
      have htail : tail = parts.resident.rest := by simp only [tail, storedRest, hfound]
      rw [htail, hscript]
    | some record =>
      obtain ⟨script, used, hresident, hbytes⟩ := h.script?_eq_some hnames hfound
      have htail : tail = record.data ++ parts.resident.rest.drop used := by
        simp only [tail, storedRest, hfound, hresident]
      obtain ⟨used', hagain⟩ := Script.ofBlock_tablesBytes (hscript.symm.trans hresident) hbare hbytes
      rw [htail, hagain, hresident]
      rfl

/-- The game that is stored anew has what the documents show. -/
theorem Of.kept (h : parts.Of game rebuilt) (hsound : game.Sound) (hnames : game.DistinctNames)
    (hbare : ∀ tail, parts.resident.rest = Bytes.word16 Script.endMark ++ tail → tail = []) :
    game.Kept (parts.stored game) where
  variant := rfl
  strings := (hsound.basefile.setObjectCount h.counted []).2
  textIndex := rfl
  tableIndex := rfl
  texts _ hentry := h.record?_text hnames hentry
  scripts _ hentry := h.record?_script hnames hentry
  resident resident hresident := by
    rw [h.resident] at hresident
    cases hresident
    exact h.resident_stored hnames hbare

/-- The ranges of the script files stay, so the table index does. -/
theorem Of.editIndex_eq (h : parts.Of game rebuilt) (hnames : game.DistinctNames) :
    editIndex game.tableIndex (parts.others game) = game.tableIndex := by
  refine (List.map_congr_left fun entry hentry => ?_).trans (List.map_id _)
  split
  case _ record hfind =>
    obtain ⟨other, hother, _, _, _, hfile, hranges, -⟩ := h.mem_others (List.mem_of_find?_eq_some hfind)
    have hsame : record.file = entry.file := by simpa using List.find?_some hfind
    obtain rfl : other = entry :=
      List.inj_on_of_nodup_map (List.nodup_append.mp hnames.apart).2.1 hother hentry
        (hfile.symm.trans hsame)
    rw [hranges]
    rfl
  case _ => rfl

/-- The files that a rebuild answers are loaded as the game that is stored anew. -/
theorem Of.reload (h : parts.Of game rebuilt) (hsound : game.Sound) (hnames : game.DistinctNames)
    {files : Files} (hload : load game.variant files.source = .ok game) :
    load game.variant (rebuilt.install game.variant files).source = .ok (parts.stored game) := by
  obtain ⟨container, changed, hpacked, rfl⟩ := h.packed
  have hslots : (parts.records game).map (·.slot) = game.records.map (·.slot) := by
    rw [records, List.map_map]
    rfl
  have htables : TableIndex.Stored game.tableIndex := tableIndex_stored hload
  exact Game.reload ⟨rfl, (h.editIndex_eq hnames).symm, changed, hpacked, rfl⟩
    ⟨rfl, (hsound.basefile.setObjectCount h.counted _).1, rfl, htables, rfl, hslots, rfl⟩
    hsound hload hnames.namesApart

end Unedited

end Adventure.Game
