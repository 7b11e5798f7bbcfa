import Adventure.Proofs.Game.Installed
import Adventure.Proofs.Instruction.Layer
import Adventure.Proofs.Strings.Document

namespace Adventure.Game

open Listing

/-- What a record holds when a game has been rebuilt: the lines that the strings document has for its
    file, what the section of its file has been assembled to behind the sections before it, or else its
    old bytes. -/
inductive RecordEdited (game : Game) (language : Language) (parts : Parts) (old : Record) :
    List UInt8 → Prop
  | other (hkind : old.slot.kind = .other) : RecordEdited game language parts old old.data
  | unlisted (hkind : old.slot.kind = .text) (hlines : ∀ line ∈ parts.lines, line.file ≠ old.slot.name) :
      RecordEdited game language parts old old.data
  | text {lines : List StringEntry} {encoded : List (List UInt8)} (hkind : old.slot.kind = .text)
      (hlines : lines = parts.lines.filter (·.file = old.slot.name)) (hlisted : lines ≠ [])
      (hencoded : lines.mapM (fun line => language.encode line.text) = .ok encoded) :
      RecordEdited game language parts old (encoded.flatMap Bytes.terminated)
  | kept (hkind : old.slot.kind = .tables)
      (hsections : ∀ file ∈ parts.sections, file.name = old.slot.name → file.body = .raw) :
      RecordEdited game language parts old old.data
  | assembled {front back : List SourceFile} {file : SourceFile} {ranges : List TableRange}
      {tables : List SourceTable} {before : Assemblies} {data : List UInt8} {pool : StringPool}
      (hkind : old.slot.kind = .tables) (hsections : parts.sections = front ++ file :: back)
      (hname : file.name = old.slot.name) (hbody : file.body = .tables ranges tables)
      (hbefore : front.foldlM (Assemblies.add game parts.resident (parts.assembler game language))
        (parts.start game) = .ok before)
      (hassembled : (parts.assembler game language).assembleWith file (game.textRange? file.name)
        before.pool = (.ok data, pool)) : RecordEdited game language parts old data

/-- The ranges of a script file when a game has been rebuilt: those of the section of the file if it
    holds tables, or else the old ones. -/
inductive RangesEdited (sections : List SourceFile) (old : TableIndexEntry) : List TableRange → Prop
  | kept (hsections : ∀ file ∈ sections, file.name = old.file → file.body = .raw) :
      RangesEdited sections old old.ranges
  | edited {file : SourceFile} {ranges : List TableRange} {tables : List SourceTable}
      (hfile : file ∈ sections) (hname : file.name = old.file) (hbody : file.body = .tables ranges tables) :
      RangesEdited sections old ranges

namespace Parts.Of

variable {game : Game} {language : Language} {edits : Edits} {rebuilt : Rebuilt} {parts : Parts}
  {name : String}

/-- A file for which no record has been assembled has no section with tables. -/
theorem raw_of_find?_others (h : parts.Of game language edits rebuilt)
    (hname : name ≠ game.variant.baseFile)
    (hnone : (parts.others game).find? (·.file = name) = none) :
    ∀ file ∈ parts.sections, file.name = name → file.body = .raw := by
  rintro file hfile rfl
  by_contra hbody
  obtain ⟨record, hrecord, hsame⟩ := Assemblies.exists_record h.assemblies hfile hbody
  have hother : record ∈ parts.others game :=
    List.mem_filter.mpr ⟨hrecord, decide_eq_true (hsame ▸ hname)⟩
  simpa [hsame] using List.find?_eq_none.mp hnone record hother

/-- A file for which a record has been assembled has a section with the tables of the record. -/
theorem section_of_find?_others (h : parts.Of game language edits rebuilt) {record : Assembled}
    (hfind : (parts.others game).find? (·.file = name) = some record) :
    ∃ front file back tables before after, parts.sections = front ++ file :: back ∧
      file.name = name ∧ file.body = .tables record.ranges tables ∧
      front.foldlM (Assemblies.add game parts.resident (parts.assembler game language))
        (parts.start game) = .ok before ∧
      (parts.assembler game language).assembleWith file (game.textRange? file.name) before.pool =
        (.ok record.data, after) := by
  have hfile : record.file = name := by simpa using List.find?_some hfind
  obtain ⟨hrecord, hother⟩ := List.mem_filter.mp (List.mem_of_find?_eq_some hfind)
  obtain ⟨front, file, back, before, after, hsections, hbefore, hadded, -⟩ := h.exists_section hrecord
  obtain ⟨tables, hbody⟩ := hadded.body
  have htexts : game.textsOf file.name = game.textRange? file.name :=
    if_neg (hadded.name ▸ of_decide_eq_true hother)
  refine ⟨front, file, back, tables, before, after.pool, hsections, hadded.name.symm.trans hfile, hbody,
    hbefore, ?_⟩
  rw [← htexts]
  exact hadded.assembled

variable {files : Files} {record : Record}

/-- The record of a text file holds the lines of the file, or what it held. -/
theorem recordEdited_text (h : parts.Of game language edits rebuilt) (hvariant : game.variant ∈ Variant.all)
    (hload : load game.variant files.source = .ok game) (hnames : game.NamesApart)
    (hrecord : record ∈ game.records) (hkind : record.slot.kind = .text) :
    RecordEdited game language parts record
      (recordData parts.tables.files (parts.others game) record) := by
  have hlisted := (name_mem_of_kind hload hrecord).1 hkind
  have hname : record.slot.name ≠ game.variant.baseFile := fun heq =>
    hnames.basefile (heq ▸ List.mem_append_left _ hlisted)
  have hdata : game.record? record.slot.name = some record.data :=
    record?_of_mem hvariant (slots_of_load hload) hnames.slotsApart hrecord (by simp [hkind])
  rw [recordData, hkind]
  dsimp only
  by_cases hlines : parts.lines.filter (·.file = record.slot.name) = []
  · have hold : ((parts.texts.lookup record.slot.name).map StringTable.toBytes).getD record.data =
        record.data := by
      cases hlookup : parts.texts.lookup record.slot.name with
      | none => rfl
      | some table =>
        obtain ⟨base, data, hread, htable⟩ := exists_of_mem_textTables h.texts (mem_of_lookup hlookup)
        rw [hdata] at hread
        cases hread
        exact StringTable.toBytes_ofBytes htable
    rw [StringTables.lookup_foldlM_edit h.tables (StringsDocument.not_mem_group hlines), hold]
    refine .unlisted hkind fun line hline heq => ?_
    exact List.filter_eq_nil_iff.mp hlines line hline (decide_eq_true heq)
  · obtain ⟨table, result, -, hedited, hlookup⟩ := StringTables.lookup_foldlM_edit_of_mem h.tables
      (StringsDocument.nodup_group _) hname (StringsDocument.mem_group_iff.mpr ⟨rfl, hlines⟩)
    rw [hlookup]
    obtain ⟨-, -, hencoded⟩ := StringTables.edited_eq_ok hedited
    exact .text hkind rfl hlines (Except.mapM_eq_ok_iff.mpr (List.forall₂_map_left_iff.mp hencoded))

/-- Every record holds what the documents have for it, or what it held. -/
theorem recordEdited (h : parts.Of game language edits rebuilt) (hvariant : game.variant ∈ Variant.all)
    (hload : load game.variant files.source = .ok game) (hnames : game.NamesApart)
    (hrecord : record ∈ game.records) : RecordEdited game language parts record
      (recordData parts.tables.files (parts.others game) record) := by
  cases hkind : record.slot.kind with
  | other =>
    rw [recordData, hkind]
    exact .other hkind
  | text => exact h.recordEdited_text hvariant hload hnames hrecord hkind
  | tables =>
    have hname : record.slot.name ≠ game.variant.baseFile := fun heq =>
      hnames.basefile (heq ▸ List.mem_append_right _ ((name_mem_of_kind hload hrecord).2 hkind))
    rw [recordData, hkind]
    dsimp only
    cases hfind : (parts.others game).find? (·.file = record.slot.name) with
    | none => exact .kept hkind (h.raw_of_find?_others hname hfind)
    | some assembled =>
      obtain ⟨_, _, _, _, _, _, hsections, hsame, hbody, hbefore, hassembled⟩ :=
        h.section_of_find?_others hfind
      exact .assembled hkind hsections hsame hbody hbefore hassembled

/-- Every script file has the ranges of its section, or those that it had. -/
theorem rangesEdited (h : parts.Of game language edits rebuilt) (hnames : game.NamesApart) :
    List.Forall₂ (fun old new : TableIndexEntry => new.file = old.file ∧
      RangesEdited parts.sections old new.ranges) game.tableIndex (parts.stored game).tableIndex := by
  refine List.forall₂_map_right_iff.mpr (List.forall₂_same.mpr fun entry hentry => ?_)
  have hlisted : entry.file ∈ game.tableIndex.map (·.file) := List.mem_map_of_mem hentry
  have hname : entry.file ≠ game.variant.baseFile := fun heq =>
    hnames.basefile (heq ▸ List.mem_append_right _ hlisted)
  split
  case _ record hfind =>
    obtain ⟨_, file, _, _, _, _, hsections, hsame, hbody, -⟩ := h.section_of_find?_others hfind
    exact ⟨rfl, .edited (by simp [hsections]) hsame hbody⟩
  case _ hfind => exact ⟨rfl, .kept (h.raw_of_find?_others hname hfind)⟩

/-- The files of a rebuilt game can be loaded exactly if the size of its global strings fits the base
    file. -/
theorem exists_reload_iff (h : parts.Of game language edits rebuilt) (hsound : game.Sound)
    (hload : load game.variant files.source = .ok game) (hnames : game.NamesApart) :
    (∃ again, load game.variant (rebuilt.install game.variant files).source = .ok again) ↔
      parts.strings.toBytes.length < 0x100000000 := by
  constructor
  · rintro ⟨again, hagain⟩
    obtain ⟨-, ⟨data, hdata, hread⟩, -⟩ := load_eq_ok_iff.mp hagain
    have hfound : (rebuilt.install game.variant files)[game.variant.baseFile]? = some rebuilt.basefile := by
      refine h.basefile_found hsound.variant fun output houtput heq => ?_
      exact hnames.basefile (heq ▸ Parts.name_mem_of_changed hload houtput)
    obtain rfl : rebuilt.basefile = data := Option.some.inj (hfound.symm.trans hdata)
    exact (h.exists_ofBytes_basefile_iff hsound).mp ⟨_, hread⟩
  · intro hsize
    exact ⟨_, h.reload hsound hnames hsize hload⟩

end Parts.Of

/-- The files that a rebuild answers, installed over those of a game, can be loaded again if the global
    strings take less than 4 GiB, and not otherwise: the base file has a word of 32 bits for their size.
    What is loaded is a game with the same slots and text files, whose records and ranges are the old ones
    but for those that are edited. -/
theorem rebuild_edits_only {variant : Variant} (hvariant : variant ∈ Variant.all) {files : Files}
    {game : Game} (hload : load variant files.source = .ok game) (hnames : game.NamesApart)
    {language : Language} {edits : Edits} {rebuilt : Rebuilt}
    (hrebuild : game.rebuild language edits = .ok rebuilt) :
    ∃ parts : Parts, parts.Of game language edits rebuilt ∧
      ((∃ again, load variant (rebuilt.install variant files).source = .ok again) ↔
        parts.strings.toBytes.length < 0x100000000) ∧
      ∀ again, load variant (rebuilt.install variant files).source = .ok again →
        again.textIndex = game.textIndex ∧
        List.Forall₂ (fun old new : Record => new.slot = old.slot ∧
          RecordEdited game language parts old new.data) game.records again.records ∧
        List.Forall₂ (fun old new : TableIndexEntry => new.file = old.file ∧
          RangesEdited parts.sections old new.ranges) game.tableIndex again.tableIndex := by
  have hsound := sound_of_load hvariant hload
  obtain ⟨parts, hparts⟩ := rebuild_eq_ok_iff.mp hrebuild
  obtain ⟨rfl, -⟩ := load_eq_ok_iff.mp hload
  have hiff := hparts.exists_reload_iff hsound hload hnames
  refine ⟨parts, hparts, hiff, fun again hagain => ?_⟩
  obtain rfl : again = parts.stored game := Except.ok.inj <| hagain.symm.trans <|
    hparts.reload hsound hnames (hiff.mp ⟨again, hagain⟩) hload
  refine ⟨rfl, ?_, hparts.rangesEdited hnames⟩
  refine List.forall₂_map_right_iff.mpr (List.forall₂_same.mpr fun record hrecord => ⟨rfl, ?_⟩)
  exact hparts.recordEdited hvariant hload hnames hrecord

/-- The files of a game with a text file, a script file and a resident script that bytes follow. -/
def scriptedFiles : Files := (∅ : Files)
  |>.insert "GAMEPC" [0, 0, 0, 3, 0, 0, 0, 128, 0, 0, 0, 1, 0, 0, 0, 1, 0, 0, 0, 2, 65, 0, 0, 0, 0, 5, 0, 0,
    255, 255, 255, 255, 255, 255, 255, 255, 255, 255, 255, 255, 0, 0, 0, 0, 0, 0, 0, 0, 0, 0, 0, 1, 0, 0, 255,
    0, 1, 0, 1, 0xaa, 0xbb]
  |>.insert "STRIPPED.TXT" [84, 49, 0, 0, 0, 0, 0, 0x80, 0x10]
  |>.insert "TBLLIST" [83, 49, 0, 0, 1, 0, 5, 0, 0, 0]
  |>.insert "T1" [66, 0]
  |>.insert "S1" [0, 0, 0, 1, 0, 0, 255, 0, 1, 0, 1]

/-- The game of `scriptedFiles`. -/
def scriptedGame : Game where
  variant := .simon1
  basefile := ⟨⟨3, 128, 1, 1, 2⟩, ⟨0, [[65]]⟩, [0, 0, 0, 5, 0, 0, 255, 255, 255, 255, 255, 255, 255, 255, 255,
    255, 255, 255, 0, 0, 0, 0, 0, 0, 0, 0, 0, 0, 0, 1, 0, 0, 255, 0, 1, 0, 1, 0xaa, 0xbb]⟩
  textIndex := [⟨"T1", 0x8010⟩]
  tableIndex := [⟨"S1", [⟨1, 5⟩]⟩]
  records := [⟨⟨"T1", .text⟩, [66, 0]⟩, ⟨⟨"S1", .tables⟩, [0, 0, 0, 1, 0, 0, 255, 0, 1, 0, 1]⟩]
  extra := none

theorem load_scripted : load .simon1 scriptedFiles.source = .ok scriptedGame := by
  refine load_eq_ok_iff.mpr ⟨rfl, ⟨scriptedGame.basefile.toBytes, ?_, ?_⟩, ?_, ?_, ?_⟩
  · decide +kernel
  all_goals exact Except.eq_ok_of_toOption (by decide +kernel)

/-- Another text, another resident script, and a script with other ranges that refers to an item and
    declares a text. -/
def scriptedEdits : Edits where
  strings := some "T1\t32768\tC\n"
  scripts := some ("== FILE S1 2:6\n== TABLE 2\n==>\n\tAT <2>\n\tMSG +\"N\"\n" ++
    "== FILE GAMEPC ~\n== TABLE 3\n==>\n")
  objects := none

def scriptedRebuilt : Rebuilt where
  basefile := [0, 0, 0, 3, 0, 0, 0, 128, 0, 0, 0, 1, 0, 0, 0, 2, 0, 0, 0, 4, 65, 0, 78, 0, 0, 0, 0, 5, 0, 0, 255,
    255, 255, 255, 255, 255, 255, 255, 255, 255, 255, 255, 0, 0, 0, 0, 0, 0, 0, 0, 0, 0, 0, 3, 0, 0, 255, 0, 1,
    0, 1, 0xaa, 0xbb]
  container := none
  files := [("T1", [67, 0]), ("S1", [0, 0, 0, 2, 0, 0, 1, 0, 0, 0, 0, 0, 0, 64, 0, 1, 0, 0, 0, 1, 255, 0, 1, 0, 1]),
    ("TBLLIST", [83, 49, 0, 0, 2, 0, 6, 0, 0, 0])]

theorem rebuild_scripted : scriptedGame.rebuild .english scriptedEdits = .ok scriptedRebuilt := by
  have hset : scriptedGame.variant.set = _ := InstructionSet.simon_eq
  refine Except.eq_ok_of_toOption ?_
  unfold rebuild Assemblies.ofDocument
  rw [hset]
  decide +kernel

theorem rebuild_edits_only_scripted : ∃ (parts : Parts) (again : Game),
    load .simon1 scriptedFiles.source = .ok scriptedGame ∧
      parts.Of scriptedGame .english scriptedEdits scriptedRebuilt ∧
      load .simon1 (scriptedRebuilt.install .simon1 scriptedFiles).source = .ok again ∧
      again.textIndex = scriptedGame.textIndex ∧
      List.Forall₂ (fun old new : Record => new.slot = old.slot ∧
        RecordEdited scriptedGame .english parts old new.data) scriptedGame.records again.records ∧
      List.Forall₂ (fun old new : TableIndexEntry => new.file = old.file ∧
        RangesEdited parts.sections old new.ranges) scriptedGame.tableIndex again.tableIndex := by
  obtain ⟨parts, hparts, hiff, hedited⟩ := rebuild_edits_only (by simp [Variant.all]) load_scripted
    (by decide +kernel) rebuild_scripted
  obtain ⟨again, hagain⟩ := hiff.mpr (Nat.lt_of_le_of_lt hparts.length_toBytes_le (by decide))
  exact ⟨parts, again, load_scripted, hparts, hagain, hedited again hagain⟩

/-- The files of a game with one global string and nothing else. -/
def soloFiles : Files := (∅ : Files)
  |>.insert "GAMEPC" [0, 0, 0, 0, 0, 0, 0, 128, 0, 0, 0, 0, 0, 0, 0, 1, 0, 0, 0, 2, 65, 0]

/-- The game of `soloFiles`. -/
def soloGame : Game where
  variant := .simon1
  basefile := ⟨⟨0, 128, 0, 1, 2⟩, ⟨0, [[65]]⟩, []⟩
  textIndex := []
  tableIndex := []
  records := []
  extra := none

/-- Another text for the string of `soloGame`. -/
def soloEdits (text : String) : Edits where
  strings := some (StringsDocument.render [⟨"GAMEPC", 0, text, none⟩])
  scripts := none
  objects := none

/-- What `soloGame` is rebuilt from when its string gets a text of these bytes. -/
def soloParts (text : String) (bytes : List UInt8) : Parts where
  texts := []
  lines := [⟨"GAMEPC", 0, text, none⟩]
  tables := ⟨⟨0, [bytes]⟩, []⟩
  resident := ⟨[], 0, [], Script.ofBlock Variant.simon1.set []⟩
  items := []
  objects := []
  sections := []
  assemblies := ⟨[], .bounded 1 soloGame.globalLimit⟩
  strings := ⟨0, [bytes]⟩
  counted := ⟨⟨0, 128, 0, 1, 2⟩, ⟨0, [bytes]⟩, []⟩

private theorem load_solo : load .simon1 soloFiles.source = .ok soloGame := by
  refine load_eq_ok_iff.mpr ⟨rfl, ⟨soloGame.basefile.toBytes, ?_, ?_⟩, ?_, ?_, ?_⟩
  · decide +kernel
  all_goals exact Except.eq_ok_of_toOption (by decide +kernel)

private theorem soloParts_of {text : String} {bytes : List UInt8}
    (h : Language.english.encode text = .ok bytes) :
    (soloParts text bytes).Of soloGame .english (soloEdits text)
      ⟨((soloParts text bytes).basefile soloGame).toBytes, none, []⟩ where
  texts := rfl
  lines := (StringsDocument.parse_render_eq_ok_iff (by simp)).mpr ⟨by simp, rfl⟩
  tables := by
    have hgroup : StringsDocument.group (soloParts text bytes).lines =
        [("GAMEPC", (soloParts text bytes).lines)] := by
      simp [StringsDocument.group, StringsDocument.files, soloParts, List.eraseDups_cons]
    rw [hgroup, List.foldlM_cons, Except.bind_eq_ok_iff]
    refine ⟨(soloParts text bytes).tables, StringTables.edit_eq_ok_iff.mpr (.inl ⟨rfl, rfl, ?_⟩), rfl⟩
    exact encodeTable_eq_ok_iff.mpr ⟨rfl, .cons h .nil⟩
  resident := rfl
  items := rfl
  sections := rfl
  assemblies := rfl
  strings := rfl
  counted := rfl
  basefile := rfl
  packed := ⟨[], rfl, rfl⟩

private theorem encode_letters (count : Nat) :
    Language.english.encode (String.ofList (List.replicate count 'A')) =
      .ok (List.replicate count 65) := by
  have hglyph : Language.english.codePage.glyph 65 = 'A' := by decide +kernel
  have hdecode : Language.english.decode (List.replicate count 65) =
      String.ofList (List.replicate count 'A') := by
    rw [Language.decode, CodePage.decode, List.map_replicate, hglyph]
  rw [← hdecode]
  exact Language.encode_decode _ (by simp [List.mem_replicate])

/-- With its NUL, a text of `0xffffffff` letters takes 4 GiB. The game is rebuilt with it, but the size in its
    header is 0, and no string is found where one is counted. -/
theorem oversized_strings_not_loaded : load .simon1 soloFiles.source = .ok soloGame ∧ soloGame.NamesApart ∧
    ∃ rebuilt, soloGame.rebuild .english (soloEdits (String.ofList (List.replicate 0xffffffff 'A'))) =
        .ok rebuilt ∧
      ∀ again, load .simon1 (rebuilt.install .simon1 soloFiles).source ≠ .ok again := by
  have hnames : soloGame.NamesApart := by decide +kernel
  have hparts := soloParts_of (encode_letters 0xffffffff)
  refine ⟨load_solo, hnames, _, rebuild_eq_ok_iff.mpr ⟨_, hparts⟩, fun again hagain => ?_⟩
  have hsound := sound_of_load (by simp [Variant.all]) load_solo
  have hsize := (hparts.exists_reload_iff hsound load_solo hnames).mp ⟨again, hagain⟩
  simp only [soloParts, StringTable.toBytes, List.flatMap_singleton, Bytes.length_terminated,
    List.length_replicate] at hsize
  exact absurd hsize (by decide)

end Adventure.Game
