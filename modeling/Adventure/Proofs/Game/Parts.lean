import Adventure.Proofs.Game.Assembling
import Adventure.Proofs.Game.Editing
import Adventure.Proofs.Game.Reloaded
import Adventure.Proofs.Listing.Ranges
import Adventure.Proofs.World.Parsed

namespace Adventure.Game

open Listing

/-- The lines of the strings document. -/
def Edits.lines (edits : Edits) : Except Strings.Error (List StringEntry) :=
  match edits.strings with
  | some document => StringsDocument.parse document
  | none => .ok []

/-- The sections of the scripts document, of which a release that keeps its scripts takes none. -/
def Edits.sections (edits : Edits) (variant : Variant) : Except Listing.Error (List SourceFile) :=
  match edits.scripts with
  | some document => if variant.scriptRebuild then Listing.parse document else .ok []
  | none => .ok []

/-- The parts that a game is rebuilt from. `texts` are the strings of its text files before they are
    edited, `strings` the global ones with those that the scripts declare. -/
structure Parts where
  texts : List (String × StringTable)
  lines : List StringEntry
  tables : StringTables
  resident : Resident
  items : List Item
  objects : List UInt8
  sections : List SourceFile
  assemblies : Assemblies
  strings : StringTable
  counted : Basefile

namespace Parts

/-- What the sections are assembled with: the strings as they were, and the items as they are edited. -/
def assembler (parts : Parts) (game : Game) (language : Language) : Assembler :=
  ⟨game.variant.set, ⟨game.texts parts.texts language, Item.names parts.items,
    game.itemCount (parts.items.length - parts.resident.items.length)⟩⟩

/-- Before a section is assembled, no string is declared. -/
def start (parts : Parts) (game : Game) : Assemblies :=
  ⟨[], .bounded parts.tables.basefile.entries.length game.globalLimit⟩

/-- The resident script, if it has been assembled. -/
def script? (parts : Parts) (game : Game) : Option Assembled :=
  parts.assemblies.find? game.variant.baseFile

/-- The scripts of the other files that have been assembled. -/
def others (parts : Parts) (game : Game) : List Assembled :=
  parts.assemblies.records.filter (·.file ≠ game.variant.baseFile)

def basefile (parts : Parts) (game : Game) : Basefile :=
  { parts.counted with data := basefileData parts.resident parts.objects (parts.script? game) }

def records (parts : Parts) (game : Game) : List Record :=
  game.records.map fun record =>
    { record with data := recordData parts.tables.files (parts.others game) record }

/-- The game that is stored anew. -/
def stored (parts : Parts) (game : Game) : Game :=
  { game with
    basefile := (parts.basefile game).recounted
    tableIndex := editIndex game.tableIndex (parts.others game)
    records := parts.records game }

/-- The parts are what a rebuild makes of a game and edited documents, and it answers their files. -/
structure Of (parts : Parts) (game : Game) (language : Language) (edits : Edits) (rebuilt : Rebuilt) :
    Prop where
  texts : game.textTables = .ok parts.texts
  lines : edits.lines = .ok parts.lines
  tables : (StringsDocument.group parts.lines).foldlM (StringTables.edit game.variant language)
    ⟨game.basefile.strings, parts.texts⟩ = .ok parts.tables
  resident : game.resident = .ok parts.resident
  items : game.editItems parts.resident edits.objects = .ok (parts.items, parts.objects)
  sections : edits.sections game.variant = .ok parts.sections
  assemblies : parts.sections.foldlM (Assemblies.add game parts.resident (parts.assembler game language))
    (parts.start game) = .ok parts.assemblies
  strings : game.withDeclared parts.tables.basefile parts.assemblies.pool.added language =
    .ok parts.strings
  counted : { game.basefile with strings := parts.strings }.setObjectCount parts.items.length =
    .ok parts.counted
  basefile : rebuilt.basefile = (parts.basefile game).toBytes
  packed : ∃ changed, game.packRecords (parts.records game) = .ok (rebuilt.container, changed) ∧
    rebuilt.files = changed ++ game.indexFiles (parts.others game)

end Parts

/-- The global strings of a rebuilt game take less than 4 GiB, as their size is a word of 32 bits in the
    base file. -/
def StringsFit (game : Game) (language : Language) (edits : Edits) (rebuilt : Rebuilt) : Prop :=
  ∀ parts : Parts, parts.Of game language edits rebuilt → parts.strings.toBytes.length < 0x100000000

variable {game : Game} {language : Language} {edits : Edits} {rebuilt : Rebuilt}

/-- The strings are edited with the lines of their document before anything else is done with them. -/
private theorem editStrings_eq_ok_iff {α : Type} {stored : StringTables}
    {next : StringTables → Except Error α} {result : α} : (match edits.strings with
      | some document => stored.editAll game.variant language document >>= next
      | none => pure stored >>= next) = .ok result ↔ ∃ lines, edits.lines = .ok lines ∧ ∃ tables,
        (StringsDocument.group lines).foldlM (StringTables.edit game.variant language) stored =
          .ok tables ∧ next tables = .ok result := by
  unfold Edits.lines
  cases hdocument : edits.strings with
  | none =>
    constructor
    · intro h
      exact ⟨[], rfl, stored, rfl, h⟩
    · rintro ⟨_, hlines, _, htables, hnext⟩
      cases hlines
      cases htables
      exact hnext
  | some document =>
    simp only [StringTables.editAll, Except.bind_eq_ok_iff, Except.mapError_eq_ok_iff]
    constructor
    · rintro ⟨tables, ⟨lines, hlines, htables⟩, hnext⟩
      exact ⟨lines, hlines, tables, htables, hnext⟩
    · rintro ⟨lines, hlines, tables, htables, hnext⟩
      exact ⟨tables, ⟨lines, hlines, htables⟩, hnext⟩

private theorem ofDocument_eq_ok_iff {resident : Resident} {symbols : Symbols} {pool : StringPool}
    {assemblies : Assemblies} :
    Assemblies.ofDocument game resident symbols pool edits.scripts = .ok assemblies ↔
      ∃ sections, edits.sections game.variant = .ok sections ∧
        sections.foldlM (Assemblies.add game resident ⟨game.variant.set, symbols⟩) ⟨[], pool⟩ =
          .ok assemblies := by
  have hnothing : (pure ⟨[], pool⟩ : Except Error Assemblies) = .ok assemblies ↔
      ∃ sections, (.ok [] : Except Listing.Error (List SourceFile)) = .ok sections ∧
        sections.foldlM (Assemblies.add game resident ⟨game.variant.set, symbols⟩) ⟨[], pool⟩ =
          .ok assemblies :=
    ⟨fun h => ⟨[], rfl, h⟩, fun ⟨_, hsections, h⟩ => by
      cases hsections
      exact h⟩
  unfold Edits.sections Assemblies.ofDocument
  cases edits.scripts with
  | none => exact hnothing
  | some document =>
    cases game.variant.scriptRebuild with
    | false => exact hnothing
    | true =>
      simp only [Bool.not_true, Bool.false_eq_true, if_false, if_true, Except.bind_eq_ok_iff,
        Except.mapError_eq_ok_iff]

/-- A rebuild succeeds if it has parts, and answers what is put together from them. -/
theorem rebuild_eq_ok_iff : game.rebuild language edits = .ok rebuilt ↔
    ∃ parts : Parts, parts.Of game language edits rebuilt := by
  constructor
  · intro h
    obtain ⟨texts, htexts, h⟩ := Except.bind_eq_ok_iff.mp h
    obtain ⟨lines, hlines, tables, htables, h⟩ := editStrings_eq_ok_iff.mp h
    simp only [Except.bind_eq_ok_iff, Except.mapError_eq_ok_iff, Prod.exists, ofDocument_eq_ok_iff] at h
    obtain ⟨resident, hresident, items, objects, hitems, assemblies, ⟨sections, hsections, hassemblies⟩,
      strings, hstrings, counted, hcounted, container, changed, hpacked, hrebuilt⟩ := h
    cases hrebuilt
    exact ⟨⟨texts, lines, tables, resident, items, objects, sections, assemblies, strings, counted⟩, htexts,
      hlines, htables, hresident, hitems, hsections, hassemblies, hstrings, hcounted, rfl, changed, hpacked,
      rfl⟩
  · rintro ⟨parts, htexts, hlines, htables, hresident, hitems, hsections, hassemblies, hstrings, hcounted,
      hbasefile, changed, hpacked, hfiles⟩
    obtain ⟨basefile, container, files⟩ := rebuilt
    cases hbasefile
    cases hfiles
    refine Except.bind_eq_ok_iff.mpr ⟨_, htexts, editStrings_eq_ok_iff.mpr ⟨_, hlines, _, htables, ?_⟩⟩
    simp only [Except.bind_eq_ok_iff, Except.mapError_eq_ok_iff, Prod.exists, ofDocument_eq_ok_iff]
    exact ⟨_, hresident, _, _, hitems, _, ⟨_, hsections, hassemblies⟩, _, hstrings, _, hcounted, _, _,
      hpacked, rfl⟩

/-- Declared strings stand behind the global ones. -/
theorem withDeclared_eq_ok {strings declared : StringTable} {added : List String}
    (h : game.withDeclared strings added language = .ok declared) : ∃ encoded,
      List.Forall₂ (fun text bytes => language.encode text = .ok bytes) added encoded ∧
        declared = { strings with entries := strings.entries ++ encoded } ∧
        declared.entries.length ≤ game.globalLimit := by
  simp only [withDeclared, Except.bind_eq_ok_iff, Except.throw_else_eq_ok_iff, Except.pure_eq_ok_iff] at h
  obtain ⟨table, htable, hlimit, rfl⟩ := h
  exact ⟨table.entries, (encodeTable_eq_ok_iff.mp htable).2, rfl, Nat.le_of_not_lt hlimit⟩

/-- The objects that a game is rebuilt with spell its items, of which none is missing. -/
theorem editItems_eq_ok {resident : Resident} {items : List Item} {objects : List UInt8}
    (hresident : game.resident = .ok resident)
    (h : game.editItems resident edits.objects = .ok (items, objects)) :
    Cursor.Listed Item.Spelled 0 items objects ∧ resident.items.length ≤ items.length := by
  unfold editItems at h
  cases hdocument : edits.objects with
  | none =>
    rw [hdocument] at h
    cases h
    obtain ⟨⟨c, hread, -, hend⟩, -⟩ := resident_eq_ok hresident
    obtain ⟨-, bytes, hlisted, hspan⟩ := Item.readAll_eq_ok_iff.mp hread
    have hdata : game.basefile.data = bytes ++ c.rest := hspan.rest
    have hposition : c.position = 0 + bytes.length := hspan.position
    rw [hend, hposition, Nat.zero_add, hdata, List.take_left]
    exact ⟨hlisted, Nat.le_refl _⟩
  | some document =>
    rw [hdocument] at h
    simp only [Except.bind_eq_ok_iff, Except.throw_else_eq_ok_iff, Except.pure_eq_ok_iff,
      Except.mapError_eq_ok_iff, Prod.mk.injEq] at h
    obtain ⟨parsed, hparse, hcount, bytes, hbytes, rfl, rfl⟩ := h
    exact ⟨Item.allBytes_listed (Item.stored_of_parseAll hparse) hbytes 0, Nat.le_of_not_lt hcount⟩

/-- What is stored behind the objects of a base file. -/
def storedRest (resident : Resident) (script : Option Assembled) : List UInt8 :=
  match script, resident.script with
  | some assembled, .ok (_, used) => assembled.data ++ resident.rest.drop used
  | _, _ => resident.rest

/-- The table index lists the files that it listed. -/
theorem files_editIndex (index : List TableIndexEntry) (assembled : List Assembled) :
    (editIndex index assembled).map (·.file) = index.map (·.file) := by
  rw [editIndex, List.map_map]
  refine List.map_congr_left fun entry _ => ?_
  dsimp only [Function.comp_apply]
  split <;> rfl

namespace Parts.Of

variable {parts : Parts}

/-- Editing keeps the numbers of the strings that a game has. -/
theorem grown (h : parts.Of game language edits rebuilt) (hsound : game.Sound) :
    StringTables.Grown ⟨game.basefile.strings, parts.texts⟩ parts.tables :=
  StringTables.grown_foldlM_edit (StringTable.ofBytes_base hsound.basefile.strings) h.tables

/-- The global strings of a rebuilt game are stored and read back. -/
theorem strings_proper (h : parts.Of game language edits rebuilt) (hsound : game.Sound) :
    parts.strings.base = 0 ∧ ∀ entry ∈ parts.strings.entries, 0 ∉ entry := by
  obtain ⟨encoded, hencoded, hstrings, -⟩ := withDeclared_eq_ok h.strings
  have hedited := StringTables.zero_not_mem_foldlM_edit
    (StringTable.zero_not_mem_entries hsound.basefile.strings) h.tables
  rw [hstrings]
  refine ⟨(h.grown hsound).base, fun entry hentry => ?_⟩
  rcases List.mem_append.mp hentry with hentry | hentry
  · exact hedited entry hentry
  · exact Language.zero_not_mem_encoded hencoded entry hentry

theorem length_strings_le (h : parts.Of game language edits rebuilt) :
    parts.strings.entries.length ≤ 0x8000 := by
  obtain ⟨_, -, -, hlimit⟩ := withDeclared_eq_ok h.strings
  exact Nat.le_trans hlimit (Nat.min_le_right _ _)

theorem strings_basefile (h : parts.Of game language edits rebuilt) :
    (parts.basefile game).strings = parts.strings := by
  obtain ⟨-, hcounted⟩ := Basefile.setObjectCount_eq_ok_iff.mp h.counted
  rw [Parts.basefile, hcounted]

private theorem version_basefile (h : parts.Of game language edits rebuilt) (hsound : game.Sound) :
    (parts.basefile game).header.version = Basefile.knownVersion := by
  obtain ⟨-, hcounted⟩ := Basefile.setObjectCount_eq_ok_iff.mp h.counted
  rw [Parts.basefile, hcounted]
  exact hsound.basefile.version

/-- The base file of a rebuilt game is read back with its counters, if the size of its strings fits them. -/
theorem basefile_consistent (h : parts.Of game language edits rebuilt) (hsound : game.Sound)
    (hsize : parts.strings.toBytes.length < 0x100000000) :
    (parts.basefile game).recounted.Consistent := by
  obtain ⟨hbase, hzero⟩ := h.strings_proper hsound
  rw [← h.strings_basefile] at hbase hzero hsize
  exact Basefile.consistent_recounted (h.version_basefile hsound) hbase hzero hsize

/-- It cannot be read back at all otherwise. -/
theorem exists_ofBytes_basefile_iff (h : parts.Of game language edits rebuilt) (hsound : game.Sound) :
    (∃ base, Basefile.ofBytes rebuilt.basefile = .ok base) ↔
      parts.strings.toBytes.length < 0x100000000 := by
  obtain ⟨hbase, hzero⟩ := h.strings_proper hsound
  have hcount := Nat.lt_of_le_of_lt h.length_strings_le (show 0x8000 < 0x100000000 by decide)
  rw [← h.strings_basefile] at hbase hzero hcount ⊢
  rw [h.basefile]
  exact Basefile.exists_ofBytes_toBytes_iff (h.version_basefile hsound) hbase hzero hcount

/-- The strings of a base file take no more than the file. -/
theorem length_toBytes_le (h : parts.Of game language edits rebuilt) :
    parts.strings.toBytes.length ≤ rebuilt.basefile.length := by
  rw [h.basefile, Basefile.toBytes, h.strings_basefile, List.length_append, List.length_append]
  omega

end Parts.Of

/-- The strings of a base file of less than 4 GiB take no more. -/
theorem stringsFit_of_length_lt (hsize : rebuilt.basefile.length < 0x100000000) :
    game.StringsFit language edits rebuilt :=
  fun _ hparts => Nat.lt_of_le_of_lt hparts.length_toBytes_le hsize

namespace Parts.Of

variable {parts : Parts}

/-- Every record that has been assembled is one of a section, behind those before it. -/
theorem exists_section (h : parts.Of game language edits rebuilt) {record : Assembled}
    (hrecord : record ∈ parts.assemblies.records) :
    ∃ front file back before after, parts.sections = front ++ file :: back ∧
      front.foldlM (Assemblies.add game parts.resident (parts.assembler game language))
        (parts.start game) = .ok before ∧
      Assemblies.Added game parts.resident (parts.assembler game language) before file record after ∧
      after.pool.Extends parts.assemblies.pool :=
  Assemblies.exists_section h.assemblies hrecord List.not_mem_nil

/-- The sections are those of a scripts document, if there are any. -/
theorem exists_parse (h : parts.Of game language edits rebuilt) {file : SourceFile}
    (hfile : file ∈ parts.sections) : ∃ document, Listing.parse document = .ok parts.sections := by
  have hsections := h.sections
  generalize parts.sections = sections at hsections hfile ⊢
  unfold Edits.sections at hsections
  split at hsections
  case _ document _ =>
    split at hsections
    · exact ⟨document, hsections⟩
    · cases hsections
      cases hfile
  case _ =>
    cases hsections
    cases hfile

/-- Every record that has been assembled is read with the set of the game: its tables are those of a
    section, with operands that mean what the section says. -/
theorem record_spelled (h : parts.Of game language edits rebuilt) (hsound : game.Sound)
    {front back : List SourceFile} {file : SourceFile} (hsections : parts.sections = front ++ file :: back)
    {ranges : List TableRange} {sources : List SourceTable} (hbody : file.body = .tables ranges sources)
    {texts : Option (Nat × Nat)} {pool after : StringPool} {tables : List Table} {bytes : List UInt8}
    (htables : (parts.assembler game language).tables ⟨file.name, texts⟩ sources pool = .ok tables after)
    (hbytes : Script.tablesBytes tables = .ok bytes) :
    Script.Spelled game.variant.set tables bytes ∧ ∃ labels,
      List.Forall₂ (TableMatches game.variant.set
        (OperandMeans (parts.assembler game language) ⟨file.name, texts⟩ labels after)) sources tables := by
  have hfile : file ∈ parts.sections := by simp [hsections]
  obtain ⟨document, hparse⟩ := h.exists_parse hfile
  have hset : (parts.assembler game language).set.Sound :=
    InstructionSet.shipped_sound _ hsound.set_mem_shipped
  obtain ⟨labels, hspelled, hmatches, -⟩ := tables_spelled hset
    (parse_headersPlaced hparse file hfile _ _ hbody) htables hbytes
  exact ⟨hspelled, labels, hmatches⟩

/-- The table index of a rebuilt game is stored and read back. -/
theorem tableIndex_stored (h : parts.Of game language edits rebuilt)
    (hstored : TableIndex.Stored game.tableIndex) :
    TableIndex.Stored (editIndex game.tableIndex (parts.others game)) := by
  refine hstored.map_ranges (fun entry => ?_) fun entry _ => ?_
  · split <;> rfl
  · split
    case _ record hfind =>
      have hrecord := (List.mem_filter.mp (List.mem_of_find?_eq_some hfind)).1
      obtain ⟨front, file, back, _, _, hsections, -, hadded, -⟩ := h.exists_section hrecord
      obtain ⟨tables, hbody⟩ := hadded.body
      have hfile : file ∈ parts.sections := by simp [hsections]
      obtain ⟨document, hparse⟩ := h.exists_parse hfile
      refine .inr fun range hrange heq => ?_
      have hlow := (parse_rangesProper hparse hfile hbody range hrange).1
      rw [heq] at hlow
      cases hlow
    case _ => exact .inl rfl

theorem holds (h : parts.Of game language edits rebuilt) :
    rebuilt.Holds game (parts.stored game) (parts.others game) :=
  ⟨h.basefile, rfl, h.packed⟩

/-- The game that is stored anew can be stored where the old one is. -/
theorem replaces (h : parts.Of game language edits rebuilt) (hsound : game.Sound)
    (hsize : parts.strings.toBytes.length < 0x100000000) {files : Files}
    (hload : load game.variant files.source = .ok game) : (parts.stored game).Replaces game := by
  refine ⟨rfl, h.basefile_consistent hsound hsize, rfl,
    h.tableIndex_stored (Game.tableIndex_stored hload), ?_, ?_, rfl⟩
  · exact files_editIndex game.tableIndex (parts.others game)
  · rw [stored, records, List.map_map]
    rfl

/-- The files of a rebuilt game are loaded as the game that is stored anew. -/
theorem reload (h : parts.Of game language edits rebuilt) (hsound : game.Sound) (hnames : game.NamesApart)
    (hsize : parts.strings.toBytes.length < 0x100000000) {files : Files}
    (hload : load game.variant files.source = .ok game) :
    load game.variant (rebuilt.install game.variant files).source = .ok (parts.stored game) :=
  Game.reload h.holds (h.replaces hsound hsize hload) hsound hload hnames

end Parts.Of

end Adventure.Game
