import Mathlib.Data.List.Pairwise
import Adventure.Proofs.Game.Parts
import Adventure.Proofs.Game.Slots

namespace Adventure

open Bytes

/-- An index that begins with an empty name has no entries. -/
theorem TableIndex.ofBytes_of_untilNul {data : List UInt8} (h : untilNul data = []) :
    TableIndex.ofBytes data = .ok [] := by
  have hend : (readEntry (Cursor.ofBytes data)) = .ok (none, (Cursor.ofBytes data).terminated.2) := by
    have hname : (Cursor.ofBytes data).terminated.1 = [] := h
    simp only [readEntry, hname, List.isEmpty_nil, if_true]
    rfl
  unfold ofBytes Cursor.collect Cursor.collectWithin
  rw [hend]
  rfl

/-- What tables are written as begins with an empty name. -/
theorem Script.untilNul_tablesBytes {tables : List Table} {bytes : List UInt8}
    (h : tablesBytes tables = .ok bytes) : untilNul bytes = [] := by
  unfold tablesBytes at h
  cases tables with
  | nil =>
    cases h
    rfl
  | cons table tables =>
    obtain ⟨parts, hparts, rfl⟩ := Except.map_eq_ok_iff.mp h
    rw [Except.mapM_eq_ok_iff] at hparts
    cases hparts with
    | cons hfirst _ =>
      obtain ⟨lines, -, rfl⟩ := Except.map_eq_ok_iff.mp hfirst
      rfl

namespace Game

/-- No text file of a game has a name that another one of its slots has. -/
def TextNamesApart (game : Game) : Prop :=
  (game.records.map (·.slot)).Pairwise fun slot other =>
    slot.kind = .text ∨ other.kind = .text → slot.name ≠ other.name

instance (game : Game) : Decidable game.TextNamesApart :=
  inferInstanceAs (Decidable ((game.records.map (·.slot)).Pairwise fun slot other =>
    slot.kind = .text ∨ other.kind = .text → slot.name ≠ other.name))

/-- The files of a game without a container that are read for their strings are not files of another kind
    at the same time. -/
structure LooseNamesApart (game : Game) : Prop where
  basefile : game.variant.baseFile ∉ game.textIndex.map (·.name)
  tableIndex : ∀ name ∈ game.textIndex.map (·.name), game.variant.tableIndex ≠ some name
  textIndex : ∀ name ∈ game.fileNames, game.variant.textIndex ≠ some name

instance (game : Game) : Decidable game.LooseNamesApart :=
  decidable_of_iff (game.variant.baseFile ∉ game.textIndex.map TextIndexEntry.name ∧
      (∀ name ∈ game.textIndex.map TextIndexEntry.name, game.variant.tableIndex ≠ some name) ∧
      ∀ name ∈ game.fileNames, game.variant.textIndex ≠ some name)
    ⟨fun h => ⟨h.1, h.2.1, h.2.2⟩, fun h => ⟨h.basefile, h.tableIndex, h.textIndex⟩⟩

variable {game : Game} {files : Files}

namespace TextNamesApart

variable (h : game.TextNamesApart)

include h

private theorem eq_of_name {record other : Record} (hrecord : record ∈ game.records)
    (hkind : record.slot.kind = .text)
    (hother : other ∈ game.records) (hname : other.slot.name = record.slot.name) : other = record := by
  by_contra hne
  have hsymm : Std.Symm fun record other : Record =>
      record.slot.kind = .text ∨ other.slot.kind = .text → record.slot.name ≠ other.slot.name :=
    ⟨fun _ _ hapart hkinds => (hapart hkinds.symm).symm⟩
  exact (List.pairwise_map.mp h).forall hother hrecord hne (.inr hkind) hname

/-- A text file is found by its name. -/
theorem find?_text {record : Record} (hrecord : record ∈ game.records) (hkind : record.slot.kind = .text) :
    game.records.find? (·.slot.name = record.slot.name) = some record := by
  obtain ⟨first, hfirst, hname, hfind⟩ := exists_first hrecord
  rw [hfind, h.eq_of_name hrecord hkind hfirst hname]

end TextNamesApart

/-- There is a slot for each entry of the text index, in order. -/
theorem textSlots_sublist {variant : Variant} (hvariant : variant ∈ Variant.all)
    (texts : List TextIndexEntry) (tables : List TableIndexEntry) :
    (texts.map fun entry => (⟨entry.name, .text⟩ : Slot)).Sublist (Game.slots variant texts tables) := by
  have hsegments : ∀ variant ∈ Variant.all, Slot.Segment.textFiles ∈ variant.segments := by
    decide +kernel
  have hsublist := List.sublist_flatten_of_mem (List.mem_map_of_mem
    (f := Slot.Segment.slots (texts.map (·.name)) (tables.map (·.file))) (hsegments variant hvariant))
  rwa [Slot.Segment.slots, List.map_map] at hsublist

theorem exists_text_record {variant : Variant} (hvariant : variant ∈ Variant.all)
    (hload : load variant files.source = .ok game) {name : String}
    (hname : name ∈ game.textIndex.map (·.name)) : ∃ record ∈ game.records, record.slot = ⟨name, .text⟩ := by
  obtain ⟨entry, hentry, rfl⟩ := List.mem_map.mp hname
  have hslot := (textSlots_sublist hvariant game.textIndex game.tableIndex).subset
    (List.mem_map_of_mem (f := fun entry => (⟨entry.name, .text⟩ : Slot)) hentry)
  rw [← slots_of_load hload] at hslot
  exact List.mem_map.mp hslot

/-- No two entries of the text index have one name. -/
theorem nodup_textNames {variant : Variant} (hvariant : variant ∈ Variant.all)
    (hload : load variant files.source = .ok game) (hnames : game.TextNamesApart) :
    (game.textIndex.map (·.name)).Nodup := by
  unfold TextNamesApart at hnames
  rw [slots_of_load hload] at hnames
  have htexts := hnames.sublist (textSlots_sublist hvariant game.textIndex game.tableIndex)
  rw [List.pairwise_map] at htexts
  exact List.pairwise_map.mpr (htexts.imp fun hapart => hapart (.inl rfl))

/-- Installing a rebuilt game loses no file. -/
theorem exists_installed (hvariant : game.variant ∈ Variant.all)
    (hload : load game.variant files.source = .ok game) (hcontainer : game.variant.container = none)
    (rebuilt : Rebuilt) {name : String} (hname : name ∈ game.fileNames) :
    ∃ data, (rebuilt.install game.variant files)[name]? = some data := by
  obtain ⟨-, hslots, hfound⟩ := records_of_load_loose hcontainer hload
  rw [fileNames, ← names_slots hvariant hcontainer, ← hslots, List.map_map] at hname
  obtain ⟨record, hrecord, rfl⟩ := List.mem_map.mp hname
  obtain hold | ⟨output, -, -, hnew⟩ :=
    getElem?_install_cases rebuilt game.variant files record.slot.name
  · exact ⟨record.data, hold.trans (hfound record hrecord)⟩
  · exact ⟨output.2, hnew⟩

variable {language : Language} {edits : Edits} {rebuilt : Rebuilt} {parts : Parts}

theorem Parts.record?_stored (parts : Parts) (name : String) : (parts.stored game).record? name =
    (game.records.find? (·.slot.name = name)).map (recordData parts.tables.files (parts.others game)) :=
  record?_map rfl name

/-- The files of the records that change. -/
def Parts.changed (parts : Parts) (game : Game) : List (String × List UInt8) :=
  (game.records.filter fun record =>
    recordData parts.tables.files (parts.others game) record ≠ record.data).map fun record =>
      (record.slot.name, recordData parts.tables.files (parts.others game) record)

theorem Parts.mem_changed_iff {output : String × List UInt8} : output ∈ parts.changed game ↔
    ∃ record ∈ game.records, recordData parts.tables.files (parts.others game) record ≠ record.data ∧
      output = (record.slot.name, recordData parts.tables.files (parts.others game) record) := by
  rw [changed, List.mem_map]
  constructor
  · rintro ⟨record, hrecord, rfl⟩
    obtain ⟨hrecord, hchanged⟩ := List.mem_filter.mp hrecord
    exact ⟨record, hrecord, of_decide_eq_true hchanged, rfl⟩
  · rintro ⟨record, hrecord, hchanged, rfl⟩
    exact ⟨record, List.mem_filter.mpr ⟨hrecord, decide_eq_true hchanged⟩, rfl⟩

/-- What a rebuild answers beside the base file and a container: records that change, and the table
    index. -/
theorem Parts.Of.files_eq (h : parts.Of game language edits rebuilt) : ∃ changed,
    rebuilt.files = changed ++ game.indexFiles (parts.others game) ∧
      ∀ output ∈ changed, output ∈ parts.changed game := by
  obtain ⟨changed, hpacked, hfiles⟩ := h.packed
  refine ⟨changed, hfiles, ?_⟩
  cases hextra : game.extra with
  | none =>
    rw [records, packRecords_map hextra] at hpacked
    obtain ⟨-, rfl⟩ := Prod.mk.inj (Except.ok.inj hpacked)
    exact fun output houtput => houtput
  | some extra =>
    obtain ⟨_, -, -, rfl⟩ := packRecords_packed hextra hpacked
    exact List.forall_mem_nil _

/-- The base file is found as it has been stored, unless a record that changes has its name. -/
theorem Parts.Of.basefile_found (h : parts.Of game language edits rebuilt)
    (hvariant : game.variant ∈ Variant.all)
    (hchanged : ∀ output ∈ parts.changed game, output.1 ≠ game.variant.baseFile) :
    (rebuilt.install game.variant files)[game.variant.baseFile]? = some rebuilt.basefile := by
  obtain ⟨changed, hfiles, hsubset⟩ := h.files_eq
  exact getElem?_install_basefile hvariant hfiles fun output houtput => hchanged output (hsubset output houtput)

/-- A record that changes has strings, or scripts that have been assembled. -/
theorem changed_cases {tables : List (String × StringTable)} {assembled : List Assembled} {record : Record}
    (h : recordData tables assembled record ≠ record.data) : record.slot.kind = .text ∨
      record.slot.kind = .tables ∧ ∃ found ∈ assembled, found.file = record.slot.name ∧
        recordData tables assembled record = found.data := by
  unfold recordData at h ⊢
  cases hkind : record.slot.kind with
  | other =>
    rw [hkind] at h
    exact absurd rfl h
  | text => exact .inl rfl
  | tables =>
    rw [hkind] at h
    dsimp only at h ⊢
    cases hfind : assembled.find? (·.file = record.slot.name) with
    | none =>
      rw [hfind] at h
      exact absurd rfl h
    | some found =>
      exact .inr ⟨rfl, found, List.mem_of_find?_eq_some hfind, by simpa using List.find?_some hfind, rfl⟩

/-- The file of a record that changes is a text or script file. -/
theorem Parts.name_mem_of_changed {variant : Variant} (hload : load variant files.source = .ok game)
    {output : String × List UInt8} (houtput : output ∈ parts.changed game) : output.1 ∈ game.fileNames := by
  obtain ⟨record, hrecord, hchanged, rfl⟩ := Parts.mem_changed_iff.mp houtput
  obtain hkind | ⟨hkind, -⟩ := changed_cases hchanged
  · exact List.mem_append_left _ ((name_mem_of_kind hload hrecord).1 hkind)
  · exact List.mem_append_right _ ((name_mem_of_kind hload hrecord).2 hkind)

namespace Parts.Of

/-- The scripts of another file that have been assembled begin with an empty name, if they are read as one. -/
theorem untilNul_others (h : parts.Of game language edits rebuilt) {record : Assembled}
    (hrecord : record ∈ parts.others game) : untilNul record.data = [] := by
  obtain ⟨_, _, _, _, _, -, -, hadded, -⟩ := h.exists_section (List.mem_filter.mp hrecord).1
  obtain ⟨_, _, _, -, -, -, hbytes⟩ := Listing.Assembler.assembleWith_eq_ok_iff.mp hadded.assembled
  exact Script.untilNul_tablesBytes hbytes

private theorem changed_name (hload : load game.variant files.source = .ok game)
    (hloose : game.LooseNamesApart) {output : String × List UInt8} (houtput : output ∈ parts.changed game) :
    output.1 ≠ game.variant.baseFile ∧ game.variant.textIndex ≠ some output.1 := by
  refine ⟨?_, hloose.textIndex _ (Parts.name_mem_of_changed hload houtput)⟩
  obtain ⟨record, hrecord, hchanged, rfl⟩ := Parts.mem_changed_iff.mp houtput
  obtain hkind | ⟨-, found, hfound, hfile, -⟩ := changed_cases hchanged
  · exact fun heq => hloose.basefile (heq ▸ (name_mem_of_kind hload hrecord).1 hkind)
  · exact hfile ▸ of_decide_eq_true (List.mem_filter.mp hfound).2

section loose

variable (h : parts.Of game language edits rebuilt) (hload : load game.variant files.source = .ok game)
  (hcontainer : game.variant.container = none)

include h hload hcontainer

/-- What a rebuild of a game without a container answers: the base file, the records that changed, and
    the table index. -/
theorem outputs_loose : rebuilt.outputs game.variant =
    ((game.variant.baseFile, rebuilt.basefile) :: parts.changed game) ++
      game.indexFiles (parts.others game) := by
  obtain ⟨hextra, -⟩ := records_of_load_loose hcontainer hload
  obtain ⟨changed, hpacked, hfiles⟩ := h.packed
  rw [records, packRecords_map hextra] at hpacked
  obtain ⟨hstored, rfl⟩ := Prod.mk.inj (Except.ok.inj hpacked)
  rw [Rebuilt.outputs, hcontainer, hfiles]
  rfl

variable (hsound : game.Sound) (hloose : game.LooseNamesApart)

include hsound hloose

/-- The text index is found as it was. -/
theorem textIndex_installed : loadTextIndex game.variant (rebuilt.install game.variant files).source =
    .ok game.textIndex := by
  obtain ⟨-, -, htexts, -, -⟩ := load_eq_ok_iff.mp hload
  have hindexes := (fixed_apart _ hsound.variant).2.2 _ List.mem_cons_self
  rw [loadTextIndex_install (h.outputs_loose hload hcontainer) (List.forall_mem_cons.mpr
    ⟨hindexes.1, fun output houtput => (changed_name hload hloose houtput).2⟩) hsound.variant, htexts]

/-- The table index can be read, and names no file that it did not name before. Where a script file has its
    name, it may be read as empty. -/
theorem tableIndex_installed : ∃ index,
    loadTableIndex game.variant (rebuilt.install game.variant files).source = .ok index ∧
      ∀ entry ∈ index, entry.file ∈ game.tableIndex.map (·.file) := by
  obtain ⟨-, -, -, htables, -⟩ := load_eq_ok_iff.mp hload
  have hstored := h.tableIndex_stored (Game.tableIndex_stored hload)
  cases hname : game.variant.tableIndex with
  | none => exact ⟨[], by rw [loadTableIndex, hname]; rfl, by simp⟩
  | some name =>
    obtain hold | ⟨output, houtput, rfl, hfound⟩ :=
      getElem?_install_cases rebuilt game.variant files name
    · refine ⟨game.tableIndex, ?_, fun entry hentry => List.mem_map_of_mem hentry⟩
      rw [loadTableIndex_congr hname hold, htables]
    rw [h.outputs_loose hload hcontainer] at houtput
    rcases List.mem_append.mp houtput with houtput | houtput
    · obtain rfl | houtput := List.mem_cons.mp houtput
      · exact absurd hname ((fixed_apart _ hsound.variant).2.2 _ List.mem_cons_self).2
      obtain ⟨record, hrecord, hchanged, rfl⟩ := Parts.mem_changed_iff.mp houtput
      obtain hkind | ⟨-, script, hscript, -, hdata⟩ := changed_cases hchanged
      · exact absurd hname (hloose.tableIndex _ ((name_mem_of_kind hload hrecord).1 hkind))
      · have hempty : TableIndex.ofBytes (recordData parts.tables.files (parts.others game) record) =
            .ok [] := by
          rw [hdata]
          exact TableIndex.ofBytes_of_untilNul (h.untilNul_others hscript)
        exact ⟨[], loadTableIndex_of_file hname hfound hempty, by simp⟩
    · obtain ⟨_, -, -, rfl⟩ := mem_indexFiles_iff.mp houtput
      refine ⟨_, loadTableIndex_of_file hname hfound (TableIndex.ofBytes_toBytes hstored),
        fun entry hentry => ?_⟩
      rw [← files_editIndex game.tableIndex (parts.others game)]
      exact List.mem_map_of_mem hentry

variable (hnames : game.TextNamesApart)

include hnames

/-- A text file is found as it has been stored. -/
theorem textFile_installed {name : String} (hname : name ∈ game.textIndex.map (·.name)) :
    ∃ data, (rebuilt.install game.variant files)[name]? = some data ∧
      (parts.stored game).record? name = some data := by
  obtain ⟨record, hrecord, hslot⟩ := exists_text_record hsound.variant hload hname
  have hkind : record.slot.kind = .text := by rw [hslot]
  obtain rfl : record.slot.name = name := by rw [hslot]
  refine ⟨recordData parts.tables.files (parts.others game) record, ?_, ?_⟩
  · refine getElem?_install_front (h.outputs_loose hload hcontainer) (hloose.tableIndex _ hname)
      (List.forall_mem_cons.mpr ⟨fun heq => ?_, fun output houtput heq => ?_⟩) ?_
    · have heq : game.variant.baseFile = record.slot.name := heq
      exact absurd (heq ▸ hname) hloose.basefile
    · obtain ⟨other, hother, -, rfl⟩ := Parts.mem_changed_iff.mp houtput
      rw [hnames.eq_of_name hrecord hkind hother heq]
    · by_cases hdata : recordData parts.tables.files (parts.others game) record = record.data
      · rw [hdata]
        exact .inl ((records_of_load_loose hcontainer hload).2.2 record hrecord)
      · exact .inr ⟨_, List.mem_cons_of_mem _ (Parts.mem_changed_iff.mpr ⟨record, hrecord, hdata, rfl⟩), rfl⟩
  · rw [parts.record?_stored, hnames.find?_text hrecord hkind]
    rfl

/-- The files of a game without a container are loaded again. -/
theorem reload_texts_loose (hsize : parts.strings.toBytes.length < 0x100000000) : ∃ again,
    load game.variant (rebuilt.install game.variant files).source = .ok again ∧
      again.basefile = (parts.basefile game).recounted ∧ again.textIndex = game.textIndex ∧
      ∀ name ∈ game.textIndex.map (·.name), again.record? name = (parts.stored game).record? name := by
  obtain ⟨index, hindex, hlisted⟩ := h.tableIndex_installed hload hcontainer hsound hloose
  have hthere : ∀ slot ∈ Game.slots game.variant game.textIndex index,
      ∃ data, (rebuilt.install game.variant files)[slot.name]? = some data := by
    intro slot hslot
    refine exists_installed hsound.variant hload hcontainer rebuilt ?_
    have hname := List.mem_map_of_mem (f := Slot.name) hslot
    rw [names_slots hsound.variant hcontainer] at hname
    refine List.mem_append.mpr ((List.mem_append.mp hname).imp_right fun hname => ?_)
    obtain ⟨entry, hentry, heq⟩ := List.mem_map.mp hname
    exact heq ▸ hlisted entry hentry
  obtain ⟨records, hagain⟩ := exists_loadRecords_loose hcontainer hthere
  have hconsistent := h.basefile_consistent hsound hsize
  have hbasefile : (rebuilt.install game.variant files)[game.variant.baseFile]? = some rebuilt.basefile :=
    h.basefile_found hsound.variant fun _ houtput => (changed_name hload hloose houtput).1
  rw [h.basefile, ← Basefile.toBytes_recounted] at hbasefile
  have hload' : load game.variant (rebuilt.install game.variant files).source =
      .ok ⟨game.variant, (parts.basefile game).recounted, game.textIndex, index, records, none⟩ :=
    load_eq_ok_iff.mpr ⟨rfl, ⟨_, hbasefile, hconsistent.ofBytes_toBytes⟩,
      h.textIndex_installed hload hcontainer hsound hloose, hindex, hagain⟩
  refine ⟨_, hload', rfl, rfl, fun name hname => ?_⟩
  obtain ⟨data, hdata, hstored⟩ := h.textFile_installed hload hcontainer hsound hloose hnames hname
  obtain ⟨record, hrecord, hslot⟩ := exists_text_record hsound.variant hload' hname
  have hread := record?_loose hcontainer hload' hrecord
  rw [hslot] at hread
  rw [hread, hdata, hstored]

end loose

/-- The files of a rebuilt game are loaded with its strings and its text files as they have been stored. -/
theorem reload_texts (h : parts.Of game language edits rebuilt) (hsound : game.Sound)
    (hload : load game.variant files.source = .ok game) (hnames : game.TextNamesApart)
    (hloose : game.variant.container = none → game.LooseNamesApart)
    (hsize : parts.strings.toBytes.length < 0x100000000) : ∃ again,
    load game.variant (rebuilt.install game.variant files).source = .ok again ∧
      again.basefile = (parts.basefile game).recounted ∧ again.textIndex = game.textIndex ∧
      ∀ name ∈ game.textIndex.map (·.name), again.record? name = (parts.stored game).record? name := by
  cases hcontainer : game.variant.container with
  | none => exact h.reload_texts_loose hload hcontainer hsound (hloose hcontainer) hnames hsize
  | some name =>
    exact ⟨_, reload_packed h.holds (h.replaces hsound hsize hload) hsound hload hcontainer, rfl, rfl,
      fun _ _ => rfl⟩

end Parts.Of

end Game

end Adventure
