import Adventure.Proofs.Container.RoundTrip
import Adventure.Proofs.Game.Parts
import Adventure.Proofs.Game.Slots

namespace Adventure.Game

variable {variant : Variant} {files : Files} {game : Game} {language : Language} {rebuilt : Rebuilt}
  {parts : Parts}

/-- Every text file is found by its name: no record of the same name and with other bytes comes before it. -/
def TextsFound (game : Game) : Prop :=
  ∀ record ∈ game.records, record.slot.kind = .text → game.record? record.slot.name = some record.data

instance (game : Game) : Decidable game.TextsFound :=
  inferInstanceAs (Decidable (∀ record ∈ game.records, record.slot.kind = .text →
    game.record? record.slot.name = some record.data))

namespace Parts.Of

section unedited

variable (h : parts.Of game language ⟨none, none, none⟩ rebuilt)

include h

private theorem tables_unedited : parts.tables = ⟨game.basefile.strings, parts.texts⟩ := by
  have hlines : parts.lines = [] := (Except.ok.inj h.lines).symm
  have htables := h.tables
  rw [hlines] at htables
  exact (Except.ok.inj htables).symm

private theorem assemblies_unedited : parts.assemblies = parts.start game := by
  have hsections : parts.sections = [] := (Except.ok.inj h.sections).symm
  have hassemblies := h.assemblies
  rw [hsections] at hassemblies
  exact (Except.ok.inj hassemblies).symm

private theorem others_unedited : parts.others game = [] := by
  rw [others, h.assemblies_unedited]
  rfl

private theorem strings_unedited : parts.strings = game.basefile.strings := by
  have hadded : parts.assemblies.pool.added = [] := by
    rw [h.assemblies_unedited]
    rfl
  obtain ⟨encoded, hencoded, hstrings, -⟩ := withDeclared_eq_ok h.strings
  rw [hadded, List.forall₂_nil_left_iff] at hencoded
  rw [hstrings, hencoded, h.tables_unedited, List.append_nil]

private theorem items_unedited : parts.items = parts.resident.items ∧
    parts.objects = game.basefile.data.take parts.resident.objectsEnd := by
  obtain ⟨hitems, hobjects⟩ := Prod.mk.inj (Except.ok.inj h.items)
  exact ⟨hitems.symm, hobjects.symm⟩

/-- The data of the base file are put together again from its parts. -/
theorem data_unedited : basefileData parts.resident parts.objects (parts.script? game) =
    game.basefile.data := by
  have hscript : parts.script? game = none := by
    rw [script?, h.assemblies_unedited]
    rfl
  obtain ⟨⟨c, hread, hrest, hend⟩, -⟩ := resident_eq_ok h.resident
  obtain ⟨-, bytes, -, hspan⟩ := Item.readAll_eq_ok_iff.mp hread
  obtain ⟨-, htake, -⟩ := hspan.take_ofBytes
  have hdata : game.basefile.data = bytes ++ c.rest := hspan.rest
  simp only [basefileData, hscript]
  rw [h.items_unedited.2, hend, htake, hrest, hdata]

/-- The base file is stored as it was, but for the number of all objects, which is counted again. -/
theorem basefile_unedited : parts.basefile game = { game.basefile with header := { game.basefile.header with
    totalItems := UInt32.ofNat (game.basefile.objectCount + game.basefile.dynamicCount) } } := by
  obtain ⟨⟨c, hread, -⟩, -⟩ := resident_eq_ok h.resident
  obtain ⟨hcount, -⟩ := Item.readAll_eq_ok_iff.mp hread
  obtain ⟨-, hcounted⟩ := Basefile.setObjectCount_eq_ok_iff.mp h.counted
  have hitems : UInt32.ofNat game.basefile.objectCount = game.basefile.header.items := UInt32.ofNat_toNat
  rw [h.items_unedited.1, hcount, hitems] at hcounted
  rw [Parts.basefile, h.data_unedited, hcounted, h.strings_unedited]

/-- The rebuilt base file is the old one exactly if the objects in the file are among those that are
    counted. -/
theorem basefile_eq_iff : rebuilt.basefile = game.basefile.toBytes ↔
    game.basefile.header.items ≤ game.basefile.header.totalItems := by
  rw [h.basefile, h.basefile_unedited]
  have hlt := game.basefile.header.totalItems.toNat_lt
  have hlt' := game.basefile.header.items.toNat_lt
  have hbytes : ∀ totalItems : UInt32, ({ game.basefile with header := { game.basefile.header with
      totalItems := totalItems } } : Basefile).toBytes = game.basefile.toBytes ↔
        totalItems = game.basefile.header.totalItems := by
    intro totalItems
    refine ⟨fun heq => ?_, fun heq => by rw [heq]⟩
    simp only [Basefile.toBytes, Basefile.writtenHeader, Basefile.Header.toBytes,
      List.append_assoc] at heq
    exact Bytes.word32_inj (List.append_cancel_right heq)
  rw [hbytes, ← UInt32.toNat_inj, UInt32.le_iff_toNat_le, Basefile.objectCount, Basefile.dynamicCount,
    UInt32.toNat_ofNat']
  omega

variable (hload : load game.variant files.source = .ok game)

include hload

/-- A text file is stored with the bytes of the first record of its name, and any other one with its own. -/
theorem record_unedited {record : Record} (hrecord : record ∈ game.records) :
    recordData parts.tables.files (parts.others game) record = record.data ↔
      (record.slot.kind = .text → game.record? record.slot.name = some record.data) := by
  rw [recordData, h.others_unedited, h.tables_unedited]
  cases hkind : record.slot.kind with
  | other => simp
  | tables => simp
  | text =>
    have hlisted := (name_mem_of_kind hload hrecord).1 hkind
    rw [← names_textTables h.texts] at hlisted
    cases hlookup : parts.texts.lookup record.slot.name with
    | none =>
      obtain ⟨entry, hentry, hname⟩ := List.mem_map.mp hlisted
      have hother := List.lookup_eq_none_iff.mp hlookup entry hentry
      simp [hname] at hother
    | some table =>
      obtain ⟨base, data, hread, htable⟩ := exists_of_mem_textTables h.texts (mem_of_lookup hlookup)
      simp [hread, StringTable.toBytes_ofBytes htable]

private theorem records_unedited : (parts.records game).map (·.data) = game.records.map (·.data) ↔
    game.TextsFound := by
  rw [records, List.map_map, List.map_inj_left]
  exact forall₂_congr fun record hrecord => h.record_unedited hload hrecord

end unedited

end Parts.Of

/-- Records that hold what those of a game hold are those of the game. -/
theorem Parts.records_eq_of_data (h : (parts.records game).map (·.data) = game.records.map (·.data)) :
    parts.records game = game.records := by
  rw [records, List.map_map, List.map_inj_left] at h
  refine (List.map_congr_left fun record hrecord => ?_).trans (List.map_id _)
  have hdata := h record hrecord
  dsimp only [Function.comp_apply] at hdata
  rw [hdata, id]

private theorem editIndex_nil (index : List TableIndexEntry) : editIndex index [] = index :=
  List.map_id index

private theorem indexFiles_nil (game : Game) : game.indexFiles [] = [] := by
  simp only [indexFiles, editIndex_nil, if_true]
  split <;> rfl

/-- Records that are not edited are not stored. -/
theorem packRecords_self (hextra : game.extra = none) : game.packRecords game.records = .ok (none, []) := by
  have hrecords := packRecords_map hextra (·.data)
  rw [List.filter_eq_nil_iff.mpr (by simp)] at hrecords
  exact (congrArg game.packRecords (List.map_id _).symm).trans hrecords

/-- Without a container, two records of one name are the same file. -/
theorem textsFound_of_loose (hcontainer : game.variant.container = none)
    (hload : load game.variant files.source = .ok game) : game.TextsFound := by
  obtain ⟨-, -, hfound⟩ := records_of_load_loose hcontainer hload
  intro record hrecord _
  rw [record?_loose hcontainer hload hrecord, hfound record hrecord]

/-- A container that is read is stored again as the file that it was read from if its records are the
    same, and only then. -/
theorem container_eq_iff {layout : Container.Layout} (hlayout : layout ≠ .classic) {data bytes : List UInt8}
    {container : Container} (hread : Container.ofBytes data layout = .ok container)
    {records : List (List UInt8)} (hne : container.records ≠ []) (hnew : records ≠ [])
    (hwritten : (Container.mk layout container.extra records).toBytes = .ok bytes) :
    data = bytes ↔ records = container.records := by
  constructor
  · rintro rfl
    have hagain := Container.ofBytes_toBytes hlayout hnew hwritten
    rw [hread] at hagain
    rw [Except.ok.inj hagain]
  · rintro rfl
    have hdata : data ≠ [] := by
      rintro rfl
      rw [Container.ofBytes_eq_ofOffsets hlayout] at hread
      exact hne (by rw [← Except.ok.inj hread])
    rw [Container.ofBytes_eq_ofOffsets hlayout] at hread
    have hpositioned := Container.positioned_of_ofOffsets hdata hread
    have hagain := hpositioned.toBytes hlayout
    obtain ⟨_, extra, records⟩ := container
    obtain rfl := hpositioned.layout_eq
    rw [hagain] at hwritten
    exact Except.ok.inj hwritten

/-- A game that is rebuilt without edits answers its own base file if the objects in the file are among
    those that are counted, its own container if its text files are found by their names, and no other
    file. -/
theorem rebuild_without_edits (hvariant : variant ∈ Variant.all)
    (hload : load variant files.source = .ok game)
    (hrebuild : game.rebuild language ⟨none, none, none⟩ = .ok rebuilt) :
    (files[variant.baseFile]? = some rebuilt.basefile ↔
        game.basefile.header.items ≤ game.basefile.header.totalItems) ∧
      (variant.container = none → rebuilt.container = none) ∧
      (∀ name ∈ variant.container, files[name]? = rebuilt.container ↔ game.TextsFound) ∧
      rebuilt.files = [] := by
  obtain ⟨rfl, ⟨data, hdata, hbasefile⟩, -, -, hrecords⟩ := load_eq_ok_iff.mp hload
  obtain ⟨parts, hparts⟩ := rebuild_eq_ok_iff.mp hrebuild
  obtain ⟨changed, hpacked, hfiles⟩ := hparts.packed
  rw [hparts.others_unedited, indexFiles_nil, List.append_nil] at hfiles
  have hbase : files[game.variant.baseFile]? = some rebuilt.basefile ↔
      game.basefile.header.items ≤ game.basefile.header.totalItems := by
    rw [hdata, ← Basefile.toBytes_ofBytes hbasefile, Option.some.injEq, eq_comm]
    exact hparts.basefile_eq_iff
  cases hcontainer : game.variant.container with
  | none =>
    obtain ⟨hextra, -⟩ := (loadRecords_loose_eq_ok_iff hcontainer).mp hrecords
    have hsame := (hparts.records_unedited hload).mpr (textsFound_of_loose hcontainer hload)
    rw [Parts.records_eq_of_data hsame, packRecords_self hextra] at hpacked
    obtain ⟨hstored, rfl⟩ := Prod.mk.inj (Except.ok.inj hpacked)
    exact ⟨hbase, fun _ => hstored.symm, fun _ hname => absurd hname (Option.not_mem_none _), hfiles⟩
  | some name =>
    obtain ⟨packed, container, hfile, hread, hslots, hcontents, hextra⟩ :=
      (loadRecords_packed_eq_ok_iff hcontainer).mp hrecords
    obtain ⟨bytes, hbytes, hstored, rfl⟩ := packRecords_packed hextra hpacked
    refine ⟨hbase, fun hnone => absurd hnone (Option.some_ne_none _), ?_, hfiles⟩
    rintro _ ⟨⟩
    have hne : game.records ≠ [] := by
      have := slots_ne_nil hvariant hcontainer game.textIndex game.tableIndex
      rw [← hslots] at this
      exact fun hnil => this (by rw [hnil]; rfl)
    rw [hfile, hstored, Option.some.injEq, ← hparts.records_unedited hload, hcontents]
    refine container_eq_iff (layout_ne_classic _ hvariant) hread ?_ ?_ hbytes
    · rw [← hcontents]
      simpa using hne
    · rw [Parts.records]
      simpa using hne

/-- The file of a game that counts no objects in all and one object in the file. -/
def miscountedFiles : Files := (∅ : Files)
  |>.insert "GAMEPC" [0, 0, 0, 0, 0, 0, 0, 128, 0, 0, 0, 1, 0, 0, 0, 0, 0, 0, 0, 0, 0, 0, 0, 5, 0, 0, 255, 255,
    255, 255, 255, 255, 255, 255, 255, 255, 255, 255, 0, 0, 0, 0, 0, 0, 0, 0]

/-- The game of `miscountedFiles`. -/
def miscountedGame : Game where
  variant := .simon1
  basefile := ⟨⟨0, 128, 1, 0, 0⟩, ⟨0, []⟩, [0, 0, 0, 5, 0, 0, 255, 255, 255, 255, 255, 255, 255, 255, 255, 255,
    255, 255, 0, 0, 0, 0, 0, 0, 0, 0]⟩
  textIndex := []
  tableIndex := []
  records := []
  extra := none

private theorem load_miscounted : load .simon1 miscountedFiles.source = .ok miscountedGame := by
  refine load_eq_ok_iff.mpr ⟨rfl, ⟨miscountedGame.basefile.toBytes, ?_, ?_⟩, ?_, ?_, ?_⟩
  · decide +kernel
  all_goals exact Except.eq_ok_of_toOption (by decide +kernel)

/-- The object in the file becomes the one that is counted, so the base file changes. -/
theorem rebuild_without_edits_miscounted : ∃ rebuilt : Rebuilt,
    miscountedGame.rebuild .english ⟨none, none, none⟩ = .ok rebuilt ∧
      miscountedFiles["GAMEPC"]? ≠ some rebuilt.basefile ∧ rebuilt.container = none ∧
      rebuilt.files = [] := by
  have hrebuild : miscountedGame.rebuild .english ⟨none, none, none⟩ =
      .ok ⟨{ miscountedGame.basefile with header := ⟨1, 128, 1, 0, 0⟩ }.toBytes, none, []⟩ :=
    Except.eq_ok_of_toOption (by decide +kernel)
  obtain ⟨hbasefile, hnone, -, hfiles⟩ := rebuild_without_edits (by simp [Variant.all]) load_miscounted
    hrebuild
  exact ⟨_, hrebuild, fun heq => absurd (hbasefile.mp heq) (by decide), hnone rfl, hfiles⟩

end Adventure.Game
