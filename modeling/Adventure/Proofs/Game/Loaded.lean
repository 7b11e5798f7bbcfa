import Adventure.Game.Load
import Adventure.Proofs.Basefile
import Adventure.Proofs.Strings.Index

namespace Adventure.Game

variable {variant : Variant} {game : Game} {files : Files} {slots : List Slot} {records : List Record}
  {extra : Option (List UInt8)} {resident : Resident} {tables : List (String × StringTable)}

private theorem require_eq_ok_iff {name : String} {data : List UInt8} :
    require files.source name = .ok data ↔ files[name]? = some data := by
  unfold require find Files.source
  cases files[name]? <;> simp [bind, Except.bind, pure, Except.pure, Except.mapError, throw, throwThe,
    MonadExceptOf.throw]

/-- What a game that is loaded has been read from. -/
theorem load_eq_ok_iff : load variant files.source = .ok game ↔ game.variant = variant ∧
    (∃ data, files[variant.baseFile]? = some data ∧ Basefile.ofBytes data = .ok game.basefile) ∧
      loadTextIndex variant files.source = .ok game.textIndex ∧
      loadTableIndex variant files.source = .ok game.tableIndex ∧
      loadRecords variant (Game.slots variant game.textIndex game.tableIndex) files.source =
        .ok (game.records, game.extra) := by
  simp only [load, Except.bind_eq_ok_iff, Except.mapError_eq_ok_iff, require_eq_ok_iff, Prod.exists,
    Except.pure_eq_ok_iff]
  constructor
  · rintro ⟨data, hdata, basefile, hbasefile, textIndex, htext, tableIndex, htable, records, extra,
      hrecords, rfl⟩
    exact ⟨rfl, ⟨data, hdata, hbasefile⟩, htext, htable, hrecords⟩
  · rintro ⟨rfl, ⟨data, hdata, hbasefile⟩, htext, htable, hrecords⟩
    exact ⟨data, hdata, game.basefile, hbasefile, game.textIndex, htext, game.tableIndex, htable,
      game.records, game.extra, hrecords, rfl⟩

theorem loadTableIndex_of_file {name : String} (hname : variant.tableIndex = some name) {data : List UInt8}
    (hfile : files[name]? = some data) {index : List TableIndexEntry}
    (h : TableIndex.ofBytes data = .ok index) : loadTableIndex variant files.source = .ok index := by
  rw [loadTableIndex, hname]
  simp only [find, Files.source, hfile, Except.mapError, bind, Except.bind, h]

theorem loadTableIndex_congr {name : String} (hname : variant.tableIndex = some name) {files' : Files}
    (h : files'[name]? = files[name]?) :
    loadTableIndex variant files'.source = loadTableIndex variant files.source := by
  rw [loadTableIndex, loadTableIndex, hname]
  simp only [find, Files.source, h]

/-- The records of a release without a container are files of their own. -/
theorem loadRecords_loose_eq_ok_iff (hvariant : variant.container = none) :
    loadRecords variant slots files.source = .ok (records, extra) ↔ extra = none ∧
      records.map (·.slot) = slots ∧ ∀ record ∈ records, files[record.slot.name]? = some record.data := by
  have hread : ∀ {slot : Slot} {record : Record},
      (require files.source slot.name).map (Record.mk slot) = .ok record ↔
        record.slot = slot ∧ files[record.slot.name]? = some record.data := by
    intro slot record
    rw [Except.map_eq_ok_iff]
    constructor
    · rintro ⟨data, hdata, rfl⟩
      exact ⟨rfl, require_eq_ok_iff.mp hdata⟩
    · rintro ⟨rfl, hdata⟩
      exact ⟨record.data, require_eq_ok_iff.mpr hdata, rfl⟩
  have hall : ∀ {records : List Record},
      slots.mapM (fun slot => (require files.source slot.name).map (Record.mk slot)) = .ok records ↔
        records.map (·.slot) = slots ∧ ∀ record ∈ records, files[record.slot.name]? = some record.data := by
    intro records
    simp only [Except.mapM_eq_ok_iff, hread]
    constructor
    · intro h
      induction h with
      | nil => exact ⟨rfl, by simp⟩
      | cons head _ ih =>
        obtain ⟨rfl, hdata⟩ := head
        exact ⟨by rw [List.map_cons, ih.1], List.forall_mem_cons.mpr ⟨hdata, ih.2⟩⟩
    · rintro ⟨rfl, hdata⟩
      refine List.forall₂_map_left_iff.mpr (List.forall₂_same.mpr fun record hrecord => ⟨rfl, ?_⟩)
      exact hdata record hrecord
  unfold loadRecords
  rw [hvariant]
  simp only [Except.bind_eq_ok_iff, hall, Except.pure_eq_ok_iff, Prod.mk.injEq]
  constructor
  · rintro ⟨_, h, rfl, rfl⟩
    exact ⟨rfl, h⟩
  · rintro ⟨rfl, h⟩
    exact ⟨records, h, rfl, rfl⟩

/-- The records of a game without a container are files of their own. -/
theorem records_of_load_loose (hcontainer : variant.container = none)
    (hload : load variant files.source = .ok game) : game.extra = none ∧
      game.records.map (·.slot) = Game.slots variant game.textIndex game.tableIndex ∧
      ∀ record ∈ game.records, files[record.slot.name]? = some record.data := by
  obtain ⟨-, -, -, -, hrecords⟩ := load_eq_ok_iff.mp hload
  exact (loadRecords_loose_eq_ok_iff hcontainer).mp hrecords

/-- Some record of a name is the first one. -/
theorem exists_first {record : Record} (h : record ∈ game.records) : ∃ first ∈ game.records,
    first.slot.name = record.slot.name ∧
      game.records.find? (·.slot.name = record.slot.name) = some first := by
  cases hfind : game.records.find? (·.slot.name = record.slot.name) with
  | none => simpa using List.find?_eq_none.mp hfind record h
  | some first =>
    exact ⟨first, List.mem_of_find?_eq_some hfind, by simpa using List.find?_some hfind, rfl⟩

/-- Without a container, what is found by a name is the file of that name. -/
theorem record?_loose (hcontainer : variant.container = none)
    (hload : load variant files.source = .ok game) {record : Record} (hrecord : record ∈ game.records) :
    game.record? record.slot.name = files[record.slot.name]? := by
  obtain ⟨-, -, hfound⟩ := records_of_load_loose hcontainer hload
  obtain ⟨first, hfirst, hname, hfind⟩ := exists_first hrecord
  rw [record?, hfind, ← hname, hfound first hfirst]
  rfl

/-- What is found by a name when records only differ in their data. -/
theorem record?_map {stored : Game} {data : Record → List UInt8}
    (h : stored.records = game.records.map fun record => { record with data := data record })
    (name : String) : stored.record? name = (game.records.find? (·.slot.name = name)).map data := by
  rw [record?, h, List.find?_map, Option.map_map]
  rfl

/-- The records of files that are there can be loaded. -/
theorem exists_loadRecords_loose (hcontainer : variant.container = none)
    (hfiles : ∀ slot ∈ slots, ∃ data, files[slot.name]? = some data) :
    ∃ records, loadRecords variant slots files.source = .ok (records, none) := by
  refine ⟨slots.map fun slot => ⟨slot, files[slot.name]?.getD []⟩,
    (loadRecords_loose_eq_ok_iff hcontainer).mpr ⟨rfl, ?_, fun record hrecord => ?_⟩⟩
  · rw [List.map_map]
    exact List.map_id slots
  · obtain ⟨slot, hslot, rfl⟩ := List.mem_map.mp hrecord
    obtain ⟨data, hdata⟩ := hfiles slot hslot
    simp [hdata]

/-- The records of a release with a container are those of the container, in order. -/
theorem loadRecords_packed_eq_ok_iff {name : String} (hvariant : variant.container = some name) :
    loadRecords variant slots files.source = .ok (records, extra) ↔ ∃ data container,
      files[name]? = some data ∧ Container.ofBytes data variant.layout = .ok container ∧
        records.map (·.slot) = slots ∧ records.map (·.data) = container.records ∧
        extra = some container.extra := by
  have hzip : ∀ {contents : List (List UInt8)},
      contents.length = slots.length ∧ slots.zipWith Record.mk contents = records ↔
        records.map (·.slot) = slots ∧ records.map (·.data) = contents := by
    intro contents
    constructor
    · rintro ⟨hlength, rfl⟩
      rw [← List.map_uncurry_zip_eq_zipWith, List.map_map, List.map_map]
      exact ⟨List.map_fst_zip (Nat.le_of_eq hlength.symm), List.map_snd_zip (Nat.le_of_eq hlength)⟩
    · rintro ⟨rfl, rfl⟩
      refine ⟨by rw [List.length_map, List.length_map], ?_⟩
      rw [List.zipWith_map, List.zipWith_self]
      exact List.map_id records
  unfold loadRecords
  rw [hvariant]
  simp only [Except.bind_eq_ok_iff, Except.throw_else_eq_ok_iff, Except.pure_eq_ok_iff,
    Except.mapError_eq_ok_iff, require_eq_ok_iff, not_not, Prod.mk.injEq]
  constructor
  · rintro ⟨data, hdata, container, hcontainer, hlength, hrecords, rfl⟩
    obtain ⟨hslots, hcontents⟩ := hzip.mp ⟨hlength, hrecords⟩
    exact ⟨data, container, hdata, hcontainer, hslots, hcontents, rfl⟩
  · rintro ⟨data, container, hdata, hcontainer, hslots, hcontents, rfl⟩
    obtain ⟨hlength, hrecords⟩ := hzip.mpr ⟨hslots, hcontents⟩
    exact ⟨data, hdata, container, hcontainer, hlength, hrecords, rfl⟩

/-- A release without a container has a file for each text and script file, and no others. -/
theorem names_slots (hvariant : variant ∈ Variant.all) (hcontainer : variant.container = none)
    (texts : List TextIndexEntry) (tables : List TableIndexEntry) :
    (Game.slots variant texts tables).map (·.name) = texts.map (·.name) ++ tables.map (·.file) := by
  have hsegments : ∀ variant ∈ Variant.all, variant.container = none →
      variant.segments = Variant.looseSegments := by
    decide +kernel
  rw [Game.slots, hsegments variant hvariant hcontainer]
  simp only [Slot.layout, Variant.looseSegments, Slot.Segment.slots, List.flatMap_cons, List.flatMap_nil,
    List.append_nil, List.map_append, List.map_map]
  rfl

/-- No release has a container of the classic layout. -/
theorem layout_ne_classic : ∀ variant ∈ Variant.all, variant.layout ≠ .classic := by
  decide +kernel

/-- A release with a container has records, whatever its indexes hold. -/
theorem slots_ne_nil (hvariant : variant ∈ Variant.all) {name : String}
    (hcontainer : variant.container = some name) (texts : List TextIndexEntry)
    (tables : List TableIndexEntry) : Game.slots variant texts tables ≠ [] := by
  have hsegments : ∀ variant ∈ Variant.all, variant.container.isSome →
      Slot.Segment.named "EMPTYFILE" ∈ variant.segments := by
    decide +kernel
  have hnamed := hsegments variant hvariant (by rw [hcontainer]; rfl)
  refine List.ne_nil_of_mem (a := ⟨"EMPTYFILE", .other⟩) ?_
  exact List.mem_flatMap.mpr ⟨_, hnamed, List.mem_singleton.mpr rfl⟩

/-- What a game that has been loaded from files is known to have. -/
structure Sound (game : Game) : Prop where
  variant : game.variant ∈ Variant.all
  basefile : game.basefile.Consistent

/-- The scripts of a game are in a set that comes with it. -/
theorem Sound.set_mem_shipped (h : game.Sound) : game.variant.set ∈ InstructionSet.shipped := by
  have hset : ∀ variant ∈ Variant.all, variant.set ∈ InstructionSet.shipped := by
    simp [Variant.all, InstructionSet.shipped, Variant.feeble, Variant.simon1, Variant.simon1Demo,
      Variant.simon1Talkie, Variant.simon2, Variant.simon2Talkie, Variant.waxworks, Variant.waxworksDemo,
      Variant.loose]
  exact hset _ h.variant

theorem sound_of_load (hvariant : variant ∈ Variant.all) (h : load variant files.source = .ok game) :
    game.Sound := by
  obtain ⟨rfl, ⟨data, -, hbasefile⟩, -⟩ := load_eq_ok_iff.mp h
  exact ⟨hvariant, Basefile.consistent_of_ofBytes hbasefile⟩

/-- The tables of the text files are read from their records, in the order of their index. -/
theorem textTables_eq_ok_iff : game.textTables = .ok tables ↔
    List.Forall₂ (fun (entry : TextIndexEntry × Nat) (table : String × StringTable) =>
      table.1 = entry.1.name ∧ ∃ data, game.record? entry.1.name = some data ∧
        StringTable.ofBytes entry.2 data = .ok table.2) (game.textIndex.zip game.textBases) tables := by
  unfold textTables
  rw [Except.mapM_eq_ok_iff]
  refine iff_of_eq (congrArg (List.Forall₂ · _ _) (funext₂ fun entry table => propext ?_))
  obtain ⟨entry, base⟩ := entry
  dsimp only
  cases game.record? entry.name with
  | none => simp [throw, throwThe, MonadExceptOf.throw]
  | some data =>
    simp only [Except.bind_eq_ok_iff, Except.mapError_eq_ok_iff, Except.pure_eq_ok_iff,
      Option.some.injEq, exists_eq_left']
    constructor
    · rintro ⟨read, hread, rfl⟩
      exact ⟨rfl, hread⟩
    · rintro ⟨hname, hread⟩
      exact ⟨table.2, hread, Prod.ext hname.symm rfl⟩

theorem names_textTables (h : game.textTables = .ok tables) :
    tables.map Prod.fst = game.textIndex.map (·.name) := by
  have hlength : game.textIndex.length ≤ game.textBases.length :=
    Nat.le_of_eq (TextIndex.length_basesFrom _ _ _ _).symm
  have hnames : tables.map Prod.fst = (game.textIndex.zip game.textBases).map ((·.name) ∘ Prod.fst) :=
    forall₂_map_eq_iff.mp ((textTables_eq_ok_iff.mp h).flip.imp fun _ _ hentry => hentry.1)
  rw [hnames, ← List.map_map, List.map_fst_zip hlength]

theorem exists_of_mem_textTables (h : game.textTables = .ok tables) {file : String} {table : StringTable}
    (hmem : (file, table) ∈ tables) :
    ∃ base data, game.record? file = some data ∧ StringTable.ofBytes base data = .ok table := by
  obtain ⟨⟨entry, base⟩, -, rfl, data, hdata, htable⟩ := forall₂_exists_left (textTables_eq_ok_iff.mp h) hmem
  exact ⟨base, data, hdata, htable⟩

theorem resident_eq_ok (h : game.resident = .ok resident) :
    (∃ c, Item.readAll (Cursor.ofBytes game.basefile.data) game.basefile.objectCount =
      .ok (resident.items, c) ∧ resident.rest = c.rest ∧ resident.objectsEnd = c.position) ∧
      resident.script = Script.ofBlock game.variant.set resident.rest := by
  unfold Game.resident at h
  simp only [Except.bind_eq_ok_iff, Except.mapError_eq_ok_iff, Prod.exists] at h
  obtain ⟨items, c, hread, hresult⟩ := h
  cases hresult
  exact ⟨⟨c, hread, rfl, rfl⟩, rfl⟩

end Adventure.Game
