import Mathlib.Data.List.Nodup
import Adventure.Game.Rebuild
import Adventure.Proofs.Container
import Adventure.Proofs.Game.Loaded
import Adventure.Proofs.Script.Index

namespace Adventure.Game

variable {variant : Variant} {game stored : Game} {files : Files} {rebuilt : Rebuilt}
  {assembled : List Assembled} {records : List Record} {front : List (String × List UInt8)}

/-- The names of a game's text and script files. -/
def fileNames (game : Game) : List String :=
  game.textIndex.map (·.name) ++ game.tableIndex.map (·.file)

/-- The names of a game's text and script files belong to one file each. -/
structure NamesApart (game : Game) : Prop where
  apart : game.fileNames.Nodup
  basefile : game.variant.baseFile ∉ game.fileNames
  indexes : ∀ name ∈ game.fileNames,
    game.variant.textIndex ≠ some name ∧ game.variant.tableIndex ≠ some name
  others : ∀ record ∈ game.records, record.slot.kind = .other → record.slot.name ∉ game.fileNames

instance (game : Game) : Decidable game.NamesApart :=
  decidable_of_iff (game.fileNames.Nodup ∧ game.variant.baseFile ∉ game.fileNames ∧
      (∀ name ∈ game.fileNames,
        game.variant.textIndex ≠ some name ∧ game.variant.tableIndex ≠ some name) ∧
      ∀ record ∈ game.records, record.slot.kind = .other → record.slot.name ∉ game.fileNames)
    ⟨fun h => ⟨h.1, h.2.1, h.2.2.1, h.2.2.2⟩, fun h => ⟨h.apart, h.basefile, h.indexes, h.others⟩⟩

/-- A game that can be stored where another one has been loaded from: it has the same files, and its
    base file and its table index are read back as they are written. -/
structure Replaces (stored game : Game) : Prop where
  variant : stored.variant = game.variant
  basefile : stored.basefile.Consistent
  textIndex : stored.textIndex = game.textIndex
  tableIndex : TableIndex.Stored stored.tableIndex
  tableFiles : stored.tableIndex.map (·.file) = game.tableIndex.map (·.file)
  slots : stored.records.map (·.slot) = game.records.map (·.slot)
  extra : stored.extra = game.extra

/-- The files of a rebuilt game are those of a game that is stored in place of another one. -/
structure Rebuilt.Holds (rebuilt : Rebuilt) (game stored : Game) (assembled : List Assembled) : Prop where
  basefile : rebuilt.basefile = stored.basefile.toBytes
  tableIndex : stored.tableIndex = editIndex game.tableIndex assembled
  packed : ∃ changed, game.packRecords stored.records = .ok (rebuilt.container, changed) ∧
    rebuilt.files = changed ++ game.indexFiles assembled

/-- A file that all outputs of its name agree on is found after a rebuilt game has been installed. -/
theorem getElem?_install {rebuilt : Rebuilt} {name : String} {found : Option (List UInt8)}
    (hall : ∀ output ∈ rebuilt.outputs variant, output.1 = name → found = some output.2)
    (hsome : files[name]? = found ∨ ∃ output ∈ rebuilt.outputs variant, output.1 = name) :
    (rebuilt.install variant files)[name]? = found := by
  unfold Rebuilt.install
  generalize rebuilt.outputs variant = outputs at hall hsome ⊢
  induction outputs generalizing files with
  | nil => simpa using hsome
  | cons output outputs ih =>
    obtain ⟨hhead, hrest⟩ := List.forall_mem_cons.mp hall
    rw [List.foldl_cons]
    refine ih hrest ?_
    dsimp only
    rw [Std.TreeMap.getElem?_insert]
    by_cases heq : output.1 = name
    · rw [if_pos (Std.LawfulEqCmp.compare_eq_iff_eq.mpr heq)]
      exact .inl (hhead heq).symm
    · rw [if_neg fun h => heq (Std.LawfulEqCmp.compare_eq_iff_eq.mp h)]
      rcases hsome with hold | ⟨other, hother, hname⟩
      · exact .inl hold
      · rcases List.mem_cons.mp hother with rfl | hother
        · exact absurd hname heq
        · exact .inr ⟨other, hother, hname⟩

/-- A file that is found after a rebuilt game has been installed is an old one or one of its outputs. -/
theorem getElem?_install_cases (rebuilt : Rebuilt) (variant : Variant) (files : Files) (name : String) :
    (rebuilt.install variant files)[name]? = files[name]? ∨
      ∃ output ∈ rebuilt.outputs variant, output.1 = name ∧
        (rebuilt.install variant files)[name]? = some output.2 := by
  unfold Rebuilt.install
  generalize rebuilt.outputs variant = outputs
  induction outputs generalizing files with
  | nil => exact .inl rfl
  | cons output outputs ih =>
    rw [List.foldl_cons]
    rcases ih (files.insert output.1 output.2) with hold | ⟨other, hother, hname, hfound⟩
    · rw [Std.TreeMap.getElem?_insert] at hold
      split at hold
      case _ heq =>
        exact .inr ⟨output, List.mem_cons_self, Std.LawfulEqCmp.compare_eq_iff_eq.mp heq, hold⟩
      case _ => exact .inl hold
    · exact .inr ⟨other, List.mem_cons_of_mem _ hother, hname, hfound⟩

/-- The names that a release chooses itself belong to one file each. -/
theorem fixed_apart : ∀ variant ∈ Variant.all, variant.container ≠ some variant.baseFile ∧
    (∀ name ∈ variant.textIndex, variant.tableIndex ≠ some name) ∧
    ∀ name ∈ variant.baseFile :: variant.container.toList,
      variant.textIndex ≠ some name ∧ variant.tableIndex ≠ some name := by
  decide +kernel

theorem mem_indexFiles_iff {output : String × List UInt8} : output ∈ game.indexFiles assembled ↔
    ∃ name, game.variant.tableIndex = some name ∧ editIndex game.tableIndex assembled ≠ game.tableIndex ∧
      output = (name, TableIndex.toBytes (editIndex game.tableIndex assembled)) := by
  unfold indexFiles
  cases game.variant.tableIndex with
  | none => simp
  | some name =>
    dsimp only
    split
    case _ heq => simp [heq]
    case _ hne => simp [hne]

/-- The base file is found as it is answered, unless a record that is answered has its name. -/
theorem getElem?_install_basefile (hvariant : game.variant ∈ Variant.all)
    {changed : List (String × List UInt8)} (hfiles : rebuilt.files = changed ++ game.indexFiles assembled)
    (hchanged : ∀ output ∈ changed, output.1 ≠ game.variant.baseFile) :
    (rebuilt.install game.variant files)[game.variant.baseFile]? = some rebuilt.basefile := by
  obtain ⟨hcontainer, -, hindexes⟩ := fixed_apart _ hvariant
  refine getElem?_install (fun output houtput hname => ?_) (.inr ⟨_, List.mem_cons_self, rfl⟩)
  obtain rfl | houtput := List.mem_cons.mp houtput
  · rfl
  obtain houtput | houtput := List.mem_append.mp houtput
  · have hlisted := Option.mem_toList.mp (List.of_mem_zip houtput).1
    exact absurd (hname ▸ hlisted) hcontainer
  rw [hfiles] at houtput
  obtain houtput | houtput := List.mem_append.mp houtput
  · exact absurd hname (hchanged output houtput)
  · obtain ⟨index, hindex, -, rfl⟩ := mem_indexFiles_iff.mp houtput
    have hname : index = game.variant.baseFile := hname
    exact absurd (hname ▸ hindex) (hindexes _ List.mem_cons_self).2

section indexes

/-- Files other than the table index are found where the rest of a rebuilt game puts them. -/
theorem getElem?_install_front
    (houtputs : rebuilt.outputs game.variant = front ++ game.indexFiles assembled) {name : String}
    {found : Option (List UInt8)} (hname : game.variant.tableIndex ≠ some name)
    (hall : ∀ output ∈ front, output.1 = name → found = some output.2)
    (hsome : files[name]? = found ∨ ∃ output ∈ front, output.1 = name) :
    (rebuilt.install game.variant files)[name]? = found := by
  refine getElem?_install ?_ (hsome.imp_right ?_) <;> rw [houtputs]
  · intro output houtput honame
    rcases List.mem_append.mp houtput with houtput | houtput
    · exact hall output houtput honame
    · obtain ⟨index, hindex, -, rfl⟩ := mem_indexFiles_iff.mp houtput
      exact absurd (honame ▸ hindex) hname
  · rintro ⟨output, houtput, honame⟩
    exact ⟨output, List.mem_append_left _ houtput, honame⟩

variable (houtputs : rebuilt.outputs game.variant = front ++ game.indexFiles assembled)

include houtputs

/-- The text index is read from its file, which stays. -/
theorem loadTextIndex_install (hfront : ∀ output ∈ front, game.variant.textIndex ≠ some output.1)
    (hvariant : game.variant ∈ Variant.all) :
    loadTextIndex game.variant (rebuilt.install game.variant files).source =
      loadTextIndex game.variant files.source := by
  unfold loadTextIndex
  cases hname : game.variant.textIndex with
  | none => rfl
  | some name =>
    have hfile : (rebuilt.install game.variant files)[name]? = files[name]? := by
      refine getElem?_install_front houtputs ((fixed_apart _ hvariant).2.1 name hname) ?_ (.inl rfl)
      intro output houtput honame
      exact absurd (honame ▸ hname) (hfront output houtput)
    simp only [find, Files.source, hfile]

/-- The table index is read with the ranges of the files that have been assembled. -/
theorem loadTableIndex_install (hfront : ∀ output ∈ front, game.variant.tableIndex ≠ some output.1)
    (hload : loadTableIndex game.variant files.source = .ok game.tableIndex)
    (hstored : TableIndex.Stored (editIndex game.tableIndex assembled)) :
    loadTableIndex game.variant (rebuilt.install game.variant files).source =
      .ok (editIndex game.tableIndex assembled) := by
  cases hname : game.variant.tableIndex with
  | none =>
    rw [loadTableIndex, hname] at hload
    have hnone : game.tableIndex = [] := (Except.ok.inj hload).symm
    rw [loadTableIndex, hname, hnone]
    rfl
  | some name =>
    have hapart : ∀ output ∈ front, output.1 ≠ name := by
      rintro output houtput rfl
      exact hfront output houtput hname
    by_cases hsame : editIndex game.tableIndex assembled = game.tableIndex
    · have hfile : (rebuilt.install game.variant files)[name]? = files[name]? := by
        refine getElem?_install ?_ (.inl rfl)
        rw [houtputs]
        intro output houtput honame
        rcases List.mem_append.mp houtput with houtput | houtput
        · exact absurd honame (hapart output houtput)
        · obtain ⟨_, -, hne, -⟩ := mem_indexFiles_iff.mp houtput
          exact absurd hsame hne
      rw [loadTableIndex_congr hname hfile, hload, hsame]
    · have hfile : (rebuilt.install game.variant files)[name]? =
          some (TableIndex.toBytes (editIndex game.tableIndex assembled)) := by
        refine getElem?_install ?_ (.inr ?_) <;> rw [houtputs]
        · intro output houtput honame
          rcases List.mem_append.mp houtput with houtput | houtput
          · exact absurd honame (hapart output houtput)
          · obtain ⟨_, -, -, rfl⟩ := mem_indexFiles_iff.mp houtput
            rfl
        · exact ⟨_, List.mem_append_right _ (mem_indexFiles_iff.mpr ⟨name, hname, hsame, rfl⟩), rfl⟩
      exact loadTableIndex_of_file hname hfile (TableIndex.ofBytes_toBytes hstored)

end indexes

section records

/-- A game with a container stores its records in it. -/
theorem packRecords_packed {extra : List UInt8} (hextra : game.extra = some extra)
    {container : Option (List UInt8)} {changed : List (String × List UInt8)}
    (h : game.packRecords records = .ok (container, changed)) : ∃ bytes,
      (Container.mk game.variant.layout extra (records.map (·.data))).toBytes = .ok bytes ∧
        container = some bytes ∧ changed = [] := by
  simp only [packRecords, hextra, Except.bind_eq_ok_iff, Except.mapError_eq_ok_iff,
    Except.pure_eq_ok_iff, Prod.mk.injEq] at h
  obtain ⟨bytes, hbytes, hcontainer, hchanged⟩ := h
  exact ⟨bytes, hbytes, hcontainer.symm, hchanged.symm⟩

/-- A game without a container stores the records that changed. -/
theorem packRecords_loose (hextra : game.extra = none)
    (hslots : records.map (·.slot) = game.records.map (·.slot)) {container : Option (List UInt8)}
    {changed : List (String × List UInt8)} (h : game.packRecords records = .ok (container, changed)) :
    container = none ∧ (∀ output ∈ changed, ∃ record ∈ records,
      output = (record.slot.name, record.data)) ∧
      ∀ record ∈ records, (record.slot.name, record.data) ∈ changed ∨ record ∈ game.records := by
  obtain ⟨hlength, hpair⟩ := List.forall₂_iff_zip.mp (forall₂_map_eq_iff.mpr hslots)
  simp only [packRecords, hextra, Except.pure_eq_ok_iff, Prod.mk.injEq] at h
  obtain ⟨rfl, rfl⟩ := h
  refine ⟨rfl, fun output houtput => ?_, fun record hrecord => ?_⟩
  · obtain ⟨⟨new, old⟩, hmem, rfl⟩ := List.mem_map.mp houtput
    exact ⟨new, (List.of_mem_zip (List.mem_filter.mp hmem).1).1, rfl⟩
  · rw [← List.map_fst_zip (Nat.le_of_eq hlength)] at hrecord
    obtain ⟨⟨new, old⟩, hmem, rfl⟩ := List.mem_map.mp hrecord
    by_cases hdata : new.data = old.data
    · have hsame : new = old := by
        have hslot := hpair hmem
        cases new
        cases old
        simp_all
      exact .inr (hsame ▸ (List.of_mem_zip hmem).2)
    · exact .inl (List.mem_map.mpr ⟨_, List.mem_filter.mpr ⟨hmem, decide_eq_true hdata⟩, rfl⟩)

/-- Records that only differ in their data are stored if these are not the old ones. -/
theorem packRecords_map (hextra : game.extra = none) (data : Record → List UInt8) :
    game.packRecords (game.records.map fun record => { record with data := data record }) =
      .ok (none, (game.records.filter fun record => data record ≠ record.data).map fun record =>
        (record.slot.name, data record)) := by
  simp only [packRecords, hextra, ← List.map_prod_right_eq_zip, List.filter_map, List.map_map]
  rfl

end records

/-- The table index of a game that has been loaded can be stored. -/
theorem tableIndex_stored (h : load variant files.source = .ok game) :
    TableIndex.Stored game.tableIndex := by
  obtain ⟨-, -, -, htables, -⟩ := load_eq_ok_iff.mp h
  have hnone : TableIndex.Stored [] := fun _ hentry => absurd hentry List.not_mem_nil
  unfold loadTableIndex at htables
  split at htables
  · obtain ⟨data, -, htables⟩ := Except.bind_eq_ok_iff.mp htables
    split at htables
    · rw [Except.mapError_eq_ok_iff] at htables
      exact TableIndex.stored_of_ofBytes htables
    · exact Except.ok.inj htables ▸ hnone
  · exact Except.ok.inj htables ▸ hnone

section reload

variable (h : rebuilt.Holds game stored assembled) (hreplaces : stored.Replaces game)
  (hsound : game.Sound) (hload : load game.variant files.source = .ok game)

include h hreplaces hsound hload

/-- The game is loaded where its base file and its records are found, and nothing else has the name of
    an index. -/
theorem load_install (houtputs : rebuilt.outputs game.variant = front ++ game.indexFiles assembled)
    (hfront : ∀ output ∈ front, game.variant.textIndex ≠ some output.1 ∧
      game.variant.tableIndex ≠ some output.1)
    (hbasefile : (rebuilt.install game.variant files)[game.variant.baseFile]? =
      some stored.basefile.toBytes)
    (hrecords : loadRecords game.variant (Game.slots game.variant game.textIndex game.tableIndex)
      (rebuilt.install game.variant files).source = .ok (stored.records, stored.extra)) :
    load game.variant (rebuilt.install game.variant files).source = .ok stored := by
  obtain ⟨-, -, htexts, htables, -⟩ := load_eq_ok_iff.mp hload
  have hstored := h.tableIndex ▸ hreplaces.tableIndex
  refine load_eq_ok_iff.mpr
    ⟨hreplaces.variant, ⟨_, hbasefile, hreplaces.basefile.ofBytes_toBytes⟩, ?_, ?_, ?_⟩
  · rw [loadTextIndex_install houtputs (fun output houtput => (hfront output houtput).1) hsound.variant,
      htexts, hreplaces.textIndex]
  · rw [loadTableIndex_install houtputs (fun output houtput => (hfront output houtput).2) htables hstored,
      h.tableIndex]
  · rw [Game.slots, hreplaces.textIndex, hreplaces.tableFiles]
    exact hrecords

/-- A game with a container is loaded again from the container that a rebuild answers. -/
theorem reload_packed {name : String} (hcontainer : game.variant.container = some name) :
    load game.variant (rebuilt.install game.variant files).source = .ok stored := by
  obtain ⟨-, -, -, -, hrecords⟩ := load_eq_ok_iff.mp hload
  obtain ⟨_, _, -, -, hslots, -, hextra⟩ := (loadRecords_packed_eq_ok_iff hcontainer).mp hrecords
  obtain ⟨changed, hpacked, hfiles⟩ := h.packed
  obtain ⟨bytes, hbytes, hstored, rfl⟩ := packRecords_packed hextra hpacked
  obtain ⟨hbasefile, -, hindexes⟩ := fixed_apart _ hsound.variant
  rw [hcontainer] at hindexes
  have hne : name ≠ game.variant.baseFile := fun heq => hbasefile (heq ▸ hcontainer)
  have houtputs : rebuilt.outputs game.variant =
      [(game.variant.baseFile, stored.basefile.toBytes), (name, bytes)] ++ game.indexFiles assembled := by
    rw [Rebuilt.outputs, hcontainer, hstored, hfiles, h.basefile]
    rfl
  have hfront : ∀ output ∈ [(game.variant.baseFile, stored.basefile.toBytes), (name, bytes)],
      game.variant.textIndex ≠ some output.1 ∧ game.variant.tableIndex ≠ some output.1 :=
    fun output houtput => hindexes output.1 (List.mem_map_of_mem (f := Prod.fst) houtput)
  refine load_install h hreplaces hsound hload houtputs hfront ?_
    ((loadRecords_packed_eq_ok_iff hcontainer).mpr ?_)
  · rw [← h.basefile]
    exact getElem?_install_basefile hsound.variant hfiles (List.forall_mem_nil _)
  · have hnonempty : stored.records.map (·.data) ≠ [] := by
      rw [← List.length_pos_iff, List.length_map, ← List.length_map (f := (·.slot)), hreplaces.slots,
        hslots]
      exact List.length_pos_iff.mpr (slots_ne_nil hsound.variant hcontainer _ _)
    have hcontainerIndexes := hindexes name (List.mem_cons_of_mem _ (List.mem_singleton.mpr rfl))
    refine ⟨bytes, _, ?_, Container.ofBytes_toBytes (layout_ne_classic _ hsound.variant) hnonempty hbytes,
      hreplaces.slots.trans hslots, rfl, hreplaces.extra.trans hextra⟩
    refine getElem?_install_front houtputs hcontainerIndexes.2 ?_ (.inr ?_)
    · simp [hne.symm]
    · simp

/-- A game without a container is loaded again from the files that a rebuild answers and those that it
    leaves as they are. -/
theorem reload_loose (hnames : game.NamesApart) (hcontainer : game.variant.container = none) :
    load game.variant (rebuilt.install game.variant files).source = .ok stored := by
  obtain ⟨hextra, hslots, hfound⟩ := records_of_load_loose hcontainer hload
  obtain ⟨changed, hpacked, hfiles⟩ := h.packed
  obtain ⟨hstored, hchanged, hkept⟩ := packRecords_loose hextra hreplaces.slots hpacked
  have hrecordNames : stored.records.map (·.slot.name) = game.fileNames := by
    rw [fileNames, ← names_slots hsound.variant hcontainer, ← hslots, ← hreplaces.slots, List.map_map]
    rfl
  have hname : ∀ record ∈ stored.records, record.slot.name ∈ game.fileNames := fun record hrecord =>
    hrecordNames ▸ List.mem_map_of_mem hrecord
  have houtputs : rebuilt.outputs game.variant =
      (game.variant.baseFile, stored.basefile.toBytes) :: changed ++ game.indexFiles assembled := by
    rw [Rebuilt.outputs, hcontainer, hfiles, h.basefile]
    rfl
  have hindexes := (fixed_apart _ hsound.variant).2.2 _ List.mem_cons_self
  refine load_install h hreplaces hsound hload houtputs ?_ ?_
    ((loadRecords_loose_eq_ok_iff hcontainer).mpr
      ⟨hreplaces.extra.trans hextra, hreplaces.slots.trans hslots, fun record hrecord => ?_⟩)
  · refine List.forall_mem_cons.mpr ⟨hindexes, fun output houtput => ?_⟩
    obtain ⟨record, hrecord, rfl⟩ := hchanged output houtput
    exact hnames.indexes _ (hname record hrecord)
  · rw [← h.basefile]
    refine getElem?_install_basefile hsound.variant hfiles fun output houtput heq => ?_
    obtain ⟨record, hrecord, rfl⟩ := hchanged output houtput
    exact hnames.basefile (heq ▸ hname record hrecord)
  · refine getElem?_install_front houtputs (hnames.indexes _ (hname record hrecord)).2
      (List.forall_mem_cons.mpr ⟨fun heq => ?_, fun output houtput heq => ?_⟩) ?_
    · have heq : game.variant.baseFile = record.slot.name := heq
      exact absurd (heq ▸ hname record hrecord) hnames.basefile
    · obtain ⟨other, hother, rfl⟩ := hchanged output houtput
      obtain rfl : other = record :=
        List.inj_on_of_nodup_map (hrecordNames ▸ hnames.apart) hother hrecord heq
      rfl
    · rcases hkept record hrecord with hnew | hold
      · exact .inr ⟨_, List.mem_cons_of_mem _ hnew, rfl⟩
      · exact .inl (hfound record hold)

/-- The files that a rebuild answers are loaded as the game that is stored in place of the old one. -/
theorem reload (hnames : game.NamesApart) :
    load game.variant (rebuilt.install game.variant files).source = .ok stored := by
  cases hcontainer : game.variant.container with
  | none => exact reload_loose h hreplaces hsound hload hnames hcontainer
  | some name => exact reload_packed h hreplaces hsound hload hcontainer

end reload

end Adventure.Game
