import Adventure.Proofs.Game.Reloaded

namespace Adventure

namespace Slot

variable {texts tables : List String}

/-- A segment that the indexes of a game fill. -/
def Segment.isIndexed : Segment → Bool
  | textFiles | tableFiles => true
  | _ => false

private theorem filter_kind_slots (segment : Segment) :
    (segment.slots texts tables).filter (·.kind ≠ .other) =
      if segment.isIndexed then segment.slots texts tables else [] := by
  cases segment with
  | textFiles => simp [Segment.isIndexed, Segment.slots]
  | tableFiles => simp [Segment.isIndexed, Segment.slots]
  | zones count => simp [Segment.isIndexed, Segment.slots, List.filter_flatMap]
  | numbered stem ending first last => simp [Segment.isIndexed, Segment.slots, List.filter_map]
  | named name => simp [Segment.isIndexed, Segment.slots]

private theorem filter_kind_layout (segments : List Segment) :
    (layout segments texts tables).filter (·.kind ≠ .other) =
      layout (segments.filter (·.isIndexed)) texts tables := by
  induction segments with
  | nil => rfl
  | cons segment segments ih =>
    unfold layout at ih ⊢
    rw [List.flatMap_cons, List.filter_append, filter_kind_slots, ih, List.filter_cons]
    split
    · rw [List.flatMap_cons]
    · rw [List.nil_append]

theorem name_mem_of_kind {segments : List Segment} {slot : Slot} (h : slot ∈ layout segments texts tables) :
    (slot.kind = .text → slot.name ∈ texts) ∧ (slot.kind = .tables → slot.name ∈ tables) := by
  obtain ⟨segment, -, hslot⟩ := List.mem_flatMap.mp h
  have hother : segment.isIndexed = false → slot.kind = .other := by
    intro hindexed
    have hnone : (segment.slots texts tables).filter (·.kind ≠ .other) = [] := by
      rw [filter_kind_slots, hindexed, if_neg Bool.false_ne_true]
    simpa using List.filter_eq_nil_iff.mp hnone slot hslot
  cases segment with
  | textFiles =>
    obtain ⟨name, hname, rfl⟩ := List.mem_map.mp hslot
    exact ⟨fun _ => hname, fun hkind => by cases hkind⟩
  | tableFiles =>
    obtain ⟨name, hname, rfl⟩ := List.mem_map.mp hslot
    exact ⟨fun hkind => (by cases hkind), fun _ => hname⟩
  | _ => simp [hother rfl]

end Slot

namespace Game

variable {variant : Variant} {files : Files} {game : Game}

/-- The indexes of a game fill one segment each. -/
theorem names_indexed_slots (hvariant : variant ∈ Variant.all) (texts : List TextIndexEntry)
    (tables : List TableIndexEntry) : ((Game.slots variant texts tables).filter (·.kind ≠ .other)).map
      (·.name) = texts.map (·.name) ++ tables.map (·.file) := by
  have hsegments : ∀ variant ∈ Variant.all,
      variant.segments.filter (·.isIndexed) = [.textFiles, .tableFiles] := by
    decide +kernel
  rw [Game.slots, Slot.filter_kind_layout, hsegments variant hvariant]
  simp only [Slot.layout, Slot.Segment.slots, List.flatMap_cons, List.flatMap_nil, List.append_nil,
    List.map_append, List.map_map]
  rfl

/-- The records of a game fill the slots of its release. -/
theorem slots_of_load (hload : load variant files.source = .ok game) :
    game.records.map (·.slot) = Game.slots variant game.textIndex game.tableIndex := by
  cases hcontainer : variant.container with
  | none => exact (records_of_load_loose hcontainer hload).2.1
  | some name =>
    obtain ⟨-, -, -, -, hrecords⟩ := load_eq_ok_iff.mp hload
    obtain ⟨_, _, -, -, hslots, -⟩ := (loadRecords_packed_eq_ok_iff hcontainer).mp hrecords
    exact hslots

variable {record : Record}

/-- The record of a text file has a name of the text index, and that of a script file one of the table
    index. -/
theorem name_mem_of_kind (hload : load variant files.source = .ok game) (hmem : record ∈ game.records) :
    (record.slot.kind = .text → record.slot.name ∈ game.textIndex.map (·.name)) ∧
      (record.slot.kind = .tables → record.slot.name ∈ game.tableIndex.map (·.file)) := by
  have hslot : record.slot ∈ game.records.map (·.slot) := List.mem_map_of_mem hmem
  rw [slots_of_load hload] at hslot
  exact Slot.name_mem_of_kind hslot

/-- The names of text and script files belong to one slot each. -/
structure SlotsApart (game : Game) : Prop where
  apart : game.fileNames.Nodup
  others : ∀ record ∈ game.records, record.slot.kind = .other → record.slot.name ∉ game.fileNames

theorem NamesApart.slotsApart (h : game.NamesApart) : game.SlotsApart := ⟨h.apart, h.others⟩

/-- The record of a text or script file is the one that is found by its name. -/
theorem record?_of_mem (hvariant : variant ∈ Variant.all)
    (hslots : game.records.map (·.slot) = Game.slots variant game.textIndex game.tableIndex)
    (hnames : game.SlotsApart) (hmem : record ∈ game.records) (hkind : record.slot.kind ≠ .other) :
    game.record? record.slot.name = some record.data := by
  have hindexed : (game.records.filter (·.slot.kind ≠ .other)).map (·.slot.name) = game.fileNames := by
    have hnamed := names_indexed_slots hvariant game.textIndex game.tableIndex
    rw [← hslots, List.filter_map, List.map_map] at hnamed
    exact hnamed
  have hlisted : record ∈ game.records.filter (·.slot.kind ≠ .other) :=
    List.mem_filter.mpr ⟨hmem, decide_eq_true hkind⟩
  have hname : record.slot.name ∈ game.fileNames :=
    hindexed ▸ List.mem_map_of_mem (f := fun record : Record => record.slot.name) hlisted
  obtain ⟨found, hother, hsame, hfound⟩ := exists_first hmem
  have hindexedOther : found ∈ game.records.filter (·.slot.kind ≠ .other) := by
    refine List.mem_filter.mpr ⟨hother, decide_eq_true fun hkind => ?_⟩
    exact hnames.others found hother hkind (hsame ▸ hname)
  obtain rfl : found = record :=
    List.inj_on_of_nodup_map (hindexed ▸ hnames.apart) hindexedOther hlisted hsame
  rw [record?, hfound]
  rfl

end Game

end Adventure
