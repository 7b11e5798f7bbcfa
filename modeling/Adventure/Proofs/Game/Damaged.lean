import Adventure.Proofs.Game.Edited
import Adventure.Proofs.Game.Kept
import Adventure.Proofs.Listing.Voiced

namespace Adventure.Game

open Listing

/-- The game with other bytes in one of its records. -/
def damage (game : Game) (index : Nat) (data : List UInt8) : Game :=
  { game with records := game.records.modify index fun record => { record with data := data } }

/-- What is listed of a script file and said of it as a failure: its tables, or the reason why it cannot be
    read. -/
inductive Listed (context : Labels → Context) (name : String) (ranges : List TableRange)
    (script : Except DecodeError Labelled) : List Char → List (String × DecodeError) → Prop
  | tables {found : Script} {labels : Labels} (h : script = .ok (found, labels)) :
      Listed context name ranges script ((context labels).file name ranges found.tables) []
  | raw {error : DecodeError} (h : script = .error error) :
      Listed context name ranges script (rawFile name error.message) [(name, error)]

private theorem exists_listed (context : Labels → Context) (name : String) (ranges : List TableRange)
    (script : Except DecodeError Labelled) : Listed context name ranges script
      (listing context ⟨name, ranges, script⟩) (failures [⟨name, ranges, script⟩]) := by
  cases script with
  | ok found => exact .tables rfl
  | error error => exact .raw rfl

/-- A text that is the same, but for notes of voices if the release is spoken. -/
def SameUpToVoices (spoken : Bool) (text text' : List Char) : Prop :=
  if spoken then ∃ bare, Unvoiced text bare ∧ Unvoiced text' bare else text' = text

/-- What two extractions have in common, where the second one has been made with `data` in place of a script
    record. Between the other files, in order, stands what is listed of that record; the sections of the
    others are the same up to notes of voices, and so are the columns of the strings up to the last one. -/
structure Contained (game : Game) (record : Record) (data : List UInt8) (extraction again : Extraction) :
    Prop where
  objects : again.objects = extraction.objects
  strings : ∃ lines lines', extraction.strings = StringsDocument.render lines ∧
    again.strings = StringsDocument.render lines' ∧
    List.Forall₂ (fun line line' : StringEntry => line'.file = line.file ∧ line'.id = line.id ∧
      line'.text = line.text ∧ (game.variant.hasVoices = false → line' = line)) lines lines'
  files : ∃ context context' resident front ranges back own own' failed failed',
    game.resident = .ok resident ∧
    game.scriptFiles resident =
      .ok (front ++ ⟨record.slot.name, ranges, decodeRecord game.variant.set ranges record.data⟩ :: back) ∧
    Listed context record.slot.name ranges (decodeRecord game.variant.set ranges record.data) own failed ∧
    Listed context' record.slot.name ranges (decodeRecord game.variant.set ranges data) own' failed' ∧
    extraction.scripts =
      String.ofList (front.flatMap (listing context) ++ own ++ back.flatMap (listing context)) ∧
    again.scripts =
      String.ofList (front.flatMap (listing context') ++ own' ++ back.flatMap (listing context')) ∧
    (∀ file ∈ front ++ back,
      SameUpToVoices game.variant.hasVoices (listing context file) (listing context' file)) ∧
    extraction.failures = failures front ++ failed ++ failures back ∧
    again.failures = failures front ++ failed' ++ failures back

section documents

variable (game : Game) (language : Language) (tables : List (String × StringTable)) (resident : Resident)

/-- The voices that the documents show. -/
def shown (found : List ScriptFile) : Option VoiceMap :=
  if game.variant.hasVoices then some (game.voices resident.items found) else none

def symbols : Symbols := ⟨game.texts tables language, Item.names resident.items, game.itemCount 0⟩

/-- What scripts are listed with, when the voices of strings are known. -/
def contextOf (voices : Option VoiceMap) (labels : Labels) : Context :=
  ⟨game.variant.set, labels, game.symbols language tables resident, voices⟩

/-- The lines of the strings document. -/
def lines (voices : Option VoiceMap) : List StringEntry :=
  ((game.variant.baseFile, game.basefile.strings) :: tables).flatMap fun (file, table) =>
    stringEntries voices language file table

/-- The documents of a game, from what it has been taken apart into. -/
def documents (found : List ScriptFile) : Extraction where
  strings := StringsDocument.render (game.lines language tables (game.shown resident found))
  scripts := String.ofList (found.flatMap
    (listing (game.contextOf language tables resident (game.shown resident found))))
  objects := Item.renderAll resident.items (game.symbols language tables resident)
  failures := failures found
  voices := game.voices resident.items found

variable {game language tables resident}

theorem extract_eq_ok_iff {extraction : Extraction} : game.extract language = .ok extraction ↔
    ∃ tables resident found, game.textTables = .ok tables ∧ game.resident = .ok resident ∧
      game.scriptFiles resident = .ok found ∧ game.documents language tables resident found = extraction := by
  unfold extract
  simp only [Except.bind_eq_ok_iff, Except.pure_eq_ok_iff]
  constructor
  · rintro ⟨tables, htables, resident, hresident, found, hfound, hdocuments⟩
    exact ⟨tables, resident, found, htables, hresident, hfound, hdocuments⟩
  · rintro ⟨tables, resident, found, htables, hresident, hfound, hdocuments⟩
    exact ⟨tables, htables, resident, hresident, found, hfound, hdocuments⟩

/-- The section of a file is the same up to notes, whatever is known of voices. -/
theorem listing_sameUpToVoices (found found' : List ScriptFile) (file : ScriptFile) :
    SameUpToVoices game.variant.hasVoices
      (listing (game.contextOf language tables resident (game.shown resident found)) file)
      (listing (game.contextOf language tables resident (game.shown resident found')) file) := by
  have hbare : ∀ voices, Unvoiced (listing (game.contextOf language tables resident voices) file)
      (listing (game.contextOf language tables resident none) file) := by
    intro voices
    unfold listing
    cases file.script with
    | ok labelled => exact Context.file_unvoiced _ _ _ _
    | error error => exact .refl _
  unfold SameUpToVoices
  split
  · exact ⟨_, hbare _, hbare _⟩
  case _ hsilent =>
    unfold shown
    rw [if_neg hsilent, if_neg hsilent]

/-- The lines of the strings document have the same columns but for the voices. -/
theorem lines_same (found found' : List ScriptFile) :
    List.Forall₂ (fun line line' : StringEntry => line'.file = line.file ∧ line'.id = line.id ∧
      line'.text = line.text ∧ (game.variant.hasVoices = false → line' = line))
      (game.lines language tables (game.shown resident found))
      (game.lines language tables (game.shown resident found')) := by
  refine List.rel_flatMap (R := Eq) (List.forall₂_refl _) ?_
  rintro ⟨file, table⟩ _ rfl
  refine List.rel_map (R := Eq) ?_ (List.forall₂_refl (table.ids.zip (table.decode language)))
  rintro ⟨id, text⟩ _ rfl
  refine ⟨rfl, rfl, rfl, fun hsilent => ?_⟩
  unfold shown
  rw [hsilent]
  rfl

/-- Documents that are made from the same files but one, which holds a script record. -/
theorem documents_contained {record : Record} {data : List UInt8} (front : List ScriptFile)
    {back : List ScriptFile} {ranges : List TableRange} {old new : ScriptFile}
    (hold : old = ⟨record.slot.name, ranges, decodeRecord game.variant.set ranges record.data⟩)
    (hnew : new = ⟨record.slot.name, ranges, decodeRecord game.variant.set ranges data⟩)
    (hresident : game.resident = .ok resident)
    (hfound : game.scriptFiles resident = .ok (front ++ old :: back)) :
    game.Contained record data (game.documents language tables resident (front ++ old :: back))
      (game.documents language tables resident (front ++ new :: back)) where
  objects := rfl
  strings := ⟨_, _, rfl, rfl, lines_same _ _⟩
  files := by
    refine ⟨game.contextOf language tables resident (game.shown resident (front ++ old :: back)),
      game.contextOf language tables resident (game.shown resident (front ++ new :: back)), resident, front,
      ranges, back, _, _, _, _, hresident, hold ▸ hfound, exists_listed _ _ _ _, exists_listed _ _ _ _, ?_, ?_,
      fun file _ => listing_sameUpToVoices _ _ file, ?_, ?_⟩
    · rw [← hold, documents, List.flatMap_append, List.flatMap_cons, List.append_assoc]
    · rw [← hnew, documents, List.flatMap_append, List.flatMap_cons, List.append_assoc]
    · rw [← hold, documents, failures, failures, failures, failures, ← List.filterMap_append,
        ← List.filterMap_append, List.append_assoc]
      rfl
    · rw [← hnew, documents, failures, failures, failures, failures, ← List.filterMap_append,
        ← List.filterMap_append, List.append_assoc]
      rfl

end documents

section records

variable {game : Game} {index : Nat} {record : Record}

private theorem exists_split (hrecord : game.records[index]? = some record) (data : List UInt8) :
    ∃ front back, game.records = front ++ record :: back ∧
      (game.damage index data).records = front ++ ⟨record.slot, data⟩ :: back := by
  obtain ⟨hlt, rfl⟩ := List.getElem?_eq_some_iff.mp hrecord
  refine ⟨game.records.take index, game.records.drop (index + 1), ?_, ?_⟩
  · rw [List.getElem_cons_drop, List.take_append_drop]
  · rw [damage, List.modify_eq_take_cons_drop hlt]

/-- Every slot has the name and the kind that it had. -/
theorem slots_damage (hrecord : game.records[index]? = some record) (data : List UInt8) :
    (game.damage index data).records.map (·.slot) = game.records.map (·.slot) := by
  obtain ⟨front, back, hrecords, hdamaged⟩ := exists_split hrecord data
  rw [hrecords, hdamaged, List.map_append, List.map_append]
  rfl

/-- What is found by another name is what was found. -/
theorem record?_damage (hrecord : game.records[index]? = some record) (data : List UInt8) {name : String}
    (hname : name ≠ record.slot.name) : (game.damage index data).record? name = game.record? name := by
  obtain ⟨front, back, hrecords, hdamaged⟩ := exists_split hrecord data
  have hother : decide (record.slot.name = name) = false := decide_eq_false fun heq => hname heq.symm
  rw [record?, record?, hrecords, hdamaged, List.find?_append, List.find?_append]
  simp only [List.find?_cons, hother]

end records

variable {variant : Variant} {files : Files} {game : Game} {index : Nat} {record : Record}

/-- The record itself is found with its new bytes. -/
theorem record?_damage_self (hvariant : variant ∈ Variant.all) (hload : load variant files.source = .ok game)
    (hnames : game.SlotsApart) (hrecord : game.records[index]? = some record)
    (hkind : record.slot.kind = .tables) (data : List UInt8) :
    (game.damage index data).record? record.slot.name = some data := by
  have hslots : (game.damage index data).records.map (·.slot) =
      Game.slots variant game.textIndex game.tableIndex := (slots_damage hrecord data).trans (slots_of_load hload)
  have hothers : ∀ slot ∈ game.records.map (·.slot), slot.kind = .other → slot.name ∉ game.fileNames :=
    List.forall_mem_map.mpr hnames.others
  have hdamaged : (game.damage index data).SlotsApart := by
    refine ⟨hnames.apart, fun other hother => ?_⟩
    have hslot : other.slot ∈ (game.damage index data).records.map (·.slot) := List.mem_map_of_mem hother
    rw [slots_damage hrecord data] at hslot
    exact hothers other.slot hslot
  obtain ⟨front, back, -, hsplit⟩ := exists_split hrecord data
  have hmem : (⟨record.slot, data⟩ : Record) ∈ (game.damage index data).records := by simp [hsplit]
  exact record?_of_mem hvariant hslots hdamaged hmem (by simp [hkind])

/-- The script file of an entry of the table index. -/
def indexedFile (game : Game) (entry : TableIndexEntry) : Except Error ScriptFile := do
  let some data := game.record? entry.file | throw (.missingFile entry.file)
  return ⟨entry.file, entry.ranges, decodeRecord game.variant.set entry.ranges data⟩

/-- The resident script, which is listed before the script files. -/
def residentFile (game : Game) (resident : Resident) : ScriptFile :=
  ⟨game.variant.baseFile, [], resident.script >>= fun (script, _) => labelled script⟩

theorem scriptFiles_eq_ok_iff {resident : Resident} {found : List ScriptFile} :
    game.scriptFiles resident = .ok found ↔ ∃ listed, game.tableIndex.mapM game.indexedFile = .ok listed ∧
      game.residentFile resident :: listed = found := by
  refine Except.bind_eq_ok_iff.trans (exists_congr fun listed => and_congr_right fun _ => ?_)
  simp only [Except.pure_eq_ok_iff, residentFile]

/-- The record is one among those of the other script files, which stay as they are. -/
theorem exists_indexedFiles (hvariant : variant ∈ Variant.all) (hload : load variant files.source = .ok game)
    (hnames : game.SlotsApart) (hrecord : game.records[index]? = some record)
    (hkind : record.slot.kind = .tables) (data : List UInt8) {listed : List ScriptFile}
    (hlisted : game.tableIndex.mapM game.indexedFile = .ok listed) : ∃ front ranges back,
      listed = front ++ ⟨record.slot.name, ranges, decodeRecord game.variant.set ranges record.data⟩ :: back ∧
      game.tableIndex.mapM (game.damage index data).indexedFile =
        .ok (front ++ ⟨record.slot.name, ranges, decodeRecord game.variant.set ranges data⟩ :: back) := by
  have hslots := slots_of_load hload
  have hmem : record ∈ game.records := List.mem_of_getElem? hrecord
  obtain ⟨entry, hentry, hname⟩ := List.mem_map.mp ((name_mem_of_kind hload hmem).2 hkind)
  obtain ⟨before, behind, hindex⟩ := List.append_of_mem hentry
  have hnodup : (game.tableIndex.map (·.file)).Nodup := (List.nodup_append.mp hnames.apart).2.1
  rw [hindex, List.map_append, List.map_cons, List.nodup_middle, List.nodup_cons, List.mem_append] at hnodup
  obtain ⟨hother, -⟩ := hnodup
  have hsame : ∀ entries : List TableIndexEntry, entry.file ∉ entries.map (·.file) →
      entries.mapM (game.damage index data).indexedFile = entries.mapM game.indexedFile := by
    intro entries hnot
    refine Except.mapM_congr fun other hmem => ?_
    unfold indexedFile
    rw [record?_damage hrecord data fun heq => hnot (hname.trans heq.symm ▸ List.mem_map_of_mem hmem)]
    rfl
  have hold : game.indexedFile entry =
      .ok ⟨record.slot.name, entry.ranges, decodeRecord game.variant.set entry.ranges record.data⟩ := by
    rw [indexedFile, hname, record?_of_mem hvariant hslots hnames hmem (by simp [hkind])]
    rfl
  have hnew : (game.damage index data).indexedFile entry =
      .ok ⟨record.slot.name, entry.ranges, decodeRecord game.variant.set entry.ranges data⟩ := by
    rw [indexedFile, hname, record?_damage_self hvariant hload hnames hrecord hkind data]
    rfl
  rw [hindex, List.mapM_append, Except.bind_eq_ok_iff] at hlisted
  obtain ⟨front, hfront, hrest⟩ := hlisted
  rw [List.mapM_cons, hold] at hrest
  obtain ⟨rest, hrest, hlisted⟩ := Except.bind_eq_ok_iff.mp hrest
  obtain ⟨_, hfile, hrest⟩ := Except.bind_eq_ok_iff.mp hrest
  obtain ⟨back, hback, hcons⟩ := Except.bind_eq_ok_iff.mp hrest
  cases hfile
  cases hcons
  cases hlisted
  refine ⟨front, entry.ranges, back, rfl, ?_⟩
  rw [hindex, List.mapM_append, hsame before fun hmem => hother (.inl hmem), hfront, List.mapM_cons, hnew,
    hsame behind fun hmem => hother (.inr hmem), hback]
  rfl

/-- Whatever bytes stand in a script record, the game is extracted, and to the same documents but for what they
    say of this record. -/
theorem extract_damaged (hvariant : variant ∈ Variant.all) (hload : load variant files.source = .ok game)
    (hnames : game.SlotsApart) {language : Language} {extraction : Extraction}
    (hextract : game.extract language = .ok extraction) (hrecord : game.records[index]? = some record)
    (hkind : record.slot.kind = .tables) (data : List UInt8) :
    ∃ again, (game.damage index data).extract language = .ok again ∧
      game.Contained record data extraction again := by
  obtain ⟨tables, resident, found, htables, hresident, hfound, rfl⟩ := extract_eq_ok_iff.mp hextract
  obtain ⟨listed, hlisted, rfl⟩ := scriptFiles_eq_ok_iff.mp hfound
  obtain ⟨front, ranges, back, rfl, hagain⟩ :=
    exists_indexedFiles hvariant hload hnames hrecord hkind data hlisted
  have hname := (name_mem_of_kind hload (List.mem_of_getElem? hrecord)).2 hkind
  have htexts : (game.damage index data).textTables = game.textTables := by
    refine textTables_congr rfl fun entry hentry => record?_damage hrecord data ?_
    exact (List.nodup_append.mp hnames.apart).2.2 _ (List.mem_map_of_mem hentry) _ hname
  refine ⟨_, extract_eq_ok_iff.mpr ⟨tables, resident, _, htexts.trans htables, hresident,
    scriptFiles_eq_ok_iff.mpr ⟨_, hagain, rfl⟩, rfl⟩, ?_⟩
  exact documents_contained (game.residentFile resident :: front) rfl rfl hresident hfound

/-- In `scriptedFiles`, the script file is replaced by a byte that begins no table. -/
theorem extract_damaged_scripted : ∃ extraction again,
    scriptedGame.extract .english = .ok extraction ∧
      (scriptedGame.damage 1 [0xff]).extract .english = .ok again ∧
      again.failures.map Prod.fst = ["S1"] ∧
      scriptedGame.Contained ⟨⟨"S1", .tables⟩, [0, 0, 0, 1, 0, 0, 255, 0, 1, 0, 1]⟩ [0xff] extraction again := by
  have hok : (scriptedGame.extract .english).isOk := by decide +kernel
  have hnames : scriptedGame.SlotsApart :=
    NamesApart.slotsApart (show scriptedGame.NamesApart by decide +kernel)
  have hfailures : ((scriptedGame.damage 1 [0xff]).extract .english).toOption.map
      (fun again => again.failures.map Prod.fst) = some ["S1"] := by decide +kernel
  cases hextract : scriptedGame.extract .english with
  | error error =>
    rw [hextract] at hok
    cases hok
  | ok extraction =>
    obtain ⟨again, hagain, hcontained⟩ := extract_damaged (by simp [Variant.all]) load_scripted hnames hextract
      (show scriptedGame.records[1]? = some ⟨⟨"S1", .tables⟩, _⟩ from rfl) rfl [0xff]
    rw [hagain] at hfailures
    exact ⟨extraction, again, rfl, hagain, Option.some.inj hfailures, hcontained⟩

end Adventure.Game
