import Adventure.Proofs.Game.References
import Adventure.Proofs.Listing.Faults

namespace Adventure

/-- A key stays in a map that a fold makes, and each item whose step puts it there does so for good. -/
theorem mem_foldl_of {α β : Type} {step : Std.TreeMap Nat β → α → Std.TreeMap Nat β} {key : Nat}
    (puts : α → Prop) (hstep : ∀ map item, puts item ∨ key ∈ map → key ∈ step map item) {items : List α}
    {map : Std.TreeMap Nat β} (h : (∃ item ∈ items, puts item) ∨ key ∈ map) : key ∈ items.foldl step map := by
  induction items generalizing map with
  | nil =>
    rcases h with ⟨item, hitem, -⟩ | hmap
    · cases hitem
    · exact hmap
  | cons item items ih =>
    refine ih ?_
    rcases h with ⟨found, hfound, hputs⟩ | hmap
    · rcases List.mem_cons.mp hfound with rfl | hfound
      · exact .inr (hstep map found (.inl hputs))
      · exact .inl ⟨found, hfound, hputs⟩
    · exact .inr (hstep map item (.inr hmap))

namespace Game

open Listing

private theorem mem_addTexts_iff {texts : Std.TreeMap Nat String} {table : StringTable} {language : Language}
    {id : Nat} : id ∈ addTexts texts table language ↔ id ∈ table.ids ∨ id ∈ texts := by
  refine ⟨mem_addTexts, fun h => ?_⟩
  have hlength : table.ids.length ≤ (table.decode language).length := by
    rw [StringTable.ids, StringTable.decode, List.length_range', List.length_map]
  refine mem_foldl_of (fun pair => pair.1 = id) ?_ (h.imp_left fun hid => ?_)
  · rintro map ⟨other, text⟩ hmem
    exact Std.TreeMap.mem_insert.mpr (hmem.imp_left fun heq => Std.LawfulEqCmp.compare_eq_iff_eq.mpr heq)
  · rw [← List.map_fst_zip hlength] at hid
    obtain ⟨pair, hpair, hfirst⟩ := List.mem_map.mp hid
    exact ⟨pair, hpair, hfirst⟩

/-- The strings that scripts may refer to are exactly those of the base file and of the text files. -/
theorem mem_texts_iff {game : Game} {tables : List (String × StringTable)} {language : Language} {id : Nat} :
    id ∈ game.texts tables language ↔
      id ∈ game.basefile.strings.ids ∨ ∃ file ∈ tables, id ∈ file.2.ids := by
  refine ⟨mem_texts, fun h => ?_⟩
  refine mem_foldl_of (fun file : String × StringTable => id ∈ file.2.ids) ?_ ?_
  · rintro map ⟨file, table⟩ hmem
    exact mem_addTexts_iff.mpr hmem
  · exact h.symm.imp_right fun hglobal => mem_addTexts_iff.mpr (.inl hglobal)

/-- What a rebuild has made when it comes to the scripts. `texts` are the strings of the text files before
    they are edited, `tables` all strings as they are stored. -/
structure Prepared where
  texts : List (String × StringTable)
  lines : List StringEntry
  tables : StringTables
  resident : Resident
  items : List Item
  objects : List UInt8
  sections : List SourceFile

namespace Prepared

variable {prepared : Prepared} {game : Game} {language : Language} {edits : Edits}

structure Of (prepared : Prepared) (game : Game) (language : Language) (edits : Edits) : Prop where
  texts : game.textTables = .ok prepared.texts
  lines : edits.lines = .ok prepared.lines
  tables : (StringsDocument.group prepared.lines).foldlM (StringTables.edit game.variant language)
    ⟨game.basefile.strings, prepared.texts⟩ = .ok prepared.tables
  resident : game.resident = .ok prepared.resident
  items : game.editItems prepared.resident edits.objects = .ok (prepared.items, prepared.objects)
  sections : edits.sections game.variant = .ok prepared.sections

/-- What scripts are assembled with: the strings as they were, and the items as they are edited. -/
def assembler (prepared : Prepared) (game : Game) (language : Language) : Assembler :=
  ⟨game.variant.set, ⟨game.texts prepared.texts language, Item.names prepared.items,
    game.itemCount (prepared.items.length - prepared.resident.items.length)⟩⟩

/-- The pool in which no string is declared yet. -/
def pool (prepared : Prepared) (game : Game) : StringPool :=
  .bounded prepared.tables.basefile.entries.length game.globalLimit

/-- A string that is stored before scripts are assembled. -/
def Stored (prepared : Prepared) (id : Nat) : Prop :=
  id ∈ prepared.tables.basefile.ids ∨ ∃ file ∈ prepared.tables.files, id ∈ file.2.ids

/-- A string that the game has had. -/
def Existed (prepared : Prepared) (game : Game) (id : Nat) : Prop :=
  id ∈ game.basefile.strings.ids ∨ ∃ file ∈ prepared.texts, id ∈ file.2.ids

/-- The strings that the game has had are known by their numbers. -/
theorem isSome_text?_iff {id : Nat} :
    ((prepared.assembler game language).symbols.text? id).isSome ↔ prepared.Existed game id :=
  Std.TreeMap.mem_iff_isSome_getElem?.symm.trans mem_texts_iff

/-- Of the strings that are stored, a script knows those that the game has had. -/
theorem Of.knowsText_iff (h : prepared.Of game language edits) (hsound : game.Sound) {id : Nat}
    (hstored : prepared.Stored id) (pool : StringPool) (hpool : (prepared.pool game).Extends pool) :
    (prepared.assembler game language).knowsText pool id ↔ prepared.Existed game id := by
  have hgrown := StringTables.grown_foldlM_edit (StringTable.ofBytes_base hsound.basefile.strings) h.tables
  have hdeclared : (pool.get? id).isSome → prepared.Existed game id := by
    intro hid
    rcases hstored with hglobal | ⟨file, hfile, hid'⟩
    · rw [StringTable.ids, List.mem_range'_1, hgrown.base] at hglobal
      have hfirst : pool.first = prepared.tables.basefile.entries.length := hpool.first
      rw [StringPool.get?, if_pos (by omega)] at hid
      cases hid
    · obtain ⟨old, hold, -, hids⟩ := forall₂_exists_left hgrown.files hfile
      exact .inr ⟨old, hold, hids ▸ hid'⟩
  rw [Assembler.knowsText, Bool.or_eq_true, isSome_text?_iff]
  exact or_iff_left_of_imp hdeclared

end Prepared

/-- A section in which a reference is at fault has an operand that is. -/
theorem Assemblies.add_eq_error {game : Game} {resident : Resident} {assembler : Assembler}
    {before : Assemblies} {file : SourceFile} {error : Listing.Error}
    (h : add game resident assembler before file = .error (.listing error)) (hreference : error.isReference) :
    ∃ line kind token pool after, assembler.operand ⟨file.name, game.textsOf file.name⟩ line kind token pool =
      .error error after := by
  unfold add at h
  cases hbody : file.body with
  | raw =>
    simp only [hbody] at h
    cases h
  | tables ranges tables =>
    simp only [hbody] at h
    split at h
    · cases h
      cases hreference
    · split at h
      · cases h
      · split at h
        · cases h
          cases hreference
        · rcases Except.bind_eq_error_iff.mp h with hassembled | ⟨_, -, hdone⟩
          · obtain ⟨cause, hcause, hlisting⟩ := Except.mapError_eq_error_iff.mp hassembled
            cases hlisting
            exact (Assembler.assembleWith_faults (Prod.ext hcause rfl)).operand hreference
          · cases hdone

/-- Storing the strings and the records fails in its own ways. -/
theorem withDeclared_ne_listing {game : Game} {strings : StringTable} {added : List String} {language : Language}
    (error : Listing.Error) : game.withDeclared strings added language ≠ .error (.listing error) := by
  intro h
  unfold withDeclared at h
  rcases Except.bind_eq_error_iff.mp h with hencode | ⟨table, -, hlimit⟩
  · obtain ⟨pair, -, htext⟩ := Except.mapM_eq_error (Except.map_eq_error_iff.mp hencode)
    obtain ⟨_, -, hcause⟩ := Except.mapError_eq_error_iff.mp htext
    cases hcause
  · dsimp only at hlimit
    split at hlimit <;> cases hlimit

private theorem packRecords_ne_listing {game : Game} {records : List Record} (error : Listing.Error) :
    game.packRecords records ≠ .error (.listing error) := by
  intro h
  unfold packRecords at h
  split at h
  · rcases Except.bind_eq_error_iff.mp h with hpack | ⟨_, -, hdone⟩
    · obtain ⟨_, -, hcause⟩ := Except.mapError_eq_error_iff.mp hpack
      cases hcause
    · cases hdone
  · cases h

/-- The scripts document is read before its sections are assembled. -/
theorem ofDocument_eq {game : Game} {edits : Edits} {resident : Resident} {sections : List SourceFile}
    (h : edits.sections game.variant = .ok sections) (symbols : Symbols) (pool : StringPool) :
    Assemblies.ofDocument game resident symbols pool edits.scripts =
      sections.foldlM (Assemblies.add game resident ⟨game.variant.set, symbols⟩) ⟨[], pool⟩ := by
  unfold Edits.sections at h
  unfold Assemblies.ofDocument
  cases hdocument : edits.scripts with
  | none =>
    rw [hdocument] at h
    cases h
    rfl
  | some document =>
    rw [hdocument] at h
    cases hrebuild : game.variant.scriptRebuild with
    | false =>
      rw [hrebuild] at h
      cases h
      rfl
    | true =>
      simp only [hrebuild, if_true] at h
      simp only [h, Bool.not_true, Bool.false_eq_true, if_false, Except.mapError, bind, Except.bind]

/-- The strings document is read and put into the tables before anything is done with them. -/
theorem editStrings_eq {game : Game} {language : Language} {edits : Edits} {α : Type} {lines : List StringEntry}
    {stored tables : StringTables} {next : StringTables → Except Error α} {result : Except Error α}
    (hlines : edits.lines = .ok lines)
    (htables : (StringsDocument.group lines).foldlM (StringTables.edit game.variant language) stored =
      .ok tables)
    (h : (match edits.strings with
      | some document => stored.editAll game.variant language document >>= next
      | none => pure stored >>= next) = result) : next tables = result := by
  unfold Edits.lines at hlines
  cases hdocument : edits.strings with
  | none =>
    rw [hdocument] at hlines h
    cases hlines
    cases htables
    exact h
  | some document =>
    rw [hdocument] at hlines h
    dsimp only at hlines
    simp only [StringTables.editAll, hlines, Except.mapError, bind, Except.bind] at h
    rw [htables] at h
    exact h

namespace Prepared

variable {prepared : Prepared} {game : Game} {language : Language} {edits : Edits}

/-- A rebuild that is prepared finds fault with a script only when it assembles the sections. -/
theorem Of.rebuild_eq_error (h : prepared.Of game language edits) {error : Listing.Error}
    (hrebuild : game.rebuild language edits = .error (.listing error)) :
    prepared.sections.foldlM (Assemblies.add game prepared.resident (prepared.assembler game language))
      ⟨[], prepared.pool game⟩ = .error (.listing error) := by
  unfold rebuild at hrebuild
  rcases Except.bind_eq_error_iff.mp hrebuild with hfail | ⟨texts, htexts, hrebuild⟩
  · rw [h.texts] at hfail
    cases hfail
  cases h.texts.symm.trans htexts
  have hrebuild := editStrings_eq h.lines h.tables hrebuild
  rcases Except.bind_eq_error_iff.mp hrebuild with hfail | ⟨resident, hresident, hrebuild⟩
  · rw [h.resident] at hfail
    cases hfail
  cases h.resident.symm.trans hresident
  rcases Except.bind_eq_error_iff.mp hrebuild with hfail | ⟨items, hitems, hrebuild⟩
  · rw [h.items] at hfail
    cases hfail
  cases h.items.symm.trans hitems
  dsimp only at hrebuild
  rw [ofDocument_eq h.sections] at hrebuild
  rcases Except.bind_eq_error_iff.mp hrebuild with hfail | ⟨assemblies, -, hrebuild⟩
  · exact hfail
  rcases Except.bind_eq_error_iff.mp hrebuild with hfail | ⟨strings, -, hrebuild⟩
  · exact absurd hfail (withDeclared_ne_listing error)
  rcases Except.bind_eq_error_iff.mp hrebuild with hfail | ⟨counted, -, hrebuild⟩
  · obtain ⟨_, -, hcause⟩ := Except.mapError_eq_error_iff.mp hfail
    cases hcause
  rcases Except.bind_eq_error_iff.mp hrebuild with hfail | ⟨packed, -, hrebuild⟩
  · exact absurd hfail (packRecords_ne_listing error)
  · cases hrebuild

/-- A reference that a rebuild finds fault with is one of an operand. -/
theorem Of.exists_operand (h : prepared.Of game language edits) {error : Listing.Error}
    (hreference : error.isReference) (hrebuild : game.rebuild language edits = .error (.listing error)) :
    ∃ file line kind token pool after, (prepared.assembler game language).operand ⟨file, game.textsOf file⟩ line
      kind token pool = .error error after := by
  obtain ⟨file, -, before, hadd⟩ := Except.foldlM_eq_error (h.rebuild_eq_error hrebuild)
  exact ⟨file.name, Assemblies.add_eq_error hadd hreference⟩

/-- A number of a stored string, in a script that may use it, is accepted exactly if the game has had the
    string: the strings that the strings document puts behind the global ones are not known yet. Of the
    others, no rebuild says that there is no such string or that it does not belong to the file. -/
theorem numbered_text_accepted {variant : Variant} (hvariant : variant ∈ Variant.all) {files : Files}
    (hload : load variant files.source = .ok game) (h : prepared.Of game language edits) {token : String}
    {id : Nat} (hid : Text.decimal? 0x100000000 token.toList = some id) (hplus : token.toList.head? ≠ some '+')
    (hstored : prepared.Stored id) :
    (∀ file line pool, (prepared.pool game).Extends pool → Target.allows ⟨file, game.textsOf file⟩ id →
      ((prepared.assembler game language).operand ⟨file, game.textsOf file⟩ line .text token pool =
          .ok (.known (.text (.id (.ofNat id)))) pool ↔ prepared.Existed game id) ∧
      ((prepared.assembler game language).operand ⟨file, game.textsOf file⟩ line .text token pool =
          .error (.unresolvedReference line token) pool ↔ ¬ prepared.Existed game id)) ∧
    (prepared.Existed game id → ∀ line,
      game.rebuild language edits ≠ .error (.listing (.unresolvedReference line token))) ∧
    (∀ file, Target.allows ⟨file, game.textsOf file⟩ id → ∀ line,
      game.rebuild language edits ≠ .error (.listing (.textOutOfRange line id file))) := by
  have hsound := sound_of_load hvariant hload
  have hknown := h.knowsText_iff hsound hstored
  refine ⟨fun file line pool hpool hallows => ?_, fun hexisted line hrebuild => ?_,
    fun file hallows line hrebuild => ?_⟩
  · rw [operand_decimal hid hplus, if_pos hallows, ← hknown pool hpool]
    split
    case _ hknows => simp [hknows]
    case _ hunknown => simp [hunknown]
  · obtain ⟨file, line', kind, token', pool, after, hfails⟩ := h.exists_operand rfl hrebuild
    rcases operand_fault hfails rfl with ⟨_, -, -, heq⟩ | ⟨heq, hunknown⟩
    · cases heq
    · cases heq
      exact hunknown id hid (Bool.or_eq_true_iff.mpr (.inl (isSome_text?_iff.mpr hexisted)))
  · obtain ⟨file', line', kind, token', pool, after, hfails⟩ := h.exists_operand rfl hrebuild
    rcases operand_fault hfails rfl with ⟨_, -, hforbidden, heq⟩ | ⟨heq, -⟩
    · cases heq
      exact hforbidden hallows
    · cases heq

end Prepared

/-- A document that lists a string behind the global one of `scriptedFiles`, and a script that names it. -/
def appendedEdits : Edits where
  strings := some "GAMEPC\t0\tA\nGAMEPC\t1\tN\n"
  scripts := some "== FILE S1 2:6\n== TABLE 2\n==>\n\tMSG 1\n"
  objects := none

def appendedTexts : List (String × StringTable) := [("T1", ⟨0x8000, [[66]]⟩)]

def appendedLines : List StringEntry := [⟨"GAMEPC", 0, "A", none⟩, ⟨"GAMEPC", 1, "N", none⟩]

def appendedSections : List SourceFile :=
  [⟨1, "S1", .tables [⟨2, 6⟩] [⟨2, 2, [⟨3, none, [⟨4, none, none, "MSG", ["1"]⟩]⟩]⟩]⟩]

/-- The new string is stored, but its number is not known. -/
theorem numbered_text_accepted_appended : ∃ prepared : Prepared,
    prepared.Of scriptedGame .english appendedEdits ∧ prepared.Stored 1 ∧ ¬ prepared.Existed scriptedGame 1 ∧
      (prepared.assembler scriptedGame .english).operand ⟨"S1", scriptedGame.textsOf "S1"⟩ 4 .text "1"
        (prepared.pool scriptedGame) = .error (.unresolvedReference 4 "1") (prepared.pool scriptedGame) := by
  obtain ⟨resident, hresident⟩ : ∃ resident, scriptedGame.resident = .ok resident := by
    have hok : scriptedGame.resident.isOk := by decide +kernel
    cases hresident : scriptedGame.resident with
    | ok resident => exact ⟨resident, rfl⟩
    | error =>
      rw [hresident] at hok
      cases hok
  let prepared : Prepared := ⟨appendedTexts, appendedLines, ⟨⟨0, [[65], [78]]⟩, appendedTexts⟩, resident,
    resident.items, scriptedGame.basefile.data.take resident.objectsEnd, appendedSections⟩
  have hprepared : prepared.Of scriptedGame .english appendedEdits :=
    ⟨show scriptedGame.textTables = .ok appendedTexts by decide +kernel,
      show appendedEdits.lines = .ok appendedLines by decide +kernel,
      show (StringsDocument.group appendedLines).foldlM (StringTables.edit scriptedGame.variant .english)
        ⟨scriptedGame.basefile.strings, appendedTexts⟩ = .ok ⟨⟨0, [[65], [78]]⟩, appendedTexts⟩ by decide +kernel,
      hresident, rfl,
      show appendedEdits.sections scriptedGame.variant = .ok appendedSections by decide +kernel⟩
  have hstored : prepared.Stored 1 :=
    .inl (show 1 ∈ (⟨0, [[65], [78]]⟩ : StringTable).ids by decide)
  have hnew : ¬ prepared.Existed scriptedGame 1 :=
    show ¬(1 ∈ scriptedGame.basefile.strings.ids ∨ ∃ file ∈ appendedTexts, 1 ∈ file.2.ids) by decide
  obtain ⟨hchecked, -⟩ := Prepared.numbered_text_accepted (by simp [Variant.all]) load_scripted hprepared
    (show Text.decimal? 0x100000000 "1".toList = some 1 by decide +kernel) (by decide +kernel) hstored
  exact ⟨prepared, hprepared, hstored, hnew,
    (hchecked "S1" 4 _ (.refl _) (by decide +kernel)).2.mpr hnew⟩

end Game

end Adventure
