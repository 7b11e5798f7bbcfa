import Adventure.Proofs.Game.Edited

namespace Adventure

/-- A key of a map that a fold makes has been in the map, or one of the steps has put it there. -/
theorem mem_foldl {α β : Type} {step : Std.TreeMap Nat β → α → Std.TreeMap Nat β} {key : Nat}
    {puts : α → Prop} (hstep : ∀ map item, key ∈ step map item → puts item ∨ key ∈ map) {items : List α}
    {map : Std.TreeMap Nat β} (h : key ∈ items.foldl step map) :
    (∃ item ∈ items, puts item) ∨ key ∈ map := by
  induction items generalizing map with
  | nil => exact .inr h
  | cons item items ih =>
    rcases ih h with ⟨found, hfound, hputs⟩ | hmap
    · exact .inl ⟨found, List.mem_cons_of_mem _ hfound, hputs⟩
    · exact (hstep map item hmap).imp_left fun hputs => ⟨item, List.mem_cons_self, hputs⟩

private theorem eq_or_mem_of_mem_insert {β : Type} {map : Std.TreeMap Nat β} {key other : Nat} {value : β}
    (h : key ∈ map.insert other value) : key = other ∨ key ∈ map :=
  (Std.TreeMap.mem_insert.mp h).imp_left fun heq => (Std.LawfulEqCmp.compare_eq_iff_eq.mp heq).symm

/-- Items that have a name are among those that are numbered. -/
theorem Item.mem_names {items : List Item} {number : Nat} (h : number ∈ names items) :
    first ≤ number ∧ number < first + items.length := by
  have hputs : ∃ item ∈ numbered items, number = item.1 := by
    refine (mem_foldl ?_ h).resolve_right Std.TreeMap.not_mem_emptyc
    rintro map ⟨other, item⟩ hmem
    dsimp only at hmem
    split at hmem
    · exact eq_or_mem_of_mem_insert hmem
    · exact .inr hmem
  obtain ⟨⟨_, item⟩, hitem, rfl⟩ := hputs
  obtain ⟨⟨_, index⟩, hindex, heq⟩ := List.mem_map.mp hitem
  cases heq
  have := List.snd_lt_of_mem_zipIdx hindex
  omega

namespace Game

open Listing

theorem mem_addTexts {texts : Std.TreeMap Nat String} {table : StringTable} {language : Language}
    {id : Nat} (h : id ∈ addTexts texts table language) : id ∈ table.ids ∨ id ∈ texts := by
  have hputs : (∃ pair ∈ table.ids.zip (table.decode language), id = pair.1) ∨ id ∈ texts := by
    refine mem_foldl ?_ h
    rintro map ⟨other, text⟩ hmem
    exact eq_or_mem_of_mem_insert hmem
  refine hputs.imp_left ?_
  rintro ⟨⟨_, text⟩, hmem, rfl⟩
  exact (List.of_mem_zip hmem).1

/-- The strings that scripts may refer to are those of the base file and of the text files. -/
theorem mem_texts {game : Game} {tables : List (String × StringTable)} {language : Language} {id : Nat}
    (h : id ∈ game.texts tables language) :
    id ∈ game.basefile.strings.ids ∨ ∃ file ∈ tables, id ∈ file.2.ids := by
  have hputs : (∃ file ∈ tables, id ∈ file.2.ids) ∨ id ∈ addTexts ∅ game.basefile.strings language := by
    refine mem_foldl ?_ h
    rintro map ⟨file, table⟩ hmem
    exact mem_addTexts hmem
  rcases hputs with hfile | hglobal
  · exact .inr hfile
  · exact .inl ((mem_addTexts hglobal).resolve_right Std.TreeMap.not_mem_emptyc)

/-- What an operand refers to is part of a rebuilt game: one of its strings, whose number is a word of
    32 bits, or one of its items, if it is one at all. -/
def Parts.Grounded (parts : Parts) (game : Game) : Operand → Prop
  | .text (.id id) => ∃ n, id = .ofNat n ∧ (n ∈ (parts.basefile game).strings.ids ∨
      ∃ file ∈ parts.tables.files, n ∈ file.2.ids)
  | .item (.id item) => item = 0 ∨ Item.first ≤ item.toNat ∧
      item.toNat < (parts.basefile game).header.totalItems.toNat + Item.first
  | _ => True

namespace Parts.Of

variable {game : Game} {language : Language} {edits : Edits} {rebuilt : Rebuilt} {parts : Parts}

/-- The global strings of a rebuilt game begin with those that the game had, and hold the declared ones. -/
theorem mem_ids_strings (h : parts.Of game language edits rebuilt) (hsound : game.Sound) {id : Nat}
    (hid : id ∈ game.basefile.strings.ids ∨ (parts.assemblies.pool.get? id).isSome) :
    id ∈ (parts.basefile game).strings.ids := by
  obtain ⟨encoded, hencoded, hstrings, -⟩ := withDeclared_eq_ok h.strings
  have hgrown := h.grown hsound
  have hfirst : parts.assemblies.pool.first = parts.tables.basefile.entries.length :=
    (Assemblies.foldlM_extends h.assemblies).1.first
  have hlength : encoded.length = parts.assemblies.pool.added.length := hencoded.length_eq.symm
  have hold : game.basefile.strings.base = 0 := StringTable.ofBytes_base hsound.basefile.strings
  have hglobal : game.basefile.strings.entries.length ≤ parts.tables.basefile.entries.length := hgrown.global
  rw [h.strings_basefile, hstrings, StringTable.ids, List.mem_range'_1, hgrown.base, List.length_append,
    hlength]
  rcases hid with hid | hid
  · rw [StringTable.ids, List.mem_range'_1, hold] at hid
    omega
  · obtain ⟨text, htext⟩ := Option.isSome_iff_exists.mp hid
    unfold StringPool.get? at htext
    split at htext
    · cases htext
    case _ hlow =>
      obtain ⟨hlt, -⟩ := List.getElem?_eq_some_iff.mp htext
      omega

/-- A string that an assembled file may refer to is one of the rebuilt game. -/
theorem mem_ids (h : parts.Of game language edits rebuilt) (hsound : game.Sound) {id : Nat}
    (hid : (parts.assembler game language).knowsText parts.assemblies.pool id) :
    id ∈ (parts.basefile game).strings.ids ∨ ∃ file ∈ parts.tables.files, id ∈ file.2.ids := by
  rw [Assembler.knowsText, Bool.or_eq_true] at hid
  rcases hid with htext | hdeclared
  · have hmem : id ∈ game.texts parts.texts language :=
      Std.TreeMap.mem_iff_isSome_getElem?.mpr htext
    rcases mem_texts hmem with hglobal | ⟨file, hfile, hid⟩
    · exact .inl (h.mem_ids_strings hsound (.inl hglobal))
    · obtain ⟨edited, hedited, -, hids⟩ := forall₂_exists_right (h.grown hsound).files hfile
      exact .inr ⟨edited, hedited, hids ▸ hid⟩
  · exact .inl (h.mem_ids_strings hsound (.inr hdeclared))

/-- The number of items that references are checked against is not above the rebuilt one. -/
theorem itemCount_le (h : parts.Of game language edits rebuilt) :
    (parts.assembler game language).symbols.itemCount ≤
      (parts.basefile game).header.totalItems.toNat + Item.first ∧
    parts.items.length ≤ (parts.basefile game).header.totalItems.toNat := by
  obtain ⟨⟨c, hread, -⟩, -⟩ := resident_eq_ok h.resident
  obtain ⟨hold, -⟩ := Item.readAll_eq_ok_iff.mp hread
  obtain ⟨-, hcount⟩ := editItems_eq_ok h.resident h.items
  have htotal : (parts.basefile game).header.totalItems.toNat =
      parts.items.length + game.basefile.dynamicCount :=
    (Basefile.counts_of_setObjectCount h.counted).2
  have hassembler : (parts.assembler game language).symbols.itemCount =
      min (game.basefile.header.totalItems.toNat + Item.first +
        (parts.items.length - parts.resident.items.length)) 0xffffffff := rfl
  rw [htotal, hassembler]
  unfold Basefile.objectCount at hold
  unfold Basefile.dynamicCount
  omega

/-- An item that has a name or a number in use is one of the rebuilt game. -/
theorem item_range (h : parts.Of game language edits rebuilt) {n : Nat}
    (hitem : ((parts.assembler game language).symbols.itemName? n).isSome ∨ n = 0 ∨
      1 < n ∧ n < (parts.assembler game language).symbols.itemCount) :
    n = 0 ∨ Item.first ≤ n ∧ n < (parts.basefile game).header.totalItems.toNat + Item.first := by
  obtain ⟨hused, hnamed⟩ := h.itemCount_le
  rcases hitem with hname | hzero | ⟨hlow, hhigh⟩
  · obtain ⟨name, hname⟩ := Option.isSome_iff_exists.mp hname
    obtain ⟨id, hid, -⟩ := Option.bind_eq_some_iff.mp hname
    have hmem : n ∈ Item.names parts.items :=
      Std.TreeMap.mem_iff_isSome_getElem?.mpr (Option.isSome_of_eq_some hid)
    obtain ⟨hlow, hhigh⟩ := Item.mem_names hmem
    exact .inr ⟨hlow, by omega⟩
  · exact .inl hzero
  · exact .inr ⟨hlow, by omega⟩

/-- An operand that refers to what the sections are assembled with refers to a part of the rebuilt game. -/
theorem grounded (h : parts.Of game language edits rebuilt) (hsound : game.Sound) {operand : Operand}
    (hrefers : (parts.assembler game language).Refers parts.assemblies.pool operand) :
    parts.Grounded game operand := by
  cases operand with
  | text ref =>
    cases ref with
    | id id =>
      obtain ⟨n, rfl, hknown⟩ := hrefers
      exact ⟨n, rfl, h.mem_ids hsound hknown⟩
    | _ => trivial
  | item ref =>
    cases ref with
    | id item =>
      obtain ⟨n, rfl, hitem⟩ := hrefers
      have hbound := (parts.basefile game).header.totalItems.toNat_lt
      have hrange := h.item_range hitem
      unfold Parts.Grounded
      dsimp only
      rw [Item.first] at hrange ⊢
      by_cases hword : n < 0x100000000
      · rw [UInt32.toNat_ofNat_of_lt' hword]
        refine hrange.imp_left fun hzero => ?_
        rw [hzero]
        rfl
      · obtain rfl : n = 0x100000000 := by omega
        exact .inl rfl
    | _ => trivial
  | _ => trivial

end Parts.Of

/-- Each script that a rebuild assembles, the resident one or that of a record, is read from the bytes
    that are stored for it, whatever follows them unless it has no tables at all. Its commands refer to
    strings of the rebuilt game, declared ones included, and to items that its counter includes. -/
theorem reassembled_references_exist {variant : Variant} (hvariant : variant ∈ Variant.all)
    {files : Files} {game : Game} (hload : load variant files.source = .ok game) {language : Language}
    {edits : Edits} {rebuilt : Rebuilt} (hrebuild : game.rebuild language edits = .ok rebuilt) :
    ∃ parts : Parts, parts.Of game language edits rebuilt ∧ ∀ record ∈ parts.assemblies.records,
      ∃ script, Script.ofRecord game.variant.set record.data = .ok script ∧
        (script.tables ≠ [] → ∀ tail, Script.ofBlock game.variant.set (record.data ++ tail) =
          .ok (script, record.data.length)) ∧
        ∀ command ∈ script.commands, ∀ operand ∈ command.operands, parts.Grounded game operand := by
  have hsound := sound_of_load hvariant hload
  obtain ⟨parts, hparts⟩ := rebuild_eq_ok_iff.mp hrebuild
  refine ⟨parts, hparts, fun record hrecord => ?_⟩
  obtain ⟨_, file, _, before, after, hsections, -, hadded, hextends⟩ := hparts.exists_section hrecord
  obtain ⟨_, sources, tables, hbody, -, htables, hbytes⟩ :=
    Assembler.assembleWith_eq_ok_iff.mp hadded.assembled
  obtain ⟨hspelled, labels, hmatches⟩ := hparts.record_spelled hsound hsections hbody htables hbytes
  refine ⟨.ofTables tables, Script.ofRecord_eq_ok_iff.mpr ⟨rfl, hspelled⟩, fun hne tail => ?_,
    fun command hcommand operand hoperand => ?_⟩
  · generalize record.data = bytes at hspelled ⊢
    cases hspelled with
    | empty => exact absurd rfl hne
    | tables hlisted => exact Script.ofBlock_of_listed hlisted tail
  · obtain ⟨kind, token, hmeans⟩ := exists_of_mem_operands hmatches hcommand hoperand
    exact hparts.grounded hsound (hmeans.refers.mono hextends)

theorem reassembled_references_exist_scripted :
    ∃ parts : Parts, parts.Of scriptedGame .english scriptedEdits scriptedRebuilt ∧
      ∀ record ∈ parts.assemblies.records, ∃ script,
        Script.ofRecord scriptedGame.variant.set record.data = .ok script ∧
          (script.tables ≠ [] → ∀ tail, Script.ofBlock scriptedGame.variant.set (record.data ++ tail) =
            .ok (script, record.data.length)) ∧
          ∀ command ∈ script.commands, ∀ operand ∈ command.operands, parts.Grounded scriptedGame operand :=
  reassembled_references_exist (by simp [Variant.all]) load_scripted rebuild_scripted

end Game

end Adventure
