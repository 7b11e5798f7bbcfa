import Adventure.Proofs.Game.Listed
import Adventure.Proofs.Game.Loaded
import Adventure.Proofs.Strings.Index

namespace Adventure.Game

variable {game : Game} {texts front back : List (String × StringTable)} {text : String × StringTable}

/-- Where text files can start: the first number of all, and the upper bound of each file. -/
def textBounds (game : Game) : List Nat := TextIndex.firstBase :: game.textIndex.map (·.baseMax.toNat)

/-- A text file that holds strings. -/
def holdsStrings (text : String × StringTable) : Bool := !text.2.entries.isEmpty

private theorem mem_ids_iff_lt_stop {table : StringTable} {id : Nat} :
    id ∈ table.ids ↔ table.base ≤ id ∧ id < table.stop :=
  List.mem_range'_1

private theorem base_mem_ids_iff : text.2.base ∈ text.2.ids ↔ holdsStrings text := by
  rw [mem_ids_iff_lt_stop, StringTable.stop, holdsStrings, Bool.not_eq_true', List.isEmpty_eq_false_iff,
    ← List.length_pos_iff]
  omega

private theorem holdsStrings_of_mem_ids {id : Nat} (h : id ∈ text.2.ids) : holdsStrings text := by
  have hid := mem_ids_iff_lt_stop.mp h
  exact base_mem_ids_iff.mp (mem_ids_iff_lt_stop.mpr ⟨Nat.le_refl _, by omega⟩)

/-- A file holds strings if its record has bytes. -/
theorem map_holdsStrings (h : game.textTables = .ok texts) : texts.map holdsStrings =
    game.textIndex.map fun entry => !((game.record? entry.name).getD []).isEmpty := by
  have hlength : game.textIndex.length ≤ game.textBases.length :=
    Nat.le_of_eq (TextIndex.length_basesFrom _ _ _ _).symm
  have hmap : texts.map holdsStrings = (game.textIndex.zip game.textBases).map
      ((fun entry : TextIndexEntry => !((game.record? entry.name).getD []).isEmpty) ∘ Prod.fst) := by
    refine forall₂_map_eq_iff.mp ((textTables_eq_ok_iff.mp h).flip.imp ?_)
    rintro text ⟨entry, base⟩ ⟨-, data, hdata, htable⟩
    dsimp only [Function.comp_apply] at hdata ⊢
    rw [hdata, Option.getD_some, ← StringTable.toBytes_ofBytes htable, StringTable.isEmpty_toBytes,
      holdsStrings]
  rw [hmap, ← List.map_map, List.map_fst_zip hlength]

/-- A file that `front` stands before has the bound of its own place, and starts at the bound of as many
    places as files of `front` hold strings. -/
theorem textBounds_of_append (h : game.textTables = .ok (front ++ text :: back)) :
    game.textBounds[front.countP holdsStrings]? = some text.2.base ∧
      ∃ entry, game.textIndex[front.length]? = some entry ∧ entry.name = text.1 ∧
        game.textBounds[front.length + 1]? = some entry.baseMax.toNat ∧
        (game.textIndex.zip game.textBases)[front.length]? = some (entry, text.2.base) := by
  obtain ⟨hlength, hpairs⟩ := List.forall₂_iff_get.mp (textTables_eq_ok_iff.mp h)
  have hplace : front.length < (front ++ text :: back).length := by simp
  have hentry := hpairs front.length (hlength ▸ hplace) hplace
  generalize hpair : (game.textIndex.zip game.textBases).get ⟨front.length, hlength ▸ hplace⟩ = pair at hentry
  obtain ⟨entry, base⟩ := pair
  have htext : (front ++ text :: back).get ⟨front.length, hplace⟩ = text := by simp
  rw [htext] at hentry
  obtain ⟨hname, data, -, hread⟩ := hentry
  have hzip : (game.textIndex.zip game.textBases)[front.length]? = some (entry, base) := by
    rw [← hpair]
    exact List.getElem?_eq_getElem (hlength ▸ hplace)
  obtain ⟨hindex, hbase⟩ := List.getElem?_zip_eq_some.mp hzip
  obtain rfl : text.2.base = base := StringTable.ofBytes_base hread
  refine ⟨?_, entry, hindex, hname.symm, ?_, hzip⟩
  · have hcount : (game.textIndex.take front.length).countP
        (fun entry => !((game.record? entry.name).getD []).isEmpty) = front.countP holdsStrings := by
      have hmap := congrArg (List.take front.length) (map_holdsStrings h)
      rw [← List.map_take, ← List.map_take, List.take_left] at hmap
      have hcounts := congrArg (List.countP id) hmap
      rw [List.countP_map, List.countP_map] at hcounts
      exact hcounts.symm
    obtain ⟨hlt, -⟩ := List.getElem?_eq_some_iff.mp hindex
    have hbounds : game.textIndex.length ≤ (game.textIndex.map (·.baseMax.toNat)).length :=
      Nat.le_of_eq (List.length_map _).symm
    rw [← hbase, ← hcount]
    exact (TextIndex.getElem?_basesFrom (fun name => ((game.record? name).getD []).isEmpty) _ hbounds hlt).symm
  · rw [textBounds, List.getElem?_cons_succ, List.getElem?_map, hindex]
    rfl

/-- The bounds of text files that ascend from the first number of all. -/
theorem pairwise_textBounds (hascending : (game.textIndex.map (·.baseMax)).Pairwise (· < ·))
    (habove : ∀ entry ∈ game.textIndex, TextIndex.firstBase < entry.baseMax.toNat) :
    game.textBounds.Pairwise (· < ·) := by
  refine List.pairwise_cons.mpr ⟨List.forall_mem_map.mpr habove, ?_⟩
  exact List.pairwise_map.mpr ((List.pairwise_map.mp hascending).imp fun hless => hless)

section ascending

variable (hbounds : game.textBounds.Pairwise (· < ·))

include hbounds

private theorem textBounds_lt_iff {place other bound above : Nat}
    (hbound : game.textBounds[place]? = some bound)
    (habove : game.textBounds[other]? = some above) : bound < above ↔ place < other := by
  obtain ⟨hplace, rfl⟩ := List.getElem?_eq_some_iff.mp hbound
  obtain ⟨hother, rfl⟩ := List.getElem?_eq_some_iff.mp habove
  have hless := List.pairwise_iff_getElem.mp hbounds
  constructor
  · intro hlt
    rcases Nat.lt_trichotomy place other with hplaces | rfl | hplaces
    · exact hplaces
    · omega
    · have := hless other place hother hplace hplaces
      omega
  · exact hless place other hplace hother

/-- No file starts behind another that comes after it. -/
theorem base_le_of_mem (h : game.textTables = .ok (front ++ text :: back)) {other : String × StringTable}
    (hother : other ∈ back) : text.2.base ≤ other.2.base ∧ (holdsStrings text → text.2.base < other.2.base) := by
  obtain ⟨between, behind, rfl⟩ := List.append_of_mem hother
  have hsplit : front ++ text :: (between ++ other :: behind) =
      (front ++ text :: between) ++ other :: behind := by simp
  obtain ⟨hbase, -⟩ := textBounds_of_append h
  obtain ⟨hbase', -⟩ := textBounds_of_append (hsplit ▸ h)
  rw [List.countP_append, List.countP_cons] at hbase'
  constructor
  · refine Nat.le_of_not_lt fun hlt => ?_
    have := (textBounds_lt_iff hbounds hbase' hbase).mp hlt
    omega
  · intro hholds
    rw [if_pos hholds] at hbase'
    exact (textBounds_lt_iff hbounds hbase hbase').mpr (by omega)

end ascending

/-- The text file that goes with a script file: `front` are the files before it, none of which has its name,
    and `back` those behind it. Its strings are numbered up to before `high`. -/
structure Paired (game : Game) (script : String) (front : List (String × StringTable))
    (text : String × StringTable) (back : List (String × StringTable)) (high : Nat) : Prop where
  texts : game.textTables = .ok (front ++ text :: back)
  name : text.1 = pairedText script
  first : ∀ before ∈ front, before.1 ≠ pairedText script
  bound : game.textBounds[front.length + 1]? = some high

/-- A name among those of the text files is that of a first one. -/
theorem exists_paired (h : game.textTables = .ok texts) {script : String}
    (hpaired : pairedText script ∈ texts.map Prod.fst) :
    ∃ front text back high, texts = front ++ text :: back ∧ game.Paired script front text back high := by
  obtain ⟨named, hnamed, hname⟩ := List.mem_map.mp hpaired
  have hsome : (texts.find? (·.1 = pairedText script)).isSome :=
    List.find?_isSome.mpr ⟨named, hnamed, decide_eq_true hname⟩
  obtain ⟨text, hfind⟩ := Option.isSome_iff_exists.mp hsome
  obtain ⟨hname, front, back, rfl, hfirst⟩ := List.find?_eq_some_iff_append.mp hfind
  obtain ⟨-, entry, -, -, hbound, -⟩ := textBounds_of_append h
  exact ⟨front, text, back, entry.baseMax.toNat, rfl, h, of_decide_eq_true hname,
    fun before hbefore => by simpa using hfirst before hbefore, hbound⟩

namespace Paired

variable {script : String} {high : Nat} (h : game.Paired script front text back high)

include h

/-- Where a release limits script files to their own text files, they may use the numbers from the first
    string of theirs on, up to its bound. -/
theorem textRange?_eq (hnarrow : game.variant.narrowTexts) :
    game.textRange? script = some (text.2.base, high) := by
  obtain ⟨-, entry, hentry, hname, hbound, hplace⟩ := textBounds_of_append h.texts
  obtain rfl : high = entry.baseMax.toNat := Option.some.inj (h.bound.symm.trans hbound)
  have hfind : (game.textIndex.zip game.textBases).find? (·.1.name = pairedText script) =
      some (entry, text.2.base) := by
    obtain ⟨hlt, hpair⟩ := List.getElem?_eq_some_iff.mp hplace
    refine List.find?_eq_some_iff_getElem.mpr
      ⟨decide_eq_true (hname.trans h.name), front.length, hlt, hpair, fun place hbefore => ?_⟩
    have hnames : ((front ++ text :: back).map Prod.fst)[place]? = (game.textIndex.map (·.name))[place]? := by
      rw [names_textTables h.texts]
    rw [List.map_append, List.getElem?_append_left (by simpa using hbefore), List.getElem?_map,
      List.getElem?_map, List.getElem?_eq_getElem hbefore] at hnames
    have hindex : place < game.textIndex.length := by
      obtain ⟨hlt', -⟩ := List.getElem?_eq_some_iff.mp hentry
      omega
    rw [List.getElem?_eq_getElem hindex] at hnames
    have hother := h.first _ (List.getElem_mem hbefore)
    rw [Option.some.inj hnames] at hother
    simpa using hother
  rw [textRange?, if_pos hnarrow, hfind]
  rfl

variable (hbounds : game.textBounds.Pairwise (· < ·))

include hbounds

private theorem base_lt_high : text.2.base < high := by
  obtain ⟨hbase, -⟩ := textBounds_of_append h.texts
  exact (textBounds_lt_iff hbounds hbase h.bound).mpr (Nat.lt_succ_of_le List.countP_le_length)

/-- The range has no number of a file behind, if as many bounds are passed up to them as there are files, or
    if they have no numbers. -/
theorem back_apart_iff : (∀ other ∈ back, ∀ id ∈ other.2.ids, id < text.2.base ∨ high ≤ id) ↔
    (∀ file ∈ front ++ [text], holdsStrings file) ∨ ∀ file ∈ back, ¬ holdsStrings file := by
  have hback : ∀ {between other behind}, back = between ++ other :: behind →
      game.textBounds[(front ++ [text] ++ between).countP holdsStrings]? = some other.2.base := by
    rintro between other behind rfl
    have hsplit : front ++ text :: (between ++ other :: behind) =
        (front ++ [text] ++ between) ++ other :: behind := by simp
    exact (textBounds_of_append (hsplit ▸ h.texts)).1
  have hlength : (front ++ [text]).length = front.length + 1 := List.length_append
  constructor
  · intro hapart
    refine or_iff_not_imp_right.mpr fun hsome => ?_
    obtain ⟨some, hmem, hsome⟩ : ∃ file ∈ back, holdsStrings file := by simpa using hsome
    obtain ⟨other, hfind⟩ := Option.isSome_iff_exists.mp (List.find?_isSome.mpr ⟨some, hmem, hsome⟩)
    obtain ⟨hholds, between, behind, rfl, hnone⟩ := List.find?_eq_some_iff_append.mp hfind
    have hbase := hback rfl
    have hbetween : between.countP holdsStrings = 0 :=
      List.countP_eq_zero.mpr fun file hfile => by simpa using hnone file hfile
    rw [List.countP_append, hbetween, Nat.add_zero] at hbase
    have hother : other ∈ between ++ other :: behind := by simp
    have hle := (base_le_of_mem hbounds h.texts hother).1
    rcases hapart other hother other.2.base (base_mem_ids_iff.mpr hholds) with hlt | hhigh
    · omega
    refine List.countP_eq_length.mp (Nat.le_antisymm List.countP_le_length ?_)
    refine Nat.le_of_not_lt fun hfewer => ?_
    have := (textBounds_lt_iff hbounds hbase h.bound).mpr (by omega)
    omega
  · rintro (hall | hnone) other hother id hid
    · obtain ⟨between, behind, hsplit⟩ := List.append_of_mem hother
      have hbase := hback hsplit
      rw [List.countP_append, List.countP_eq_length.mpr hall, hlength] at hbase
      have hle : high ≤ other.2.base := by
        refine Nat.le_of_not_lt fun hlt => ?_
        have := (textBounds_lt_iff hbounds hbase h.bound).mp hlt
        omega
      exact .inr (Nat.le_trans hle (mem_ids_iff_lt_stop.mp hid).1)
    · exact absurd (holdsStrings_of_mem_ids hid) (hnone other hother)

/-- The range has no number of a file before, unless the file itself has no strings and starts among theirs. -/
theorem front_apart_iff (hdisjoint : ∀ other ∈ front, other.2.ids.Disjoint text.2.ids) :
    (∀ other ∈ front, ∀ id ∈ other.2.ids, id < text.2.base ∨ high ≤ id) ↔
      (¬ holdsStrings text → ∀ file ∈ front, file.2.stop ≤ text.2.base) := by
  have hfront : ∀ other ∈ front, other.2.base ≤ text.2.base := by
    intro other hother
    obtain ⟨before, between, rfl⟩ := List.append_of_mem hother
    have hsplit : before ++ other :: between ++ text :: back =
        before ++ other :: (between ++ text :: back) := by simp
    exact (base_le_of_mem hbounds (hsplit ▸ h.texts) (by simp)).1
  have hlt := h.base_lt_high hbounds
  constructor
  · intro hapart _ other hother
    refine Nat.le_of_not_lt fun hstop => ?_
    have hid := mem_ids_iff_lt_stop.mpr ⟨hfront other hother, hstop⟩
    have := hapart other hother text.2.base hid
    omega
  · intro hstops other hother id hid
    by_cases hholds : holdsStrings text
    · have hle := hfront other hother
      have hids := mem_ids_iff_lt_stop.mp hid
      refine .inl (Nat.lt_of_not_le fun hafter => ?_)
      exact hdisjoint other hother (mem_ids_iff_lt_stop.mpr ⟨hle, by omega⟩) (base_mem_ids_iff.mpr hholds)
    · exact .inl (Nat.lt_of_lt_of_le (mem_ids_iff_lt_stop.mp hid).2 (hstops hholds other hother))

end Paired

/-- Where bounds ascend and no two text files share a number, a script file may use all numbers of its own
    text file below its bound. Those of other files are out of its range exactly where the bounds do not lag:
    all files up to its own hold strings, or none behind it does. In the latter case, a text file without
    strings must also start behind those before it. -/
theorem textRange?_keeps_to_paired_text (hnarrow : game.variant.narrowTexts)
    (htexts : game.textTables = .ok texts)
    (hascending : (game.textIndex.map (·.baseMax)).Pairwise (· < ·))
    (habove : ∀ entry ∈ game.textIndex, TextIndex.firstBase < entry.baseMax.toNat)
    (hdisjoint : texts.Pairwise fun one other => one.2.ids.Disjoint other.2.ids) {script : String}
    (hpaired : pairedText script ∈ texts.map Prod.fst) :
    ∃ front text back high, texts = front ++ text :: back ∧ game.Paired script front text back high ∧
      game.textRange? script = some (text.2.base, high) ∧
      (∀ id ∈ text.2.ids, id < high → text.2.base ≤ id) ∧
      ((∀ other ∈ front ++ back, ∀ id ∈ other.2.ids, id < text.2.base ∨ high ≤ id) ↔
        (∀ file ∈ front ++ [text], holdsStrings file) ∨
          ((∀ file ∈ back, ¬ holdsStrings file) ∧
            (¬ holdsStrings text → ∀ file ∈ front, file.2.stop ≤ text.2.base))) := by
  obtain ⟨front, text, back, high, rfl, h⟩ := exists_paired htexts hpaired
  have hbounds := pairwise_textBounds hascending habove
  have hfront : ∀ other ∈ front, other.2.ids.Disjoint text.2.ids := fun other hother =>
    (List.pairwise_append.mp hdisjoint).2.2 other hother text List.mem_cons_self
  refine ⟨front, text, back, high, rfl, h, h.textRange?_eq hnarrow,
    fun id hid _ => (mem_ids_iff_lt_stop.mp hid).1, ?_⟩
  rw [List.forall_mem_append, h.front_apart_iff hbounds hfront, h.back_apart_iff hbounds]
  constructor
  · rintro ⟨hstops, hall | hnone⟩
    · exact .inl hall
    · exact .inr ⟨hnone, hstops⟩
  · rintro (hall | ⟨hnone, hstops⟩)
    · exact ⟨fun hempty => absurd (hall text (by simp)) hempty, .inl hall⟩
    · exact ⟨hstops, .inr hnone⟩

/-- A game whose first text file has no strings, so that each file behind it starts at the bound of the one
    before the last. -/
def laggingGame : Game where
  variant := .simon1
  basefile := ⟨⟨0, 128, 0, 1, 2⟩, ⟨0, [[65]]⟩, []⟩
  textIndex := [⟨"TEXT01", 0x8010⟩, ⟨"TEXT02", 0x8020⟩, ⟨"TEXT03", 0x8030⟩]
  tableIndex := [⟨"TABLES02", [⟨1, 5⟩]⟩]
  records := [⟨⟨"TEXT01", .text⟩, []⟩, ⟨⟨"TEXT02", .text⟩, [66, 0]⟩, ⟨⟨"TEXT03", .text⟩, [67, 0]⟩,
    ⟨⟨"TABLES02", .tables⟩, [0, 0, 0, 1, 0, 0, 255, 0, 1, 0, 1]⟩]
  extra := none

def laggingTexts : List (String × StringTable) :=
  [("TEXT01", ⟨0x8000, []⟩), ("TEXT02", ⟨0x8000, [[66]]⟩), ("TEXT03", ⟨0x8010, [[67]]⟩)]

private theorem textTables_lagging : laggingGame.textTables = .ok laggingTexts :=
  Except.eq_ok_of_toOption (by decide +kernel)

/-- The second of three files starts where the first one should, so that its range takes in the third. -/
theorem textRange?_keeps_to_paired_text_lagging :
    laggingGame.textRange? "TABLES02" = some (0x8000, 0x8020) ∧
      ¬ ∀ other ∈ [("TEXT01", ⟨0x8000, []⟩), ("TEXT03", ⟨0x8010, [[67]]⟩)],
        ∀ id ∈ (other : String × StringTable).2.ids, id < 0x8000 ∨ 0x8020 ≤ id := by
  obtain ⟨front, text, back, high, hsplit, hpaired, hrange, -, hiff⟩ :=
    textRange?_keeps_to_paired_text rfl textTables_lagging (by decide +kernel) (by decide +kernel)
      (by simp [laggingTexts, StringTable.ids]) (show pairedText "TABLES02" ∈ _ by decide +kernel)
  have hname : text.1 = "TEXT02" := hpaired.name.trans (by decide +kernel)
  obtain ⟨rfl, rfl, rfl⟩ : front = [("TEXT01", ⟨0x8000, []⟩)] ∧ text = ("TEXT02", ⟨0x8000, [[66]]⟩) ∧
      back = [("TEXT03", ⟨0x8010, [[67]]⟩)] := by
    rcases front with _ | ⟨first, _ | ⟨second, _ | ⟨third, front⟩⟩⟩ <;>
      simp only [laggingTexts, List.cons_append, List.nil_append, List.cons.injEq] at hsplit
    · exact absurd (hsplit.1 ▸ hname) (by decide)
    · exact ⟨by rw [hsplit.1], hsplit.2.1.symm, hsplit.2.2.symm⟩
    · exact absurd (hsplit.2.2.1 ▸ hname) (by decide)
    · simp at hsplit
  have hhigh : laggingGame.textRange? "TABLES02" = some (0x8000, 0x8020) := by decide +kernel
  obtain ⟨-, rfl⟩ := Prod.mk.inj (Option.some.inj (hrange.symm.trans hhigh))
  exact ⟨hrange, fun hapart => absurd (hiff.mp hapart) (by decide +kernel)⟩

end Adventure.Game
