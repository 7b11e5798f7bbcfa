import Adventure.Proofs.Text.Words
import Adventure.Proofs.World.Writing
import Adventure.World.Parse

namespace Adventure

open Text World

namespace Item

/-- A field of a block, and what a comment says of it. -/
structure Entry where
  key : String
  value : List Char
  text : Option String

def Entry.line (entry : Entry) : List Char := field entry.key entry.value entry.text

/-- What is read of a field. -/
def Entry.pair (entry : Entry) : String × List Char := (entry.key, trim entry.value)

def wordEntry (key : String) (value : UInt16) : Entry := ⟨key, decimal value.toNat, none⟩

def itemEntry (symbols : Symbols) (key : String) (item : UInt32) : Entry :=
  ⟨key, decimal item.toNat, symbols.itemName? item.toNat⟩

def textEntry (symbols : Symbols) (key : String) (text : UInt32) : Entry :=
  ⟨key, decimal text.toNat, symbols.text? text.toNat⟩

def exitEntry (symbols : Symbols) (number : Nat) : Option Exit → Entry
  | some exit => ⟨exitKey number, decimal exit.target.toNat ++ [' '] ++ exit.state.name.toList,
    symbols.itemName? exit.target.toNat⟩
  | none => ⟨exitKey number, ['-'], none⟩

/-- The doors from a number on. -/
def exitEntries (symbols : Symbols) (number : Nat) (exits : List (Option Exit)) : List Entry :=
  (exits.zipIdx number).map fun (exit, number) => exitEntry symbols number exit

def slotEntries (slots : List (Nat × UInt16)) : List Entry :=
  slots.map fun (bit, value) => wordEntry (ObjectField.name bit) value

/-- The flags from a number on. -/
def flagEntries (number : Nat) (flags : List UInt16) : List Entry :=
  (flags.zipIdx number).map fun (flag, number) => wordEntry s!"{number}" flag

def propertyEntries (symbols : Symbols) : Property → List Entry
  | .room table exits => wordEntry "TABLE" table :: exitEntries symbols 1 exits
  | .object name description slots flags =>
    [textEntry symbols "NAME" name] ++ (description.map (textEntry symbols "DESCRIPTION")).toList ++
      slotEntries slots ++ if flags = 0 then [] else [wordEntry "FLAGS" flags]
  | .superRoom id x y z exits =>
    [⟨"SUPER_ROOM", wordList [id, x, y, z], none⟩, ⟨"EXITS", wordList exits, none⟩]
  | .container volume flags => [wordEntry "VOLUME" volume, wordEntry "FLAGS" flags]
  | .chain item => [itemEntry symbols "ITEM" item]
  | .inherit item => [itemEntry symbols "ITEM" item]
  | .userFlag flags => flagEntries 1 flags

/-- The fields of an item itself. -/
def headerEntries (symbols : Symbols) (item : Item) : List Entry :=
  [ wordEntry "ADJECTIVE" item.adjective, wordEntry "NOUN" item.noun, wordEntry "STATE" item.state,
    itemEntry symbols "NEXT" item.next, itemEntry symbols "CHILD" item.child,
    itemEntry symbols "PARENT" item.parent, wordEntry "ACTOR_TABLE" item.actorTable,
    wordEntry "CLASS" item.className, ⟨"PROPERTIES", decimal item.propertiesInit.toNat, none⟩ ]

section lines

variable (symbols : Symbols)

private theorem line_exitEntry (number : Nat) (exit : Option Exit) :
    (exitEntry symbols number exit).line = exitField symbols number exit := by
  cases exit <;> rfl

theorem propertyFields_eq (property : Property) :
    propertyFields symbols property = (propertyEntries symbols property).map Entry.line := by
  cases property with
  | room table exits =>
    have hnumbers : exits.zipIdx 1 = exits.zipIdx.map fun pair => (pair.1, pair.2 + 1) :=
      List.zipIdx_succ
    simp only [propertyFields, propertyEntries, List.map_cons, exitEntries, List.map_map, hnumbers]
    congr 1
    refine List.map_congr_left fun pair _ => ?_
    exact (line_exitEntry symbols (pair.2 + 1) pair.1).symm
  | object name description slots flags =>
    simp only [propertyFields, propertyEntries, List.map_append, slotEntries, List.map_map]
    congr 1
    · cases description <;> rfl
    · split <;> rfl
  | superRoom => rfl
  | container => rfl
  | chain => rfl
  | inherit => rfl
  | userFlag flags =>
    have hnumbers : flags.zipIdx 1 = flags.zipIdx.map fun pair => (pair.1, pair.2 + 1) :=
      List.zipIdx_succ
    simp only [propertyFields, propertyEntries, flagEntries, List.map_map, hnumbers]
    rfl

theorem block_eq (number : Nat) (item : Item) :
    block symbols number item = ("== ITEM ".toList ++ decimal number ++ " ==".toList) ::
      (headerEntries symbols item).map Entry.line ++ item.properties.flatMap (propertyBlock symbols) := rfl

end lines

namespace Fields

/-- The fields that have been read, wherever they stand. Each key is there once. -/
structure Holds (fields : Fields) (entries : List (String × List Char)) : Prop where
  values : fields.values.map (fun (key, _, value) => (key, value)) = entries
  nodup : (entries.map Prod.fst).Nodup

namespace Holds

variable {fields : Fields} {entries front back : List (String × List Char)} {key : String}
  {value : List Char}

theorem keys (h : fields.Holds entries) : fields.values.map Prod.fst = entries.map Prod.fst := by
  rw [← h.values, List.map_map]
  rfl

theorem lookup_eq_none (h : fields.Holds entries) (hkey : key ∉ entries.map Prod.fst) :
    fields.values.lookup key = none := by
  rw [← h.keys] at hkey
  refine List.lookup_eq_none_iff.mpr fun field hfield => ?_
  have hne : key ≠ field.1 := by
    rintro rfl
    exact hkey (List.mem_map_of_mem hfield)
  simpa using hne

/-- A field that is not there is not found, and none is lost. -/
theorem take?_eq_none (h : fields.Holds entries) (hkey : key ∉ entries.map Prod.fst) :
    fields.take? key = (none, fields) := by
  have hfilter : fields.values.filter (·.1 ≠ key) = fields.values := by
    rw [← h.keys] at hkey
    refine List.filter_eq_self.mpr fun field hfield => ?_
    have hne : field.1 ≠ key := by
      rintro rfl
      exact hkey (List.mem_map_of_mem hfield)
    simpa using hne
  rw [take?, h.lookup_eq_none hkey, hfilter]

/-- A field is found wherever it is among the others, and these are kept. -/
theorem take? (h : fields.Holds (front ++ (key, value) :: back)) :
    ∃ line rest, fields.take? key = (some (line, value), rest) ∧ rest.Holds (front ++ back) := by
  obtain ⟨before, others, hvalues, hfront, hothers⟩ := List.map_eq_append_iff.mp h.values
  obtain ⟨⟨_, line, _⟩, after, rfl, heq, hback⟩ := List.map_eq_cons_iff.mp hothers
  cases heq
  have hnodup := h.nodup
  simp only [List.map_append, List.map_cons, List.nodup_append, List.nodup_cons, List.mem_cons] at hnodup
  obtain ⟨hfrontNodup, ⟨hnotBack, hbackNodup⟩, hapart⟩ := hnodup
  have hbefore : ∀ field ∈ before, field.1 ≠ key := by
    intro field hfield
    have hmem : field.1 ∈ front.map Prod.fst := by
      rw [← hfront, List.map_map]
      exact List.mem_map_of_mem (f := Prod.fst) hfield
    exact hapart _ hmem _ (.inl rfl)
  have hafter : ∀ field ∈ after, field.1 ≠ key := by
    rintro field hfield rfl
    refine hnotBack ?_
    rw [← hback, List.map_map]
    exact List.mem_map_of_mem (f := Prod.fst) hfield
  refine ⟨line, ⟨fields.line, before ++ after⟩, ?_, ?_, ?_⟩
  · have hlookup : fields.values.lookup key = some (line, value) := by
      refine List.lookup_eq_some_iff.mpr ⟨before, after, hvalues, fun field hfield => ?_⟩
      simpa using (hbefore field hfield).symm
    have hfilter : fields.values.filter (·.1 ≠ key) = before ++ after := by
      rw [hvalues, List.filter_append, List.filter_cons_of_neg (by simp)]
      congr 1
      · exact List.filter_eq_self.mpr fun field hfield => by simpa using hbefore field hfield
      · exact List.filter_eq_self.mpr fun field hfield => by simpa using hafter field hfield
    rw [Fields.take?, hlookup, hfilter]
  · rw [List.map_append, hfront, hback]
  · rw [List.map_append, List.nodup_append]
    exact ⟨hfrontNodup, hbackNodup, fun a ha b hb => hapart a ha b (.inr hb)⟩

theorem take (h : fields.Holds ((key, value) :: back)) :
    ∃ line rest, fields.take key = .ok ((line, value), rest) ∧ rest.Holds back := by
  have hfront : fields.Holds ([] ++ (key, value) :: back) := h
  obtain ⟨line, rest, htake, hrest⟩ := hfront.take?
  exact ⟨line, rest, by rw [Fields.take, htake], hrest⟩

private theorem number_decimal {bound line n : Nat} (h : n < bound) :
    number bound line key (trim (decimal n)) = .ok n := by
  rw [number, trim_decimal, trim_decimal, decimal?_decimal h]

theorem word {value : UInt16} (h : fields.Holds ((wordEntry key value).pair :: back)) :
    ∃ rest, fields.word key = .ok (value, rest) ∧ rest.Holds back := by
  obtain ⟨line, rest, htake, hrest⟩ := Holds.take h
  refine ⟨rest, ?_, hrest⟩
  simp only [Fields.word, wordEntry] at htake ⊢
  rw [htake]
  simp only [bind, Except.bind, number_decimal value.toNat_lt, pure, Except.pure, UInt16.ofNat_toNat]

theorem word32 {value : UInt32} (h : fields.Holds ((key, trim (decimal value.toNat)) :: back)) :
    ∃ rest, fields.word32 key = .ok (value, rest) ∧ rest.Holds back := by
  obtain ⟨line, rest, htake, hrest⟩ := Holds.take h
  refine ⟨rest, ?_, hrest⟩
  rw [Fields.word32, htake]
  simp only [bind, Except.bind, number_decimal value.toNat_lt, pure, Except.pure, UInt32.ofNat_toNat]

theorem wordList {values : List UInt16} (h : fields.Holds ((key, trim (Item.wordList values)) :: back)) :
    ∃ line rest, fields.wordList key = .ok ((line, values), rest) ∧ rest.Holds back := by
  obtain ⟨line, rest, htake, hrest⟩ := Holds.take h
  refine ⟨line, rest, ?_, hrest⟩
  have hwords : words (trim (Item.wordList values)) = values.map fun value => decimal value.toNat := by
    rw [words_trim, Item.wordList, words_intercalate]
    intro word hword
    obtain ⟨value, -, rfl⟩ := List.mem_map.mp hword
    exact ⟨decimal_ne_nil _, fun c hc => not_isBlank_of_isDigit (isDigit_of_mem_decimal hc)⟩
  have hnumbers : (values.map fun value => decimal value.toNat).mapM (number 0x10000 line key) =
      .ok (values.map UInt16.toNat) := by
    rw [Except.mapM_eq_ok_iff, List.forall₂_map_left_iff, List.forall₂_map_right_iff]
    refine List.forall₂_same.mpr fun value _ => ?_
    rw [number, trim_decimal, decimal?_decimal value.toNat_lt]
  rw [Fields.wordList, htake]
  simp only [bind, Except.bind, hwords, hnumbers, pure, Except.pure, List.map_map]
  have hvalues : values.map (UInt16.ofNat ∘ UInt16.toNat) = values :=
    List.map_id'' (fun value => UInt16.ofNat_toNat) values
  rw [hvalues]

/-- A number that may be left out, among other fields. -/
theorem optional {bound : Nat} {n : Option Nat} (hbound : ∀ value ∈ n, value < bound)
    (h : fields.Holds (front ++ (n.map fun n => (key, trim (decimal n))).toList ++ back))
    (hkey : key ∉ front.map Prod.fst) (hback : key ∉ back.map Prod.fst) :
    ∃ rest, fields.optional bound key = .ok (n, rest) ∧ rest.Holds (front ++ back) := by
  cases n with
  | none =>
    have hentries : fields.Holds (front ++ back) := by simpa using h
    have hnot : key ∉ (front ++ back).map Prod.fst := by
      rw [List.map_append, List.mem_append]
      exact fun hmem => hmem.elim hkey hback
    exact ⟨fields, by rw [Fields.optional, hentries.take?_eq_none hnot], hentries⟩
  | some n =>
    have hentries : fields.Holds (front ++ (key, trim (decimal n)) :: back) := by simpa using h
    obtain ⟨line, rest, htake, hrest⟩ := hentries.take?
    refine ⟨rest, ?_, hrest⟩
    rw [Fields.optional, htake]
    simp only [number_decimal (hbound n rfl), Except.map]

theorem finish (h : fields.Holds []) : fields.finish = .ok () := by
  rw [Fields.finish, List.map_eq_nil_iff.mp h.values]

end Holds

end Fields

section properties

private theorem parseExit_trim {symbols : Symbols} {number line : Nat} {exit : Option Exit}
    (h : ∀ door ∈ exit, door.target ≠ 0) :
    parseExit line (trim (exitEntry symbols number exit).value) = .ok exit := by
  cases exit with
  | none => rfl
  | some exit =>
    have hstate : ∀ c ∈ exit.state.name.toList, isBlank c = false := by
      have hall : exit.state.name.toList.all (!isBlank ·) := by cases exit.state <;> decide
      simpa using hall
    have hname : exit.state.name.toList ≠ [] := by cases exit.state <;> decide
    have hdecimal : ∀ c ∈ decimal exit.target.toNat, isBlank c = false :=
      fun c hc => not_isBlank_of_isDigit (isDigit_of_mem_decimal hc)
    have hwords : words (trim (decimal exit.target.toNat ++ [' '] ++ exit.state.name.toList)) =
        [decimal exit.target.toNat, exit.state.name.toList] := by
      rw [words_trim, List.append_assoc, List.singleton_append, words_append_blank (by decide),
        words_singleton hdecimal (decimal_ne_nil _), words_singleton hstate hname]
      rfl
    have hne : trim (decimal exit.target.toNat ++ [' '] ++ exit.state.name.toList) ≠ ['-'] := by
      intro heq
      have hlength : (words ['-']).length = 2 := by
        rw [← heq, hwords]
        rfl
      exact absurd hlength (by decide)
    have htarget : exit.target.toNat ≠ 0 := by
      intro hzero
      exact h exit rfl (UInt32.toNat_inj.mp hzero)
    have hfound : DoorState.ofName? exit.state.name = some exit.state := by cases exit.state <;> rfl
    rw [parseExit, exitEntry, if_neg hne, hwords]
    simp only [decimal?_decimal exit.target.toNat_lt, String.ofList_toList, hfound, if_neg htarget,
      UInt32.ofNat_toNat]

private theorem parseExits_of_holds {symbols : Symbols} {exits : List (Option Exit)} {number : Nat}
    {fields : Fields} (hne : ∀ exit, some exit ∈ exits → exit.target ≠ 0)
    (h : fields.Holds ((exitEntries symbols number exits).map Entry.pair)) :
    ∃ rest, parseExits fields (List.range' number exits.length) = .ok (exits, rest) ∧
      rest.Holds [] := by
  induction exits generalizing number fields with
  | nil => exact ⟨fields, rfl, h⟩
  | cons exit exits ih =>
    have hkey : (exitEntry symbols number exit).pair =
        (exitKey number, trim (exitEntry symbols number exit).value) := by cases exit <;> rfl
    rw [exitEntries, List.zipIdx_cons, List.map_cons, List.map_cons, hkey] at h
    obtain ⟨line, others, htake, hothers⟩ := h.take
    obtain ⟨rest, hexits, hrest⟩ :=
      ih (fun exit hexit => hne exit (List.mem_cons_of_mem _ hexit)) hothers
    have hexit : ∀ door ∈ exit, door.target ≠ 0 := by
      rintro door rfl
      exact hne door List.mem_cons_self
    refine ⟨rest, ?_, hrest⟩
    rw [List.length_cons, List.range'_succ, parseExits, htake]
    simp only [bind, Except.bind, parseExit_trim hexit, hexits, pure, Except.pure]

private theorem parseFlags_of_holds {flags : List UInt16} {number : Nat} {fields : Fields}
    (h : fields.Holds ((flagEntries number flags).map Entry.pair)) :
    ∃ rest, parseFlags fields (List.range' number flags.length) = .ok (flags, rest) ∧
      rest.Holds [] := by
  induction flags generalizing number fields with
  | nil => exact ⟨fields, rfl, h⟩
  | cons flag flags ih =>
    rw [flagEntries, List.zipIdx_cons, List.map_cons, List.map_cons] at h
    obtain ⟨others, hword, hothers⟩ := h.word
    obtain ⟨rest, hflags, hrest⟩ := ih hothers
    refine ⟨rest, ?_, hrest⟩
    rw [List.length_cons, List.range'_succ, parseFlags, hword]
    simp only [bind, Except.bind, hflags, pure, Except.pure]

private theorem bit?_name : ∀ bit ∈ ObjectField.bits, ObjectField.bit? (ObjectField.name bit) = some bit := by
  decide +kernel

/-- A value with a higher bit than all others is put behind them. -/
theorem insertValue_of_lt {bit : Nat} {value : UInt16} {values : List (Nat × UInt16)}
    (h : ∀ other ∈ values, other.1 < bit) : insertValue bit value values = values ++ [(bit, value)] := by
  induction values with
  | nil => rfl
  | cons first values ih =>
    obtain ⟨hfirst, hvalues⟩ := List.forall_mem_cons.mp h
    rw [insertValue, if_neg (by omega), if_neg (by omega), ih hvalues]
    rfl

/-- Values in the order of their bits are gathered in this order. -/
theorem parseValues_slots {gathered slots : List (Nat × UInt16)}
    {values : List (String × Nat × List Char)} (hascending : Ascending (gathered ++ slots))
    (h : values.map (fun (key, _, value) => (key, value)) = (slotEntries slots).map Entry.pair) :
    parseValues gathered values = .ok (gathered ++ slots) := by
  induction slots generalizing gathered values with
  | nil =>
    obtain rfl := List.map_eq_nil_iff.mp h
    rw [parseValues, List.append_nil]
  | cons slot slots ih =>
    obtain ⟨bit, value⟩ := slot
    obtain ⟨⟨key, line, text⟩, values, rfl, heq, hvalues⟩ := List.map_eq_cons_iff.mp h
    obtain ⟨rfl, rfl⟩ : key = ObjectField.name bit ∧ text = trim (decimal value.toNat) :=
      Prod.mk.inj heq
    have hbit : bit ∈ ObjectField.bits := hascending.2 bit (by simp)
    have hlast : insertValue bit value gathered = gathered ++ [(bit, value)] := by
      refine insertValue_of_lt fun other hother => ?_
      have hsorted := hascending.1
      rw [List.map_append, List.pairwise_append] at hsorted
      exact hsorted.2.2 _ (List.mem_map_of_mem hother) bit List.mem_cons_self
    have happend : gathered ++ [(bit, value)] ++ slots = gathered ++ (bit, value) :: slots := by
      rw [List.append_assoc, List.singleton_append]
    rw [parseValues, bit?_name bit hbit]
    simp only [Fields.Holds.number_decimal value.toNat_lt, bind, Except.bind, UInt16.ofNat_toNat,
      hlast]
    rw [← happend]
    exact ih (happend ▸ hascending) hvalues

/-- The fields of values have names of their own. -/
theorem not_mem_keys_slotEntries {slots : List (Nat × UInt16)} (hascending : Ascending slots) {key : String}
    (hkey : ∀ bit ∈ ObjectField.bits, ObjectField.name bit ≠ key) :
    key ∉ ((slotEntries slots).map Entry.pair).map Prod.fst := by
  have hnames : ((slotEntries slots).map Entry.pair).map Prod.fst =
      (slots.map Prod.fst).map ObjectField.name := by
    simp only [slotEntries, List.map_map]
    rfl
  rw [hnames]
  intro hmem
  obtain ⟨bit, hbit, hname⟩ := List.mem_map.mp hmem
  exact hkey bit (hascending.2 bit hbit) hname

private theorem parseProperty_object_of_holds {symbols : Symbols} {name : UInt32}
    {description : Option UInt32}
    {slots : List (Nat × UInt16)} {flags : UInt16} {fields : Fields} (hascending : Ascending slots)
    (h : fields.Holds ((propertyEntries symbols (.object name description slots flags)).map Entry.pair)) :
    ∃ rest, parsePropertyFields .object fields = .ok (.object name description slots flags, rest) ∧
      rest.Holds [] := by
  generalize hshownText : description.map UInt32.toNat = shownText
  generalize hflagsWord : (if flags = 0 then none else some flags.toNat) = flagsWord
  have hshownBound : ∀ value ∈ shownText, value < 0x100000000 := by
    subst hshownText
    intro value hvalue
    obtain ⟨word, -, rfl⟩ := Option.map_eq_some_iff.mp hvalue
    exact word.toNat_lt
  have hflagsBound : ∀ value ∈ flagsWord, value < 0x10000 := by
    subst hflagsWord
    split
    · simp
    · simpa using flags.toNat_lt
  have hshownBack : shownText.map UInt32.ofNat = description := by
    subst hshownText
    cases description <;> simp
  have hflagsBack : UInt16.ofNat (flagsWord.getD 0) = flags := by
    subst hflagsWord
    by_cases hzero : flags = 0 <;> simp [hzero]
  have hentries : (propertyEntries symbols (.object name description slots flags)).map Entry.pair =
      ("NAME", trim (decimal name.toNat)) ::
        ([] ++ (shownText.map fun n => ("DESCRIPTION", trim (decimal n))).toList ++
          ((slotEntries slots).map Entry.pair ++
            (flagsWord.map fun n => ("FLAGS", trim (decimal n))).toList ++ [])) := by
    subst hshownText hflagsWord
    simp only [propertyEntries, List.map_append]
    cases description <;> by_cases hflags : flags = 0 <;> simp [hflags, Entry.pair, textEntry, wordEntry]
  have hlater : "DESCRIPTION" ∉ ((slotEntries slots).map Entry.pair ++
      (flagsWord.map fun n => ("FLAGS", trim (decimal n))).toList ++ []).map Prod.fst := by
    rw [List.append_nil, List.map_append, List.mem_append, not_or]
    refine ⟨not_mem_keys_slotEntries hascending (by decide +kernel), ?_⟩
    cases flagsWord <;> simp
  rw [hentries] at h
  obtain ⟨named, hname, hnamed⟩ := h.word32
  obtain ⟨shown, hdescription, hshown⟩ := hnamed.optional hshownBound (by simp) hlater
  obtain ⟨rest, hflags, hrest⟩ := Fields.Holds.optional hflagsBound hshown
    (not_mem_keys_slotEntries hascending (by decide +kernel)) (by simp)
  rw [List.append_nil] at hrest
  have hvalues : parseValues [] rest.values = .ok slots := parseValues_slots hascending hrest.values
  refine ⟨{ rest with values := [] }, ?_, rfl, .nil⟩
  rw [parsePropertyFields, hname]
  simp only [bind, Except.bind, hdescription, hflags, hvalues, pure, Except.pure, hshownBack, hflagsBack]

/-- The fields of a property are read as this property. -/
theorem parseProperty_of_holds {symbols : Symbols} {property : Property} {fields : Fields}
    (hstored : property.Stored)
    (h : fields.Holds ((propertyEntries symbols property).map Entry.pair)) :
    parseProperty property.kind fields = .ok property := by
  suffices hfields : ∃ rest, parsePropertyFields property.kind fields = .ok (property, rest) ∧
      rest.Holds [] by
    obtain ⟨rest, hparse, hrest⟩ := hfields
    rw [parseProperty, hparse]
    simp only [bind, Except.bind, hrest.finish, pure, Except.pure]
  cases property with
  | room table exits =>
    obtain ⟨hcount, hne⟩ := hstored
    obtain ⟨doors, hword, hdoors⟩ := h.word
    obtain ⟨rest, hexits, hrest⟩ := parseExits_of_holds hne hdoors
    refine ⟨rest, ?_, hrest⟩
    rw [hcount] at hexits
    rw [Property.kind, parsePropertyFields, hword]
    simp only [bind, Except.bind, hexits, pure, Except.pure]
  | object name description slots flags =>
    exact parseProperty_object_of_holds (ascending_iff_exists_mask.mpr hstored) h
  | superRoom id x y z exits =>
    have hcount : exits.length = superRoomExits x y z := hstored
    obtain ⟨line, others, hnumbers, hothers⟩ := h.wordList
    obtain ⟨_, rest, hexits, hrest⟩ := hothers.wordList
    refine ⟨rest, ?_, hrest⟩
    rw [Property.kind, parsePropertyFields, hnumbers]
    simp only [bind, Except.bind, hexits, hcount, ne_eq, not_true_eq_false, if_false, pure, Except.pure]
  | container volume flags =>
    obtain ⟨others, hvolume, hothers⟩ := h.word
    obtain ⟨rest, hflags, hrest⟩ := hothers.word
    refine ⟨rest, ?_, hrest⟩
    rw [Property.kind, parsePropertyFields, hvolume]
    simp only [bind, Except.bind, hflags, pure, Except.pure]
  | chain item =>
    obtain ⟨rest, hitem, hrest⟩ : ∃ rest, fields.word32 "ITEM" = .ok (item, rest) ∧ rest.Holds [] :=
      h.word32
    refine ⟨rest, ?_, hrest⟩
    rw [Property.kind, parsePropertyFields, hitem]
    rfl
  | inherit item =>
    obtain ⟨rest, hitem, hrest⟩ : ∃ rest, fields.word32 "ITEM" = .ok (item, rest) ∧ rest.Holds [] :=
      h.word32
    refine ⟨rest, ?_, hrest⟩
    rw [Property.kind, parsePropertyFields, hitem]
    rfl
  | userFlag flags =>
    obtain ⟨rest, hflags, hrest⟩ := parseFlags_of_holds h
    have hcount : flags.length = Property.userFlagCount := hstored
    refine ⟨rest, ?_, hrest⟩
    rw [hcount] at hflags
    rw [Property.kind, parsePropertyFields, hflags]
    rfl

end properties

end Item

end Adventure
