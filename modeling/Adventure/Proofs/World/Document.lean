import Adventure.Proofs.Strings.Escape
import Adventure.Proofs.World.Fields

namespace Adventure

open Text World

namespace Item

section lines

variable {c : Char}

/-- A line can begin with this key. -/
def ProperKey (key : String) : Prop :=
  key.toList ≠ [] ∧ ∀ c ∈ key.toList, isBlank c = false ∧ c ≠ '/' ∧ c ≠ '='

instance (key : String) : Decidable (ProperKey key) :=
  have : Decidable (∀ c ∈ key.toList, isBlank c = false ∧ c ≠ '/' ∧ c ≠ '=') := List.decidableBAll _ _
  inferInstanceAs (Decidable (_ ∧ _))

/-- No line end and no comment breaks this value. -/
def ProperValue (value : List Char) : Prop := ∀ c ∈ value, c ≠ '/' ∧ c ≠ '\n' ∧ c ≠ '\r'

instance (value : List Char) : Decidable (ProperValue value) := List.decidableBAll _ value

structure Entry.Proper (entry : Entry) : Prop where
  key : ProperKey entry.key
  value : ProperValue entry.value

private theorem uncommented_append {front : List Char} (h : ∀ c ∈ front, c ≠ '/') (rest : List Char) :
    Reading.uncommented (front ++ rest) = front ++ Reading.uncommented rest := by
  induction front with
  | nil => rfl
  | cons c front ih =>
    obtain ⟨hc, hfront⟩ := List.forall_mem_cons.mp h
    rw [List.cons_append, List.cons_append, ← ih hfront]
    exact Reading.uncommented.eq_2 c (front ++ rest) fun _ heq _ => hc heq

private theorem trim_uncommented_append {front : List Char} (h : ∀ c ∈ front, c ≠ '/')
    (text : Option String) : trim (Reading.uncommented (front ++ comment text)) = trim front := by
  rw [uncommented_append h]
  cases text with
  | none => rw [comment, Reading.uncommented, List.append_nil]
  | some text =>
    have hcomment : Reading.uncommented (comment (some text)) = [' '] := rfl
    rw [hcomment, trim_concat_blank (by decide)]

private theorem readLine_of_cons {content rest : List Char} {first : Char} (reading : Reading) (line : Nat)
    (h : trim (Reading.uncommented content) = first :: rest) (hfirst : first ≠ '=') :
    reading.readLine line content =
      reading.readField line (trim (Reading.uncommented content)) := by
  rw [Reading.readLine, h]
  split
  case _ heq => cases heq
  case _ heq => exact absurd (List.cons.inj heq).1 hfirst
  case _ heq => exact absurd (List.cons.inj heq).1 hfirst
  case _ => rfl

/-- The line of a field adds the field to the current item. -/
theorem readLine_entry {entry : Entry} (hproper : entry.Proper) (items : List Item) (draft : Draft)
    (line : Nat) : Reading.readLine ⟨items, some draft⟩ line entry.line =
      (draft.addField line entry.key (trim entry.value)).map fun draft => ⟨items, some draft⟩ := by
  have hfront : ∀ c ∈ '\t' :: entry.key.toList ++ ' ' :: entry.value, c ≠ '/' := by
    intro c hc
    rcases List.mem_append.mp hc with hkey | hvalue
    · rcases List.mem_cons.mp hkey with rfl | hkey
      · decide
      · exact (hproper.key.2 c hkey).2.1
    · rcases List.mem_cons.mp hvalue with rfl | hvalue
      · decide
      · exact (hproper.value c hvalue).1
  have hline : entry.line = ('\t' :: entry.key.toList ++ ' ' :: entry.value) ++ comment entry.text := by
    simp [Entry.line, field]
  have hblank : ∀ c ∈ entry.key.toList, isBlank c = false := fun c hc => (hproper.key.2 c hc).1
  obtain ⟨first, tail, hkey⟩ := List.exists_cons_of_ne_nil hproper.key.1
  have hcontent : trim (Reading.uncommented entry.line) =
      entry.key.toList ++ trimRight (' ' :: entry.value) := by
    rw [hline, trim_uncommented_append hfront, List.cons_append, trim_cons_blank (by decide),
      ← trimRight_append_word hblank, hkey, List.cons_append]
    exact (trim_cons (hblank first (hkey ▸ List.mem_cons_self))).trans
      (trimRight_cons (hblank first (hkey ▸ List.mem_cons_self))).symm
  have hrest : (trimRight (' ' :: entry.value)).takeWhile (!isBlank ·) = [] ∧
      (trimRight (' ' :: entry.value)).dropWhile (!isBlank ·) = trimRight (' ' :: entry.value) := by
    cases hvalue : trimRight (' ' :: entry.value) with
    | nil => exact ⟨rfl, rfl⟩
    | cons c rest =>
      obtain rfl := eq_of_trimRight_cons hvalue
      exact ⟨List.takeWhile_cons_of_neg (by decide), List.dropWhile_cons_of_neg (by decide)⟩
  have hword : ∀ c ∈ entry.key.toList, (!isBlank c) = true := fun c hc => by rw [hblank c hc]; rfl
  have htake : (entry.key.toList ++ trimRight (' ' :: entry.value)).takeWhile (!isBlank ·) =
      entry.key.toList := by
    rw [List.takeWhile_append_of_pos hword, hrest.1, List.append_nil]
  have hdrop : trim ((entry.key.toList ++ trimRight (' ' :: entry.value)).dropWhile (!isBlank ·)) =
      trim entry.value := by
    rw [List.dropWhile_append_of_pos hword, hrest.2, trim_trimRight, trim_cons_blank (by decide)]
  have hcons : trim (Reading.uncommented entry.line) =
      first :: (tail ++ trimRight (' ' :: entry.value)) := by rw [hcontent, hkey, List.cons_append]
  rw [readLine_of_cons _ _ hcons (hproper.key.2 first (hkey ▸ List.mem_cons_self)).2.2, hcontent]
  simp only [Reading.readField, htake, hdrop, String.ofList_toList]
  cases draft.addField line entry.key (trim entry.value) <;> rfl

private theorem not_mem_line {entry : Entry} {c : Char} (hproper : entry.Proper) (hc : c = '\n' ∨ c = '\r') :
    c ∉ entry.line := by
  have hkey : c ∉ entry.key.toList := by
    intro hmem
    have hblank := (hproper.key.2 c hmem).1
    rcases hc with rfl | rfl <;> cases hblank
  have hvalue : c ∉ entry.value := by
    intro hmem
    have hends := (hproper.value c hmem).2
    exact hc.elim hends.1 hends.2
  have hcomment : c ∉ comment entry.text := by
    cases entry.text with
    | none => simp [comment]
    | some text =>
      have hescape : c ∉ Strings.escape text.toList := Strings.not_mem_escape (.inr hc) _
      have hmark : c ∉ " // ".toList := by rcases hc with rfl | rfl <;> decide
      rw [comment, List.mem_append]
      exact fun hmem => hmem.elim hmark hescape
  have hsingle : c ∉ ['\t'] ∧ c ∉ [' '] := by rcases hc with rfl | rfl <;> decide
  simp only [Entry.line, field, List.mem_append, not_or]
  exact ⟨⟨⟨⟨hsingle.1, hkey⟩, hsingle.2⟩, hvalue⟩, hcomment⟩

end lines

section keys

/-- The keys of a property of a kind, in the order in which they are printed. -/
def keysOf : PropertyKind → List String
  | .room => "TABLE" :: (List.range' 1 Exit.count).map exitKey
  | .object => "NAME" :: "DESCRIPTION" :: ObjectField.bits.map ObjectField.name ++ ["FLAGS"]
  | .superRoom => ["SUPER_ROOM", "EXITS"]
  | .container => ["VOLUME", "FLAGS"]
  | .chain => ["ITEM"]
  | .inherit => ["ITEM"]
  | .userFlag => (List.range' 1 Property.userFlagCount).map fun number => s!"{number}"

private theorem keysOf_proper (kind : PropertyKind) :
    (keysOf kind).Nodup ∧ ∀ key ∈ keysOf kind, ProperKey key := by
  cases kind <;> decide +kernel

private theorem keys_exitEntries (symbols : Symbols) (number : Nat) (exits : List (Option Exit)) :
    (exitEntries symbols number exits).map Entry.key = (List.range' number exits.length).map exitKey := by
  have hkey : ∀ (number : Nat) (exit : Option Exit), (exitEntry symbols number exit).key = exitKey number := by
    intro number exit
    cases exit <;> rfl
  rw [← List.zipIdx_map_snd, exitEntries, List.map_map, List.map_map]
  exact List.map_congr_left fun pair _ => hkey pair.2 pair.1

private theorem keys_flagEntries (number : Nat) (flags : List UInt16) :
    (flagEntries number flags).map Entry.key =
      (List.range' number flags.length).map fun number => s!"{number}" := by
  rw [← List.zipIdx_map_snd, flagEntries, List.map_map, List.map_map]
  rfl

/-- The fields that are printed of a property are some of those of its kind. -/
theorem keys_propertyEntries (symbols : Symbols) {property : Property} (hstored : property.Stored) :
    List.Sublist ((propertyEntries symbols property).map Entry.key) (keysOf property.kind) := by
  cases property with
  | room table exits =>
    have hcount : exits.length = Exit.count := hstored.1
    rw [propertyEntries, List.map_cons, keys_exitEntries, hcount]
    exact .refl _
  | object name description slots flags =>
    obtain ⟨mask, hslots⟩ := hstored
    have hnames : (slotEntries slots).map Entry.key =
        (ObjectField.bits.filter mask.testBit).map ObjectField.name := by
      rw [← hslots, slotEntries, List.map_map, List.map_map]
      rfl
    have hdescription : List.Sublist
        ((description.map (textEntry symbols "DESCRIPTION")).toList.map Entry.key) ["DESCRIPTION"] := by
      cases description with
      | none => exact List.nil_sublist _
      | some => exact .refl _
    have hflags : List.Sublist ((if flags = 0 then [] else [wordEntry "FLAGS" flags]).map Entry.key)
        ["FLAGS"] := by
      split
      · exact List.nil_sublist _
      · exact .refl _
    simp only [propertyEntries, List.map_append, hnames]
    exact (((List.Sublist.refl ["NAME"]).append hdescription).append
      (List.filter_sublist.map _)).append hflags
  | userFlag flags =>
    have hcount : flags.length = Property.userFlagCount := hstored
    rw [propertyEntries, keys_flagEntries, hcount]
    exact .refl _
  | _ => exact .refl _

private theorem properValue_decimal (n : Nat) : ProperValue (decimal n) := by
  intro c hc
  have hdigit := isDigit_of_mem_decimal hc
  refine ⟨?_, ?_, ?_⟩ <;> rintro rfl <;> cases hdigit

private theorem properValue_wordList (values : List UInt16) : ProperValue (wordList values) := by
  intro c hc
  rcases eq_or_mem_of_mem_intercalate hc with rfl | ⟨word, hword, hc⟩
  · decide
  · obtain ⟨value, -, rfl⟩ := List.mem_map.mp hword
    exact properValue_decimal _ c hc

private theorem properValue_exitEntry (symbols : Symbols) (number : Nat) (exit : Option Exit) :
    ProperValue (exitEntry symbols number exit).value := by
  cases exit with
  | none => exact (by decide : ProperValue ['-'])
  | some exit =>
    have hstate : ProperValue exit.state.name.toList := by cases exit.state <;> decide
    intro c hc
    simp only [exitEntry, List.mem_append, List.mem_singleton] at hc
    rcases hc with (hc | rfl) | hc
    · exact properValue_decimal _ c hc
    · decide
    · exact hstate c hc

private theorem properValue_propertyEntries (symbols : Symbols) (property : Property) :
    ∀ entry ∈ propertyEntries symbols property, ProperValue entry.value := by
  have hword : ∀ key value, ProperValue (wordEntry key value).value :=
    fun _ value => properValue_decimal value.toNat
  cases property with
  | room table exits =>
    refine List.forall_mem_cons.mpr ⟨hword _ _, fun entry hentry => ?_⟩
    obtain ⟨⟨exit, number⟩, -, rfl⟩ := List.mem_map.mp hentry
    exact properValue_exitEntry symbols number exit
  | object name description slots flags =>
    simp only [propertyEntries, List.forall_mem_append, List.forall_mem_singleton]
    refine ⟨⟨⟨properValue_decimal _, ?_⟩, ?_⟩, ?_⟩
    · intro entry hentry
      obtain ⟨text, -, rfl⟩ := Option.map_eq_some_iff.mp (Option.mem_toList.mp hentry)
      exact properValue_decimal _
    · intro entry hentry
      obtain ⟨slot, -, rfl⟩ := List.mem_map.mp hentry
      exact hword _ _
    · split
      · simp
      · exact List.forall_mem_singleton.mpr (hword _ _)
  | superRoom id x y z exits =>
    exact List.forall_mem_cons.mpr ⟨properValue_wordList _,
      List.forall_mem_singleton.mpr (properValue_wordList _)⟩
  | container volume flags =>
    exact List.forall_mem_cons.mpr ⟨hword _ _, List.forall_mem_singleton.mpr (hword _ _)⟩
  | chain item => exact List.forall_mem_singleton.mpr (properValue_decimal _)
  | inherit item => exact List.forall_mem_singleton.mpr (properValue_decimal _)
  | userFlag flags =>
    intro entry hentry
    obtain ⟨⟨flag, number⟩, -, rfl⟩ := List.mem_map.mp hentry
    exact hword _ _

private theorem proper_propertyEntries (symbols : Symbols) {property : Property} (hstored : property.Stored) :
    ∀ entry ∈ propertyEntries symbols property, entry.Proper := by
  intro entry hentry
  have hkey := (keys_propertyEntries symbols hstored).subset (List.mem_map_of_mem hentry)
  exact ⟨(keysOf_proper _).2 _ hkey, properValue_propertyEntries symbols property entry hentry⟩

private theorem proper_headerEntries (symbols : Symbols) (item : Item) :
    ((headerEntries symbols item).map Entry.key).Nodup ∧
      ∀ entry ∈ headerEntries symbols item, entry.Proper := by
  have hkeys : (headerEntries symbols item).map Entry.key = ["ADJECTIVE", "NOUN", "STATE", "NEXT",
    "CHILD", "PARENT", "ACTOR_TABLE", "CLASS", "PROPERTIES"] := rfl
  have hproper : ∀ key ∈ (headerEntries symbols item).map Entry.key, ProperKey key := by
    rw [hkeys]
    decide +kernel
  refine ⟨by rw [hkeys]; decide, fun entry hentry => ⟨hproper _ (List.mem_map_of_mem hentry), ?_⟩⟩
  simp only [headerEntries, List.mem_cons, List.not_mem_nil, or_false] at hentry
  rcases hentry with rfl | rfl | rfl | rfl | rfl | rfl | rfl | rfl | rfl <;> exact properValue_decimal _

end keys

section blocks

variable {symbols : Symbols}

/-- The block that the next field belongs to. -/
def Draft.last (draft : Draft) : Fields :=
  match draft.properties with
  | [] => draft.header
  | (_, fields) :: _ => fields

def Draft.withLast (draft : Draft) (fields : Fields) : Draft :=
  match draft.properties with
  | [] => { draft with header := fields }
  | (kind, _) :: rest => { draft with properties := (kind, fields) :: rest }

theorem Draft.addField_eq (draft : Draft) (line : Nat) (key : String) (value : List Char) :
    draft.addField line key value = (draft.last.add line key value).map draft.withLast := by
  unfold Draft.addField Draft.last Draft.withLast
  cases draft.properties <;> rfl

@[simp] theorem Draft.last_withLast (draft : Draft) (fields : Fields) :
    (draft.withLast fields).last = fields := by
  unfold Draft.withLast Draft.last
  cases draft.properties <;> rfl

@[simp] theorem Draft.withLast_withLast (draft : Draft) (fields others : Fields) :
    (draft.withLast fields).withLast others = draft.withLast others := by
  unfold Draft.withLast
  cases draft.properties <;> rfl

theorem Draft.withLast_last (draft : Draft) : draft.withLast draft.last = draft := by
  unfold Draft.withLast Draft.last
  obtain ⟨header, properties⟩ := draft
  cases properties <;> rfl

/-- Reading goes through numbered lines one after the other. -/
def readLines (reading : Reading) (numbered : List (Nat × List Char)) : Except Error Reading :=
  numbered.foldlM (fun (reading : Reading) (line, content) => reading.readLine line content) reading

theorem readLines_cons (reading : Reading) (line : Nat) (content : List Char)
    (numbered : List (Nat × List Char)) : readLines reading ((line, content) :: numbered) =
      reading.readLine line content >>= fun reading => readLines reading numbered := rfl

theorem readLines_append {reading middle : Reading} {front back : List (Nat × List Char)}
    (h : readLines reading front = .ok middle) :
    readLines reading (front ++ back) = readLines middle back := by
  unfold readLines at h ⊢
  rw [List.foldlM_append, h]
  rfl

theorem Fields.Holds.add {fields : Fields} {entries : List (String × List Char)} {key : String}
    {value : List Char} (h : fields.Holds entries) (line : Nat)
    (hnodup : ((entries ++ [(key, value)]).map Prod.fst).Nodup) :
    ∃ added, fields.add line key value = .ok added ∧ added.Holds (entries ++ [(key, value)]) := by
  have hkey : key ∉ entries.map Prod.fst := by
    rw [List.map_append, List.nodup_append] at hnodup
    exact fun hmem => hnodup.2.2 key hmem key List.mem_cons_self rfl
  refine ⟨{ fields with values := fields.values ++ [(key, line, value)] }, ?_, ?_, hnodup⟩
  · rw [Fields.add, h.lookup_eq_none hkey]
    rfl
  · rw [List.map_append, h.values]
    rfl

/-- The lines of fields add the fields to the last block. -/
theorem readLines_entries {entries : List Entry} {items : List Item} {draft : Draft}
    {done : List (String × List Char)} {numbered : List (Nat × List Char)}
    (hproper : ∀ entry ∈ entries, entry.Proper) (hdone : draft.last.Holds done)
    (hnodup : ((done ++ entries.map Entry.pair).map Prod.fst).Nodup)
    (hlines : numbered.map Prod.snd = entries.map Entry.line) :
    ∃ fields, fields.Holds (done ++ entries.map Entry.pair) ∧
      readLines ⟨items, some draft⟩ numbered = .ok ⟨items, some (draft.withLast fields)⟩ := by
  induction entries generalizing draft done numbered with
  | nil =>
    obtain rfl := List.map_eq_nil_iff.mp hlines
    refine ⟨draft.last, by simpa using hdone, ?_⟩
    rw [Draft.withLast_last]
    rfl
  | cons entry entries ih =>
    obtain ⟨hfirst, hrest⟩ := List.forall_mem_cons.mp hproper
    obtain ⟨⟨line, _⟩, numbered, rfl, rfl, hothers⟩ := List.map_eq_cons_iff.mp hlines
    have happend : done ++ (entry :: entries).map Entry.pair =
        done ++ [entry.pair] ++ entries.map Entry.pair := by simp
    rw [happend] at hnodup ⊢
    have hnext : ((done ++ [entry.pair]).map Prod.fst).Nodup := by
      rw [List.map_append] at hnodup
      exact hnodup.sublist (List.sublist_append_left _ _)
    obtain ⟨added, hadd, hadded⟩ := hdone.add line hnext
    have hlast : (draft.withLast added).last.Holds (done ++ [entry.pair]) := by
      rw [Draft.last_withLast]
      exact hadded
    obtain ⟨fields, hfields, hread⟩ := ih hrest hlast hnodup hothers
    refine ⟨fields, hfields, ?_⟩
    rw [Draft.withLast_withLast] at hread
    rw [readLines_cons, readLine_entry hfirst, Draft.addField_eq]
    have hstep : draft.last.add line entry.key (trim entry.value) = .ok added := hadd
    rw [hstep]
    exact hread

private theorem readPropertyStart_name (items : List Item) (draft : Draft) (line : Nat)
    (kind : PropertyKind) : Reading.readLine ⟨items, some draft⟩ line ("==> ".toList ++ kind.name.toList) =
      .ok ⟨items, some { draft with properties := (kind, ⟨line, []⟩) :: draft.properties }⟩ := by
  cases kind <;> rfl

/-- The lines of a property add its block. -/
theorem readLines_propertyBlock {property : Property} {items : List Item} {draft : Draft}
    {numbered : List (Nat × List Char)} (hstored : property.Stored)
    (hlines : numbered.map Prod.snd = propertyBlock symbols property) :
    ∃ fields, fields.Holds ((propertyEntries symbols property).map Entry.pair) ∧
      readLines ⟨items, some draft⟩ numbered = .ok ⟨items,
        some { draft with properties := (property.kind, fields) :: draft.properties }⟩ := by
  rw [propertyBlock, propertyFields_eq] at hlines
  obtain ⟨⟨line, _⟩, numbered, rfl, rfl, hothers⟩ := List.map_eq_cons_iff.mp hlines
  have hnodup : (((propertyEntries symbols property).map Entry.pair).map Prod.fst).Nodup := by
    rw [List.map_map]
    exact (keysOf_proper property.kind).1.sublist (keys_propertyEntries symbols hstored)
  have hempty : Fields.Holds (Draft.last
      { draft with properties := (property.kind, ⟨line, []⟩) :: draft.properties }) [] := ⟨rfl, .nil⟩
  obtain ⟨fields, hfields, hread⟩ :=
    readLines_entries (proper_propertyEntries symbols hstored) hempty hnodup hothers
  refine ⟨fields, hfields, ?_⟩
  rw [readLines_cons, readPropertyStart_name]
  exact hread

/-- Blocks of properties, each with the fields of its property. -/
def PropertiesHeld (symbols : Symbols) (blocks : List (PropertyKind × Fields))
    (properties : List Property) : Prop :=
  List.Forall₂ (fun block property => block.1 = property.kind ∧
    block.2.Holds ((propertyEntries symbols property).map Entry.pair)) blocks properties

private theorem readLines_properties {properties : List Property} {items : List Item} {draft : Draft}
    {numbered : List (Nat × List Char)} (hstored : ∀ property ∈ properties, property.Stored)
    (hlines : numbered.map Prod.snd = properties.flatMap (propertyBlock symbols)) :
    ∃ blocks, PropertiesHeld symbols blocks properties ∧ readLines ⟨items, some draft⟩ numbered =
      .ok ⟨items, some { draft with properties := blocks.reverse ++ draft.properties }⟩ := by
  induction properties generalizing draft numbered with
  | nil =>
    obtain rfl := List.map_eq_nil_iff.mp hlines
    exact ⟨[], .nil, rfl⟩
  | cons property properties ih =>
    obtain ⟨hfirst, hrest⟩ := List.forall_mem_cons.mp hstored
    rw [List.flatMap_cons] at hlines
    obtain ⟨front, back, rfl, hfront, hback⟩ := List.map_eq_append_iff.mp hlines
    obtain ⟨fields, hfields, hread⟩ := readLines_propertyBlock hfirst hfront
    obtain ⟨blocks, hblocks, hothers⟩ := ih hrest hback
    refine ⟨(property.kind, fields) :: blocks, .cons ⟨rfl, hfields⟩ hblocks, ?_⟩
    rw [readLines_append hread, hothers]
    simp

/-- The properties that have been read are those whose fields the blocks hold. -/
theorem parseProperties_of_held {properties : List Property} {blocks : List (PropertyKind × Fields)}
    (hstored : ∀ property ∈ properties, property.Stored) (h : PropertiesHeld symbols blocks properties) :
    (blocks.mapM fun (kind, fields) => parseProperty kind fields) = .ok properties := by
  refine Except.mapM_eq_ok_iff.mpr ?_
  induction h with
  | nil => exact .nil
  | @cons block property _ _ head _ ih =>
    obtain ⟨hfirst, hrest⟩ := List.forall_mem_cons.mp hstored
    obtain ⟨kind, fields⟩ := block
    obtain ⟨rfl, hfields⟩ := head
    exact .cons (parseProperty_of_holds hfirst hfields) (ih hrest)

/-- The blocks of an item are read as this item. -/
theorem finish_of_held {item : Item} {draft : Draft} (hstored : item.Stored)
    (hheader : draft.header.Holds ((headerEntries symbols item).map Entry.pair))
    (hproperties : PropertiesHeld symbols draft.properties.reverse item.properties) :
    draft.finish = .ok item := by
  obtain ⟨f₁, hadjective, h₁⟩ := hheader.word
  obtain ⟨f₂, hnoun, h₂⟩ := h₁.word
  obtain ⟨f₃, hstate, h₃⟩ := h₂.word
  obtain ⟨f₄, hnext, h₄⟩ : ∃ rest, f₃.word32 "NEXT" = .ok (item.next, rest) ∧ _ := h₃.word32
  obtain ⟨f₅, hchild, h₅⟩ : ∃ rest, f₄.word32 "CHILD" = .ok (item.child, rest) ∧ _ := h₄.word32
  obtain ⟨f₆, hparent, h₆⟩ : ∃ rest, f₅.word32 "PARENT" = .ok (item.parent, rest) ∧ _ := h₅.word32
  obtain ⟨f₇, hactorTable, h₇⟩ := h₆.word
  obtain ⟨f₈, hclassName, h₈⟩ := h₇.word
  obtain ⟨f₉, hinit, h₉⟩ : ∃ rest, f₈.word32 "PROPERTIES" = .ok (item.propertiesInit, rest) ∧
    rest.Holds [] := h₈.word32
  have hparsed := parseProperties_of_held hstored.properties hproperties
  have hannounced : ¬(item.propertiesInit = 0 ∧ (!item.properties.isEmpty) = true) := by
    rintro ⟨hzero, hne⟩
    rw [hstored.announced hzero] at hne
    cases hne
  unfold Draft.finish
  simp only [bind, Except.bind, hadjective, hnoun, hstate, hnext, hchild, hparent, hactorTable,
    hclassName, hinit, hparsed, h₉.finish, if_neg hannounced, pure, Except.pure]

end blocks

section documents

variable {symbols : Symbols}

private theorem trim_decimal_equals (number : Nat) :
    trim (' ' :: decimal number ++ [' ', '=', '=']) = decimal number ++ [' ', '=', '='] := by
  obtain ⟨first, rest, hdecimal⟩ := List.exists_cons_of_ne_nil (decimal_ne_nil number)
  have hfirst : isBlank first = false :=
    not_isBlank_of_isDigit (isDigit_of_mem_decimal (hdecimal ▸ List.mem_cons_self))
  have hlast : isBlank '=' = false := by decide
  have hends := trim_between hfirst hlast (rest ++ [' ', '='])
  rw [List.cons_append, trim_cons_blank (by decide), hdecimal]
  simpa using hends

private theorem itemNumber?_line (number : Nat) :
    Reading.itemNumber? (" ITEM ".toList ++ decimal number ++ " ==".toList) =
      decimal? 0x100000000 (decimal number) := by
  have hcontent : trim (" ITEM ".toList ++ decimal number ++ " ==".toList) =
      'I' :: 'T' :: 'E' :: 'M' :: (' ' :: decimal number ++ [' ', '=', '=']) := by
    have hfirst : isBlank 'I' = false := by decide
    have hlast : isBlank '=' = false := by decide
    have hends := trim_between hfirst hlast ('T' :: 'E' :: 'M' :: ' ' :: (decimal number ++ [' ', '=']))
    have hblank : trim (" ITEM ".toList ++ decimal number ++ " ==".toList) =
        trim ("ITEM ".toList ++ decimal number ++ " ==".toList) := trim_cons_blank (by decide)
    refine hblank.trans ?_
    simpa using hends
  have hsuffix : "==".toList.isSuffixOf (decimal number ++ [' ', '=', '=']) = true :=
    List.isSuffixOf_iff_suffix.mpr ⟨decimal number ++ [' '], by simp⟩
  have htake : (decimal number ++ [' ', '=', '=']).take
      ((decimal number ++ [' ', '=', '=']).length - 2) = decimal number ++ [' '] := by
    have happend : decimal number ++ [' ', '=', '='] = (decimal number ++ [' ']) ++ ['=', '='] := by simp
    rw [happend, List.length_append]
    exact List.take_left
  have hprefix : "ITEM".toList.isPrefixOf
      ('I' :: 'T' :: 'E' :: 'M' :: (' ' :: decimal number ++ [' ', '=', '='])) = true := rfl
  have hdrop : ('I' :: 'T' :: 'E' :: 'M' :: (' ' :: decimal number ++ [' ', '=', '='])).drop 4 =
      ' ' :: decimal number ++ [' ', '=', '='] := rfl
  simp only [Reading.itemNumber?, hcontent, hprefix, hdrop, trim_decimal_equals, hsuffix, htake,
    trim_concat_blank (c := ' ') (by decide), trim_decimal, Bool.not_true, Bool.false_eq_true, if_false]

private theorem readLine_itemStart (reading : Reading) (line number : Nat) :
    reading.readLine line ("== ITEM ".toList ++ decimal number ++ " ==".toList) =
      reading.readItemStart line (" ITEM ".toList ++ decimal number ++ " ==".toList) := by
  have hproper : ∀ c ∈ "== ITEM ".toList ++ decimal number ++ " ==".toList, c ≠ '/' := by
    intro c hc
    rw [List.mem_append, List.mem_append] at hc
    rcases hc with (hc | hc) | hc
    · rintro rfl
      exact absurd hc (by decide)
    · exact (properValue_decimal number c hc).1
    · rintro rfl
      exact absurd hc (by decide)
  have hcontent := trim_uncommented_append hproper none
  rw [comment, List.append_nil] at hcontent
  have hequals : isBlank '=' = false := by decide
  have hends := trim_between hequals hequals ("= ITEM ".toList ++ decimal number ++ [' ', '='])
  have htrim : trim ("== ITEM ".toList ++ decimal number ++ " ==".toList) =
      '=' :: '=' :: (" ITEM ".toList ++ decimal number ++ " ==".toList) := by
    refine Eq.trans (congrArg trim ?_) (hends.trans ?_)
    · simp
    · simp
  rw [Reading.readLine, hcontent, htrim]
  rfl

/-- The next item may be started with its own number. -/
theorem readItemStart_next {reading : Reading} {items : List Item} (hclose : reading.close = .ok items)
    (line : Nat) : reading.readItemStart line
      (" ITEM ".toList ++ decimal (wordNumber (first + items.length)) ++ " ==".toList) =
        .ok ⟨items, some ⟨⟨line, []⟩, []⟩⟩ := by
  unfold Reading.readItemStart
  rw [itemNumber?_line, decimal?_decimal (wordNumber_lt _)]
  simp only [hclose, bind, Except.bind, ne_eq, not_true_eq_false, if_false, pure, Except.pure]

/-- The lines of the next item add the item. -/
theorem readLines_block {reading : Reading} {items : List Item} {item : Item}
    {numbered : List (Nat × List Char)} (hclose : reading.close = .ok items) (hstored : item.Stored)
    (hlines : numbered.map Prod.snd = block symbols (wordNumber (first + items.length)) item) :
    ∃ after, readLines reading numbered = .ok after ∧ after.close = .ok (item :: items) := by
  rw [block_eq, List.cons_append] at hlines
  obtain ⟨⟨line, _⟩, others, rfl, rfl, hothers⟩ := List.map_eq_cons_iff.mp hlines
  obtain ⟨front, back, rfl, hfront, hback⟩ := List.map_eq_append_iff.mp hothers
  obtain ⟨hnodup, hproper⟩ := proper_headerEntries symbols item
  have hempty : Fields.Holds (Draft.last ⟨⟨line, []⟩, []⟩) [] := ⟨rfl, .nil⟩
  obtain ⟨header, hheader, hfields⟩ := readLines_entries hproper hempty
    (by rw [List.nil_append, List.map_map]; exact hnodup) hfront
  obtain ⟨blocks, hblocks, hproperties⟩ := readLines_properties hstored.properties hback
  have hfinish : Draft.finish ⟨header, blocks.reverse ++ []⟩ = .ok item :=
    finish_of_held hstored hheader (by simpa using hblocks)
  refine ⟨⟨items, some ⟨header, blocks.reverse ++ []⟩⟩, ?_, ?_⟩
  · rw [readLines_cons, readLine_itemStart, readItemStart_next hclose]
    exact (readLines_append hfields).trans hproperties
  · exact (congrArg (Except.map (· :: items)) hfinish).trans rfl

/-- The lines of the items that come next add all of them. -/
theorem readLines_blocks {reading : Reading} {items new : List Item}
    {numbered : List (Nat × List Char)} (hclose : reading.close = .ok items)
    (hstored : ∀ item ∈ new, item.Stored)
    (hlines : numbered.map Prod.snd = (new.zipIdx items.length).flatMap
      fun (item, index) => block symbols (wordNumber (first + index)) item) :
    ∃ after, readLines reading numbered = .ok after ∧ after.close = .ok (new.reverse ++ items) := by
  induction new generalizing reading items numbered with
  | nil =>
    obtain rfl := List.map_eq_nil_iff.mp hlines
    exact ⟨reading, rfl, hclose⟩
  | cons item new ih =>
    obtain ⟨hfirst, hrest⟩ := List.forall_mem_cons.mp hstored
    rw [List.zipIdx_cons, List.flatMap_cons] at hlines
    obtain ⟨front, back, rfl, hfront, hback⟩ := List.map_eq_append_iff.mp hlines
    obtain ⟨middle, hmiddle, hadded⟩ := readLines_block hclose hfirst hfront
    obtain ⟨after, hafter, hall⟩ := ih hadded hrest hback
    refine ⟨after, (readLines_append hmiddle).trans hafter, ?_⟩
    rw [hall, List.reverse_cons, List.append_assoc, List.singleton_append]

/-- No line of the document has a line end in it. -/
theorem not_mem_block {item : Item} {c : Char} (hstored : item.Stored) (hc : c = '\n' ∨ c = '\r')
    (number : Nat) : ∀ line ∈ block symbols number item, c ∉ line := by
  have hmark : c ∉ "== ITEM ".toList ∧ c ∉ " ==".toList ∧ c ∉ "==> ".toList ∧
      ∀ kind : PropertyKind, c ∉ kind.name.toList := by
    rcases hc with rfl | rfl
    · exact ⟨by decide, by decide, by decide, fun kind => by cases kind <;> decide⟩
    · exact ⟨by decide, by decide, by decide, fun kind => by cases kind <;> decide⟩
  have hdecimal : c ∉ decimal number := not_mem_decimal (by rcases hc with rfl | rfl <;> rfl) number
  intro line hline
  rw [block_eq, List.cons_append] at hline
  rcases List.mem_cons.mp hline with rfl | hline
  · simp only [List.mem_append, not_or]
    exact ⟨⟨hmark.1, hdecimal⟩, hmark.2.1⟩
  · rcases List.mem_append.mp hline with hheader | hproperties
    · obtain ⟨entry, hentry, rfl⟩ := List.mem_map.mp hheader
      exact not_mem_line ((proper_headerEntries symbols item).2 entry hentry) hc
    · obtain ⟨property, hproperty, hline⟩ := List.mem_flatMap.mp hproperties
      rw [propertyBlock, propertyFields_eq] at hline
      rcases List.mem_cons.mp hline with rfl | hfield
      · rw [List.mem_append]
        exact fun hmem => hmem.elim hmark.2.2.1 (hmark.2.2.2 property.kind)
      · obtain ⟨entry, hentry, rfl⟩ := List.mem_map.mp hfield
        exact not_mem_line (proper_propertyEntries symbols (hstored.properties property hproperty) entry
          hentry) hc

/-- An objects document can be read, and is read as the items that it was printed from. -/
theorem parseAll_renderAll {items : List Item} (hstored : ∀ item ∈ items, item.Stored) :
    parseAll (renderAll items symbols) = .ok items := by
  let content := items.zipIdx.flatMap fun entry => block symbols (wordNumber (first + entry.2)) entry.1
  have hcontent : renderAll items symbols = String.ofList (unlines content) :=
    congrArg (fun lines => String.ofList (unlines lines)) (List.flatMap_map _ _ items.zipIdx)
  have hends : ∀ c, c = '\n' ∨ c = '\r' → ∀ line ∈ content, c ∉ line := by
    intro c hc line hline
    obtain ⟨⟨item, index⟩, hitem, hline⟩ := List.mem_flatMap.mp hline
    exact not_mem_block (hstored item (List.fst_mem_of_mem_zipIdx hitem)) hc _ line hline
  have hlines : (Text.numbered (content.map dropReturn)).map Prod.snd = content := by
    rw [numbered_map_snd]
    exact (List.map_congr_left fun line hline =>
      dropReturn_eq_self (hends '\r' (.inr rfl) line hline)).trans (List.map_id _)
  have hnone : Reading.close ⟨[], none⟩ = .ok [] := rfl
  obtain ⟨after, hread, hclose⟩ := readLines_blocks hnone hstored hlines
  rw [parseAll, hcontent, String.toList_ofList, lines_unlines (hends '\n' (.inl rfl))]
  change (readLines _ _ >>= _) = _
  rw [hread]
  simp only [bind, Except.bind, hclose, pure, Except.pure, List.append_nil, List.reverse_reverse]

/-- Items that have been read from a base file are printed as a document of the same items, whatever the
    strings and names that stand behind their fields. -/
theorem printed_items_parse {c c' : Cursor} {count : Nat} {items : List Item}
    (h : readAll c count = .ok (items, c')) (symbols : Symbols) :
    parseAll (renderAll items symbols) = .ok items :=
  parseAll_renderAll (stored_of_readAll h)

/-- The name and the description are shown as comments. They have a line end, quotes, the mark of a
    comment and the head of a block in them. -/
theorem printed_items_parse_hostile_strings :
    let data : List UInt8 := [0, 1, 0, 2, 0, 0, 0, 0, 0, 0, 0xff, 0xff, 0xff, 0xff, 0, 0, 0, 1, 0, 0, 0, 4,
      0, 0, 0, 1, 0, 2, 0, 5, 2, 3, 0, 0, 0, 7, 0, 3, 0, 12, 0, 0, 0, 9, 0, 0]
    let object : Property := .object 9 (some 7) [(1, 3), (9, 12)] 5
    let items : List Item := [⟨1, 2, 0, 2, 0, 3, 0, 4, 1, [object]⟩]
    let symbols : Symbols :=
      ⟨.ofList [(7, "// \"no\"\n== ITEM 3 =="), (9, "lamp\n\tNOUN 8")], .ofList [(2, 9)], 3⟩
    readAll (Cursor.ofBytes data) 1 = .ok (items, ⟨data, 46, []⟩) ∧
      parseAll (renderAll items symbols) = .ok items := by
  intro data object items symbols
  have hread : readAll (Cursor.ofBytes data) 1 = .ok (items, ⟨data, 46, []⟩) :=
    Except.eq_ok_of_toOption (by decide +kernel)
  exact ⟨hread, printed_items_parse hread symbols⟩

end documents

end Item

end Adventure
