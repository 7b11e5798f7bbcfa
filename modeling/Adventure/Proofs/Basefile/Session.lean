import Adventure.Proofs.Basefile

namespace Adventure.Basefile

/-- An edit of a base file. -/
inductive Edit where
  /-- Counts the objects in the file anew. -/
  | count (objects : Nat)
  /-- Adds a string behind the others. -/
  | push (text : List UInt8)
  /-- Takes the last string off, if there is one. -/
  | pop
  | replaceData (data : List UInt8)
  deriving Repr, DecidableEq

/-- An edit that adds no string with the byte that ends strings. -/
def Edit.NulFree : Edit → Prop
  | push text => 0 ∉ text
  | _ => True

/-- The base file with other strings. -/
def withTexts (base : Basefile) (texts : List (List UInt8)) : Basefile :=
  { base with strings := { base.strings with entries := texts } }

/-- The base file that an edit makes, unless the counters have no room for it. -/
def tryEdit (base : Basefile) : Edit → Except Error Basefile
  | .count objects => base.setObjectCount objects
  | .push text => .ok (base.withTexts (base.strings.entries ++ [text]))
  | .pop => .ok (base.withTexts base.strings.entries.dropLast)
  | .replaceData data => .ok { base with data := data }

/-- The base file after an edit. One that fails leaves it as it was. -/
def edit (base : Basefile) (edit : Edit) : Basefile :=
  match base.tryEdit edit with
  | .ok edited => edited
  | .error _ => base

/-- The base file after edits, one after the other. -/
def run (base : Basefile) (edits : List Edit) : Basefile := edits.foldl Basefile.edit base

/-- What edits keep: the file can be written so that it is read back, and the objects outside it stay as
    many as they were. -/
structure Sound (base : Basefile) (dynamic : Nat) : Prop where
  version : base.header.version = knownVersion
  first : base.strings.base = 0
  texts : ∀ text ∈ base.strings.entries, 0 ∉ text
  dynamic : base.dynamicCount = dynamic

variable {base : Basefile} {dynamic : Nat}

private theorem sound_of_ofBytes {input : List UInt8} (h : ofBytes input = .ok base) :
    base.Sound base.dynamicCount := by
  have hconsistent := consistent_of_ofBytes h
  exact ⟨hconsistent.version, StringTable.ofBytes_base hconsistent.strings,
    StringTable.zero_not_mem_entries hconsistent.strings, rfl⟩

/-- Counting the objects anew fails exactly if the counter of all objects has no room for them. -/
theorem setObjectCount_eq_error_iff {count : Nat} {error : Error} :
    base.setObjectCount count = .error error ↔
      0x100000000 ≤ count + base.dynamicCount ∧ error = .tooManyItems count := by
  unfold setObjectCount
  dsimp only
  split
  case _ hfits =>
    have hroom : ¬0x100000000 ≤ count + base.dynamicCount := by omega
    simp [hroom]
  case _ hfull =>
    have hroom : 0x100000000 ≤ count + base.dynamicCount := by omega
    simp [hroom, eq_comm]

private theorem dynamicCount_setObjectCount {count : Nat} {counted : Basefile}
    (h : base.setObjectCount count = .ok counted) : counted.dynamicCount = base.dynamicCount := by
  obtain ⟨hobjects, htotal⟩ := counts_of_setObjectCount h
  rw [objectCount] at hobjects
  rw [dynamicCount, hobjects, htotal]
  omega

namespace Sound

private theorem withTexts (h : base.Sound dynamic) {texts : List (List UInt8)}
    (htexts : ∀ text ∈ texts, 0 ∉ text) : (base.withTexts texts).Sound dynamic :=
  ⟨h.version, h.first, htexts, h.dynamic⟩

private theorem tryEdit (h : base.Sound dynamic) {edit : Edit} (hedit : edit.NulFree) {edited : Basefile}
    (hdone : base.tryEdit edit = .ok edited) : edited.Sound dynamic := by
  cases edit with
  | count objects =>
    have hdynamic := dynamicCount_setObjectCount hdone
    obtain ⟨-, rfl⟩ := setObjectCount_eq_ok_iff.mp hdone
    exact ⟨h.version, h.first, h.texts, hdynamic.trans h.dynamic⟩
  | push text =>
    cases hdone
    apply h.withTexts
    intro other hother
    rcases List.mem_append.mp hother with hold | hnew
    · exact h.texts other hold
    · rw [List.mem_singleton.mp hnew]
      exact hedit
  | pop =>
    cases hdone
    exact h.withTexts fun text htext => h.texts text (List.dropLast_subset _ htext)
  | replaceData data =>
    cases hdone
    exact ⟨h.version, h.first, h.texts, h.dynamic⟩

theorem edit (h : base.Sound dynamic) {edit : Edit} (hedit : edit.NulFree) :
    (base.edit edit).Sound dynamic := by
  unfold Basefile.edit
  split
  case _ edited hdone => exact h.tryEdit hedit hdone
  case _ => exact h

theorem run (h : base.Sound dynamic) {edits : List Edit} (hedits : ∀ edit ∈ edits, edit.NulFree) :
    (base.run edits).Sound dynamic := by
  induction edits generalizing base with
  | nil => exact h
  | cons first rest ih =>
    obtain ⟨hfirst, hrest⟩ := List.forall_mem_cons.mp hedits
    exact ih (h.edit hfirst) hrest

end Sound

/-- A base file as it is read back: with the strings, the data and the counters of objects that were
    held, and with counters of strings that fit the strings. -/
structure ReadBack (base again : Basefile) : Prop where
  strings : again.strings = base.strings
  data : again.data = base.data
  version : again.header.version = base.header.version
  totalItems : again.header.totalItems = base.header.totalItems
  items : again.header.items = base.header.items
  count : again.header.strings.toNat = base.strings.entries.length
  size : again.header.textSize.toNat = base.strings.toBytes.length

theorem Sound.readBack (h : base.Sound dynamic) (hsize : base.strings.toBytes.length < 0x100000000) :
    ∃ again, ofBytes base.toBytes = .ok again ∧ base.ReadBack again := by
  have hconsistent := consistent_recounted h.version h.first h.texts hsize
  refine ⟨base.recounted, ?_, ⟨rfl, rfl, rfl, rfl, rfl, hconsistent.count, hconsistent.size⟩⟩
  rw [← toBytes_recounted]
  exact hconsistent.ofBytes_toBytes

/-- A base file that is read is written as it was. After any edits it is read back as it is held, and a
    new count of the objects is either taken, with the objects outside the file as many as they were when
    the file was read, or refused for lack of room, with nothing changed. -/
theorem edits_read_back {input : List UInt8} {base : Basefile} (h : ofBytes input = .ok base) :
    base.toBytes = input ∧
    ∀ (edits : List Edit) (after : Basefile), (∀ edit ∈ edits, edit.NulFree) → base.run edits = after →
      (after.strings.toBytes.length < 0x100000000 →
        ∃ again, ofBytes after.toBytes = .ok again ∧ after.ReadBack again) ∧
      ∀ count,
        (count + base.dynamicCount < 0x100000000 →
          ∃ counted, after.setObjectCount count = .ok counted ∧ after.edit (.count count) = counted ∧
            counted.objectCount = count ∧ counted.dynamicCount = base.dynamicCount) ∧
        (0x100000000 ≤ count + base.dynamicCount →
          after.setObjectCount count = .error (.tooManyItems count) ∧
            after.edit (.count count) = after) := by
  refine ⟨toBytes_ofBytes h, ?_⟩
  rintro edits _ hedits rfl
  have hsound := (sound_of_ofBytes h).run hedits
  refine ⟨hsound.readBack, fun count => ⟨fun hfits => ?_, fun hfull => ?_⟩⟩
  · rw [← hsound.dynamic] at hfits ⊢
    have hcounted := setObjectCount_eq_ok_iff.mpr ⟨hfits, rfl⟩
    refine ⟨_, hcounted, ?_, (counts_of_setObjectCount hcounted).1, dynamicCount_setObjectCount hcounted⟩
    rw [edit, tryEdit, hcounted]
  · rw [← hsound.dynamic] at hfull
    have hrefused := setObjectCount_eq_error_iff.mpr ⟨hfull, rfl⟩
    refine ⟨hrefused, ?_⟩
    rw [edit, tryEdit, hrefused]

/-- A base file whose header counts fewer objects in all than there are in the file. -/
def undercounted : Basefile :=
  ⟨⟨1, 128, 3, 2, 6⟩, ⟨0, [[0x41, 0x42], [0x43, 0x44]]⟩, [0xde, 0xad]⟩

theorem edits_read_back_undercounted :
    ofBytes undercounted.toBytes = .ok undercounted ∧
    undercounted.run [.push [0x4e], .count 0x100000000, .count 4, .pop, .pop, .replaceData [1]] =
      ⟨⟨4, 128, 4, 2, 6⟩, ⟨0, [[0x41, 0x42]]⟩, [1]⟩ ∧
    (∃ again, ofBytes (toBytes ⟨⟨4, 128, 4, 2, 6⟩, ⟨0, [[0x41, 0x42]]⟩, [1]⟩) = .ok again ∧
      ReadBack ⟨⟨4, 128, 4, 2, 6⟩, ⟨0, [[0x41, 0x42]]⟩, [1]⟩ again) ∧
    setObjectCount ⟨⟨4, 128, 4, 2, 6⟩, ⟨0, [[0x41, 0x42]]⟩, [1]⟩ 0x100000000 =
      .error (.tooManyItems 0x100000000) := by
  have hread : ofBytes undercounted.toBytes = .ok undercounted := by rfl
  have hedits : ∀ edit ∈ [.push [0x4e], .count 0x100000000, .count 4, .pop, .pop, .replaceData [1]],
      Edit.NulFree edit := by simp [Edit.NulFree]
  have hrun : undercounted.run
      [.push [0x4e], .count 0x100000000, .count 4, .pop, .pop, .replaceData [1]] =
        ⟨⟨4, 128, 4, 2, 6⟩, ⟨0, [[0x41, 0x42]]⟩, [1]⟩ := by rfl
  obtain ⟨hback, hcounts⟩ := (edits_read_back hread).2 _ _ hedits hrun
  exact ⟨hread, hrun, hback (by decide), ((hcounts 0x100000000).2 (by decide)).1⟩

end Adventure.Basefile
