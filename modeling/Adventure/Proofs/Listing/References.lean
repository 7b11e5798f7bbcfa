import Mathlib.Data.List.Basic
import Adventure.Listing.Pool
import Adventure.Script.Symbols

namespace Adventure

namespace Symbols

variable {symbols : Symbols}

/-- The search for a text answers the lowest number that has it and is allowed. -/
theorem findText?_eq_some {text : String} {allowed : Nat → Bool} {id : Nat}
    (h : symbols.findText? text allowed = some id) :
    symbols.text? id = some text ∧ allowed id ∧
      ∀ other < id, allowed other → symbols.text? other ≠ some text := by
  obtain ⟨⟨found, content⟩, hfind, rfl⟩ := Option.map_eq_some_iff.mp h
  obtain ⟨hfound, before, behind, hlist, hbefore⟩ := List.find?_eq_some_iff_append.mp hfind
  have hmatch : content = text ∧ allowed found := by simpa using hfound
  obtain ⟨rfl, hallowed⟩ := hmatch
  have hmem : (found, content) ∈ symbols.texts.toList := by
    rw [hlist]
    simp
  refine ⟨Std.TreeMap.mem_toList_iff_getElem?_eq_some.mp hmem, hallowed, ?_⟩
  intro other hlt hother htext
  have hmem' := Std.TreeMap.mem_toList_iff_getElem?_eq_some.mpr htext
  have hordered := Std.TreeMap.ordered_keys_toList (t := symbols.texts)
  rw [hlist, List.pairwise_append, List.pairwise_cons] at hordered
  rw [hlist, List.mem_append, List.mem_cons] at hmem'
  rcases hmem' with hfront | heq | hback
  · have := hbefore _ hfront
    simp [hother] at this
  · cases heq
    omega
  · have hcompare := hordered.2.1.1 _ hback
    rw [Nat.compare_eq_lt] at hcompare
    omega

/-- No number is found for a text if none that has it is allowed. -/
theorem findText?_eq_none {text : String} {allowed : Nat → Bool}
    (h : ∀ id, allowed id → symbols.text? id ≠ some text) : symbols.findText? text allowed = none := by
  cases hfind : symbols.findText? text allowed with
  | none => rfl
  | some id =>
    obtain ⟨htext, hallowed, -⟩ := findText?_eq_some hfind
    exact absurd htext (h id hallowed)

/-- The lowest number that has a text and is allowed is found. -/
theorem findText?_of_lowest {text : String} {allowed : Nat → Bool} {id : Nat}
    (htext : symbols.text? id = some text) (hallowed : allowed id)
    (hlowest : ∀ other < id, allowed other → symbols.text? other ≠ some text) :
    symbols.findText? text allowed = some id := by
  cases hfind : symbols.findText? text allowed with
  | none =>
    have hmem := Std.TreeMap.mem_toList_iff_getElem?_eq_some.mpr htext
    have hnone := List.find?_eq_none.mp (Option.map_eq_none_iff.mp hfind) _ hmem
    simp [hallowed] at hnone
  | some found =>
    obtain ⟨hfound, hallows, hleast⟩ := findText?_eq_some hfind
    rcases Nat.lt_trichotomy found id with hlt | rfl | hlt
    · exact absurd hfound (hlowest found hlt hallows)
    · rfl
    · exact absurd htext (hleast id hlt hallowed)

theorem mem_findItems_iff {name : String} {item : Nat} :
    item ∈ symbols.findItems name ↔ symbols.itemName? item = some name := by
  simp only [findItems, List.mem_map, List.mem_filter, decide_eq_true_eq, Prod.exists,
    exists_and_right, exists_eq_right, Std.TreeMap.mem_toList_iff_getElem?_eq_some, itemName?,
    Option.bind_eq_some_iff]

/-- A name that one item is found for is the name of that item alone. -/
theorem itemName?_iff_of_findItems {name : String} {item : Nat} (h : symbols.findItems name = [item])
    (other : Nat) : symbols.itemName? other = some name ↔ other = item := by
  rw [← mem_findItems_iff, h, List.mem_singleton]

private theorem nodup_findItems (symbols : Symbols) (name : String) : (symbols.findItems name).Nodup := by
  have hkeys : symbols.itemNames.toList.Pairwise fun entry other => entry.1 ≠ other.1 :=
    Std.TreeMap.ordered_keys_toList.imp fun hlt heq => Nat.ne_of_lt (Nat.compare_eq_lt.mp hlt) heq
  exact List.pairwise_map.mpr (hkeys.filter _)

/-- A name of one item alone is found for it. -/
theorem findItems_of_itemName?_iff {name : String} {item : Nat}
    (h : ∀ other, symbols.itemName? other = some name ↔ other = item) : symbols.findItems name = [item] := by
  refine List.perm_singleton.mp ((List.perm_ext_iff_of_nodup (symbols.nodup_findItems name)
    (List.pairwise_singleton _ item)).mpr fun other => ?_)
  rw [mem_findItems_iff, h, List.mem_singleton]

end Symbols

namespace StringPool

/-- A pool that more texts have been declared in. -/
structure Extends (pool after : StringPool) : Prop where
  first : after.first = pool.first
  added : pool.added <+: after.added

namespace Extends

variable {pool middle after : StringPool}

theorem refl (pool : StringPool) : pool.Extends pool := ⟨rfl, List.prefix_refl _⟩

theorem trans (h : pool.Extends middle) (h' : middle.Extends after) : pool.Extends after :=
  ⟨h'.first.trans h.first, h.added.trans h'.added⟩

/-- A declared text keeps its place. -/
theorem idxOf? (h : pool.Extends after) {text : String} {index : Nat}
    (hindex : pool.added.idxOf? text = some index) : after.added.idxOf? text = some index := by
  obtain ⟨rest, hrest⟩ := h.added
  unfold List.idxOf? at hindex ⊢
  rw [← hrest, List.findIdx?_append, hindex]
  rfl

/-- A number that has a text keeps it. -/
theorem get? (h : pool.Extends after) {id : Nat} {text : String} (hid : pool.get? id = some text) :
    after.get? id = some text := by
  obtain ⟨rest, hrest⟩ := h.added
  unfold StringPool.get? at hid ⊢
  rw [h.first]
  split at hid
  · cases hid
  case _ hlow =>
    obtain ⟨hlt, -⟩ := List.getElem?_eq_some_iff.mp hid
    rw [if_neg hlow, ← hrest, List.getElem?_append_left hlt, hid]

end Extends

/-- The place of a declared text gives its number. -/
theorem get?_of_idxOf? {pool : StringPool} {text : String} {index : Nat}
    (h : pool.added.idxOf? text = some index) : pool.get? (pool.first + index) = some text := by
  obtain ⟨hlt, htext, -⟩ := List.findIdx?_eq_some_iff_getElem.mp h
  rw [get?, if_neg (Nat.not_lt.mpr (Nat.le_add_right _ _)), Nat.add_sub_cancel_left,
    List.getElem?_eq_getElem hlt]
  exact congrArg some (beq_iff_eq.mp htext)

/-- A text that is declared has a number from then on, and the texts before keep theirs. -/
theorem add_eq_some {pool after : StringPool} {text : String} {id : Nat}
    (h : pool.add text = some (id, after)) :
    pool.Extends after ∧ ∃ index, after.added.idxOf? text = some index ∧ id = after.first + index := by
  unfold add at h
  split at h
  case _ index hindex =>
    cases h
    exact ⟨.refl _, index, hindex, rfl⟩
  case _ hnone =>
    dsimp only at h
    split at h
    · cases h
      refine ⟨⟨rfl, List.prefix_append _ _⟩, pool.added.length, ?_, rfl⟩
      unfold List.idxOf? at hnone ⊢
      rw [List.findIdx?_append, hnone]
      simp [List.findIdx?_cons]
    · cases h

/-- A text can be declared if it has been, or while there is a number left for it. -/
theorem add_eq_none_iff {pool : StringPool} {text : String} :
    pool.add text = none ↔ text ∉ pool.added ∧ pool.limit ≤ pool.first + pool.added.length := by
  rw [← List.idxOf?_eq_none_iff, add]
  cases pool.added.idxOf? text with
  | some => simp
  | none => simp

end StringPool

end Adventure
