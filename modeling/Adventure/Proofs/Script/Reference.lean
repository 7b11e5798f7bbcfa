import Adventure.Script.Reference

namespace Adventure

open Bytes

namespace ItemRef

/-- The stored word that is two less than item 0. It is read as item 0, which has another word. -/
def wrappedWord : UInt32 := 0xfffffffe

theorem ofStored_ne_one (word : UInt32) : ofStored word ≠ 1 := by
  intro hone
  unfold ofStored at hone
  split at hone
  · cases hone
  case _ hword =>
    have hword' : word = 1 - 2 := by rw [← hone, UInt32.add_sub_cancel]
    exact hword hword'

/-- Every item but the player has a stored word. -/
theorem stored?_eq_none_iff {item : UInt32} : stored? item = none ↔ item = 1 := by
  unfold stored?
  by_cases hzero : item = 0
  · subst hzero
    decide
  · simp [hzero]

/-- The item of a stored word has this word, unless the item is 0 because the word wraps around. -/
theorem stored?_ofStored_of_ne {word : UInt32} (h : word ≠ wrappedWord) :
    stored? (ofStored word) = some (word32 word) := by
  by_cases hnone : word = noItem
  · subst hnone
    rfl
  · have hitem : ofStored word = word + 2 := if_neg hnone
    have hzero : word + 2 ≠ 0 := by
      intro hzero
      have hword : word = 0 - 2 := by rw [← hzero, UInt32.add_sub_cancel]
      exact h hword
    have hone : word + 2 ≠ 1 := hitem ▸ ofStored_ne_one word
    rw [hitem, stored?, if_neg hzero, if_neg hone, UInt32.add_sub_cancel]

/-- An item that has been read has a stored word, which is read as the same item. -/
theorem stored?_ofStored (word : UInt32) :
    ∃ stored, stored? (ofStored word) = some (word32 stored) ∧ ofStored stored = ofStored word := by
  by_cases hwrapped : word = wrappedWord
  · subst hwrapped
    exact ⟨noItem, rfl, rfl⟩
  · exact ⟨word, stored?_ofStored_of_ne hwrapped, rfl⟩

/-- A stored word is read as the item that it was stored for. -/
theorem stored?_eq_some {item : UInt32} {bytes : List UInt8} (h : stored? item = some bytes) :
    ∃ word, ofStored word = item ∧ bytes = word32 word := by
  unfold stored? at h
  by_cases hzero : item = 0
  · subst hzero
    cases h
    exact ⟨noItem, rfl, rfl⟩
  · by_cases hone : item = 1
    · rw [if_neg hzero, if_pos hone] at h
      cases h
    · rw [if_neg hzero, if_neg hone] at h
      cases h
      have hword : item - 2 ≠ noItem := by
        intro hword
        have hitem : item = noItem + 2 := by rw [← hword, UInt32.sub_add_cancel]
        exact hone hitem
      exact ⟨item - 2, by rw [ofStored, if_neg hword, UInt32.sub_add_cancel], rfl⟩

end ItemRef

end Adventure
