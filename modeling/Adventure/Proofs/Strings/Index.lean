import Mathlib.Data.List.Basic
import Adventure.Strings.Index

namespace Adventure.TextIndex

variable {index : List TextIndexEntry}

theorem length_basesFrom (isEmpty : String → Bool) (base : Nat) (bounds : List Nat)
    (index : List TextIndexEntry) : (basesFrom isEmpty base bounds index).length = index.length := by
  induction index generalizing base bounds with
  | nil => rfl
  | cons entry index ih =>
    rw [basesFrom, List.length_cons, List.length_cons]
    split <;> rw [ih]

/-- Behind as many files with strings as there are bounds passed, a file starts at the last of these. -/
theorem getElem?_basesFrom (isEmpty : String → Bool) (base : Nat) {bounds : List Nat}
    (hbounds : index.length ≤ bounds.length) {place : Nat} (hplace : place < index.length) :
    (basesFrom isEmpty base bounds index)[place]? =
      (base :: bounds)[(index.take place).countP (!isEmpty ·.name)]? := by
  induction index generalizing base bounds place with
  | nil => simp at hplace
  | cons entry index ih =>
    rw [List.length_cons] at hbounds hplace
    rw [basesFrom]
    cases place with
    | zero => rfl
    | succ place =>
      rw [List.getElem?_cons_succ, List.take_succ_cons, List.countP_cons]
      cases hempty : isEmpty entry.name with
      | true =>
        rw [if_pos rfl, ih base (by omega) (by omega)]
        rfl
      | false =>
        cases bounds with
        | nil => simp at hbounds
        | cons bound bounds =>
          rw [List.length_cons] at hbounds
          rw [if_neg Bool.false_ne_true, List.headD_cons, List.tail_cons, ih bound (by omega) (by omega)]
          rfl

/-- Every text file has a base. It is the first number of all where no file before holds strings. Where some
    do, it is the bound of an earlier entry of the index: that of the place which their number counts off. -/
theorem bases_by_count (index : List TextIndexEntry) (isEmpty : String → Bool) :
    (bases index isEmpty).length = index.length ∧ ∀ place < index.length,
      ((∀ entry ∈ index.take place, isEmpty entry.name) → (bases index isEmpty)[place]? = some 0x8000) ∧
      ((∃ entry ∈ index.take place, isEmpty entry.name = false) → ∃ passed,
        index[(index.take place).countP (!isEmpty ·.name) - 1]? = some passed ∧
          (bases index isEmpty)[place]? = some passed.baseMax.toNat) := by
  refine ⟨length_basesFrom _ _ _ _, fun place hplace => ?_⟩
  have hbounds : index.length ≤ (index.map (·.baseMax.toNat)).length :=
    Nat.le_of_eq (List.length_map _).symm
  have hbase := getElem?_basesFrom isEmpty firstBase hbounds hplace
  rw [← bases] at hbase
  have hcount : (index.take place).countP (!isEmpty ·.name) ≤ place :=
    Nat.le_trans List.countP_le_length (List.length_take_le _ _)
  constructor
  · intro hempty
    have hnone : (index.take place).countP (!isEmpty ·.name) = 0 :=
      List.countP_eq_zero.mpr fun entry hentry => by simp [hempty entry hentry]
    rw [hbase, hnone]
    rfl
  · rintro ⟨entry, hentry, hholds⟩
    have hsome : 0 < (index.take place).countP (!isEmpty ·.name) :=
      List.countP_pos_iff.mpr ⟨entry, hentry, by simp [hholds]⟩
    obtain ⟨passed, hpassed⟩ := Nat.exists_eq_add_of_lt hsome
    rw [Nat.zero_add] at hpassed
    rw [hpassed] at hbase hcount ⊢
    have hlt : passed < index.length := by omega
    rw [List.getElem?_cons_succ, List.getElem?_map, List.getElem?_eq_getElem hlt] at hbase
    exact ⟨index[passed], List.getElem?_eq_getElem hlt, hbase⟩

/-- The first and the third of five files are empty, so that two bounds are passed before the last: it starts
    at that of the second. -/
theorem bases_by_count_lagging :
    let index : List TextIndexEntry :=
      [⟨"T1", 0x8010⟩, ⟨"T2", 0x8020⟩, ⟨"T3", 0x8030⟩, ⟨"T4", 0x8040⟩, ⟨"T5", 0x8050⟩]
    let isEmpty : String → Bool := fun name => ["T1", "T3"].contains name
    (bases index isEmpty).length = 5 ∧ (bases index isEmpty)[4]? = some 0x8020 := by
  intro index isEmpty
  obtain ⟨hlength, hbases⟩ := bases_by_count index isEmpty
  obtain ⟨passed, hpassed, hbase⟩ := (hbases 4 (by decide)).2 ⟨⟨"T2", 0x8020⟩, by decide, by decide +kernel⟩
  have hsecond : index[(index.take 4).countP (!isEmpty ·.name) - 1]? = some ⟨"T2", 0x8020⟩ := by
    decide +kernel
  obtain rfl := Option.some.inj (hpassed.symm.trans hsecond)
  exact ⟨hlength, hbase⟩

end Adventure.TextIndex
