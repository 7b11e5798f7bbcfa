import Mathlib.Data.List.Forall2
import Adventure.Script.Decode

namespace Adventure.TableRange

/-- A number that lies in a range. -/
def Holds (range : TableRange) (number : UInt16) : Prop := range.low ≤ number ∧ number ≤ range.high

/-- Two numbers with their positions, the first of which may stand before the second: positions do
    not decrease, and neither do numbers at the same position. -/
def Precedes (earlier later : UInt16 × Nat) : Prop :=
  earlier.2 ≤ later.2 ∧ (earlier.2 = later.2 → earlier.1 ≤ later.1)

/-- A choice of ranges for numbers, by the positions of the ranges. -/
structure Assigned (ranges : List TableRange) (numbers : List UInt16) (positions : List Nat) : Prop where
  holds : List.Forall₂ (fun number position =>
    ∃ range, ranges[position]? = some range ∧ range.Holds number) numbers positions
  ordered : (numbers.zip positions).Pairwise Precedes

/-- Numbers for which ranges can be chosen in order. -/
def Assignable (ranges : List TableRange) (numbers : List UInt16) : Prop :=
  ∃ positions, Assigned ranges numbers positions

private theorem precedes_iff {number later : UInt16} {position other : Nat} :
    Precedes (number, position) (later, other) ↔
      position ≤ other ∧ (position = other → number ≤ later) := Iff.rfl

theorem Precedes.trans {first second third : UInt16 × Nat} (h : Precedes first second)
    (h' : Precedes second third) : Precedes first third := by
  obtain ⟨hfirst, hnumbers⟩ := h
  obtain ⟨hsecond, hnumbers'⟩ := h'
  refine ⟨by omega, fun heq => ?_⟩
  exact UInt16.le_trans (hnumbers (by omega)) (hnumbers' (by omega))

/-- A position at which a number can follow the last one. -/
structure Open (ranges : List TableRange) (last : UInt16 × Nat) (number : UInt16)
    (position : Nat) : Prop where
  holds : ∃ range, ranges[position]? = some range ∧ range.Holds number
  follows : Precedes last (number, position)

variable {ranges : List TableRange} {numbers : List UInt16} {number low : UInt16} {first : Nat}

/-- Where a number cannot stay at the position of the last one, the positions behind it are open to the
    number as they are to one that begins its range. -/
theorem open_succ_iff {start : UInt16} {position : Nat} (hclosed : ¬Open ranges (low, first) number first)
    (hstart : ∀ range, ranges[first + 1]? = some range → start = range.low) :
    Open ranges (start, first + 1) number position ↔ Open ranges (low, first) number position := by
  constructor
  · rintro ⟨hholds, hfollows⟩
    obtain ⟨hbehind, -⟩ := precedes_iff.mp hfollows
    exact ⟨hholds, precedes_iff.mpr ⟨by omega, by omega⟩⟩
  · rintro ⟨hholds, hfollows⟩
    obtain ⟨hfrom, -⟩ := precedes_iff.mp hfollows
    have hmoved : position ≠ first := by
      rintro rfl
      exact hclosed ⟨hholds, hfollows⟩
    refine ⟨hholds, precedes_iff.mpr ⟨by omega, fun hnext => ?_⟩⟩
    obtain ⟨range, hrange, hlow, -⟩ := hholds
    rw [← hnext] at hrange
    rw [hstart range hrange]
    exact hlow

/-- The scan finds the first of the open positions, if there is one. -/
theorem place?_drop (number : UInt16) (hlow : ∀ range, ranges[first]? = some range → range.low ≤ low) :
    (place? number low (ranges.drop first) = none ∧
      ∀ position, ¬Open ranges (low, first) number position) ∨
    ∃ position, place? number low (ranges.drop first) = some (ranges.drop position) ∧
      Open ranges (low, first) number position ∧
      ∀ other, Open ranges (low, first) number other → position ≤ other := by
  generalize hrest : ranges.drop first = rest
  induction rest generalizing first low with
  | nil =>
    refine .inl ⟨rfl, fun position h => ?_⟩
    obtain ⟨⟨range, hrange, -⟩, hfollows⟩ := h
    obtain ⟨hfrom, -⟩ := precedes_iff.mp hfollows
    have hbound := List.drop_eq_nil_iff.mp hrest
    rw [List.getElem?_eq_none (by omega)] at hrange
    cases hrange
  | cons range rest ih =>
    have hfirst : ranges[first]? = some range := by
      rw [← List.head?_drop, hrest]
      rfl
    have hbehind : ranges.drop (first + 1) = rest := by
      rw [← List.tail_drop, hrest]
      rfl
    by_cases hfits : low ≤ number ∧ number ≤ range.high
    · have hopen : Open ranges (low, first) number first :=
        ⟨⟨range, hfirst, UInt16.le_trans (hlow range hfirst) hfits.1, hfits.2⟩,
          Nat.le_refl _, fun _ => hfits.1⟩
      refine .inr ⟨first, ?_, hopen, fun other hother => hother.follows.1⟩
      rw [place?, if_pos hfits, hrest]
    · have hclosed : ¬Open ranges (low, first) number first := by
        rintro ⟨⟨other, hother, -, hhigh⟩, -, hstays⟩
        rw [hfirst] at hother
        cases hother
        exact hfits ⟨hstays rfl, hhigh⟩
      have hstart : ∀ next, ranges[first + 1]? = some next →
          (rest.head?.map (·.low)).getD 0 = next.low := by
        intro next hnext
        rw [← hbehind, List.head?_drop, hnext]
        rfl
      have hscan := ih (fun next hnext => UInt16.le_of_eq (hstart next hnext).symm) hbehind
      simp only [open_succ_iff hclosed hstart] at hscan
      rw [place?, if_neg hfits]
      exact hscan

/-- A choice of ranges for the numbers that follow the last one. -/
structure AssignedAfter (ranges : List TableRange) (last : UInt16 × Nat) (numbers : List UInt16)
    (positions : List Nat) : Prop extends Assigned ranges numbers positions where
  follows : ∀ placed ∈ numbers.zip positions, Precedes last placed

private theorem assignedAfter_nil (last : UInt16 × Nat) : AssignedAfter ranges last [] [] :=
  ⟨⟨.nil, .nil⟩, by simp⟩

private theorem assignedAfter_cons_iff {last : UInt16 × Nat} {position : Nat} {positions : List Nat} :
    AssignedAfter ranges last (number :: numbers) (position :: positions) ↔
      Open ranges last number position ∧
        AssignedAfter ranges (number, position) numbers positions := by
  constructor
  · rintro ⟨⟨hholds, hordered⟩, hfollows⟩
    rw [List.zip_cons_cons] at hordered hfollows
    obtain ⟨hhead, htail⟩ := List.pairwise_cons.mp hordered
    obtain ⟨hfirst, -⟩ := List.forall_mem_cons.mp hfollows
    cases hholds with
    | cons hnumber hnumbers => exact ⟨⟨hnumber, hfirst⟩, ⟨hnumbers, htail⟩, hhead⟩
  · rintro ⟨hopen, ⟨hholds, hordered⟩, hfollows⟩
    refine ⟨⟨.cons hopen.holds hholds, ?_⟩, ?_⟩
    · rw [List.zip_cons_cons]
      exact List.pairwise_cons.mpr ⟨hfollows, hordered⟩
    · rw [List.zip_cons_cons]
      refine List.forall_mem_cons.mpr ⟨hopen.follows, fun placed hplaced => ?_⟩
      exact hopen.follows.trans (hfollows placed hplaced)

private theorem exists_assignedAfter_cons_iff {last : UInt16 × Nat} :
    (∃ positions, AssignedAfter ranges last (number :: numbers) positions) ↔
      ∃ position, Open ranges last number position ∧
        ∃ positions, AssignedAfter ranges (number, position) numbers positions := by
  constructor
  · rintro ⟨positions, h⟩
    cases positions with
    | nil => exact nomatch h.holds
    | cons position positions =>
      obtain ⟨hopen, hrest⟩ := assignedAfter_cons_iff.mp h
      exact ⟨position, hopen, positions, hrest⟩
  · rintro ⟨position, hopen, positions, hrest⟩
    exact ⟨position :: positions, assignedAfter_cons_iff.mpr ⟨hopen, hrest⟩⟩

/-- What can follow a number at a later position can follow it at an earlier one. This is why the
    first open position is never a bad choice. -/
theorem AssignedAfter.earlier {position other : Nat} {positions : List Nat}
    (h : AssignedAfter ranges (number, other) numbers positions) (hle : position ≤ other) :
    AssignedAfter ranges (number, position) numbers positions := by
  refine ⟨h.toAssigned, fun placed hplaced => ?_⟩
  have hearlier : Precedes (number, position) (number, other) := ⟨hle, fun _ => UInt16.le_refl _⟩
  exact hearlier.trans (h.follows placed hplaced)

/-- The scan passes all numbers exactly if ranges can be chosen for them. -/
theorem rejectedFrom_eq_none_iff (numbers : List UInt16)
    (hlow : ∀ range, ranges[first]? = some range → range.low ≤ low) :
    rejectedFrom low (ranges.drop first) numbers = none ↔
      ∃ positions, AssignedAfter ranges (low, first) numbers positions := by
  induction numbers generalizing first low with
  | nil => exact ⟨fun _ => ⟨[], assignedAfter_nil _⟩, fun _ => rfl⟩
  | cons number numbers ih =>
    rw [exists_assignedAfter_cons_iff, rejectedFrom]
    rcases place?_drop number hlow with ⟨hplace, hclosed⟩ | ⟨position, hplace, hopen, hleast⟩
    · rw [hplace]
      constructor
      · intro h
        cases h
      · rintro ⟨position, hopen, -⟩
        exact absurd hopen (hclosed position)
    · have hnumber : ∀ range, ranges[position]? = some range → range.low ≤ number := by
        intro range hrange
        obtain ⟨other, hother, hheld⟩ := hopen.holds
        rw [hrange] at hother
        cases hother
        exact hheld.1
      rw [hplace]
      show rejectedFrom number (ranges.drop position) numbers = none ↔ _
      rw [ih hnumber]
      constructor
      · intro h
        exact ⟨position, hopen, h⟩
      · rintro ⟨other, hother, positions, hrest⟩
        exact ⟨positions, hrest.earlier (hleast other hother)⟩

theorem rejected?_eq_none_iff :
    rejected? ranges numbers = none ↔ ranges = [] ∨ Assignable ranges numbers := by
  cases ranges with
  | nil => simp [rejected?]
  | cons range rest =>
    have hlow : ∀ start, (range :: rest)[0]? = some start → start.low = range.low := by
      intro start hstart
      cases hstart
      rfl
    have hscan := rejectedFrom_eq_none_iff numbers fun start hstart =>
      UInt16.le_of_eq (hlow start hstart)
    rw [List.drop_zero] at hscan
    rw [rejected?, hscan]
    constructor
    · rintro ⟨positions, h⟩
      exact .inr ⟨positions, h.toAssigned⟩
    · rintro (hnil | ⟨positions, h⟩)
      · cases hnil
      · refine ⟨positions, h, ?_⟩
        rintro ⟨number, position⟩ hplaced
        refine precedes_iff.mpr ⟨Nat.zero_le _, fun hzero => ?_⟩
        obtain ⟨start, hstart, hheld, -⟩ := List.forall₂_zip h.holds hplaced
        rw [← hzero] at hstart
        rw [← hlow start hstart]
        exact hheld

/-- The number that is rejected is the one that ends the first rejected start of the list. -/
theorem rejectedFrom_eq_some_iff : rejectedFrom low ranges numbers = some number ↔
    ∃ index, numbers[index]? = some number ∧
      (∀ earlier ≤ index, rejectedFrom low ranges (numbers.take earlier) = none) ∧
      rejectedFrom low ranges (numbers.take (index + 1)) ≠ none := by
  induction numbers generalizing low ranges with
  | nil => simp [rejectedFrom]
  | cons first rest ih =>
    cases hplace : place? first low ranges with
    | none =>
      have hrejected : ∀ rest, rejectedFrom low ranges (first :: rest) = some first := by
        intro rest
        rw [rejectedFrom, hplace]
      constructor
      · intro h
        rw [hrejected] at h
        cases h
        refine ⟨0, rfl, fun earlier hearlier => ?_, ?_⟩
        · rw [Nat.le_zero.mp hearlier]
          rfl
        · rw [List.take_succ_cons, hrejected]
          exact Option.some_ne_none _
      · rintro ⟨index, hnumber, hearlier, -⟩
        cases index with
        | zero => rwa [hrejected]
        | succ index =>
          have hone := hearlier 1 (by omega)
          rw [List.take_succ_cons, hrejected] at hone
          cases hone
    | some left =>
      have hpassed : ∀ rest, rejectedFrom low ranges (first :: rest) = rejectedFrom first left rest := by
        intro rest
        rw [rejectedFrom, hplace]
      rw [hpassed, ih]
      constructor
      · rintro ⟨index, hnumber, hearlier, hrejected⟩
        refine ⟨index + 1, hnumber, fun earlier hle => ?_, ?_⟩
        · cases earlier with
          | zero => rfl
          | succ earlier =>
            rw [List.take_succ_cons, hpassed]
            exact hearlier earlier (by omega)
        · rwa [List.take_succ_cons, hpassed]
      · rintro ⟨index, hnumber, hearlier, hrejected⟩
        cases index with
        | zero =>
          rw [List.take_succ_cons, hpassed] at hrejected
          exact absurd rfl hrejected
        | succ index =>
          refine ⟨index, hnumber, fun earlier hle => ?_, ?_⟩
          · have hnext := hearlier (earlier + 1) (by omega)
            rwa [List.take_succ_cons, hpassed] at hnext
          · rwa [List.take_succ_cons, hpassed] at hrejected

theorem rejected?_eq_some_iff : rejected? ranges numbers = some number ↔
    ranges ≠ [] ∧ ∃ index, numbers[index]? = some number ∧
      (∀ earlier ≤ index, Assignable ranges (numbers.take earlier)) ∧
      ¬Assignable ranges (numbers.take (index + 1)) := by
  by_cases hranges : ranges = []
  · subst hranges
    simp [rejected?]
  · have hpasses : ∀ numbers, rejected? ranges numbers = none ↔ Assignable ranges numbers := by
      intro numbers
      rw [rejected?_eq_none_iff, or_iff_right hranges]
    simp only [← hpasses, hranges, ne_eq, not_false_eq_true, true_and]
    cases ranges with
    | nil => exact absurd rfl hranges
    | cons range rest => exact rejectedFrom_eq_some_iff

theorem check_eq_ok_iff : check ranges numbers = .ok () ↔ rejected? ranges numbers = none := by
  unfold check
  split
  case _ hrejected => simp [hrejected]
  case _ hpassed => simp [hpassed]

theorem check_eq_error_iff {error : Error} : check ranges numbers = .error error ↔
    ∃ number, rejected? ranges numbers = some number ∧ error = .outOfRange number ranges := by
  unfold check
  split
  case _ hrejected => simp [hrejected, eq_comm]
  case _ hpassed => simp [hpassed]

/-- Numbers pass the check exactly if there are no ranges at all or ranges can be chosen for the
    numbers in order. Otherwise the check names the number with which a choice becomes impossible. -/
theorem check_exact (ranges : List TableRange) (numbers : List UInt16) :
    (check ranges numbers = .ok () ↔ ranges = [] ∨ Assignable ranges numbers) ∧
    ∀ error, check ranges numbers = .error error ↔
      ranges ≠ [] ∧ ∃ index number, numbers[index]? = some number ∧
        error = .outOfRange number ranges ∧
        (∀ earlier ≤ index, Assignable ranges (numbers.take earlier)) ∧
        ¬Assignable ranges (numbers.take (index + 1)) := by
  refine ⟨check_eq_ok_iff.trans rejected?_eq_none_iff, fun error => ?_⟩
  rw [check_eq_error_iff]
  constructor
  · rintro ⟨number, hrejected, rfl⟩
    obtain ⟨hranges, index, hnumber, hearlier, hfails⟩ := rejected?_eq_some_iff.mp hrejected
    exact ⟨hranges, index, number, hnumber, rfl, hearlier, hfails⟩
  · rintro ⟨hranges, index, number, hnumber, rfl, hearlier, hfails⟩
    exact ⟨number, rejected?_eq_some_iff.mpr ⟨hranges, index, hnumber, hearlier, hfails⟩, rfl⟩

/-- Equal ranges are places of their own, so the numbers may begin anew in the second one. -/
example : rejected? [⟨1, 10⟩, ⟨1, 10⟩] [5, 3, 7, 6] = some 6 := by decide

end Adventure.TableRange

namespace Adventure.Script

/-- A record keeps to the ranges of its file exactly if ranges can be chosen for its tables. -/
theorem checkRanges_eq_ok_iff {script : Script} {ranges : List TableRange} :
    script.checkRanges ranges = .ok () ↔
      ranges = [] ∨ TableRange.Assignable ranges (script.tables.map (·.number)) := by
  rw [← TableRange.rejected?_eq_none_iff, checkRanges]
  split
  case _ hrejected => simp [hrejected]
  case _ hpassed => simp [hpassed]

end Adventure.Script
