import Mathlib.Data.List.Sort
import Adventure.Soundbank
import Adventure.Proofs.Bytes.Reading

namespace Adventure

open Bytes

theorem Cursor.seek_bytes {file : Cursor} {before field after : List UInt8}
    (h : file.data = before ++ (field ++ after)) :
    ∃ c, (file.seek before.length >>= (·.bytes field.length)) = .ok (field, c) := by
  have hlength : ¬file.data.length < before.length := by
    rw [h, List.length_append]
    omega
  have hrest : file.data.drop before.length = field ++ after := by rw [h, List.drop_left]
  simp only [seek, if_neg hlength, hrest, bind, Except.bind]
  exact ⟨_, bytes_eq_ok_iff.mpr ⟨rfl, spans_advance rfl⟩⟩

namespace Soundbank

/-- The samples of a bank that are not empty, with their numbers. -/
def Bank.present (bank : Bank) : List (Nat × List UInt8) :=
  bank.toList.filter fun entry => !entry.2.isEmpty

/-- What a bank has at each number of its table, which is nothing for a missing sample. -/
def Bank.slots (bank : Bank) : List (List UInt8) :=
  (List.range bank.tableLength).map (bank.getD · [])

/-- The slots that are not empty, numbered from `ordinal` on. -/
def filled (ordinal : Nat) : List (List UInt8) → List (Nat × List UInt8)
  | [] => []
  | slot :: slots =>
    if slot = [] then filled (ordinal + 1) slots else (ordinal, slot) :: filled (ordinal + 1) slots

section filled

variable {ordinal : Nat} {slots : List (List UInt8)}

private theorem mem_filled_iff {entry : Nat × List UInt8} :
    entry ∈ filled ordinal slots ↔
      ∃ index, slots[index]? = some entry.2 ∧ entry.1 = ordinal + index ∧ entry.2 ≠ [] := by
  fun_induction filled ordinal slots with
  | case1 => simp
  | case2 ordinal slots ih =>
    rw [ih]
    constructor
    · rintro ⟨index, hslot, hordinal, hne⟩
      exact ⟨index + 1, hslot, by omega, hne⟩
    · rintro ⟨index, hslot, hordinal, hne⟩
      cases index with
      | zero => exact absurd (Option.some.inj hslot).symm hne
      | succ index => exact ⟨index, hslot, by omega, hne⟩
  | case3 ordinal slot slots hne ih =>
    rw [List.mem_cons, ih]
    constructor
    · rintro (rfl | ⟨index, hslot, hordinal, hne⟩)
      · exact ⟨0, rfl, rfl, hne⟩
      · exact ⟨index + 1, hslot, by omega, hne⟩
    · rintro ⟨index, hslot, hordinal, hne⟩
      cases index with
      | zero => exact .inl (Prod.ext hordinal (Option.some.inj hslot).symm)
      | succ index => exact .inr ⟨index, hslot, by omega, hne⟩

private theorem pairwise_filled : (filled ordinal slots).Pairwise fun entry other => entry.1 < other.1 := by
  fun_induction filled ordinal slots with
  | case1 => exact .nil
  | case2 _ _ ih => exact ih
  | case3 ordinal slot slots hne ih =>
    refine List.pairwise_cons.mpr ⟨fun entry hentry => ?_, ih⟩
    obtain ⟨index, -, hordinal, -⟩ := mem_filled_iff.mp hentry
    show ordinal < entry.1
    omega

private theorem flatten_filled (ordinal : Nat) (slots : List (List UInt8)) :
    ((filled ordinal slots).map Prod.snd).flatten = slots.flatten := by
  fun_induction filled ordinal slots with
  | case1 => rfl
  | case2 _ _ ih => exact ih
  | case3 _ _ _ _ ih => simp only [List.map_cons, List.flatten_cons, ih]

private theorem filled_eq_nil_iff : filled ordinal slots = [] ↔ slots.flatten = [] := by
  fun_induction filled ordinal slots with
  | case1 => simp
  | case2 _ _ ih => simpa using ih
  | case3 _ _ _ hne => simp [hne]

/-- Slots behind the last one that is not empty may be cut off. -/
theorem filled_take {count : Nat} (h : ∀ entry ∈ filled ordinal slots, entry.1 < ordinal + count) :
    filled ordinal (slots.take count) = filled ordinal slots := by
  induction slots generalizing ordinal count with
  | nil => simp
  | cons slot slots ih =>
    cases count with
    | zero =>
      rw [List.take_zero, filled]
      refine (List.eq_nil_iff_forall_not_mem.mpr fun entry hentry => ?_).symm
      obtain ⟨index, -, hordinal, -⟩ := mem_filled_iff.mp hentry
      have := h entry hentry
      omega
    | succ count =>
      have hrest : filled (ordinal + 1) (slots.take count) = filled (ordinal + 1) slots := by
        refine ih fun entry hentry => ?_
        obtain ⟨index, hslot, hordinal, hne⟩ := mem_filled_iff.mp hentry
        have := h entry (mem_filled_iff.mpr ⟨index + 1, hslot, by omega, hne⟩)
        omega
      simp only [List.take_succ_cons, filled, hrest]

end filled

section bank

variable {bank : Bank}

theorem Bank.lt_tableLength {ordinal : Nat} (h : ordinal ∈ bank) : ordinal < bank.tableLength := by
  unfold Bank.tableLength
  split
  case _ last hlast =>
    have hle := (Std.TreeMap.maxKey?_eq_some_iff_mem_and_forall.mp hlast).2 ordinal h
    exact Nat.lt_succ_of_le (Nat.isLE_compare.mp hle)
  case _ hlast =>
    have hempty := Std.TreeMap.maxKey?_eq_none_iff.mp hlast
    exact absurd h (Std.TreeMap.isEmpty_iff_forall_not_mem.mp hempty ordinal)

theorem Bank.mem_present_iff {entry : Nat × List UInt8} :
    entry ∈ bank.present ↔ bank[entry.1]? = some entry.2 ∧ entry.2 ≠ [] := by
  rw [Bank.present, List.mem_filter, Std.TreeMap.mem_toList_iff_getElem?_eq_some]
  simp

theorem Bank.slots_eq_some_iff {ordinal : Nat} {slot : List UInt8} (hne : slot ≠ []) :
    bank.slots[ordinal]? = some slot ↔ bank[ordinal]? = some slot := by
  rw [Bank.slots, List.getElem?_map]
  by_cases hlt : ordinal < bank.tableLength
  · rw [List.getElem?_range hlt, Option.map_some, Std.TreeMap.getD_eq_getD_getElem?, Option.some.injEq]
    cases bank[ordinal]? with
    | none => simpa using hne.symm
    | some found => simp
  · rw [List.getElem?_eq_none (by simpa using hlt)]
    have habsent : bank[ordinal]? ≠ some slot := fun hslot =>
      hlt (Bank.lt_tableLength (Std.TreeMap.mem_iff_isSome_getElem?.mpr (Option.isSome_of_eq_some hslot)))
    simpa using habsent

theorem Bank.filled_slots : filled 0 bank.slots = bank.present := by
  have hsorted : bank.present.Pairwise fun entry other => entry.1 < other.1 :=
    (Std.TreeMap.ordered_keys_toList.imp Nat.compare_eq_lt.mp).filter _
  have hantisymm : Std.Antisymm fun entry other : Nat × List UInt8 => entry.1 < other.1 :=
    ⟨fun _ _ hlt hgt => absurd hgt (Nat.lt_asymm hlt)⟩
  have hirrefl : Std.Irrefl fun entry other : Nat × List UInt8 => entry.1 < other.1 :=
    ⟨fun _ => Nat.lt_irrefl _⟩
  refine pairwise_filled.eq_of_mem_iff hsorted fun entry => ?_
  rw [mem_filled_iff, Bank.mem_present_iff]
  constructor
  · rintro ⟨index, hslot, hordinal, hne⟩
    rw [hordinal, Nat.zero_add]
    exact ⟨(Bank.slots_eq_some_iff hne).mp hslot, hne⟩
  · rintro ⟨hentry, hne⟩
    exact ⟨entry.1, (Bank.slots_eq_some_iff hne).mpr hentry, (Nat.zero_add _).symm, hne⟩

/-- The bodies of a bank are those of its slots, as empty ones take no room. -/
theorem Bank.flatten_slots : bank.slots.flatten = bank.values.flatten := by
  have hvalues : bank.values = bank.toList.map Prod.snd := by
    show bank.inner.inner.values = (Std.DTreeMap.Internal.Impl.Const.toList bank.inner.inner).map Prod.snd
    rw [Std.DTreeMap.Internal.Impl.values_eq_map_snd,
      Std.DTreeMap.Internal.Impl.Const.toList_eq_toListModel_map, List.map_map]
    rfl
  rw [← flatten_filled 0, Bank.filled_slots, hvalues, Bank.present]
  induction bank.toList with
  | nil => rfl
  | cons entry entries ih =>
    rw [List.filter_cons]
    split
    · rw [List.map_cons, List.flatten_cons, ih, List.map_cons, List.flatten_cons]
    case _ hempty =>
      have hnil : entry.2 = [] := by simpa using hempty
      rw [ih, List.map_cons, List.flatten_cons, hnil, List.nil_append]

end bank

/-- A table of slots whose bodies stand one after the other from an offset on. -/
inductive Laid : Nat → List (List UInt8) → List UInt32 → Prop
  | nil (offset : Nat) : Laid offset [] []
  | missing {offset : Nat} {slots : List (List UInt8)} {table : List UInt32}
      (tail : Laid offset slots table) : Laid offset ([] :: slots) (0 :: table)
  | sample {offset : Nat} {slot : List UInt8} {slots : List (List UInt8)} {entry : UInt32}
      {table : List UInt32} (filled : slot ≠ []) (starts : entry.toNat = offset)
      (tail : Laid (offset + slot.length) slots table) : Laid offset (slot :: slots) (entry :: table)

private theorem tableFrom_eq_ok {bank : Bank} {offset : Nat} {gathered : List (List UInt8)}
    {ordinals : List Nat} {data : List UInt8} (h : tableFrom bank offset gathered ordinals = .ok data) :
    ∃ table, Laid offset (ordinals.map (bank.getD · [])) table ∧
      data = gathered.reverse.flatten ++ table.flatMap word32Little := by
  fun_induction tableFrom bank offset gathered ordinals with
  | case1 => exact ⟨[], .nil _, by simpa using (Except.ok.inj h).symm⟩
  | case2 offset gathered ordinal rest slot hempty ih =>
    obtain ⟨table, hlaid, rfl⟩ := ih h
    have hslot : bank.getD ordinal [] = [] := List.isEmpty_iff.mp hempty
    refine ⟨0 :: table, ?_, by simp⟩
    rw [List.map_cons, hslot]
    exact .missing hlaid
  | case3 => cases h
  | case4 offset gathered ordinal rest slot hfilled hfits ih =>
    obtain ⟨table, hlaid, rfl⟩ := ih h
    have hstarts : (UInt32.ofNat offset).toNat = offset := UInt32.toNat_ofNat_of_lt' (by
      show offset < 4294967296
      omega)
    exact ⟨UInt32.ofNat offset :: table, .sample (by simpa using hfilled) hstarts hlaid, by simp⟩

theorem Bank.toBytes_eq_ok {bank : Bank} {data : List UInt8} (h : bank.toBytes = .ok data) :
    ∃ table, Laid (4 * bank.tableLength) bank.slots table ∧
      data = table.flatMap word32Little ++ bank.slots.flatten := by
  obtain ⟨head, hhead, rfl⟩ := Except.map_eq_ok_iff.mp h
  obtain ⟨table, hlaid, rfl⟩ := tableFrom_eq_ok hhead
  exact ⟨table, hlaid, by rw [Bank.flatten_slots]; simp⟩

/-- Where a sample ends that a table follows: where the next one starts, or at the end of the file. -/
def stopBefore (size : Nat) (table : List UInt32) : Nat :=
  ((table.find? (· ≠ 0)).map UInt32.toNat).getD size

private theorem samplesFrom_cons (file : Cursor) (size ordinal : Nat) (gathered : List Sample)
    (offset : UInt32) (table : List UInt32) :
    samplesFrom file size ordinal gathered (offset :: table) =
      if offset = 0 ∨ stopBefore size table ≤ offset.toNat then
        samplesFrom file size (ordinal + 1) gathered table
      else
        match file.seek offset.toNat >>= (·.bytes (stopBefore size table - offset.toNat)) with
        | .error fault => .error fault
        | .ok (data, _) =>
          samplesFrom file size (ordinal + 1) (⟨ordinal, offset.toNat, data⟩ :: gathered) table := by
  rw [samplesFrom, stopBefore]
  cases table.find? (· ≠ 0) <;> rfl

namespace Laid

variable {offset : Nat} {slots : List (List UInt8)} {table : List UInt32}

theorem length_eq (h : Laid offset slots table) : table.length = slots.length := by
  induction h with
  | nil => rfl
  | missing _ ih => rw [List.length_cons, List.length_cons, ih]
  | sample _ _ _ ih => rw [List.length_cons, List.length_cons, ih]

theorem take (h : Laid offset slots table) (count : Nat) :
    Laid offset (slots.take count) (table.take count) := by
  induction h generalizing count with
  | nil => simpa using .nil _
  | missing _ ih =>
    cases count with
    | zero => exact .nil _
    | succ count => exact .missing (ih count)
  | sample filled starts _ ih =>
    cases count with
    | zero => exact .nil _
    | succ count => exact .sample filled starts (ih count)

private theorem le_of_mem (h : Laid offset slots table) {entry : UInt32} (hentry : entry ∈ table)
    (hne : entry ≠ 0) : offset ≤ entry.toNat := by
  induction h with
  | nil => cases hentry
  | missing _ ih => exact ih ((List.mem_cons.mp hentry).resolve_left hne)
  | sample filled starts _ ih =>
    rcases List.mem_cons.mp hentry with rfl | hentry
    · exact Nat.le_of_eq starts.symm
    · exact Nat.le_trans (Nat.le_add_right _ _) (ih hentry)

private theorem eq_zero (h : Laid offset slots table) (hbodies : slots.flatten = []) :
    ∀ entry ∈ table, entry = 0 := by
  induction h with
  | nil => simp
  | missing _ ih => exact List.forall_mem_cons.mpr ⟨rfl, ih hbodies⟩
  | sample filled => exact absurd (List.append_eq_nil_iff.mp hbodies).1 filled

/-- The first entry that is not zero is where the bodies begin, if there are any. -/
theorem find?_cases (h : Laid offset slots table) (hoffset : 0 < offset) :
    (table.find? (· ≠ 0) = none ∧ slots.flatten = []) ∨
      ∃ entry, table.find? (· ≠ 0) = some entry ∧ entry.toNat = offset := by
  induction h with
  | nil => exact .inl ⟨rfl, rfl⟩
  | missing _ ih =>
    rw [List.find?_cons_of_neg (by simp)]
    exact ih hoffset
  | @sample offset slot slots entry table _ starts _ _ =>
    have hentry : entry ≠ 0 := by
      rintro rfl
      exact absurd starts (Nat.ne_of_lt hoffset)
    rw [List.find?_cons_of_pos (by simpa using hentry)]
    exact .inr ⟨entry, rfl, starts⟩

private theorem stopBefore_eq (h : Laid offset slots table) (hoffset : 0 < offset) :
    stopBefore (offset + slots.flatten.length) table = offset := by
  rcases h.find?_cases hoffset with ⟨hnone, hbodies⟩ | ⟨entry, hentry, hstarts⟩
  · rw [stopBefore, hnone, hbodies]
    rfl
  · rw [stopBefore, hentry]
    exact hstarts

/-- A table and the bodies behind it are read as the slots that are not empty. -/
theorem samplesFrom_eq (h : Laid offset slots table) (hoffset : 0 < offset) (file : Cursor)
    {before : List UInt8} (hbefore : before.length = offset) (hdata : file.data = before ++ slots.flatten)
    (ordinal : Nat) (gathered : List Sample) :
    ∃ found, samplesFrom file (offset + slots.flatten.length) ordinal gathered table =
        .ok (gathered.reverse ++ found) ∧
      found.map (fun sample => (sample.ordinal, sample.data)) = filled ordinal slots := by
  induction h generalizing before ordinal gathered with
  | nil => exact ⟨[], by rw [samplesFrom, List.append_nil], rfl⟩
  | missing _ ih =>
    obtain ⟨found, hfound, hmap⟩ := ih hoffset hbefore hdata (ordinal + 1) gathered
    refine ⟨found, ?_, by simpa [filled] using hmap⟩
    rw [samplesFrom_cons, if_pos (.inl rfl)]
    exact hfound
  | @sample offset slot slots entry table hfilled starts tail ih =>
    have hpositive := List.length_pos_of_ne_nil hfilled
    have hentry : entry ≠ 0 := by
      rintro rfl
      exact absurd starts (Nat.ne_of_lt hoffset)
    have hsize : offset + (slot :: slots).flatten.length = offset + slot.length + slots.flatten.length := by
      rw [List.flatten_cons, List.length_append, Nat.add_assoc]
    have hstop := tail.stopBefore_eq (by omega)
    obtain ⟨c, hread⟩ := Cursor.seek_bytes (hdata.trans (by rw [List.flatten_cons]))
    have hbehind : (before ++ slot).length = offset + slot.length := by rw [List.length_append, hbefore]
    obtain ⟨found, hfound, hmap⟩ := ih (by omega) hbehind (by simpa using hdata) (ordinal + 1)
      (⟨ordinal, offset, slot⟩ :: gathered)
    refine ⟨⟨ordinal, offset, slot⟩ :: found, ?_, by simp [filled, hfilled, hmap]⟩
    rw [hbefore] at hread
    have hopen : ¬(entry = 0 ∨ offset + slot.length ≤ offset) := not_or.mpr ⟨hentry, by omega⟩
    simp only [samplesFrom_cons, hsize, hstop, starts, if_neg hopen, Nat.add_sub_cancel_left, hread, hfound,
      List.reverse_cons, List.append_assoc, List.singleton_append]

end Laid

/-- Samples are numbered by their entries of the table. -/
theorem ordinal_lt_of_samplesFrom {file : Cursor} {size ordinal : Nat} {gathered found : List Sample}
    {table : List UInt32} (h : samplesFrom file size ordinal gathered table = .ok found) {sample : Sample}
    (hsample : sample ∈ found) : sample ∈ gathered ∨ sample.ordinal < ordinal + table.length := by
  fun_induction samplesFrom file size ordinal gathered table with
  | case1 =>
    cases h
    exact .inl (List.mem_reverse.mp hsample)
  | case2 _ _ _ _ _ _ _ ih =>
    refine (ih h).imp_right fun hlt => ?_
    rw [List.length_cons]
    omega
  | case3 => cases h
  | case4 ordinal _ _ _ _ _ _ _ _ _ ih =>
    rw [List.length_cons]
    rcases ih h with hgathered | hlt
    · rcases List.mem_cons.mp hgathered with rfl | hgathered
      · exact .inr (by show ordinal < _; omega)
      · exact .inl hgathered
    · exact .inr (by omega)

/-- An entry in front of the limit is read, and the limit sinks to it unless it is zero. -/
theorem offsetsWithin_entry {bound more : List UInt8} {limit : Nat} {c : Cursor} {entry : UInt32}
    (gathered : List UInt32) (hrest : c.rest = word32Little entry ++ more)
    (hbound : c.rest.length ≤ bound.length) (hlimit : c.position < limit) :
    ∃ bound', (c.advance 4).rest = more ∧ (c.advance 4).rest.length ≤ bound'.length ∧
      offsetsWithin bound limit c gathered =
        offsetsWithin bound' (if entry = 0 then limit else min limit entry.toNat) (c.advance 4)
          (entry :: gathered) := by
  have hspan : c.Spans (word32Little entry) (c.advance 4) := Cursor.spans_advance hrest
  have hlength := hspan.length_rest
  rw [length_word32Little] at hlength
  cases bound with
  | nil =>
    rw [List.length_nil] at hbound
    omega
  | cons head bound =>
    rw [List.length_cons] at hbound
    refine ⟨bound, by rw [Cursor.rest_advance, hrest]; rfl, by omega, ?_⟩
    rw [offsetsWithin.eq_def, if_neg (by omega), Cursor.word32Little_eq_ok_iff.mpr hspan]

/-- The reader of offsets stops at the first body, or at its limit if that comes before. -/
theorem offsetsWithin_eq {bound : List UInt8} {limit count base : Nat} {c : Cursor} {table : List UInt32}
    {bodies : List UInt8} (gathered : List UInt32) (hrest : c.rest = table.flatMap word32Little ++ bodies)
    (hbound : c.rest.length ≤ bound.length) (hbase : c.position + 4 * table.length = base)
    (hbehind : ∀ entry ∈ table, entry ≠ 0 → base ≤ entry.toNat)
    (hstops : limit ≤ base ∨ ∃ entry ∈ table, entry ≠ 0 ∧ entry.toNat = base)
    (hcount : c.position + 4 * count = min limit base) :
    offsetsWithin bound limit c gathered = .ok (gathered.reverse ++ table.take count) := by
  induction table generalizing bound limit count c gathered with
  | nil =>
    have hlimit : limit ≤ c.position := by
      rcases hstops with hle | ⟨entry, hentry, -⟩
      · simp at hbase
        omega
      · cases hentry
    rw [offsetsWithin.eq_def, if_pos hlimit, List.take_nil, List.append_nil]
  | cons entry table ih =>
    rw [List.length_cons] at hbase
    cases count with
    | zero => rw [offsetsWithin.eq_def, if_pos (by omega), List.take_zero, List.append_nil]
    | succ count =>
      obtain ⟨hentry, htable⟩ := List.forall_mem_cons.mp hbehind
      have hlimit : c.position < limit := by omega
      obtain ⟨bound', hrest', hbound', hstep⟩ := offsetsWithin_entry gathered
        (hrest.trans (by rw [List.flatMap_cons, List.append_assoc])) hbound hlimit
      generalize hsinks : (if entry = 0 then limit else min limit entry.toNat) = sunk at hstep
      have hsunk : min sunk base = min limit base := by
        split at hsinks
        · rw [hsinks]
        case _ hne =>
          have := hentry hne
          omega
      have hlower : sunk ≤ limit := by
        rw [← hsinks]
        split <;> omega
      have hreached : sunk ≤ base ∨ ∃ entry ∈ table, entry ≠ 0 ∧ entry.toNat = base := by
        rcases hstops with hle | ⟨other, hother, hne, hfirst⟩
        · exact .inl (by omega)
        · rcases List.mem_cons.mp hother with rfl | hother
          · rw [if_neg hne] at hsinks
            exact .inl (by omega)
          · exact .inr ⟨other, hother, hne, hfirst⟩
      have hposition : (c.advance 4).position = c.position + 4 := Cursor.position_advance c 4
      have hrestCount : (c.advance 4).position + 4 * count = min sunk base := by omega
      rw [hstep, ih (entry :: gathered) hrest' hbound' (by omega) htable hreached hrestCount,
        List.reverse_cons, List.append_assoc, List.singleton_append, List.take_succ_cons]

/-- A table of zeros that ends with its file before the limit is not told where to end. -/
theorem offsetsWithin_error {bound : List UInt8} {limit : Nat} {c : Cursor} {table : List UInt32}
    (gathered : List UInt32) (hrest : c.rest = table.flatMap word32Little)
    (hbound : c.rest.length ≤ bound.length) (hzeros : ∀ entry ∈ table, entry = 0)
    (hlimit : c.position + 4 * table.length < limit) :
    ∃ fault, offsetsWithin bound limit c gathered = .error fault := by
  induction table generalizing bound c gathered with
  | nil =>
    rw [List.flatMap_nil] at hrest
    rw [offsetsWithin.eq_def, if_neg (by omega)]
    exact ⟨.endOfData c.position 4, by simp [Cursor.word32Little, Cursor.bytes, hrest, Except.map]⟩
  | cons entry table ih =>
    obtain ⟨rfl, hothers⟩ := List.forall_mem_cons.mp hzeros
    rw [List.length_cons] at hlimit
    have hbefore : c.position < limit := by omega
    obtain ⟨bound', hrest', hbound', hstep⟩ :=
      offsetsWithin_entry gathered (hrest.trans List.flatMap_cons) hbound hbefore
    rw [hstep, if_pos rfl]
    exact ih _ hrest' hbound' hothers (by rw [Cursor.position_advance]; omega)

/-- The reader of offsets is told where to end, by a body or by the limit. -/
def Ends (slots : List (List UInt8)) : Prop := slots.flatten ≠ [] ∨ maxSamples ≤ slots.length

theorem Ends.length_pos {slots : List (List UInt8)} (h : Ends slots) : 0 < 4 * slots.length := by
  rcases h with hbodies | hlong
  · have hne : slots ≠ [] := fun hnil => hbodies (hnil ▸ rfl)
    have := List.length_pos_of_ne_nil hne
    omega
  · unfold maxSamples maxIndexEnd at hlong
    omega

section written

variable {bank : Bank} {data : List UInt8}

theorem Bank.length_slots (bank : Bank) : bank.slots.length = bank.tableLength := by
  rw [Bank.slots, List.length_map, List.length_range]

theorem Bank.present_eq_nil_iff : bank.present = [] ↔ bank.slots.flatten = [] := by
  rw [← Bank.filled_slots, filled_eq_nil_iff]

/-- A table that has a body or runs up to the limit is read up to there. -/
theorem Laid.offsets_eq {slots : List (List UInt8)} {table : List UInt32}
    (h : Laid (4 * slots.length) slots table) (hends : Ends slots) :
    offsets (table.flatMap word32Little ++ slots.flatten) = .ok (table.take maxSamples) := by
  have hlength := h.length_eq
  have hcount : table.take (min maxSamples slots.length) = table.take maxSamples := by
    rw [List.take_eq_take_iff, hlength]
    omega
  rw [← hcount, offsets]
  have hbase : (Cursor.ofBytes (table.flatMap word32Little ++ slots.flatten)).position + 4 * table.length =
      4 * slots.length := by
    rw [hlength]
    exact Nat.zero_add _
  refine offsetsWithin_eq [] rfl (Nat.le_refl _) hbase (fun entry => h.le_of_mem) ?_ ?_
  · have hpositive := hends.length_pos
    rcases hends with hbodies | hlong
    · rcases h.find?_cases hpositive with ⟨-, hnone⟩ | ⟨entry, hfind, hstarts⟩
      · exact absurd hnone hbodies
      · exact .inr ⟨entry, List.mem_of_find?_eq_some hfind, by simpa using List.find?_some hfind, hstarts⟩
    · unfold maxSamples maxIndexEnd at hlong
      exact .inl (by unfold maxIndexEnd; omega)
  · show 0 + 4 * min maxSamples slots.length = min maxIndexEnd (4 * slots.length)
    unfold maxSamples maxIndexEnd
    omega

/-- What is read of a bank whose table is told where to end, if no sample stands behind the limit. -/
theorem Laid.samples_eq {slots : List (List UInt8)} {table : List UInt32}
    (h : Laid (4 * slots.length) slots table) (hends : Ends slots)
    (hordinals : ∀ entry ∈ filled 0 slots, entry.1 < maxSamples) :
    ∃ found, samples (table.flatMap word32Little ++ slots.flatten) = .ok found ∧
      found.map (fun sample => (sample.ordinal, sample.data)) = filled 0 slots := by
  have hkept : filled 0 (slots.take maxSamples) = filled 0 slots :=
    filled_take fun entry hentry => (Nat.zero_add maxSamples).symm ▸ hordinals entry hentry
  have hbodies : (slots.take maxSamples).flatten = slots.flatten := by
    rw [← flatten_filled 0, hkept, flatten_filled]
  have htable : (table.flatMap word32Little).length = 4 * slots.length := by
    rw [← h.length_eq, length_flatMap_word32Little]
  obtain ⟨found, hfound, hmap⟩ := (h.take maxSamples).samplesFrom_eq hends.length_pos
    (Cursor.ofBytes (table.flatMap word32Little ++ slots.flatten)) htable (by rw [hbodies]; rfl) 0 []
  refine ⟨found, ?_, hmap.trans hkept⟩
  rw [samples, h.offsets_eq hends]
  rw [hbodies, ← htable, ← List.length_append] at hfound
  exact hfound

theorem Laid.ends_of_samples {slots : List (List UInt8)} {table : List UInt32}
    (h : Laid (4 * slots.length) slots table) {found : List Sample}
    (hfound : samples (table.flatMap word32Little ++ slots.flatten) = .ok found) : Ends slots := by
  refine Classical.not_not.mp fun hends => ?_
  obtain ⟨hbodies, hshort⟩ := not_or.mp hends
  rw [Classical.not_not] at hbodies
  have hlimit : 0 + 4 * table.length < maxIndexEnd := by
    rw [h.length_eq]
    unfold maxSamples at hshort
    omega
  obtain ⟨fault, hfault⟩ : ∃ fault, offsets (table.flatMap word32Little) = .error fault :=
    offsetsWithin_error [] rfl (Nat.le_refl _) (h.eq_zero hbodies) hlimit
  rw [hbodies, List.append_nil, samples, hfault] at hfound
  cases hfound

/-- A bank that is written is read as its samples that are not empty, in the order of their numbers,
    if none of these is numbered behind the limit of the table and the table is told where to end. -/
theorem written_bank_read (h : bank.toBytes = .ok data) :
    (∃ found, samples data = .ok found ∧
        found.map (fun sample => (sample.ordinal, sample.data)) = bank.present) ↔
      (∀ entry ∈ bank.present, entry.1 < maxSamples) ∧
        (bank.present ≠ [] ∨ maxSamples ≤ bank.tableLength) := by
  obtain ⟨table, hlaid, rfl⟩ := Bank.toBytes_eq_ok h
  have hends : Ends bank.slots ↔ bank.present ≠ [] ∨ maxSamples ≤ bank.tableLength := by
    rw [Ends, Bank.length_slots, ne_eq, ← Bank.present_eq_nil_iff]
  rw [← Bank.length_slots] at hlaid
  rw [← hends, ← Bank.filled_slots]
  constructor
  · rintro ⟨found, hfound, hmap⟩
    have hends := hlaid.ends_of_samples hfound
    refine ⟨fun entry hentry => ?_, hends⟩
    obtain ⟨sample, hsample, rfl⟩ := List.mem_map.mp (hmap ▸ hentry)
    rw [samples, hlaid.offsets_eq hends] at hfound
    have hlt := (ordinal_lt_of_samplesFrom hfound hsample).resolve_left List.not_mem_nil
    rw [List.length_take] at hlt
    show sample.ordinal < maxSamples
    omega
  · rintro ⟨hordinals, hends⟩
    exact hlaid.samples_eq hends hordinals

end written

/-- A bank whose samples leave gaps in the table. -/
def gapped : Bank := ((∅ : Bank).insert 1 [97, 98, 99]).insert 3 [100, 101, 102, 103]

private theorem tableLength_gapped : gapped.tableLength = 4 := by
  have hordered : compare 1 3 ≠ Ordering.gt := by decide
  simp [gapped, Bank.tableLength, Std.TreeMap.maxKey?_insert, hordered]

theorem written_bank_read_gapped :
    gapped.toBytes =
        .ok [0, 0, 0, 0, 16, 0, 0, 0, 0, 0, 0, 0, 19, 0, 0, 0, 97, 98, 99, 100, 101, 102, 103] ∧
      ((∀ entry ∈ gapped.present, entry.1 < maxSamples) ∧
        (gapped.present ≠ [] ∨ maxSamples ≤ gapped.tableLength)) ∧
      ∃ found, samples
          [0, 0, 0, 0, 16, 0, 0, 0, 0, 0, 0, 0, 19, 0, 0, 0, 97, 98, 99, 100, 101, 102, 103] = .ok found ∧
        found.map (fun sample => (sample.ordinal, sample.data)) = gapped.present :=
  have hwritten : gapped.toBytes =
      .ok [0, 0, 0, 0, 16, 0, 0, 0, 0, 0, 0, 0, 19, 0, 0, 0, 97, 98, 99, 100, 101, 102, 103] := by
    rw [Bank.toBytes, tableLength_gapped]
    rfl
  have hread : (∀ entry ∈ gapped.present, entry.1 < maxSamples) ∧
      (gapped.present ≠ [] ∨ maxSamples ≤ gapped.tableLength) := ⟨by decide, .inl (by decide)⟩
  ⟨hwritten, hread, (written_bank_read hwritten).mpr hread⟩

private theorem tableFrom_of_empty {bank : Bank} {offset : Nat} {gathered : List (List UInt8)}
    {ordinals : List Nat} (h : ∀ ordinal ∈ ordinals, bank.getD ordinal [] = []) :
    ∃ data, tableFrom bank offset gathered ordinals = .ok data := by
  fun_induction tableFrom bank offset gathered ordinals with
  | case1 gathered => exact ⟨_, rfl⟩
  | case2 _ _ _ _ _ _ ih => exact ih (List.forall_mem_cons.mp h).2
  | case3 _ _ ordinal _ _ hfilled | case4 _ _ ordinal _ _ hfilled =>
    exact absurd (List.isEmpty_iff.mpr (h ordinal List.mem_cons_self)) hfilled

/-- A bank without a sample of any length is always written. -/
theorem Bank.toBytes_of_present_eq_nil {bank : Bank} (h : bank.present = []) :
    ∃ data, bank.toBytes = .ok data := by
  have hslots := List.flatten_eq_nil_iff.mp (Bank.present_eq_nil_iff.mp h)
  obtain ⟨head, hhead⟩ : ∃ head, tableFrom bank (4 * bank.tableLength) []
      (List.range bank.tableLength) = .ok head :=
    tableFrom_of_empty fun ordinal hordinal => hslots _ (List.mem_map.mpr ⟨ordinal, hordinal, rfl⟩)
  exact ⟨_, by rw [Bank.toBytes, hhead]; rfl⟩

/-- A bank that has room for every sample and holds none. -/
def vacant : Bank := (∅ : Bank).insert 32767 []

/-- A table that runs up to the limit is read even if no sample follows it. -/
theorem vacant_read :
    ∃ data, vacant.toBytes = .ok data ∧
      ¬((∃ found, samples data = .ok found ∧
            found.map (fun sample => (sample.ordinal, sample.data)) = vacant.present) ↔
          vacant.present ≠ [] ∧ ∀ entry ∈ vacant.present, entry.1 < maxSamples) := by
  have hpresent : vacant.present = [] := by rfl
  have hlength : vacant.tableLength = maxSamples := by
    simp [vacant, Bank.tableLength, Std.TreeMap.maxKey?_insert, maxSamples, maxIndexEnd]
  obtain ⟨data, hdata⟩ := Bank.toBytes_of_present_eq_nil hpresent
  obtain ⟨table, hlaid, rfl⟩ := Bank.toBytes_eq_ok hdata
  rw [← Bank.length_slots] at hlaid
  have hends : Ends vacant.slots := .inr (Nat.le_of_eq (by rw [Bank.length_slots, hlength]))
  have hfound := hlaid.samples_eq hends (by rw [Bank.filled_slots, hpresent]; simp)
  rw [Bank.filled_slots] at hfound
  exact ⟨_, hdata, fun hiff => (hiff.mp hfound).1 hpresent⟩

end Soundbank

end Adventure
