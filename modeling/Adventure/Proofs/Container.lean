import Adventure.Container
import Adventure.Proofs.Bytes.Reading

namespace Adventure.Container

open Bytes

/-- The positions of records that lie one after the other from a position on. -/
def offsetsFrom (offset : Nat) : List (List UInt8) → List Nat
  | [] => []
  | record :: rest => offset :: offsetsFrom (offset + record.length) rest

section offsets

variable {records : List (List UInt8)} {offset : Nat}

private theorem map_offset_indexFrom (records : List (List UInt8)) (ordinal offset : Nat) :
    (indexFrom 0 ordinal offset records).map (·.offset) = offsetsFrom offset records := by
  induction records generalizing ordinal offset with
  | nil => rfl
  | cons record records ih =>
    rw [indexFrom, List.map_cons, ih, offsetsFrom]
    simp

theorem length_offsetsFrom (records : List (List UInt8)) (offset : Nat) :
    (offsetsFrom offset records).length = records.length := by
  induction records generalizing offset with
  | nil => rfl
  | cons record records ih => rw [offsetsFrom, List.length_cons, List.length_cons, ih]

/-- The file ends behind the last record. -/
theorem indexedLength_indexFrom (hne : records ≠ []) (lengthField ordinal offset : Nat) :
    indexedLength (indexFrom lengthField ordinal offset records) =
      offset + lengthField * records.length + records.flatten.length := by
  induction records generalizing ordinal offset with
  | nil => exact absurd rfl hne
  | cons record records ih =>
    cases records with
    | nil => simp [indexFrom, indexedLength]
    | cons next records =>
      have hrest := ih (List.cons_ne_nil _ _) (ordinal + 1) (offset + lengthField + record.length)
      have hlast : indexedLength (indexFrom lengthField ordinal offset (record :: next :: records)) =
          indexedLength (indexFrom lengthField (ordinal + 1) (offset + lengthField + record.length)
            (next :: records)) := by
        simp [indexFrom, indexedLength]
      rw [hlast, hrest, List.flatten_cons (l := record), List.length_append, List.length_cons (a := record),
        Nat.mul_succ]
      omega

private theorem mem_offsetsFrom_le (records : List (List UInt8)) (offset : Nat) :
    ∀ place ∈ offsetsFrom offset records, place ≤ offset + records.flatten.length := by
  induction records generalizing offset with
  | nil => simp [offsetsFrom]
  | cons record records ih =>
    rw [offsetsFrom, List.flatten_cons, List.length_append, List.forall_mem_cons]
    refine ⟨by omega, fun place hplace => ?_⟩
    have := ih _ place hplace
    omega

theorem checkOffsets_cons_eq_ok_iff {size ordinal previous : Nat} {rest : List Nat} :
    checkOffsets size ordinal previous (offset :: rest) = .ok () ↔
      previous ≤ offset ∧ offset ≤ size ∧ rest.headD offset ≤ size ∧
        checkOffsets size (ordinal + 1) offset rest = .ok () := by
  rw [checkOffsets]
  split
  case isTrue hprevious =>
    refine iff_of_false (by simp) ?_
    omega
  case isFalse hprevious =>
    split
    case isTrue hsize =>
      refine iff_of_false (by simp) ?_
      omega
    case isFalse hsize =>
      have hle : previous ≤ offset ∧ offset ≤ size ∧ rest.headD offset ≤ size := by omega
      simp only [hle, true_and]

private theorem checkOffsets_offsetsFrom {size previous : Nat} (ordinal : Nat) (hprevious : previous ≤ offset)
    (hsize : offset + records.flatten.length ≤ size) :
    checkOffsets size ordinal previous (offsetsFrom offset records) = .ok () := by
  induction records generalizing ordinal previous offset with
  | nil => rfl
  | cons record records ih =>
    rw [List.flatten_cons, List.length_append] at hsize
    have hstop : (offsetsFrom (offset + record.length) records).headD offset ≤
        offset + record.length := by
      cases records with
      | nil => exact Nat.le_add_right _ _
      | cons next records => exact Nat.le_refl _
    exact checkOffsets_cons_eq_ok_iff.mpr ⟨hprevious, by omega, by omega, ih _ (by omega) (by omega)⟩

private theorem cutRecords_offsetsFrom (hne : records ≠ []) (hlast : records.getLastD [] = [])
    (offset : Nat) : cutRecords records.flatten (offsetsFrom offset records) = records := by
  induction records generalizing offset with
  | nil => exact absurd rfl hne
  | cons record records ih =>
    cases records with
    | nil =>
      obtain rfl : record = [] := hlast
      rfl
    | cons next records =>
      have hrest := ih (List.cons_ne_nil _ _) hlast (offset + record.length)
      have hlength : offset + record.length - offset = record.length := by omega
      rw [offsetsFrom, offsetsFrom, cutRecords, hlength, List.flatten_cons (l := record),
        List.take_left, List.drop_left]
      rw [offsetsFrom] at hrest
      rw [hrest]

private theorem getLastD_offsetsFrom (hne : records ≠ []) (hlast : records.getLastD [] = []) (first : Nat) :
    (offsetsFrom offset records).getLastD first = offset + records.flatten.length := by
  induction records generalizing offset first with
  | nil => exact absurd rfl hne
  | cons record records ih =>
    cases records with
    | nil =>
      obtain rfl : record = [] := hlast
      simp [offsetsFrom]
    | cons next records =>
      have hrest : (offsetsFrom (offset + record.length) (next :: records)).getLastD offset =
          offset + record.length + (next :: records).flatten.length :=
        ih (List.cons_ne_nil _ _) hlast offset
      rw [offsetsFrom, List.getLastD_cons, hrest, List.flatten_cons (l := record), List.length_append]
      omega

end offsets

/-- A position is spelled in four bytes, the low one first, wherever it stands in the table. -/
def OffsetSpelled (_ : Nat) (place : Nat) (bytes : List UInt8) : Prop :=
  place < 0x100000000 ∧ bytes = word32Little (UInt32.ofNat place)

theorem readOffset_reads : Cursor.Reads readOffset OffsetSpelled := by
  intro c offset c'
  simp only [readOffset, Except.map_eq_ok_iff, Except.mapError_eq_ok_iff, Prod.exists,
    Cursor.word32Little_eq_ok_iff, Prod.mk.injEq]
  constructor
  · rintro ⟨word, d, h, rfl, rfl⟩
    exact ⟨_, ⟨word.toNat_lt, by rw [UInt32.ofNat_toNat]⟩, h⟩
  · rintro ⟨bytes, ⟨hlt, rfl⟩, h⟩
    exact ⟨_, c', h, UInt32.toNat_ofNat_of_lt' hlt, rfl⟩

/-- A position takes four bytes. -/
theorem length_flatMap_offsets (places : List Nat) :
    (places.flatMap fun place => word32Little (UInt32.ofNat place)).length = 4 * places.length := by
  rw [← List.flatMap_map, length_flatMap_word32Little, List.length_map]

/-- The parts of a container with a table of positions that can be written, and of its file. -/
theorem toBytes_eq_ok_iff {container : Container} {bytes : List UInt8}
    (hlayout : container.layout ≠ .classic) : container.toBytes = .ok bytes ↔
      container.extra.length = container.layout.extraLength ∧ container.records.getLastD [] = [] ∧
        indexedLength container.index ≤ 0xffffffff ∧
        bytes = (container.index.flatMap fun entry => word32Little (UInt32.ofNat entry.offset)) ++
          container.extra ++ container.records.flatten := by
  unfold toBytes
  dsimp only
  split
  case isTrue hlong =>
    refine iff_of_false (fun h => by cases h) ?_
    rintro ⟨-, -, hlength, -⟩
    omega
  case isFalse hlong =>
    split
    case _ hclassic => exact absurd hclassic hlayout
    case _ =>
      simp only [Except.throw_else_eq_ok_iff, Except.pure_eq_ok_iff]
      constructor
      · rintro ⟨-, hextra, hlast, rfl⟩
        exact ⟨not_not.mp hextra, by simpa using hlast, Nat.not_lt.mp hlong, rfl⟩
      · rintro ⟨hextra, hlast, -, rfl⟩
        exact ⟨by omega, not_not.mpr hextra, by simpa using hlast, rfl⟩

/-- The table of a file with positions: the records lie behind it and the block that follows it. -/
theorem index_eq_indexFrom {layout : Layout} (hlayout : layout ≠ .classic) (extra : List UInt8)
    (records : List (List UInt8)) : (Container.mk layout extra records).index =
      indexFrom 0 0 (4 * records.length + extra.length) records := by
  unfold index
  split
  case _ hclassic => exact absurd hclassic hlayout
  case _ => rfl

theorem flatMap_index {layout : Layout} (hlayout : layout ≠ .classic) (extra : List UInt8)
    (records : List (List UInt8)) :
    ((Container.mk layout extra records).index.flatMap fun entry =>
      word32Little (UInt32.ofNat entry.offset)) =
      (offsetsFrom (4 * records.length + extra.length) records).flatMap fun place =>
        word32Little (UInt32.ofNat place) := by
  rw [index_eq_indexFrom hlayout, ← map_offset_indexFrom records 0, List.flatMap_map]

theorem ofBytes_eq_ofOffsets {layout : Layout} (hlayout : layout ≠ .classic) (data : List UInt8) :
    ofBytes data layout = ofOffsets layout data := by
  unfold ofBytes
  split
  case _ => exact absurd rfl hlayout
  case _ => rfl

/-- A file with positions is read part by part: the first position, from which the number of the others is
    told, these, the block behind them and the records. -/
theorem ofOffsets_eq_ok {layout : Layout} {first : Nat} {others : List Nat} {extra body : List UInt8}
    (hplaces : ∀ place ∈ first :: others, place < 0x100000000) (hextra : extra.length = layout.extraLength)
    (hfirst : first = 4 * (others.length + 1) + extra.length)
    (hcheck : checkOffsets (first + body.length) 0 0 (first :: others) = .ok ())
    (hlast : (first :: others).getLastD first = first + body.length) :
    ofOffsets layout (((first :: others).flatMap fun place => word32Little (UInt32.ofNat place)) ++ extra ++
      body) = .ok ⟨layout, extra, cutRecords body (first :: others)⟩ := by
  obtain ⟨hfirstLt, hothersLt⟩ := List.forall_mem_cons.mp hplaces
  have hothersLength := length_flatMap_offsets others
  have hlisted : Cursor.Listed OffsetSpelled 4 others _ :=
    (Cursor.listed_iff_flatMap fun _ _ _ => Iff.rfl).mpr ⟨hothersLt, rfl⟩
  rw [List.flatMap_cons]
  generalize (others.flatMap fun place => word32Little (UInt32.ofNat place)) = othersBytes
    at hlisted hothersLength ⊢
  generalize hdata : word32Little (UInt32.ofNat first) ++ othersBytes ++ extra ++ body = data
  have hsize : data.length = first + body.length := by
    rw [← hdata]
    simp only [List.length_append, length_word32Little, hothersLength]
    omega
  have hspan := Cursor.spans_advance (c := Cursor.ofBytes data) hdata.symm
  generalize (Cursor.ofBytes data).advance
    (word32Little (UInt32.ofNat first) ++ othersBytes ++ extra).length = after at hspan
  have hrest : after.rest = body := by
    have := hspan.rest
    rw [Cursor.ofBytes, ← hdata, List.append_cancel_left_eq] at this
    exact this.symm
  obtain ⟨d, hfront, hextraSpan⟩ := Cursor.Spans.append_iff.mp hspan
  obtain ⟨e, hfirstSpan, hothersSpan⟩ := Cursor.Spans.append_iff.mp hfront
  have hreadFirst : readOffset (Cursor.ofBytes data) = .ok (first, e) :=
    (readOffset_reads _ _ _).mpr ⟨_, ⟨hfirstLt, rfl⟩, hfirstSpan⟩
  have hreadOthers : e.times readOffset others.length [] = .ok (others, d) := by
    refine (Cursor.times_eq_ok_iff readOffset_reads).mpr ⟨others, othersBytes, rfl, rfl, ?_, hothersSpan⟩
    rw [hfirstSpan.position]
    exact hlisted
  have hreadExtra : d.bytes layout.extraLength = .ok (extra, after) :=
    Cursor.bytes_eq_ok_iff.mpr ⟨hextra, hextraSpan⟩
  have hempty : data.isEmpty = false := by
    rw [← hdata]
    rfl
  have hshort : ¬data.length < first := by omega
  have haligned : ¬(first < layout.extraLength + 4 ∨ (first - layout.extraLength) % 4 ≠ 0) := by omega
  have htimes : (first - layout.extraLength) / 4 - 1 = others.length := by omega
  have hstop : ¬(first :: others).getLastD first < data.length := by omega
  rw [← hsize] at hcheck
  rw [ofOffsets]
  simp only [hempty, Bool.false_eq_true, if_false, bind, Except.bind, pure, Except.pure, hreadFirst,
    if_neg hshort, if_neg haligned, htimes, hreadOthers, hreadExtra, Except.mapError, hcheck,
    if_neg hstop, hrest]

/-- A container with a table of positions and at least one record is read back as it was written. -/
theorem ofBytes_toBytes {container : Container} {bytes : List UInt8}
    (hlayout : container.layout ≠ .classic) (hne : container.records ≠ [])
    (h : container.toBytes = .ok bytes) : ofBytes bytes container.layout = .ok container := by
  obtain ⟨hextra, hlast, hlength, rfl⟩ := (toBytes_eq_ok_iff hlayout).mp h
  obtain ⟨layout, extra, records⟩ := container
  dsimp only at hlayout hne hextra hlast ⊢
  rw [index_eq_indexFrom hlayout, indexedLength_indexFrom hne, Nat.zero_mul, Nat.add_zero] at hlength
  rw [flatMap_index hlayout, ofBytes_eq_ofOffsets hlayout]
  generalize hstart : 4 * records.length + extra.length = start at hlength ⊢
  have hbound := mem_offsetsFrom_le records start
  have hlastPlace : (offsetsFrom start records).getLastD start = start + records.flatten.length :=
    getLastD_offsetsFrom hne hlast start
  have hcount := length_offsetsFrom records start
  have hcut := cutRecords_offsetsFrom hne hlast start
  have hcheck : checkOffsets (start + records.flatten.length) 0 0 (offsetsFrom start records) = .ok () :=
    checkOffsets_offsetsFrom 0 (Nat.zero_le start) (Nat.le_refl _)
  obtain ⟨others, hoffsets⟩ : ∃ others, offsetsFrom start records = start :: others := by
    cases records with
    | nil => exact absurd rfl hne
    | cons record records => exact ⟨_, rfl⟩
  rw [hoffsets] at hbound hlastPlace hcount hcut hcheck ⊢
  have hplaces : ∀ place ∈ start :: others, place < 0x100000000 := fun place hplace =>
    Nat.lt_succ_of_le (Nat.le_trans (hbound place hplace) hlength)
  have hfirst : start = 4 * (others.length + 1) + extra.length := by
    rw [← hstart, ← hcount, List.length_cons]
  rw [ofOffsets_eq_ok hplaces hextra hfirst hcheck hlastPlace, hcut]

end Adventure.Container
