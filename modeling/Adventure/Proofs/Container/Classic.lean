import Adventure.Proofs.Container

namespace Adventure.Container

open Bytes

/-- A record behind its length, which is read first. -/
def readRecord (c : Cursor) : Except Error (List UInt8 × Cursor) := do
  let (length, c) ← c.word32.mapError .fault
  (c.bytes length.toNat).mapError .fault

/-- A record of the classic layout is spelled behind its length, wherever it stands. -/
def RecordSpelled (_ : Nat) (record bytes : List UInt8) : Prop :=
  record.length < 0x100000000 ∧ bytes = word32 (UInt32.ofNat record.length) ++ record

private theorem readRecord_reads : Cursor.Reads readRecord RecordSpelled := by
  intro c record c'
  simp only [readRecord, Except.bind_eq_ok_iff, Except.mapError_eq_ok_iff, Prod.exists,
    Cursor.word32_eq_ok_iff, Cursor.bytes_eq_ok_iff]
  constructor
  · rintro ⟨length, d, hhead, hlength, hrecord⟩
    refine ⟨_, ⟨hlength ▸ length.toNat_lt, rfl⟩, ?_⟩
    rw [hlength, UInt32.ofNat_toNat]
    exact hhead.append hrecord
  · rintro ⟨bytes, ⟨hlt, rfl⟩, hspan⟩
    obtain ⟨d, hhead, hrecord⟩ := Cursor.Spans.append_iff.mp hspan
    exact ⟨_, d, hhead, (UInt32.toNat_ofNat_of_lt' hlt).symm, hrecord⟩

/-- A failed read is reported with its place, but what is read is what single reads answer. -/
theorem classicRecords_eq_ok_iff {size count ordinal : Nat} {c c' : Cursor}
    {gathered records : List (List UInt8)} :
    classicRecords size count ordinal c gathered = .ok (records, c') ↔
      c.times readRecord count gathered = .ok (records, c') := by
  induction count generalizing ordinal c gathered with
  | zero => rfl
  | succ count ih =>
    simp only [classicRecords, Cursor.times, readRecord, bind, Except.bind]
    cases c.word32 with
    | error fault => simp [Except.mapError]
    | ok read =>
      obtain ⟨length, d⟩ := read
      simp only [Except.mapError]
      cases d.bytes length.toNat with
      | error fault => simp [throw, throwThe, MonadExceptOf.throw]
      | ok read => exact ih

/-- Records take as many bytes as they hold, and those of what stands before each. -/
theorem length_flatMap_led {lead : List UInt8 → List UInt8} {width : Nat}
    (hlead : ∀ record, (lead record).length = width) (records : List (List UInt8)) :
    (records.flatMap fun record => lead record ++ record).length =
      width * records.length + records.flatten.length := by
  induction records with
  | nil => rfl
  | cons record records ih =>
    rw [List.flatMap_cons, List.flatten_cons, List.length_append, ih, List.length_append, hlead,
      List.length_append, List.length_cons, Nat.mul_succ]
    omega

private theorem length_flatMap_records (records : List (List UInt8)) :
    (records.flatMap fun record => word32 (UInt32.ofNat record.length) ++ record).length =
      4 * records.length + records.flatten.length :=
  length_flatMap_led (fun _ => length_word32 _) records

theorem length_classicBytes (records : List (List UInt8)) :
    (classicBytes records).length = 4 + 4 * records.length + records.flatten.length := by
  rw [classicBytes, List.length_append, length_word32, length_flatMap_records, Nat.add_assoc]

/-- Writing holds a classic container to the 32 bits of a position too, of which its file has none. -/
theorem toBytes_classic (extra : List UInt8) (records : List (List UInt8)) :
    (Container.mk .classic extra records).toBytes =
      if 0xffffffff < (classicBytes records).length then
        .error (.tooLarge (classicBytes records).length)
      else if extra = [] then .ok (classicBytes records) else .error .unexpectedExtra := by
  have hindex : (Container.mk .classic extra records).index = indexFrom 4 0 4 records := rfl
  cases records with
  | nil => cases extra <;> rfl
  | cons record records =>
    have hlength : indexedLength (indexFrom 4 0 4 (record :: records)) =
        (classicBytes (record :: records)).length := by
      rw [indexedLength_indexFrom (List.cons_ne_nil _ _), length_classicBytes]
    simp only [toBytes, hindex, hlength, bind, Except.bind, pure, Except.pure, throw, throwThe,
      MonadExceptOf.throw]
    split
    · rfl
    · cases extra <;> rfl

theorem toBytes_classic_eq_ok_iff {extra bytes : List UInt8} {records : List (List UInt8)} :
    (Container.mk .classic extra records).toBytes = .ok bytes ↔
      bytes.length ≤ 0xffffffff ∧ extra = [] ∧ bytes = classicBytes records := by
  rw [toBytes_classic]
  constructor
  · intro h
    split at h
    · cases h
    case isFalse hlength =>
      split at h
      case isTrue hextra =>
        cases h
        exact ⟨Nat.le_of_not_lt hlength, hextra, rfl⟩
      case isFalse => cases h
  · rintro ⟨hlength, rfl, rfl⟩
    rw [if_neg (Nat.not_lt.mpr hlength), if_pos rfl]

/-- The classic reader accepts the files that the writer makes of records whose number and whose
    lengths have 32 bits, and no others. -/
theorem ofClassic_eq_ok_iff {container : Container} {data : List UInt8} :
    ofClassic data = .ok container ↔
      container.layout = .classic ∧ container.extra = [] ∧ container.records.length < 0x100000000 ∧
        (∀ record ∈ container.records, record.length < 0x100000000) ∧
          data = classicBytes container.records := by
  obtain ⟨layout, extra, records⟩ := container
  constructor
  · intro h
    simp only [ofClassic, Except.bind_eq_ok_iff, Except.throw_else_eq_ok_iff, Except.pure_eq_ok_iff,
      Except.mapError_eq_ok_iff, Prod.exists, Cursor.word32_eq_ok_iff, classicRecords_eq_ok_iff,
      Cursor.times_eq_ok_iff readRecord_reads] at h
    obtain ⟨count, c, hcount, -, records, d, ⟨_, bytes, rfl, hlength, hlisted, hspan⟩, hend, heq⟩ := h
    cases heq
    obtain ⟨hlengths, rfl⟩ := (Cursor.listed_iff_flatMap fun _ _ _ => Iff.rfl).mp hlisted
    have hrest : d.rest = [] := by simpa [Cursor.atEnd] using hend
    have hdata : data = _ ++ d.rest := (hcount.append hspan).rest
    rw [hrest, List.append_nil] at hdata
    refine ⟨rfl, rfl, hlength ▸ count.toNat_lt, hlengths, ?_⟩
    rw [classicBytes, hlength, UInt32.ofNat_toNat]
    exact hdata
  · rintro ⟨rfl, rfl, hcount, hlengths, rfl⟩
    have hword : (UInt32.ofNat records.length).toNat = records.length := UInt32.toNat_ofNat_of_lt' hcount
    have hspan : (Cursor.ofBytes (classicBytes records)).Spans (classicBytes records)
        ((Cursor.ofBytes (classicBytes records)).advance (classicBytes records).length) :=
      Cursor.spans_advance (List.append_nil _).symm
    obtain ⟨c, hhead, htail⟩ := Cursor.Spans.append_iff.mp hspan
    have hrest := htail.rest
    generalize hafter : (Cursor.ofBytes (classicBytes records)).advance _ = after at htail hrest
    have hend : after.rest = [] := by
      rw [← hafter]
      exact List.drop_length
    have havailable : ¬c.remaining < 4 * records.length := by
      rw [Cursor.remaining, hrest, List.length_append, length_flatMap_records]
      omega
    have htimes : c.times readRecord records.length [] = .ok (records, after) :=
      (Cursor.times_eq_ok_iff readRecord_reads).mpr
        ⟨records, _, rfl, rfl, (Cursor.listed_iff_flatMap fun _ _ _ => Iff.rfl).mpr ⟨hlengths, rfl⟩, htail⟩
    simp only [ofClassic, Cursor.word32_eq_ok_iff.mpr hhead, Except.mapError, hword,
      if_neg havailable, classicRecords_eq_ok_iff.mpr htimes, Cursor.atEnd, hend, bind, Except.bind]
    rfl

end Adventure.Container
