import Adventure.Proofs.Container
import Adventure.Proofs.Container.Classic

namespace Adventure.Container

open Bytes

private theorem le_size_of_checkOffsets {size ordinal previous : Nat} {offsets : List Nat}
    (h : checkOffsets size ordinal previous offsets = .ok ()) : ∀ place ∈ offsets, place ≤ size := by
  induction offsets generalizing ordinal previous with
  | nil => simp
  | cons offset rest ih =>
    obtain ⟨-, hsize, -, hrest⟩ := checkOffsets_cons_eq_ok_iff.mp h
    exact List.forall_mem_cons.mpr ⟨hsize, ih hrest⟩

/-- Positions that ascend to the end of the data cut it into records that lie at these positions. -/
theorem cutRecords_of_checkOffsets {size ordinal previous first : Nat} {others : List Nat}
    {data : List UInt8} (hcheck : checkOffsets size ordinal previous (first :: others) = .ok ())
    (hsize : size = first + data.length) (hlast : others.getLastD first = size) :
    offsetsFrom first (cutRecords data (first :: others)) = first :: others ∧
      (cutRecords data (first :: others)).flatten = data ∧
        (cutRecords data (first :: others)).getLast? = some [] := by
  induction others generalizing ordinal previous first data with
  | nil =>
    have hlength : data.length = 0 := by
      rw [List.getLastD_nil] at hlast
      omega
    obtain rfl := List.eq_nil_of_length_eq_zero hlength
    exact ⟨rfl, rfl, rfl⟩
  | cons stop others ih =>
    obtain ⟨-, -, -, hcheck⟩ := checkOffsets_cons_eq_ok_iff.mp hcheck
    obtain ⟨hle, hstop, -⟩ := checkOffsets_cons_eq_ok_iff.mp hcheck
    rw [List.getLastD_cons] at hlast
    have hdrop : size = stop + (data.drop (stop - first)).length := by
      rw [List.length_drop]
      omega
    obtain ⟨hoffsets, hflatten, hend⟩ := ih hcheck hdrop hlast
    have htake : first + (data.take (stop - first)).length = stop := by
      rw [List.length_take]
      omega
    refine ⟨?_, ?_, ?_⟩
    · rw [cutRecords, offsetsFrom, htake, hoffsets]
    · rw [cutRecords, List.flatten_cons, hflatten, List.take_append_drop]
    · rw [cutRecords, List.getLast?_cons, hend, Option.getD_some]

/-- What a file of a layout with positions holds when it is read. -/
structure Positioned (layout : Layout) (data : List UInt8) (container : Container) : Prop where
  layout_eq : container.layout = layout
  extra : container.extra.length = layout.extraLength
  last : container.records.getLast? = some []
  short : data.length < 0x100000000
  bytes : data = ((offsetsFrom (4 * container.records.length + container.extra.length)
      container.records).flatMap fun place => word32Little (UInt32.ofNat place)) ++
    container.extra ++ container.records.flatten

theorem positioned_of_ofOffsets {layout : Layout} {data : List UInt8} {container : Container}
    (hne : data ≠ []) (h : ofOffsets layout data = .ok container) : Positioned layout data container := by
  rw [ofOffsets, if_neg (by simpa using hne)] at h
  simp only [Except.bind_eq_ok_iff, Except.throw_else_eq_ok_iff, Except.pure_eq_ok_iff,
    Except.mapError_eq_ok_iff, Prod.exists, Cursor.times_eq_ok_iff readOffset_reads,
    Cursor.bytes_eq_ok_iff] at h
  obtain ⟨first, c, hfirst, hsize, haligned, others, d, ⟨_, othersBytes, rfl, hcount, hlisted, hothers⟩,
    extra, e, ⟨hextra, hblock⟩, ⟨⟩, hcheck, hlast, rfl⟩ := h
  obtain ⟨_, ⟨hfirstLt, rfl⟩, hfirstSpan⟩ := (readOffset_reads _ _ _).mp hfirst
  obtain ⟨hothersLt, rfl⟩ := (Cursor.listed_iff_flatMap fun _ _ _ => Iff.rfl).mp hlisted
  rw [List.getLastD_cons] at hlast
  have hmem : others.getLastD first ∈ first :: others := List.getLastD_mem_cons
  have hle := le_size_of_checkOffsets hcheck _ hmem
  have hlt : ∀ place ∈ first :: others, place < 0x100000000 :=
    List.forall_mem_cons.mpr ⟨hfirstLt, hothersLt⟩
  have hshort := hlt _ hmem
  have hdata : data = _ ++ e.rest := ((hfirstSpan.append hothers).append hblock).rest
  have hlength := congrArg List.length hdata
  simp only [List.length_append, length_word32Little, length_flatMap_offsets] at hlength
  obtain ⟨hoffsets, hflatten, hend⟩ :=
    cutRecords_of_checkOffsets hcheck (by omega : data.length = first + e.rest.length) (by omega)
  have hrecords : (cutRecords e.rest (first :: others)).length = others.length + 1 := by
    rw [← length_offsetsFrom _ first, hoffsets, List.length_cons]
  refine ⟨rfl, hextra, hend, by omega, ?_⟩
  have hstart : 4 * (others.length + 1) + extra.length = first := by omega
  rw [hrecords, hstart, hoffsets, hflatten, List.flatMap_cons]
  exact hdata

theorem Positioned.toBytes {layout : Layout} {data : List UInt8} {container : Container}
    (h : Positioned layout data container) (hlayout : layout ≠ .classic) :
    container.toBytes = .ok data := by
  have hlast : container.records.getLastD [] = [] := by
    rw [List.getLastD_eq_getLast?, h.last, Option.getD_some]
  have hne : container.records ≠ [] := by
    intro hnil
    have := h.last
    rw [hnil] at this
    cases this
  have hlength := congrArg List.length h.bytes
  simp only [List.length_append, length_flatMap_offsets, length_offsetsFrom] at hlength
  have hshort := h.short
  obtain ⟨containerLayout, extra, records⟩ := container
  obtain rfl : containerLayout = layout := h.layout_eq
  rw [toBytes_eq_ok_iff hlayout, flatMap_index hlayout, index_eq_indexFrom hlayout,
    indexedLength_indexFrom hne]
  dsimp only at hlength ⊢
  exact ⟨h.extra, hlast, by omega, h.bytes⟩

/-- A container without records or block is written in no bytes, which a layout with a block refuses. -/
theorem toBytes_nil {layout : Layout} (hlayout : layout ≠ .classic) :
    (Container.mk layout [] []).toBytes =
      if layout.extraLength ≠ 0 then .error (.extraSize layout.extraLength 0) else .ok [] := by
  cases layout with
  | classic => exact absurd rfl hlayout
  | indexed => rfl
  | talkie extraWords => cases extraWords <;> rfl

/-- A container that can be written is read back from its file, with the same block and the same
    records. A file of no bytes does not hold the block of a container without records. -/
theorem written_container_read {container : Container} {bytes : List UInt8}
    (hne : container.records ≠ [] ∨ container.extra = []) (h : container.toBytes = .ok bytes) :
    ofBytes bytes container.layout = .ok container := by
  by_cases hclassic : container.layout = .classic
  · obtain ⟨layout, extra, records⟩ := container
    obtain rfl : layout = .classic := hclassic
    obtain ⟨hlength, hextra, rfl⟩ := toBytes_classic_eq_ok_iff.mp h
    rw [length_classicBytes] at hlength
    refine ofClassic_eq_ok_iff.mpr ⟨rfl, hextra, ?_, fun record hrecord => ?_, rfl⟩
    · dsimp only
      omega
    · have : record.length ≤ records.flatten.length :=
        (List.sublist_flatten_of_mem hrecord).length_le
      omega
  · by_cases hrecords : container.records = []
    · obtain ⟨-, -, -, rfl⟩ := (toBytes_eq_ok_iff hclassic).mp h
      obtain ⟨layout, extra, records⟩ := container
      obtain rfl : records = [] := hrecords
      obtain rfl : extra = [] := hne.resolve_left fun hne => hne rfl
      rw [index_eq_indexFrom hclassic, ofBytes_eq_ofOffsets hclassic]
      rfl
    · exact ofBytes_toBytes hclassic hrecords h

/-- A block of one word, and records of which three are empty. -/
theorem written_container_read_talkie :
    (Container.mk (.talkie 1) [9, 8, 7, 6] [[], [0x41, 0x42], [], []]).toBytes =
        .ok [20, 0, 0, 0, 20, 0, 0, 0, 22, 0, 0, 0, 22, 0, 0, 0, 9, 8, 7, 6, 0x41, 0x42] ∧
      ofBytes [20, 0, 0, 0, 20, 0, 0, 0, 22, 0, 0, 0, 22, 0, 0, 0, 9, 8, 7, 6, 0x41, 0x42] (.talkie 1) =
        .ok ⟨.talkie 1, [9, 8, 7, 6], [[], [0x41, 0x42], [], []]⟩ := by
  have hwritten : (Container.mk (.talkie 1) [9, 8, 7, 6] [[], [0x41, 0x42], [], []]).toBytes =
      .ok [20, 0, 0, 0, 20, 0, 0, 0, 22, 0, 0, 0, 22, 0, 0, 0, 9, 8, 7, 6, 0x41, 0x42] := rfl
  exact ⟨hwritten, written_container_read (.inl (List.cons_ne_nil _ _)) hwritten⟩

/-- A container is written as the file that it is read from. Two files are read that are not written:
    the file of no bytes in a layout with a block, and a classic file beyond the reach of a position. -/
theorem read_container_rewritten {layout : Layout} {data : List UInt8} {container : Container}
    (h : ofBytes data layout = .ok container) :
    container.toBytes =
      if data = [] ∧ layout.extraLength ≠ 0 then .error (.extraSize layout.extraLength 0)
      else if 0xffffffff < data.length then .error (.tooLarge data.length)
      else .ok data := by
  by_cases hclassic : layout = .classic
  · subst hclassic
    obtain ⟨containerLayout, extra, records⟩ := container
    obtain ⟨rfl, rfl, -, -, rfl⟩ := ofClassic_eq_ok_iff.mp h
    rw [if_neg (fun hextra => hextra.2 rfl), toBytes_classic, if_pos rfl]
  · rw [ofBytes_eq_ofOffsets hclassic] at h
    by_cases hdata : data = []
    · subst hdata
      obtain rfl : Container.mk layout [] [] = container := Except.ok.inj h
      rw [toBytes_nil hclassic, List.length_nil, if_neg (Nat.not_lt_zero 0xffffffff)]
      simp only [true_and]
    · have hpositioned := positioned_of_ofOffsets hdata h
      have hshort := hpositioned.short
      rw [if_neg (fun hextra => hdata hextra.1), if_neg (by omega)]
      exact hpositioned.toBytes hclassic

/-- A layout with a block reads the file of no bytes as no records and writes no file for them; two
    records of the classic layout are written as they were read. -/
theorem read_container_rewritten_empty :
    (Container.mk (.talkie 1) [] []).toBytes = .error (.extraSize 4 0) ∧
      (Container.mk .classic [] [[0x41, 0x42], []]).toBytes =
        .ok [0, 0, 0, 2, 0, 0, 0, 2, 0x41, 0x42, 0, 0, 0, 0] := by
  have hempty : ofBytes [] (.talkie 1) = .ok ⟨.talkie 1, [], []⟩ := rfl
  have hclassic : ofBytes [0, 0, 0, 2, 0, 0, 0, 2, 0x41, 0x42, 0, 0, 0, 0] .classic =
      .ok ⟨.classic, [], [[0x41, 0x42], []]⟩ := rfl
  exact ⟨read_container_rewritten hempty, read_container_rewritten hclassic⟩

end Adventure.Container
