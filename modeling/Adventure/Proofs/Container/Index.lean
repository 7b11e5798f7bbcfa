import Mathlib.Data.List.Chain
import Adventure.Proofs.Container.Classic

namespace Adventure.Container

open Bytes

/-- The number of bytes before each record of a layout. -/
def Layout.leadLength : Layout → Nat
  | classic => 4
  | _ => 0

/-- The bytes before a record: in the classic layout, its length. -/
def Layout.lead : Layout → List UInt8 → List UInt8
  | classic, record => word32 (UInt32.ofNat record.length)
  | _, _ => []

/-- The bytes before the records: their number in the classic layout, else their positions and the block. -/
def front (container : Container) : List UInt8 :=
  match container.layout with
  | .classic => word32 (UInt32.ofNat container.records.length)
  | _ => (container.index.flatMap fun entry => word32Little (UInt32.ofNat entry.offset)) ++ container.extra

/-- What the index of a container says of its file. -/
structure Describes (container : Container) (bytes : List UInt8) : Prop where
  /-- Each entry tells the length of its record, whose bytes stand at the position of the entry. -/
  records : List.Forall₂ (fun entry record => entry.length = record.length ∧
    entry.offset + entry.length ≤ bytes.length ∧ (bytes.drop entry.offset).take entry.length = record)
    container.index container.records
  /-- Nothing but the length of the next record stands between two records. -/
  adjacent : container.index.IsChain fun entry next =>
    next.offset = entry.offset + entry.length + container.layout.leadLength
  ends : ∀ last ∈ container.index.getLast?, last.offset + last.length = bytes.length
  /-- In the classic layout the length of a record stands before it. -/
  lengths : container.layout = .classic → ∀ entry ∈ container.index,
    4 ≤ entry.offset ∧ ofDigits ((bytes.drop (entry.offset - 4)).take 4) = entry.length
  /-- In the other layouts the positions stand at the start of the file, low byte first. -/
  offsets : container.layout ≠ .classic → ∀ place entry, container.index[place]? = some entry →
    ofDigits ((bytes.drop (4 * place)).take 4).reverse = entry.offset
  /-- The block stands behind the positions and before the first record. -/
  block : container.layout ≠ .classic →
    (bytes.drop (4 * container.records.length)).take container.extra.length = container.extra ∧
      ∀ first ∈ container.index.head?,
        first.offset = 4 * container.records.length + container.extra.length

variable {container : Container} {bytes : List UInt8} {records : List (List UInt8)}

private theorem slice_append (front middle back : List UInt8) :
    ((front ++ middle ++ back).drop front.length).take middle.length = middle := by
  rw [List.append_assoc, List.drop_left, List.take_left]

section records

variable {lead : List UInt8 → List UInt8} {width : Nat}

/-- An entry that says where a record lies in a file, behind its lead. -/
structure Locates (lead : List UInt8 → List UInt8) (bytes : List UInt8) (entry : IndexEntry)
    (record : List UInt8) : Prop where
  length : entry.length = record.length
  parts : ∃ front back, bytes = front ++ lead record ++ record ++ back ∧
    entry.offset = (front ++ lead record).length

theorem Locates.slice {entry : IndexEntry} {record : List UInt8} (h : Locates lead bytes entry record) :
    entry.offset + entry.length ≤ bytes.length ∧ (bytes.drop entry.offset).take entry.length = record := by
  obtain ⟨front, back, rfl, hoffset⟩ := h.parts
  rw [h.length, hoffset]
  refine ⟨?_, slice_append _ _ _⟩
  rw [← List.length_append]
  exact (List.prefix_append _ back).length_le

/-- Records that each stand behind a lead of one width lie where the index has them. -/
theorem forall₂_locates (hlead : ∀ record, (lead record).length = width) (records : List (List UInt8))
    (ordinal : Nat) (front : List UInt8) :
    List.Forall₂ (Locates lead (front ++ records.flatMap fun record => lead record ++ record))
      (indexFrom width ordinal front.length records) records := by
  induction records generalizing ordinal front with
  | nil => exact .nil
  | cons record records ih =>
    have hrest := ih (ordinal + 1) (front ++ lead record ++ record)
    have hfront : (front ++ lead record ++ record).length = front.length + width + record.length := by
      rw [List.length_append, List.length_append, hlead]
    have hbytes : front ++ lead record ++ record ++
        (records.flatMap fun record => lead record ++ record) =
        front ++ (record :: records).flatMap fun record => lead record ++ record := by
      simp
    rw [hfront, hbytes] at hrest
    refine .cons ⟨rfl, front, records.flatMap fun record => lead record ++ record, hbytes.symm, ?_⟩ hrest
    rw [List.length_append, hlead]

private theorem isChain_indexFrom (width ordinal offset : Nat) (records : List (List UInt8)) :
    (indexFrom width ordinal offset records).IsChain fun entry next =>
      next.offset = entry.offset + entry.length + width := by
  induction records generalizing ordinal offset with
  | nil => exact .nil
  | cons record records ih =>
    refine List.isChain_cons.mpr ⟨?_, ih _ _⟩
    cases records with
    | nil => simp [indexFrom]
    | cons next records => simp [indexFrom]

/-- The first record lies where the index begins. -/
theorem head?_indexFrom (width ordinal offset : Nat) (records : List (List UInt8)) :
    ∀ first ∈ (indexFrom width ordinal offset records).head?, first.offset = offset + width := by
  cases records with
  | nil => simp [indexFrom]
  | cons record records => simp [indexFrom]

end records

private theorem leadLength_eq {layout : Layout} (hlayout : layout ≠ .classic) : layout.leadLength = 0 := by
  cases layout with
  | classic => exact absurd rfl hlayout
  | _ => rfl

private theorem length_lead (layout : Layout) (record : List UInt8) :
    (layout.lead record).length = layout.leadLength := by
  cases layout <;> rfl

private theorem front_eq (hlayout : container.layout ≠ .classic) : container.front =
    (container.index.flatMap fun entry => word32Little (UInt32.ofNat entry.offset)) ++ container.extra := by
  unfold front
  split
  case _ hclassic => exact absurd hclassic hlayout
  case _ => rfl

/-- A file begins with the number of its records, or with their positions and the block behind them. -/
theorem length_front (container : Container) : container.front.length =
    if container.layout = .classic then 4 else 4 * container.records.length + container.extra.length := by
  obtain ⟨layout, extra, records⟩ := container
  by_cases hclassic : layout = .classic
  · subst hclassic
    rfl
  · rw [front_eq hclassic, flatMap_index hclassic, List.length_append, length_flatMap_offsets,
      length_offsetsFrom, if_neg hclassic]

/-- The records lie behind what the file begins with. -/
theorem index_eq (container : Container) : container.index =
    indexFrom container.layout.leadLength 0 container.front.length container.records := by
  rw [length_front]
  obtain ⟨layout, extra, records⟩ := container
  cases layout <;> rfl

private theorem records_ne_nil_of_mem_index {entry : IndexEntry} (hentry : entry ∈ container.index) :
    container.records ≠ [] := by
  intro hnil
  rw [index_eq, hnil] at hentry
  cases hentry

/-- A file is what it begins with and then the records. -/
theorem bytes_eq_of_toBytes (h : container.toBytes = .ok bytes) : bytes = container.front ++
    container.records.flatMap fun record => container.layout.lead record ++ record := by
  obtain ⟨layout, extra, records⟩ := container
  by_cases hclassic : layout = .classic
  · subst hclassic
    obtain ⟨-, -, rfl⟩ := toBytes_classic_eq_ok_iff.mp h
    rfl
  · obtain ⟨-, -, -, rfl⟩ := (toBytes_eq_ok_iff hclassic).mp h
    have hlead : layout.lead = fun _ => [] := by
      cases layout with
      | classic => exact absurd rfl hclassic
      | _ => rfl
    rw [front_eq hclassic, hlead]
    simp [List.flatMap_id']

/-- The index ends where the file does. -/
theorem indexedLength_eq (h : container.toBytes = .ok bytes) (hne : container.records ≠ []) :
    indexedLength container.index = bytes.length := by
  rw [index_eq, indexedLength_indexFrom hne, bytes_eq_of_toBytes h, List.length_append,
    length_flatMap_led (length_lead _), Nat.add_assoc]

/-- All positions in a file with records have 32 bits. -/
theorem length_lt_of_toBytes (h : container.toBytes = .ok bytes) (hne : container.records ≠ []) :
    bytes.length < 0x100000000 := by
  by_cases hclassic : container.layout = .classic
  · obtain ⟨layout, extra, records⟩ := container
    obtain rfl : layout = .classic := hclassic
    obtain ⟨hlength, -, -⟩ := toBytes_classic_eq_ok_iff.mp h
    omega
  · obtain ⟨-, -, hlength, -⟩ := (toBytes_eq_ok_iff hclassic).mp h
    rw [indexedLength_eq h hne] at hlength
    omega

/-- Each position of a table stands in it at its own place. -/
theorem slice_positions {places : List Nat} {place offset : Nat} (hplace : places[place]? = some offset)
    (rest : List UInt8) :
    (((places.flatMap fun offset => word32Little (UInt32.ofNat offset)) ++ rest).drop (4 * place)).take 4 =
      word32Little (UInt32.ofNat offset) := by
  obtain ⟨hlt, rfl⟩ := List.getElem?_eq_some_iff.mp hplace
  have hsplit : places = places.take place ++ places[place] :: places.drop (place + 1) := by
    rw [← List.drop_eq_getElem_cons hlt, List.take_append_drop]
  have hfront := length_flatMap_offsets (places.take place)
  rw [List.length_take, Nat.min_eq_left (Nat.le_of_lt hlt)] at hfront
  rw [congrArg (List.flatMap _) hsplit, List.flatMap_append, List.flatMap_cons, ← List.append_assoc,
    List.append_assoc (_ ++ _), ← hfront]
  exact slice_append _ (word32Little _) _

section file

variable (h : container.toBytes = .ok bytes)

include h

private theorem locates_of_toBytes :
    List.Forall₂ (Locates container.layout.lead bytes) container.index container.records := by
  rw [bytes_eq_of_toBytes h, index_eq]
  exact forall₂_locates (length_lead _) _ _ _

private theorem lengths_of_toBytes (hclassic : container.layout = .classic) {entry : IndexEntry}
    (hentry : entry ∈ container.index) :
    4 ≤ entry.offset ∧ ofDigits ((bytes.drop (entry.offset - 4)).take 4) = entry.length := by
  have hlt := length_lt_of_toBytes h (records_ne_nil_of_mem_index hentry)
  obtain ⟨record, -, hlocated⟩ := forall₂_exists_right (locates_of_toBytes h) hentry
  obtain ⟨front, back, hparts, hoffset⟩ := hlocated.parts
  have hlead : container.layout.lead record = word32 (UInt32.ofNat record.length) := by
    rw [hclassic, Layout.lead]
  rw [hlead, List.append_assoc] at hparts
  rw [hlead, List.length_append, length_word32] at hoffset
  have hshort : record.length < 0x100000000 := by
    rw [hparts, List.length_append, List.length_append, List.length_append] at hlt
    omega
  have hslice := slice_append front (word32 (UInt32.ofNat record.length)) (record ++ back)
  rw [← hparts, length_word32] at hslice
  refine ⟨by omega, ?_⟩
  rw [hoffset, Nat.add_sub_cancel, hslice, ofDigits_word32, hlocated.length]
  exact UInt32.toNat_ofNat_of_lt' hshort

private theorem offsets_of_toBytes (hlayout : container.layout ≠ .classic) {place : Nat} {entry : IndexEntry}
    (hentry : container.index[place]? = some entry) :
    ofDigits ((bytes.drop (4 * place)).take 4).reverse = entry.offset := by
  have hmem := List.mem_of_getElem? hentry
  have hlt := length_lt_of_toBytes h (records_ne_nil_of_mem_index hmem)
  obtain ⟨record, -, hlocated⟩ := forall₂_exists_right (locates_of_toBytes h) hmem
  have hshort : entry.offset < 0x100000000 := by
    have := hlocated.slice.1
    omega
  have hoffset : (container.index.map (·.offset))[place]? = some entry.offset := by
    rw [List.getElem?_map, hentry]
    rfl
  have hslice := slice_positions hoffset
    (container.extra ++ container.records.flatMap fun record => container.layout.lead record ++ record)
  rw [List.flatMap_map, ← List.append_assoc, ← front_eq hlayout, ← bytes_eq_of_toBytes h] at hslice
  rw [hslice]
  exact (ofDigits_word32 _).trans (UInt32.toNat_ofNat_of_lt' hshort)

private theorem block_of_toBytes (hlayout : container.layout ≠ .classic) :
    (bytes.drop (4 * container.records.length)).take container.extra.length = container.extra ∧
      ∀ first ∈ container.index.head?,
        first.offset = 4 * container.records.length + container.extra.length := by
  have hfront := length_front container
  rw [if_neg hlayout] at hfront
  constructor
  · have hslice := slice_append
      (container.index.flatMap fun entry => word32Little (UInt32.ofNat entry.offset)) container.extra
      (container.records.flatMap fun record => container.layout.lead record ++ record)
    rw [← front_eq hlayout, ← bytes_eq_of_toBytes h] at hslice
    rw [front_eq hlayout, List.length_append] at hfront
    rwa [Nat.add_right_cancel hfront] at hslice
  · intro first hfirst
    rw [index_eq] at hfirst
    rw [head?_indexFrom _ _ _ _ first hfirst, hfront, leadLength_eq hlayout, Nat.add_zero]

private theorem ends_of_toBytes :
    ∀ last ∈ container.index.getLast?, last.offset + last.length = bytes.length := by
  intro last hlast
  have hlength := indexedLength_eq h (records_ne_nil_of_mem_index (List.mem_of_getLast? hlast))
  rwa [indexedLength, Option.mem_def.mp hlast] at hlength

end file

/-- The index of a container describes every file that the container is written in, whichever way it came to
    its records, its block and its layout. -/
theorem index_describes_file (h : container.toBytes = .ok bytes) : container.Describes bytes where
  records := (locates_of_toBytes h).imp fun _ _ hlocated => ⟨hlocated.length, hlocated.slice⟩
  adjacent := by
    rw [index_eq]
    exact isChain_indexFrom _ _ _ _
  ends := ends_of_toBytes h
  lengths hclassic _ hentry := lengths_of_toBytes h hclassic hentry
  offsets hlayout _ _ hentry := offsets_of_toBytes h hlayout hentry
  block := block_of_toBytes h

theorem index_describes_file_talkie :
    (Container.mk (.talkie 1) [1, 2, 3, 4] [[0x41, 0x42], [], [0x43], []]).Describes
      [20, 0, 0, 0, 22, 0, 0, 0, 22, 0, 0, 0, 23, 0, 0, 0, 1, 2, 3, 4, 0x41, 0x42, 0x43] :=
  index_describes_file (by decide)

end Adventure.Container
