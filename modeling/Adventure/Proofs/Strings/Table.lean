import Adventure.Proofs.Bytes.Text
import Adventure.Proofs.Outcome
import Adventure.Strings.Table

namespace Adventure.StringTable

open Bytes

variable {base : Nat} {data : List UInt8} {table : StringTable}

private theorem intercalate_terminated {separator : UInt8} (first : List UInt8) (rest : List (List UInt8)) :
    [separator].intercalate (first :: rest) ++ [separator] =
      (first :: rest).flatMap (· ++ [separator]) := by
  induction rest generalizing first with
  | nil => simp
  | cons next rest ih =>
    rw [List.intercalate_cons_cons, List.append_assoc, ih]
    rfl

private theorem not_mem_of_mem_splitOn {separator : UInt8} {text piece : List UInt8}
    (h : piece ∈ text.splitOn separator) : separator ∉ piece := by
  induction text generalizing piece with
  | nil =>
    obtain rfl : piece = [] := by simpa using h
    exact List.not_mem_nil
  | cons b text ih =>
    rw [List.splitOn_cons_eq_if_modifyHead] at h
    cases hpieces : text.splitOn separator with
    | nil => exact absurd hpieces (List.splitOn_ne_nil _ _)
    | cons first rest =>
      rw [hpieces] at h ih
      split at h
      · rcases List.mem_cons.mp h with rfl | h
        · exact List.not_mem_nil
        · exact ih h
      case _ hb =>
        rcases List.mem_cons.mp h with rfl | h
        · rw [List.mem_cons, not_or]
          refine ⟨?_, ih List.mem_cons_self⟩
          rintro rfl
          simp at hb
        · exact ih (List.mem_cons_of_mem _ h)

/-- Reading gives the table with the bytes of the file and without the byte that ends strings in any of
    them. -/
theorem ofBytes_eq_ok_iff : ofBytes base data = .ok table ↔
    table.base = base ∧ table.toBytes = data ∧ ∀ entry ∈ table.entries, 0 ∉ entry := by
  constructor
  · intro h
    unfold ofBytes at h
    split at h
    case _ hlast =>
      cases h
      exact ⟨rfl, (List.getLast?_eq_none_iff.mp hlast).symm, by simp⟩
    case _ last hlast =>
      split at h
      case _ hzero =>
        cases h
        refine ⟨rfl, ?_, fun entry => not_mem_of_mem_splitOn⟩
        obtain ⟨front, rfl⟩ := List.getLast?_eq_some_iff.mp hlast
        subst hzero
        rw [toBytes, List.dropLast_concat]
        cases hpieces : front.splitOn 0 with
        | nil => exact absurd hpieces (List.splitOn_ne_nil _ _)
        | cons first rest =>
          have hfront : [0].intercalate (front.splitOn 0) = front := List.intercalate_splitOn 0
          rw [hpieces] at hfront
          rw [show terminated = (· ++ [0]) from rfl, ← intercalate_terminated, hfront]
      case _ => cases h
  · rintro ⟨rfl, rfl, hzero⟩
    obtain ⟨base, entries⟩ := table
    cases entries with
    | nil => rfl
    | cons first rest =>
      have hbytes : toBytes ⟨base, first :: rest⟩ = [0].intercalate (first :: rest) ++ [0] :=
        (intercalate_terminated first rest).symm
      simp only [ofBytes, hbytes, List.getLast?_concat, if_true, List.dropLast_concat,
        List.splitOn_intercalate 0 hzero (List.cons_ne_nil _ _)]

theorem ofBytes_base (h : ofBytes base data = .ok table) : table.base = base :=
  (ofBytes_eq_ok_iff.mp h).1

/-- The bytes of the table of a file are those of the file. -/
theorem toBytes_ofBytes (h : ofBytes base data = .ok table) : table.toBytes = data :=
  (ofBytes_eq_ok_iff.mp h).2.1

/-- No string of a file holds the byte that ends strings. -/
theorem zero_not_mem_entries (h : ofBytes base data = .ok table) : ∀ entry ∈ table.entries, 0 ∉ entry :=
  (ofBytes_eq_ok_iff.mp h).2.2

/-- A table whose strings do not hold the byte that ends them is read back as it was written. -/
theorem ofBytes_toBytes (h : ∀ entry ∈ table.entries, 0 ∉ entry) :
    ofBytes table.base table.toBytes = .ok table :=
  ofBytes_eq_ok_iff.mpr ⟨rfl, rfl, h⟩

/-- A table of texts holds their bytes, in order. -/
theorem encode_eq_ok_iff {texts : List String} {language : Language} :
    encode base texts language = .ok table ↔ table.base = base ∧
      List.Forall₂ (fun text bytes => language.encode text = .ok bytes) texts table.entries := by
  rw [encode, Except.map_eq_ok_iff]
  simp only [Except.mapM_eq_ok_iff]
  constructor
  · rintro ⟨entries, hentries, rfl⟩
    exact ⟨rfl, hentries⟩
  · rintro ⟨rfl, hentries⟩
    exact ⟨table.entries, hentries, rfl⟩

/-- Where the same bytes start with as many strings, they start with the same strings. -/
theorem entries_eq_of_append {left right : List (List UInt8)} (hleft : ∀ entry ∈ left, 0 ∉ entry)
    (hright : ∀ entry ∈ right, 0 ∉ entry) (hlength : left.length = right.length)
    {back back' : List UInt8}
    (h : left.flatMap terminated ++ back = right.flatMap terminated ++ back') : left = right := by
  induction left generalizing right with
  | nil => exact (List.eq_nil_of_length_eq_zero hlength.symm).symm
  | cons first left ih =>
    cases right with
    | nil => cases hlength
    | cons first' right =>
      obtain ⟨hfirst, hrest⟩ := List.forall_mem_cons.mp hleft
      obtain ⟨hfirst', hrest'⟩ := List.forall_mem_cons.mp hright
      simp only [List.flatMap_cons, terminated, List.append_assoc, List.cons_append, List.nil_append] at h
      obtain rfl : first = first' := by
        rw [← untilNul_append hfirst (left.flatMap terminated ++ back), h, untilNul_append hfirst']
      rw [List.append_cancel_left_eq, List.cons.injEq] at h
      rw [ih hrest hrest' (by simpa using hlength) h.2]

/-- Each string takes a byte at least. -/
theorem length_entries_le (table : StringTable) : table.entries.length ≤ table.toBytes.length := by
  obtain ⟨base, entries⟩ := table
  rw [toBytes]
  induction entries with
  | nil => exact Nat.le_refl _
  | cons first rest ih =>
    have hfirst : (terminated first).length = first.length + 1 := List.length_append
    rw [List.flatMap_cons, List.length_append, List.length_cons, hfirst]
    dsimp only at ih
    omega

end Adventure.StringTable
