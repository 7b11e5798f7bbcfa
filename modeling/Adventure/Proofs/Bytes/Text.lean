import Mathlib.Data.List.Basic
import Adventure.Proofs.Bytes.Reading

namespace Adventure

namespace Bytes

theorem untilNul_append {name : List UInt8} (h : 0 ∉ name) (rest : List UInt8) :
    untilNul (name ++ 0 :: rest) = name := by
  have hname : ∀ b ∈ name, (b != 0) = true := by
    intro b hb
    rw [bne_iff_ne]
    rintro rfl
    exact h hb
  rw [untilNul, List.takeWhile_append_of_pos hname]
  simp

theorem zero_not_mem_untilNul (field : List UInt8) : 0 ∉ untilNul field := by
  intro hzero
  have hkept := List.all_eq_true.mp (List.all_takeWhile (p := (· != 0)) (l := field)) 0 hzero
  exact absurd rfl (bne_iff_ne.mp hkept)

/-- A field goes on behind its first NUL, if it has one. -/
theorem eq_untilNul_or (field : List UInt8) :
    field = untilNul field ∨ ∃ rest, field = untilNul field ++ 0 :: rest := by
  have hsplit := List.takeWhile_append_dropWhile (p := (· != 0)) (l := field)
  cases hrest : field.dropWhile (· != 0) with
  | nil =>
    rw [hrest, List.append_nil] at hsplit
    exact .inl hsplit.symm
  | cons b rest =>
    have hb : b = 0 := by
      have hhead := List.head_dropWhile_not (· != 0) (l := field) (by simp [hrest])
      simpa [hrest] using hhead
    rw [hrest, hb] at hsplit
    exact .inr ⟨rest, hsplit.symm⟩

private theorem untilNul_eq_self {name : List UInt8} (h : 0 ∉ name) : untilNul name = name :=
  (eq_untilNul_or name).elim Eq.symm fun ⟨_, hsplit⟩ =>
    absurd (hsplit ▸ List.mem_append_right _ List.mem_cons_self) h

/-- Behind a plain name in its field all is NUL. -/
theorem untilNul_append_replicate {name : List UInt8} (h : 0 ∉ name) (count : Nat) :
    untilNul (name ++ List.replicate count 0) = name := by
  cases count with
  | zero => rw [List.replicate_zero, List.append_nil, untilNul_eq_self h]
  | succ count => exact untilNul_append h _

end Bytes

namespace Cursor

open Bytes

variable {c d : Cursor} {name : List UInt8}

theorem terminated_of_spans (h : c.Spans (Bytes.terminated name) d) (hname : 0 ∉ name) :
    c.terminated = (name, d) := by
  have hrest : c.rest = name ++ 0 :: d.rest := by simpa [Bytes.terminated] using h.rest
  have hlength : min (name.length + 1) c.rest.length = name.length + 1 := by
    rw [hrest, List.length_append, List.length_cons]
    omega
  rw [terminated, hrest, untilNul_append hname, ← hrest, hlength, h.cursor, length_terminated]

/-- A string is passed with its NUL, unless the data end with it. -/
theorem spans_of_terminated (h : c.terminated = (name, d)) :
    0 ∉ name ∧ (c.Spans (Bytes.terminated name) d ∨ c.Spans name d ∧ d.rest = []) := by
  obtain ⟨rfl, rfl⟩ := Prod.mk.inj h
  refine ⟨zero_not_mem_untilNul _, ?_⟩
  rcases eq_untilNul_or c.rest with hall | ⟨rest, hsplit⟩
  · have hspan : c.Spans (untilNul c.rest) (c.advance (untilNul c.rest).length) :=
      spans_advance (hall.trans (List.append_nil _).symm)
    have hlength := congrArg List.length hall
    rw [Nat.min_eq_right (by omega), hlength]
    refine .inr ⟨hspan, ?_⟩
    rw [rest_advance, ← hlength, List.drop_length]
  · have hrest : c.rest = Bytes.terminated (untilNul c.rest) ++ rest := by
      rw [Bytes.terminated, List.append_assoc]
      exact hsplit
    have hlength := congrArg List.length hrest
    rw [List.length_append, length_terminated] at hlength
    rw [Nat.min_eq_left (by omega), ← length_terminated]
    exact .inl (spans_advance hrest)

theorem padded_eq_ok_iff {width : Nat} :
    c.padded width = .ok (name, d) ↔
      ∃ field, field.length = width ∧ untilNul field = name ∧ c.Spans field d := by
  simp only [Cursor.padded, Except.map_eq_ok_iff, Prod.exists, Cursor.bytes_eq_ok_iff, Prod.mk.injEq]
  constructor
  · rintro ⟨field, d, ⟨hlength, hspan⟩, hname, rfl⟩
    exact ⟨field, hlength, hname, hspan⟩
  · rintro ⟨field, hlength, hname, hspan⟩
    exact ⟨field, d, ⟨hlength, hspan⟩, hname, rfl⟩

end Cursor

end Adventure
