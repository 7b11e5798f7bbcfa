import Mathlib.Data.UInt
import Mathlib.Order.Basic
import Adventure.Script.Voices

namespace Adventure

namespace VoiceMap

variable {voices : VoiceMap} {spoken : Nat → UInt16 → Prop}

private theorem mem_insertAscending {voice other : UInt16} {ascending : List UInt16} :
    other ∈ insertAscending voice ascending ↔ other = voice ∨ other ∈ ascending := by
  induction ascending with
  | nil => simp [insertAscending]
  | cons first rest ih =>
    rw [insertAscending]
    split
    · exact List.mem_cons
    · split
      case _ hsame =>
        rw [List.mem_cons, hsame, ← or_assoc, or_self]
      · rw [List.mem_cons, List.mem_cons, ih, or_left_comm]

private theorem insertAscending_pairwise {ascending : List UInt16} (h : ascending.Pairwise (· < ·))
    (voice : UInt16) : (insertAscending voice ascending).Pairwise (· < ·) := by
  induction ascending with
  | nil => exact List.pairwise_singleton _ _
  | cons first rest ih =>
    obtain ⟨hfirst, hrest⟩ := List.pairwise_cons.mp h
    rw [insertAscending]
    split
    case _ hbefore =>
      refine List.pairwise_cons.mpr ⟨List.forall_mem_cons.mpr ⟨hbefore, fun other hother => ?_⟩, h⟩
      exact UInt16.lt_trans hbefore (hfirst other hother)
    case _ hbefore =>
      split
      · exact h
      case _ hne =>
        refine List.pairwise_cons.mpr ⟨fun other hother => ?_, ih hrest⟩
        rcases mem_insertAscending.mp hother with rfl | hother
        · exact UInt16.lt_of_le_of_ne (UInt16.not_lt.mp hbefore) (Ne.symm hne)
        · exact hfirst other hother

/-- Each string has the voices that speak it, once and in ascending order. A string that none speaks is not in
    the map. -/
structure Gathers (voices : VoiceMap) (spoken : Nat → UInt16 → Prop) : Prop where
  ascending : ∀ text, (voices.getD text []).Pairwise (· < ·)
  mem_iff : ∀ text voice, voice ∈ voices.getD text [] ↔ spoken text voice
  getElem?_ne : ∀ text : Nat, voices[text]? ≠ some []

namespace Gathers

theorem empty : (∅ : VoiceMap).Gathers fun _ _ => False where
  ascending _ := by simp
  mem_iff _ _ := by simp
  getElem?_ne _ := by simp

theorem congr {spoken' : Nat → UInt16 → Prop} (h : voices.Gathers spoken)
    (hsame : ∀ text voice, spoken text voice ↔ spoken' text voice) : voices.Gathers spoken' :=
  ⟨h.ascending, fun text voice => (h.mem_iff text voice).trans (hsame text voice), h.getElem?_ne⟩

private theorem getD_add (voices : VoiceMap) (text : Nat) (voice : UInt16) (other : Nat) :
    (voices.add text voice).getD other [] =
      if other = text then insertAscending voice (voices.getD text []) else voices.getD other [] := by
  rw [VoiceMap.add, Std.TreeMap.getD_insert]
  simp only [Nat.compare_eq_eq, @eq_comm _ text]

theorem add (h : voices.Gathers spoken) (text : Nat) (voice : UInt16) :
    (voices.add text voice).Gathers fun other heard => (other, heard) = (text, voice) ∨ spoken other heard where
  ascending other := by
    rw [getD_add]
    split
    · exact insertAscending_pairwise (h.ascending text) voice
    · exact h.ascending other
  mem_iff other heard := by
    rw [getD_add]
    split
    case _ hsame => rw [mem_insertAscending, h.mem_iff, hsame, Prod.mk.injEq, and_iff_right rfl]
    case _ hne => rw [h.mem_iff, Prod.mk.injEq, or_iff_right fun heq => hne heq.1]
  getElem?_ne other := by
    rw [VoiceMap.add, Std.TreeMap.getElem?_insert]
    split
    · intro hnil
      have hmem : voice ∈ insertAscending voice (voices.getD text []) := mem_insertAscending.mpr (.inl rfl)
      rw [Option.some.inj hnil] at hmem
      exact List.not_mem_nil hmem
    · exact h.getElem?_ne other

theorem addAll (h : voices.Gathers spoken) (pairs : List (Nat × UInt16)) :
    (voices.addAll pairs).Gathers fun text voice => (text, voice) ∈ pairs ∨ spoken text voice := by
  induction pairs generalizing voices spoken with
  | nil => exact h.congr (by simp)
  | cons pair pairs ih =>
    refine (ih (h.add pair.1 pair.2)).congr fun text voice => ?_
    rw [List.mem_cons, Prod.mk.eta, or_left_comm, or_assoc]

/-- What stands in the map for a string is the list of its voices, if it has any. -/
theorem getElem?_eq (h : voices.Gathers spoken) (text : Nat) :
    voices[text]? = if voices.getD text [] = [] then none else some (voices.getD text []) := by
  have hget := h.getElem?_ne text
  rw [Std.TreeMap.getD_eq_getD_getElem?]
  cases hfound : voices[text]? with
  | none => rfl
  | some found =>
    rw [hfound, ne_eq, Option.some.injEq] at hget
    exact (if_neg hget).symm

end Gathers

end VoiceMap

namespace Command

/-- A command speaks a string with a voice: they are its first operand that is the number of a string, and its
    first one that is a voice. -/
structure Speaks (command : Command) (text : Nat) (voice : UInt16) : Prop where
  text : ∃ front id back, command.operands = front ++ .text (.id id) :: back ∧ id.toNat = text ∧
    ∀ operand ∈ front, ∀ other, operand ≠ .text (.id other)
  voice : ∃ front back, command.operands = front ++ .word .voice voice :: back ∧
    ∀ operand ∈ front, ∀ other, operand ≠ .word .voice other

/-- A search for the first operand of a form finds what this operand holds. -/
theorem findSome?_operand_iff {α : Type} {select : Operand → Option α} (form : α → Operand)
    (hselect : ∀ operand a, select operand = some a ↔ operand = form a) {operands : List Operand} {a : α} :
    operands.findSome? select = some a ↔ ∃ front back, operands = front ++ form a :: back ∧
      ∀ operand ∈ front, ∀ other, operand ≠ form other := by
  have hnone : ∀ operand, select operand = none ↔ ∀ other, operand ≠ form other := by
    intro operand
    rw [Option.eq_none_iff_forall_ne_some]
    exact forall_congr' fun other => not_congr (hselect operand other)
  rw [List.findSome?_eq_some_iff]
  simp only [hselect, hnone]
  constructor
  · rintro ⟨front, _, back, hoperands, rfl, hfront⟩
    exact ⟨front, back, hoperands, hfront⟩
  · rintro ⟨front, back, hoperands, hfront⟩
    exact ⟨front, _, back, hoperands, rfl, hfront⟩

private theorem firstText?_eq_some_iff {command : Command} {id : UInt32} : command.firstText? = some id ↔
    ∃ front back, command.operands = front ++ .text (.id id) :: back ∧
      ∀ operand ∈ front, ∀ other, operand ≠ .text (.id other) := by
  refine findSome?_operand_iff (fun id => .text (.id id)) fun operand id => ?_
  split <;> simp_all

private theorem firstVoice?_eq_some_iff {command : Command} {voice : UInt16} :
    command.firstVoice? = some voice ↔
    ∃ front back, command.operands = front ++ .word .voice voice :: back ∧
      ∀ operand ∈ front, ∀ other, operand ≠ .word .voice other := by
  refine findSome?_operand_iff (.word .voice) fun operand voice => ?_
  split <;> simp_all

private theorem voice?_eq_some_iff {command : Command} {text : Nat} {voice : UInt16} :
    command.voice? = some (text, voice) ↔ command.Speaks text voice := by
  have hparts : command.voice? = some (text, voice) ↔
      (∃ id, command.firstText? = some id ∧ id.toNat = text) ∧ command.firstVoice? = some voice := by
    unfold voice?
    cases command.firstText? <;> cases command.firstVoice? <;> simp
  rw [hparts, firstVoice?_eq_some_iff]
  simp only [firstText?_eq_some_iff]
  constructor
  · rintro ⟨⟨id, ⟨front, back, hoperands, hfront⟩, hid⟩, hvoice⟩
    exact ⟨⟨front, id, back, hoperands, hid, hfront⟩, hvoice⟩
  · rintro ⟨⟨front, id, back, hoperands, hid, hfront⟩, hvoice⟩
    exact ⟨⟨id, ⟨front, back, hoperands, hfront⟩, hid⟩, hvoice⟩

end Command

/-- The strings that a script speaks are those of its commands. -/
theorem Script.mem_voices_iff {script : Script} {text : Nat} {voice : UInt16} :
    (text, voice) ∈ script.voices ↔ ∃ command ∈ script.commands, command.Speaks text voice := by
  simp only [voices, List.mem_filterMap, Command.voice?_eq_some_iff]

end Adventure
