import Mathlib.Data.List.Basic
import Adventure.Text.Utf8

namespace Adventure

namespace Text

private theorem utf8EncodeChar_ofNat {b : UInt8} (h : b < 0x80) :
    String.utf8EncodeChar (Char.ofNat b.toNat) = [b] := by
  have hb : b.toNat < 0x80 := h
  have hval : (Char.ofNat b.toNat).val = b.toUInt32 := by
    rw [Char.ofNat, dif_pos (.inl (by omega))]
    apply UInt32.toNat_inj.mp
    rw [UInt8.toNat_toUInt32]
    rfl
  have hsize : (Char.ofNat b.toNat).utf8Size = 1 := by
    rw [Char.utf8Size, hval]
    refine if_pos (UInt32.le_iff_toNat_le.mpr ?_)
    rw [UInt8.toNat_toUInt32]
    exact Nat.le_of_lt_succ hb
  rw [String.utf8EncodeChar_eq_singleton hsize, hval, UInt8.toUInt8_toUInt32]

/-- An ASCII name is stored in the bytes that it has been read from. -/
theorem utf8_ofAscii {name : List UInt8} (h : isAscii name) : utf8 (ofAscii name) = name := by
  have hchars : ∀ b ∈ name, String.utf8EncodeChar (Char.ofNat b.toNat) = [b] := fun b hb =>
    utf8EncodeChar_ofNat (of_decide_eq_true (List.all_eq_true.mp h b hb))
  rw [utf8, ofAscii, String.toUTF8, String.toByteArray_ofList, List.utf8Encode, List.data_toByteArray,
    List.flatMap_map, List.flatMap_congr hchars]
  exact List.flatMap_singleton' name

/-- The characters of a name can each be stored in a byte that does not end the name. -/
def PlainName (name : String) : Prop := ∀ c ∈ name.toList, c.toNat < 0x80 ∧ c ≠ '\x00'

instance (name : String) : Decidable (PlainName name) :=
  List.decidableBAll (fun c : Char => c.toNat < 0x80 ∧ c ≠ '\x00') name.toList

private theorem toNat_ofNat_byte {b : UInt8} (h : b < 0x80) : (Char.ofNat b.toNat).toNat = b.toNat := by
  have hb : b.toNat < 0x80 := h
  rw [Char.ofNat, dif_pos (.inl (by omega))]
  rfl

theorem plainName_ofAscii {bytes : List UInt8} (hascii : isAscii bytes) (hzero : 0 ∉ bytes) :
    PlainName (ofAscii bytes) := by
  intro c hc
  rw [ofAscii, String.toList_ofList, List.mem_map] at hc
  obtain ⟨b, hb, rfl⟩ := hc
  have hsmall : b < 0x80 := of_decide_eq_true (List.all_eq_true.mp hascii b hb)
  refine ⟨(toNat_ofNat_byte hsmall).symm ▸ hsmall, fun heq => hzero ?_⟩
  have hnul : b = 0 := UInt8.toNat_inj.mp (by rw [← toNat_ofNat_byte hsmall, heq]; rfl)
  exact hnul ▸ hb

/-- A plain name is the text of the bytes that it is stored in, and a NUL can end it. -/
theorem PlainName.stored {name : String} (h : PlainName name) :
    isAscii (utf8 name) ∧ 0 ∉ utf8 name ∧ ofAscii (utf8 name) = name := by
  let bytes := name.toList.map fun c => UInt8.ofNat c.toNat
  have hvalue : ∀ c ∈ name.toList, (UInt8.ofNat c.toNat).toNat = c.toNat := fun c hc =>
    UInt8.toNat_ofNat_of_lt' (Nat.lt_trans (h c hc).1 (by decide))
  have hascii : isAscii bytes := by
    refine List.all_eq_true.mpr fun b hb => ?_
    obtain ⟨c, hc, rfl⟩ := List.mem_map.mp hb
    exact decide_eq_true (show (UInt8.ofNat c.toNat).toNat < 0x80 from (hvalue c hc).symm ▸ (h c hc).1)
  have hname : ofAscii bytes = name := by
    have hchars : bytes.map (fun b => Char.ofNat b.toNat) = name.toList := by
      refine List.map_map.trans ((List.map_congr_left fun c hc => ?_).trans (List.map_id _))
      exact (congrArg Char.ofNat (hvalue c hc)).trans (Char.ofNat_toNat c)
    rw [ofAscii, hchars, String.ofList_toList]
  have hbytes : Text.utf8 name = bytes := by rw [← hname, utf8_ofAscii hascii]
  rw [hbytes]
  refine ⟨hascii, fun hzero => ?_, hname⟩
  obtain ⟨c, hc, hnul⟩ := List.mem_map.mp hzero
  refine (h c hc).2 (Char.toNat_inj.mp ?_)
  rw [← hvalue c hc, hnul]
  rfl

end Text

end Adventure
