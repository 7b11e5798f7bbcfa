import Mathlib.Tactic.SplitIfs
import Adventure.CodePage.Page
import Adventure.Proofs.Outcome

namespace Adventure.CodePage

/-- A page that has the glyphs of the bytes up to `count`: each of them leads back to its byte, and
    the private characters in use are those of these bytes. -/
structure Assigned (page : CodePage) (count : Nat) : Prop where
  size : page.glyphs.size = count + 1
  code : ∀ n, 0 < n → n ≤ count →
    page.codes[(page.glyphs.getD n '\x00').toNat]? = some (UInt8.ofNat n)
  privates : ∀ n b, page.codes[0xe000 + n]? = some b → n < 256 → n ≤ count

variable {page : CodePage} {glyph : UInt8 → Option Char} {count : Nat}

private theorem assigned_empty (language : Language) : (empty language).Assigned 0 where
  size := rfl
  code n hpos hle := by omega
  privates n b h := by simp [empty] at h

private theorem toNat_privateGlyph (b : UInt8) : (privateGlyph b).toNat = 0xe000 + b.toNat := by
  have hb := b.toNat_lt
  have hvalid : (0xe000 + b.toNat).isValidChar := .inr ⟨by omega, by omega⟩
  rw [privateGlyph, Char.ofNat, dif_pos hvalid]
  rfl

/-- A glyph function that never answers one of the private characters that stand for bytes. -/
def Public (glyph : UInt8 → Option Char) : Prop :=
  ∀ b c, glyph b = some c → c.toNat < 0xe000 ∨ 0xe0ff < c.toNat

section assign

variable {glyphs : Array Char} {codes : Std.TreeMap Nat UInt8}

private theorem getD_push_size (ch : Char) : (glyphs.push ch).getD glyphs.size '\x00' = ch := by
  rw [Array.getD_eq_getD_getElem?, Array.getElem?_push_size, Option.getD_some]

private theorem getD_push_lt {n : Nat} (h : n < glyphs.size) (ch : Char) :
    (glyphs.push ch).getD n '\x00' = glyphs.getD n '\x00' := by
  rw [Array.getD_eq_getD_getElem?, Array.getD_eq_getD_getElem?, Array.getElem?_push_lt h,
    Array.getElem?_eq_getElem h]

private theorem eq_or_of_getElem?_insert {key n : Nat} {b other : UInt8}
    (h : (codes.insert key b)[n]? = some other) : key = n ∧ b = other ∨ codes[n]? = some other := by
  rw [Std.TreeMap.getElem?_insert] at h
  split at h
  case _ heq => exact .inl ⟨Nat.compare_eq_eq.mp heq, Option.some.inj h⟩
  case _ => exact .inr h

/-- The next byte gets one glyph, and the character of that glyph gets the byte. -/
theorem assign_eq (glyph : UInt8 → Option Char) (page : CodePage) (b : UInt8) :
    ∃ ch : Char, assign glyph page b =
      { page with glyphs := page.glyphs.push ch, codes := page.codes.insert ch.toNat b } :=
  ⟨_, rfl⟩

end assign

theorem Assigned.assign (h : page.Assigned count) (hglyph : Public glyph) (hcount : count < 255) :
    (assign glyph page (UInt8.ofNat (count + 1))).Assigned (count + 1) := by
  have hbyte : (UInt8.ofNat (count + 1)).toNat = count + 1 := by
    rw [UInt8.toNat_ofNat']
    omega
  have hplace : (privateGlyph (UInt8.ofNat (count + 1))).toNat = 0xe000 + (count + 1) := by
    rw [toNat_privateGlyph, hbyte]
  have hprivate : page.codes[(privateGlyph (UInt8.ofNat (count + 1))).toNat]? = none := by
    rw [hplace, Option.eq_none_iff_forall_ne_some]
    intro b hb
    have := h.privates (count + 1) b hb (by omega)
    omega
  obtain ⟨ch, hassign, hfresh, hplace⟩ : ∃ ch, CodePage.assign glyph page (UInt8.ofNat (count + 1)) =
      { page with
        glyphs := page.glyphs.push ch
        codes := page.codes.insert ch.toNat (UInt8.ofNat (count + 1)) } ∧
      page.codes[ch.toNat]? = none ∧
      (ch.toNat = 0xe000 + (count + 1) ∨ ch.toNat < 0xe000 ∨ 0xe0ff < ch.toNat) := by
    refine ⟨_, rfl, ?_⟩
    split
    case _ ch hch =>
      split
      · exact ⟨hprivate, .inl hplace⟩
      case _ hnew => exact ⟨by simpa using hnew, .inr (hglyph _ _ hch)⟩
    case _ => exact ⟨hprivate, .inl hplace⟩
  rw [hassign]
  refine ⟨by simp [h.size], fun n hpos hle => ?_, fun n b hn hlt => ?_⟩
  · dsimp only
    by_cases hlast : n = count + 1
    · rw [hlast, ← h.size, getD_push_size, Std.TreeMap.getElem?_insert_self, h.size]
    · have hcode := h.code n hpos (by omega)
      have hold : n < page.glyphs.size := by
        rw [h.size]
        omega
      rw [getD_push_lt hold, Std.TreeMap.getElem?_insert, if_neg, hcode]
      intro heq
      rw [← Nat.compare_eq_eq.mp heq, hfresh] at hcode
      cases hcode
  · rcases eq_or_of_getElem?_insert hn with ⟨hkey, -⟩ | hold
    · omega
    · have := h.privates n b hold hlt
      omega

/-- What holds of the page of no bytes, and is kept when the next byte gets its glyph, holds of the page
    that is made of all bytes. -/
theorem build_induction {motive : CodePage → Nat → Prop} {language : Language}
    (hempty : motive (empty language) 0)
    (hassign : ∀ page count, count < 255 → motive page count →
      motive (assign glyph page (UInt8.ofNat (count + 1))) (count + 1)) :
    motive (build language glyph) 255 := by
  have hprefix : ∀ count ≤ 255, motive (((List.range count).map fun n => UInt8.ofNat (n + 1)).foldl
      (assign glyph) (empty language)) count := by
    intro count hcount
    induction count with
    | zero => exact hempty
    | succ count ih =>
      rw [List.range_succ, List.map_append, List.foldl_append]
      exact hassign _ count (by omega) (ih (by omega))
  exact hprefix 255 (Nat.le_refl _)

theorem assigned_build (language : Language) (hglyph : Public glyph) :
    (build language glyph).Assigned 255 :=
  build_induction (assigned_empty language) fun _ _ hcount h => h.assign hglyph hcount

/-- The byte of a character that stands at a position of a text. -/
def byteAt (page : CodePage) (ch : Char × Nat) : Except Error UInt8 :=
  match page.codes[ch.1.toNat]? with
  | some b => .ok b
  | none => .error (.unmappableGlyph ch.1 ch.2 page.language)

private theorem encode_eq_mapM (page : CodePage) (text : String) :
    page.encode text = text.toList.zipIdx.mapM page.byteAt := rfl

private theorem byteAt_eq_ok_iff {ch : Char × Nat} {b : UInt8} :
    page.byteAt ch = .ok b ↔ page.codes[ch.1.toNat]? = some b := by
  unfold byteAt
  split
  case _ hcode => simp [hcode]
  case _ hcode => simp [hcode]

private theorem byteAt_eq_error_iff {ch : Char × Nat} {error : Error} : page.byteAt ch = .error error ↔
    page.codes[ch.1.toNat]? = none ∧ error = .unmappableGlyph ch.1 ch.2 page.language := by
  unfold byteAt
  split
  case _ hcode => simp [hcode]
  case _ hcode => simp [hcode, eq_comm]

/-- A text is encoded to the bytes of its characters. -/
theorem encode_eq_ok_iff {text : String} {bytes : List UInt8} : page.encode text = .ok bytes ↔
    List.Forall₂ (fun (ch : Char) b => page.codes[ch.toNat]? = some b) text.toList bytes := by
  rw [encode_eq_mapM, Except.mapM_eq_ok_iff]
  simp only [byteAt_eq_ok_iff]
  exact forall₂_zipIdx_iff fun (ch : Char) b => page.codes[ch.toNat]? = some b

/-- A text is refused for its first character that has no byte. -/
theorem encode_eq_error_iff {text : String} {error : Error} : page.encode text = .error error ↔
    ∃ (position : Nat) (ch : Char), text.toList[position]? = some ch ∧
      page.codes[ch.toNat]? = none ∧ error = .unmappableGlyph ch position page.language ∧
      ∀ earlier < position, ∀ other, text.toList[earlier]? = some other →
        ∃ b, page.codes[other.toNat]? = some b := by
  rw [encode_eq_mapM, Except.mapM_eq_error_iff]
  simp only [byteAt_eq_error_iff, byteAt_eq_ok_iff, List.getElem?_zipIdx, Option.map_eq_some_iff,
    Nat.zero_add]
  constructor
  · rintro ⟨position, _, ⟨ch, hch, rfl⟩, ⟨hcode, herror⟩, hearlier⟩
    exact ⟨position, ch, hch, hcode, herror, fun earlier hlt other hother =>
      hearlier earlier hlt _ ⟨other, hother, rfl⟩⟩
  · rintro ⟨position, ch, hch, hcode, herror, hearlier⟩
    refine ⟨position, _, ⟨ch, hch, rfl⟩, ⟨hcode, herror⟩, ?_⟩
    rintro earlier hlt _ ⟨other, hother, rfl⟩
    exact hearlier earlier hlt other hother

/-- The glyph of a byte other than NUL leads back to the byte. -/
theorem Assigned.codes_glyph (h : page.Assigned 255) {b : UInt8} (hb : b ≠ 0) :
    page.codes[(page.glyph b).toNat]? = some b := by
  have hpos : b.toNat ≠ 0 := fun hzero => hb (UInt8.toNat_inj.mp hzero)
  have hlt := b.toNat_lt
  have hcode := h.code b.toNat (by omega) (by omega)
  rwa [UInt8.ofNat_toNat] at hcode

/-- What a page decodes from bytes without NUL, it encodes to the same bytes. -/
theorem Assigned.encode_decode (h : page.Assigned 255) {bytes : List UInt8} (hzero : 0 ∉ bytes) :
    page.encode (page.decode bytes) = .ok bytes := by
  rw [encode_eq_ok_iff, decode, String.toList_ofList, List.forall₂_map_left_iff]
  apply List.forall₂_same.mpr
  intro b hb
  apply h.codes_glyph
  rintro rfl
  exact hzero hb

/-- A page in which no character has the byte that ends strings. -/
def NeverNul (page : CodePage) : Prop := ∀ (n : Nat) (b : UInt8), page.codes[n]? = some b → b ≠ 0

theorem NeverNul.assign (h : page.NeverNul) (glyph : UInt8 → Option Char) {b : UInt8} (hb : b ≠ 0) :
    (assign glyph page b).NeverNul := by
  obtain ⟨ch, hassign⟩ := assign_eq glyph page b
  rw [hassign]
  intro n other hother
  rcases eq_or_of_getElem?_insert hother with ⟨-, rfl⟩ | hold
  · exact hb
  · exact h n other hold

theorem neverNul_build (language : Language) (glyph : UInt8 → Option Char) :
    (build language glyph).NeverNul := by
  refine build_induction (motive := fun page _ => page.NeverNul) (by simp [NeverNul, empty]) ?_
  intro page count hcount h
  refine h.assign glyph fun hzero => ?_
  have hbyte : (UInt8.ofNat (count + 1)).toNat = 0 := by rw [hzero]; rfl
  rw [UInt8.toNat_ofNat'] at hbyte
  omega

theorem NeverNul.encode (h : page.NeverNul) {text : String} {bytes : List UInt8}
    (hencode : page.encode text = .ok bytes) : 0 ∉ bytes := by
  intro hzero
  obtain ⟨ch, -, hcode⟩ := forall₂_exists_left (encode_eq_ok_iff.mp hencode) hzero
  exact h _ _ hcode rfl

/-- A page that has the glyphs of the bytes up to `count`, in which every character is the glyph of its
    byte. -/
structure Drawn (page : CodePage) (count : Nat) : Prop where
  size : page.glyphs.size = count + 1
  glyph : ∀ (n : Nat) (b : UInt8), page.codes[n]? = some b →
    b.toNat ≤ count ∧ (page.glyphs.getD b.toNat '\x00').toNat = n

theorem Drawn.assign (h : page.Drawn count) (glyph : UInt8 → Option Char) {b : UInt8}
    (hb : b.toNat = count + 1) : (assign glyph page b).Drawn (count + 1) := by
  obtain ⟨ch, hassign⟩ := assign_eq glyph page b
  rw [hassign]
  refine ⟨by simp [h.size], fun n other hother => ?_⟩
  rcases eq_or_of_getElem?_insert hother with ⟨hkey, rfl⟩ | hold
  · refine ⟨Nat.le_of_eq hb, ?_⟩
    rw [hb, ← h.size, getD_push_size, hkey]
  · obtain ⟨hle, hglyph⟩ := h.glyph n other hold
    have hlt : other.toNat < page.glyphs.size := by
      rw [h.size]
      omega
    refine ⟨by omega, ?_⟩
    rwa [getD_push_lt hlt]

theorem drawn_build (language : Language) (glyph : UInt8 → Option Char) :
    (build language glyph).Drawn 255 := by
  refine build_induction ⟨rfl, by simp [empty]⟩ ?_
  intro page count hcount h
  apply h.assign glyph
  rw [UInt8.toNat_ofNat']
  omega

/-- What a page encodes, it decodes to the same text. -/
theorem Drawn.decode_encode (h : page.Drawn 255) {text : String} {bytes : List UInt8}
    (hencode : page.encode text = .ok bytes) : page.decode bytes = text := by
  have hglyphs : List.Forall₂ (fun ch b => ch = page.glyph b) text.toList bytes := by
    refine (encode_eq_ok_iff.mp hencode).imp fun ch b hcode => ?_
    exact Char.toNat_inj.mp (h.glyph _ _ hcode).2.symm
  have hsame : text.toList = bytes.map page.glyph := by
    rw [← List.map_id text.toList]
    exact forall₂_map_eq_iff.mp hglyphs
  rw [decode, ← hsame, String.ofList_toList]

end Adventure.CodePage

namespace Adventure.Language

open CodePage

private theorem toNat_ofNat_lt {n : Nat} (h : n < 0xd800) :
    (Char.ofNat n).toNat < 0xe000 ∨ 0xe0ff < (Char.ofNat n).toNat := by
  rw [Char.ofNat, dif_pos (.inl h)]
  left
  show n < 0xe000
  omega

private theorem public_windowsGlyph {upper : Array Nat} (h : ∀ n ∈ upper.toList, n < 0xd800) :
    Public (windowsGlyph upper) := by
  intro b c hc
  unfold windowsGlyph at hc
  split at hc
  · cases hc
    have := b.toNat_lt
    exact toNat_ofNat_lt (by omega)
  · obtain ⟨n, hn, rfl⟩ := Option.map_eq_some_iff.mp hc
    obtain ⟨hn, -⟩ := Option.filter_eq_some_iff.mp hn
    exact toNat_ofNat_lt (h n (Array.mem_toList_iff.mpr (Array.mem_of_getElem? hn)))

private theorem public_hebrewGlyph : Public hebrewGlyph := by
  have hwindows : Public (windowsGlyph windows1255) := public_windowsGlyph (by decide +kernel)
  intro b c hc
  unfold hebrewGlyph at hc
  split_ifs at hc
  · exact hwindows _ _ hc
  · exact hwindows _ _ hc

/-- The page of every language is made of a glyph function that keeps off the private characters. -/
theorem codePage_eq_build (language : Language) :
    ∃ glyph, Public glyph ∧ language.codePage = build language glyph := by
  have hraw : Public fun b => some (Char.ofNat b.toNat) := by
    intro b c hc
    cases hc
    have := b.toNat_lt
    exact toNat_ofNat_lt (by omega)
  cases language with
  | raw => exact ⟨_, hraw, CodePage.raw.eq_1⟩
  | english => exact ⟨_, public_windowsGlyph (by decide +kernel), CodePage.english.eq_1⟩
  | hebrew => exact ⟨_, public_hebrewGlyph, CodePage.hebrew.eq_1⟩
  | polish => exact ⟨_, public_windowsGlyph (by decide +kernel), CodePage.polish.eq_1⟩
  | russian => exact ⟨_, public_windowsGlyph (by decide +kernel), CodePage.russian.eq_1⟩

private theorem assigned_codePage (language : Language) : language.codePage.Assigned 255 := by
  obtain ⟨glyph, hglyph, hpage⟩ := language.codePage_eq_build
  exact hpage ▸ assigned_build language hglyph

/-- Text that is decoded in a language from bytes without NUL is encoded to the same bytes. -/
theorem encode_decode (language : Language) {bytes : List UInt8} (hzero : 0 ∉ bytes) :
    language.encode (language.decode bytes) = .ok bytes :=
  language.assigned_codePage.encode_decode hzero

private theorem neverNul_codePage (language : Language) : language.codePage.NeverNul := by
  obtain ⟨glyph, -, hpage⟩ := language.codePage_eq_build
  exact hpage ▸ neverNul_build language glyph

private theorem drawn_codePage (language : Language) : language.codePage.Drawn 255 := by
  obtain ⟨glyph, -, hpage⟩ := language.codePage_eq_build
  exact hpage ▸ drawn_build language glyph

/-- Text that can be encoded in a language is decoded to the same text. -/
theorem decode_encode {language : Language} {text : String} {bytes : List UInt8}
    (h : language.encode text = .ok bytes) : language.decode bytes = text :=
  language.drawn_codePage.decode_encode h

/-- No text is encoded to bytes with a NUL among them. -/
theorem zero_not_mem_encode {language : Language} {text : String} {bytes : List UInt8}
    (h : language.encode text = .ok bytes) : 0 ∉ bytes :=
  language.neverNul_codePage.encode h

variable {language : Language} {texts : List String} {encoded : List (List UInt8)}

theorem zero_not_mem_encoded
    (h : List.Forall₂ (fun text bytes => language.encode text = .ok bytes) texts encoded) :
    ∀ bytes ∈ encoded, 0 ∉ bytes := by
  intro bytes hbytes
  obtain ⟨text, -, hencode⟩ := forall₂_exists_left h hbytes
  exact zero_not_mem_encode hencode

/-- Texts that have been encoded are decoded to what they were. -/
theorem map_decode_encoded
    (h : List.Forall₂ (fun text bytes => language.encode text = .ok bytes) texts encoded) :
    encoded.map language.decode = texts := by
  rw [← List.map_id texts]
  exact forall₂_map_eq_iff.mp (h.flip.imp fun _ _ => decode_encode)

end Adventure.Language
