import Adventure.Proofs.CodePage.Page
import Adventure.Proofs.Strings.Table

namespace Adventure.CodePage

/-- A character that stands for a byte other than NUL. -/
def IsGlyph (page : CodePage) (ch : Char) : Prop := ∃ b : UInt8, b ≠ 0 ∧ page.glyph b = ch

/-- A page between texts and bytes without NUL. What it refuses, it refuses for the first character that
    is no glyph, and says where that stands. -/
structure Reversible (page : CodePage) : Prop where
  encode_decode : ∀ bytes, 0 ∉ bytes → page.encode (page.decode bytes) = .ok bytes
  decode_encode : ∀ text bytes, page.encode text = .ok bytes →
    page.decode bytes = text ∧ 0 ∉ bytes ∧ bytes.length = text.length
  encode_error : ∀ text error, page.encode text = .error error ↔
    ∃ (position : Nat) (ch : Char), text.toList[position]? = some ch ∧ ¬page.IsGlyph ch ∧
      error = .unmappableGlyph ch position page.language ∧
      ∀ earlier < position, ∀ other, text.toList[earlier]? = some other → page.IsGlyph other

variable {page : CodePage} {glyph : UInt8 → Option Char}

/-- The characters that a page has a byte for are its glyphs. -/
theorem isGlyph_iff (hassigned : page.Assigned 255) (hdrawn : page.Drawn 255) (hnul : page.NeverNul)
    {ch : Char} : page.IsGlyph ch ↔ ∃ b, page.codes[ch.toNat]? = some b := by
  constructor
  · rintro ⟨b, hb, rfl⟩
    exact ⟨b, hassigned.codes_glyph hb⟩
  · rintro ⟨b, hcode⟩
    exact ⟨b, hnul _ _ hcode, Char.toNat_inj.mp (hdrawn.glyph _ _ hcode).2⟩

/-- A page is reversible whatever its glyph function answers, repeated and missing glyphs included, as
    long as it keeps off the private characters. -/
theorem reversible_build (language : Language) (hglyph : Public glyph) :
    (build language glyph).Reversible := by
  have hassigned := assigned_build language hglyph
  have hdrawn := drawn_build language glyph
  have hnul := neverNul_build language glyph
  refine ⟨fun bytes hzero => hassigned.encode_decode hzero, fun text bytes hencode => ?_,
    fun text error => ?_⟩
  · have hlength := (encode_eq_ok_iff.mp hencode).length_eq
    rw [String.length_toList] at hlength
    exact ⟨hdrawn.decode_encode hencode, hnul.encode hencode, hlength.symm⟩
  · simp only [encode_eq_error_iff, isGlyph_iff hassigned hdrawn hnul, not_exists,
      ← Option.eq_none_iff_forall_ne_some]

private theorem language_build (language : Language) (glyph : UInt8 → Option Char) :
    (build language glyph).language = language :=
  build_induction (motive := fun page _ => page.language = language) rfl fun _ _ _ h => h

/-- Every page that is made of a glyph function off the private characters is reversible, the page of
    every language is made so, and string tables of texts in a language are read back from their bytes
    and decoded to these texts. -/
theorem pages_reversible :
    (∀ (language : Language) (glyph : UInt8 → Option Char), Public glyph →
      (build language glyph).Reversible ∧ (build language glyph).language = language) ∧
    (∀ language : Language, ∃ glyph, Public glyph ∧ language.codePage = build language glyph) ∧
    ∀ (base : Nat) (texts : List String) (language : Language) (table : StringTable),
      StringTable.encode base texts language = .ok table →
        StringTable.ofBytes base table.toBytes = .ok table ∧ table.decode language = texts := by
  refine ⟨fun language glyph hglyph => ⟨reversible_build language hglyph, language_build language glyph⟩,
    Language.codePage_eq_build, fun base texts language table hencode => ?_⟩
  obtain ⟨rfl, hentries⟩ := StringTable.encode_eq_ok_iff.mp hencode
  exact ⟨StringTable.ofBytes_toBytes (Language.zero_not_mem_encoded hentries),
    Language.map_decode_encoded hentries⟩

theorem pages_reversible_crowded :
    Public (fun _ => some 'x') ∧
    (build .raw fun _ => some 'x').encode ((build .raw fun _ => some 'x').decode [2, 1, 255]) =
      .ok [2, 1, 255] ∧
    StringTable.encode 7 ["€A", ""] .english = .ok ⟨7, [[0x80, 0x41], []]⟩ ∧
    StringTable.ofBytes 7 [0x80, 0x41, 0, 0] = .ok ⟨7, [[0x80, 0x41], []]⟩ ∧
    StringTable.decode ⟨7, [[0x80, 0x41], []]⟩ .english = ["€A", ""] := by
  obtain ⟨hpages, -, htables⟩ := pages_reversible
  have hpublic : Public fun _ => some 'x' := by
    intro b c h
    cases h
    decide
  have hencode : StringTable.encode 7 ["€A", ""] .english = .ok ⟨7, [[0x80, 0x41], []]⟩ := by
    apply Except.eq_ok_of_toOption
    decide +kernel
  obtain ⟨hread, hdecode⟩ := htables _ _ _ _ hencode
  exact ⟨hpublic, (hpages .raw _ hpublic).1.encode_decode _ (by decide), hencode, hread, hdecode⟩

end Adventure.CodePage
