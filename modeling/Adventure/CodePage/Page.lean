import Std.Data.TreeMap
import Adventure.CodePage.Language
import Adventure.CodePage.Windows
import Adventure.Text.Quoted

namespace Adventure

/-- The glyphs of the bytes in order, and the byte of each glyph by its code point. NUL ends strings
    and is the byte of no character. -/
structure CodePage where
  language : Language
  glyphs : Array Char
  codes : Std.TreeMap Nat UInt8

namespace CodePage

/-- A character that a page has no glyph for. -/
inductive Error where
  | unmappableGlyph (ch : Char) (position : Nat) (language : Language)
  deriving Repr, DecidableEq

def Error.message : Error → String
  | unmappableGlyph ch position language =>
    s!"character {Text.quotedSingle ch} at position {position} has no glyph in the " ++
      s!"{language.tag} code page"

/-- The private character, from U+E000 on, that stands for a byte without a glyph. -/
def privateGlyph (b : UInt8) : Char := Char.ofNat (0xe000 + b.toNat)

/-- The page of no bytes but NUL. -/
def empty (language : Language) : CodePage := ⟨language, #['\x00'], ∅⟩

/-- Gives the next byte its glyph, or its private character if an earlier byte has that glyph. -/
def assign (glyph : UInt8 → Option Char) (page : CodePage) (b : UInt8) : CodePage :=
  let ch := match glyph b with
    | some ch => if page.codes.contains ch.toNat then privateGlyph b else ch
    | none => privateGlyph b
  { page with glyphs := page.glyphs.push ch, codes := page.codes.insert ch.toNat b }

/-- The bytes that a page maps, in order: all but NUL. -/
def domain : List UInt8 := (List.range 255).map fun n => UInt8.ofNat (n + 1)

/-- The page of a glyph function, made byte by byte. -/
def build (language : Language) (glyph : UInt8 → Option Char) : CodePage :=
  domain.foldl (assign glyph) (empty language)

def glyph (page : CodePage) (b : UInt8) : Char := page.glyphs.getD b.toNat '\x00'

def decode (page : CodePage) (bytes : List UInt8) : String :=
  String.ofList (bytes.map page.glyph)

/-- The bytes of a text, or its first character that has none. -/
def encode (page : CodePage) (text : String) : Except Error (List UInt8) :=
  text.toList.zipIdx.mapM fun (ch, position) =>
    match page.codes[ch.toNat]? with
    | some b => .ok b
    | none => .error (.unmappableGlyph ch position page.language)

/-- The Hebrew releases draw their letters in place of the capital letters from `@` to `Z`. -/
def hebrewGlyph (b : UInt8) : Option Char :=
  if 0x40 ≤ b ∧ b ≤ 0x5a then windowsGlyph windows1255 (b + 0xa0)
  else if 0xe0 ≤ b ∧ b ≤ 0xfa then none
  else windowsGlyph windows1255 b

def raw : CodePage := build .raw fun b => some (Char.ofNat b.toNat)

def english : CodePage := build .english (windowsGlyph windows1252)

def hebrew : CodePage := build .hebrew hebrewGlyph

def polish : CodePage := build .polish (windowsGlyph windows1250)

def russian : CodePage := build .russian (windowsGlyph windows1251)

end CodePage

namespace Language

def codePage : Language → CodePage
  | raw => .raw
  | english => .english
  | hebrew => .hebrew
  | polish => .polish
  | russian => .russian

def decode (language : Language) (bytes : List UInt8) : String := language.codePage.decode bytes

def encode (language : Language) (text : String) : Except CodePage.Error (List UInt8) :=
  language.codePage.encode text

end Language

end Adventure
