import Adventure.Proofs.Outcome
import Adventure.Proofs.Strings.Escape
import Adventure.Proofs.Text.Lines
import Adventure.Proofs.Text.Numeral
import Adventure.Strings.Document

namespace Adventure

open Text

namespace StringEntry

theorem parseVoices?_renderVoices (voices : List UInt16) :
    parseVoices? (renderVoices voices) = some voices := by
  cases voices with
  | nil => rfl
  | cons voice voices =>
    have hrender : renderVoices (voice :: voices) =
        [','].intercalate ((voice :: voices).map fun voice => decimal voice.toNat) := rfl
    have hminus : renderVoices (voice :: voices) ≠ ['-', '1'] := by
      intro heq
      rw [hrender, List.map_cons, intercalate_cons] at heq
      have hmem : '-' ∈ decimal voice.toNat := by
        cases hdigits : decimal voice.toNat with
        | nil => exact absurd hdigits (decimal_ne_nil _)
        | cons c rest =>
          rw [hdigits] at heq
          rw [← (List.cons.inj heq).1]
          exact List.mem_cons_self
      exact not_mem_decimal (by decide) _ hmem
    have hvoice : ∀ voice : UInt16, (decimal? 0x10000 (trim (decimal voice.toNat))).map UInt16.ofNat =
        some voice := by
      intro voice
      rw [trim_eq_self fun c hc => not_isBlank_of_isDigit (isDigit_of_mem_decimal hc),
        decimal?_decimal voice.toNat_lt, Option.map_some, UInt16.ofNat_toNat]
    rw [parseVoices?, if_neg hminus, hrender, List.splitOn_intercalate]
    · generalize voice :: voices = all
      induction all with
      | nil => rfl
      | cons voice all ih =>
        rw [List.map_cons, List.mapM_cons, hvoice, ih]
        rfl
    · simp only [List.mem_map]
      rintro _ ⟨voice, -, rfl⟩
      exact not_mem_decimal (by decide) _
    · simp

private theorem not_mem_renderVoices {c : Char} (hdigit : c.isDigit = false) (hcomma : c ≠ ',')
    (hminus : c ≠ '-') (voices : List UInt16) : c ∉ renderVoices voices := by
  unfold renderVoices
  intro h
  split at h
  · have hone : c ≠ '1' := by
      rintro rfl
      cases hdigit
    simp [hminus, hone] at h
  · rcases eq_or_mem_of_mem_intercalate h with rfl | ⟨word, hword, hc⟩
    · exact hcomma rfl
    · obtain ⟨voice, -, rfl⟩ := List.mem_map.mp hword
      exact not_mem_decimal hdigit _ hc

/-- The fields of a line. -/
def fields (entry : StringEntry) : List (List Char) :=
  [entry.file.toList, decimal entry.id, Strings.escape entry.text.toList] ++
    (entry.voices.map renderVoices).toList

private theorem render_eq (entry : StringEntry) :
    entry.render = entry.file.toList ++ (entry.fields.tail).flatMap ('\t' :: ·) := by
  unfold render fields
  cases entry.voices <;> simp

private theorem not_mem_fields_tail {entry : StringEntry} {c : Char} (h : c = '\t' ∨ c = '\n' ∨ c = '\r') :
    ∀ field ∈ entry.fields.tail, c ∉ field := by
  have hdigit : c.isDigit = false := by rcases h with rfl | rfl | rfl <;> rfl
  have hcomma : c ≠ ',' := by rcases h with rfl | rfl | rfl <;> decide
  have hminus : c ≠ '-' := by rcases h with rfl | rfl | rfl <;> decide
  intro field hfield
  simp only [fields, List.cons_append, List.tail_cons, List.nil_append, List.mem_cons,
    Option.mem_toList, Option.map_eq_some_iff] at hfield
  rcases hfield with rfl | rfl | ⟨voices, -, rfl⟩
  · exact not_mem_decimal hdigit _
  · exact Strings.not_mem_escape h _
  · exact not_mem_renderVoices hdigit hcomma hminus voices

private theorem splitOn_render {entry : StringEntry} (h : '\t' ∉ entry.file.toList) :
    entry.render.splitOn '\t' = entry.fields := by
  have hrender : entry.render = ['\t'].intercalate entry.fields := by
    rw [render_eq]
    exact (intercalate_cons '\t' _ _).symm
  rw [hrender, List.splitOn_intercalate]
  · intro field hfield
    rcases List.mem_cons.mp hfield with rfl | hfield
    · exact h
    · exact not_mem_fields_tail (.inl rfl) field hfield
  · exact List.cons_ne_nil _ _

private theorem newline_not_mem_render {entry : StringEntry} (h : '\n' ∉ entry.file.toList) :
    '\n' ∉ entry.render := by
  rw [render_eq, List.mem_append, List.mem_flatMap]
  rintro (hfile | ⟨field, hfield, hc⟩)
  · exact h hfile
  · rcases List.mem_cons.mp hc with htab | hc
    · cases htab
    · exact not_mem_fields_tail (.inr (.inl rfl)) field hfield hc

private theorem dropReturn_render (entry : StringEntry) : dropReturn entry.render = entry.render := by
  refine if_neg fun hlast => ?_
  have hne : entry.fields.tail.flatMap ('\t' :: ·) ≠ [] := by simp [fields]
  rw [render_eq, List.getLast?_append_of_ne_nil _ hne] at hlast
  obtain ⟨field, hfield, hc⟩ := List.mem_flatMap.mp (List.mem_of_getLast? hlast)
  rcases List.mem_cons.mp hc with htab | hc
  · cases htab
  · exact not_mem_fields_tail (.inr (.inr rfl)) field hfield hc

/-- The fields of a line give the string that it was printed from, unless its number is too large to
    be read. -/
theorem ofFields_fields_eq_ok_iff {entry parsed : StringEntry} :
    ofFields entry.fields = .ok parsed ↔ entry.id < 0x100000000 ∧ parsed = entry := by
  obtain ⟨file, id, text, voices⟩ := entry
  by_cases hlt : id < 0x100000000
  · have hid : decimal? 0x100000000 (decimal id) = some id := decimal?_decimal hlt
    cases voices with
    | none =>
      simp [fields, ofFields, pure, Except.pure, bind, Except.bind, hid, Strings.unescape_escape,
        Except.mapError, hlt, eq_comm]
    | some voices =>
      simp [fields, ofFields, pure, Except.pure, bind, Except.bind, hid, Strings.unescape_escape,
        parseVoices?_renderVoices, Except.mapError, hlt, eq_comm]
  · have hid : decimal? 0x100000000 (decimal id) = none := by
      rw [decimal?, numeral?_decimal]
      simpa using hlt
    cases voices with
    | none =>
      simp [fields, ofFields, pure, Except.pure, bind, Except.bind, hid, throw, throwThe,
        MonadExceptOf.throw, hlt]
    | some voices =>
      simp [fields, ofFields, pure, Except.pure, bind, Except.bind, hid, throw, throwThe,
        MonadExceptOf.throw, hlt]

end StringEntry

namespace StringsDocument

private theorem parseLine_render_eq_ok_iff {entry : StringEntry} (h : '\t' ∉ entry.file.toList) {number : Nat}
    {parsed : Option StringEntry} : parseLine number entry.render = .ok parsed ↔
      entry.id < 0x100000000 ∧ parsed = some entry := by
  have hne : entry.render.isEmpty = false := by simp [StringEntry.render]
  simp only [parseLine, StringEntry.dropReturn_render, hne, Bool.false_eq_true, if_false,
    StringEntry.splitOn_render h, Except.mapError_eq_ok_iff, Except.map_eq_ok_iff,
    StringEntry.ofFields_fields_eq_ok_iff]
  constructor
  · rintro ⟨read, ⟨hid, rfl⟩, rfl⟩
    exact ⟨hid, rfl⟩
  · rintro ⟨hid, rfl⟩
    exact ⟨entry, ⟨hid, rfl⟩, rfl⟩

/-- The lines of strings are read as these strings, wherever they stand in the document. -/
theorem forall₂_parseLine_render_iff {entries : List StringEntry}
    (hfiles : ∀ entry ∈ entries, '\t' ∉ entry.file.toList) (first : Nat)
    (found : List (Option StringEntry)) :
    List.Forall₂ (fun (line : List Char × Nat) result => parseLine (line.2 + 1) line.1 = .ok result)
      ((entries.map StringEntry.render).zipIdx first) found ↔
        (∀ entry ∈ entries, entry.id < 0x100000000) ∧ found = entries.map some := by
  induction entries generalizing first found with
  | nil => simp
  | cons entry entries ih =>
    obtain ⟨hentry, hentries⟩ := List.forall_mem_cons.mp hfiles
    simp only [List.map_cons, List.zipIdx_cons, List.forall₂_cons_left_iff, ih hentries,
      parseLine_render_eq_ok_iff hentry, List.forall_mem_cons]
    constructor
    · rintro ⟨result, results, ⟨hid, rfl⟩, ⟨hids, rfl⟩, rfl⟩
      exact ⟨⟨hid, hids⟩, rfl⟩
    · rintro ⟨⟨hid, hids⟩, rfl⟩
      exact ⟨_, _, ⟨hid, rfl⟩, ⟨hids, rfl⟩, rfl⟩

/-- A printed document can be read exactly if the numbers in it are words of 32 bits, and then gives the
    strings that were printed. -/
theorem parse_render_eq_ok_iff {entries parsed : List StringEntry}
    (hfiles : ∀ entry ∈ entries, '\t' ∉ entry.file.toList ∧ '\n' ∉ entry.file.toList) :
    parse (render entries) = .ok parsed ↔
      (∀ entry ∈ entries, entry.id < 0x100000000) ∧ parsed = entries := by
  have hlines : lines (unlines (entries.map StringEntry.render)) = entries.map StringEntry.render := by
    rw [lines_unlines, List.map_map]
    · exact List.map_congr_left fun entry _ => entry.dropReturn_render
    · intro line hline
      obtain ⟨entry, hentry, rfl⟩ := List.mem_map.mp hline
      exact StringEntry.newline_not_mem_render (hfiles entry hentry).2
  have hread := forall₂_parseLine_render_iff (fun entry hentry => (hfiles entry hentry).1) 0
  rw [parse, render, String.toList_ofList, hlines, Except.map_eq_ok_iff]
  simp only [Except.mapM_eq_ok_iff, numbered, List.forall₂_map_left_iff, hread]
  constructor
  · rintro ⟨found, ⟨hids, rfl⟩, rfl⟩
    exact ⟨hids, by simp⟩
  · rintro ⟨hids, rfl⟩
    exact ⟨_, ⟨hids, rfl⟩, by simp⟩

/-- Strings come back from their document in order, whatever characters and voices they have, if no
    file name breaks its field or its line. Their numbers are words of 32 bits. -/
theorem printed_strings_parse {entries : List StringEntry}
    (hids : ∀ entry ∈ entries, entry.id < 0x100000000)
    (hfiles : ∀ entry ∈ entries, '\t' ∉ entry.file.toList ∧ '\n' ∉ entry.file.toList) :
    parse (render entries) = .ok entries :=
  (parse_render_eq_ok_iff hfiles).mpr ⟨hids, rfl⟩

theorem printed_strings_parse_hostile :
    let entries := [
      ⟨"", 0, "\t\r\n\\t\x01\x7f\"\r", none⟩,
      ⟨"A B\r", 0xffffffff, "", some []⟩,
      ⟨"-1", 7, " -1\t4 ", some [0, 0xffff, 3, 3]⟩]
    (∀ entry ∈ entries, entry.id < 0x100000000) ∧
    (∀ entry ∈ entries, '\t' ∉ entry.file.toList ∧ '\n' ∉ entry.file.toList) ∧
    parse (render entries) = .ok entries := by
  intro entries
  have hids : ∀ entry ∈ entries, entry.id < 0x100000000 := by decide
  have hfiles : ∀ entry ∈ entries, '\t' ∉ entry.file.toList ∧ '\n' ∉ entry.file.toList := by
    decide +kernel
  exact ⟨hids, hfiles, printed_strings_parse hids hfiles⟩

end StringsDocument

end Adventure
