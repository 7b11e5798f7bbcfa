import Adventure.Proofs.Listing.Linked
import Adventure.Proofs.Script.Starts

namespace Adventure.Listing

open Assembler

variable {text name : String} {layers : List (List OpcodeDefinition)} {files : List SourceFile}
  {file : SourceFile} {ranges : List TableRange} {sources : List SourceTable} {symbols : Symbols}
  {texts : Option (Nat × Nat)} {pool after : StringPool} {bytes : List UInt8}

/-- A file that is assembled gives a record that is read with the same set, and its tables, lines and
    commands are those of the text: the numbers and headers are the same, each command has the opcode
    that its mnemonic names, and each operand but a jump is what its token denotes, declared texts by
    their numbers in the pool that assembling leaves. -/
theorem assembled_record_denotes (hparse : parse text = .ok files) (hfile : file ∈ files)
    (hbody : file.body = .tables ranges sources)
    (hassemble : Assembler.assembleWith ⟨.ofLayers name layers, symbols⟩ file texts pool =
      (.ok bytes, after)) :
    ∃ script, Script.ofRecord (.ofLayers name layers) bytes = .ok script ∧
      List.Forall₂ (TableMatches (.ofLayers name layers) fun kind token operand => kind ≠ .jump →
        Denotes ⟨.ofLayers name layers, symbols⟩ ⟨file.name, texts⟩ after kind token operand)
        sources script.tables := by
  obtain ⟨tables, labels, hspelled, hmatches, -⟩ := assembleWith_spelled
    (InstructionSet.ofLayers_sound name layers) (parse_headersPlaced hparse file hfile) hbody hassemble
  refine ⟨Script.ofTables tables, Script.ofRecord_eq_ok_iff.mpr ⟨rfl, hspelled⟩, ?_⟩
  refine hmatches.imp fun table item htable => htable.imp fun kind token operand hmeans hjump => ?_
  cases hmeans with
  | denoted h => exact h
  | label => exact absurd rfl hjump

theorem assembled_record_denotes_declared :
    ∃ script, Script.ofRecord (.ofLayers "small" [[⟨0, some "SAY", [.byte, .text]⟩]])
        [0, 0, 0, 1, 0, 0, 0, 5, 0, 1, 0, 0, 0, 7, 0xff, 0, 1, 0, 1] = .ok script ∧
      List.Forall₂ (TableMatches (.ofLayers "small" [[⟨0, some "SAY", [.byte, .text]⟩]])
        fun kind token operand => kind ≠ .jump →
          Denotes ⟨.ofLayers "small" [[⟨0, some "SAY", [.byte, .text]⟩]], .empty⟩ ⟨"A", none⟩
            ⟨7, 0x8000, ["Hello"]⟩ kind token operand)
        [⟨2, 1, [⟨3, none, [⟨4, none, none, "SAY", ["5", "+\"Hello\""]⟩]⟩]⟩] script.tables := by
  have hparse : parse "== FILE A ~\n== TABLE 1\n==>\n\tSAY 5 +\"Hello\" // comment\n" =
      .ok [⟨1, "A", .tables [] [⟨2, 1, [⟨3, none, [⟨4, none, none, "SAY", ["5", "+\"Hello\""]⟩]⟩]⟩]⟩] :=
    Except.eq_ok_of_toOption (by decide +kernel)
  have hassemble : Assembler.assembleWith ⟨.ofLayers "small" [[⟨0, some "SAY", [.byte, .text]⟩]], .empty⟩
      ⟨1, "A", .tables [] [⟨2, 1, [⟨3, none, [⟨4, none, none, "SAY", ["5", "+\"Hello\""]⟩]⟩]⟩]⟩ none
      (.startingAt 7) =
        (.ok [0, 0, 0, 1, 0, 0, 0, 5, 0, 1, 0, 0, 0, 7, 0xff, 0, 1, 0, 1], ⟨7, 0x8000, ["Hello"]⟩) :=
    Prod.ext (Except.eq_ok_of_toOption (by decide +kernel)) (by decide +kernel)
  exact assembled_record_denotes hparse List.mem_cons_self rfl hassemble

theorem mem_zipLabels_placed_iff {commands : List SourceCommand} {items : List Command}
    {label : String} {position : Nat} :
    (label, position) ∈ zipLabels placedLabels commands items ↔
      ∃ index : Nat, ∃ source : SourceCommand, ∃ command : Command, commands[index]? = some source ∧
        items[index]? = some command ∧ source.label = some label ∧ command.offset = position := by
  induction commands generalizing items with
  | nil => simp [zipLabels]
  | cons source commands ih =>
    cases items with
    | nil => simp [zipLabels]
    | cons command items =>
      rw [zipLabels, List.zipWith_cons_cons, List.flatten_cons, List.mem_append]
      constructor
      · rintro (hhead | htail)
        · obtain ⟨found, hfound, heq⟩ := Option.map_eq_some_iff.mp (Option.mem_toList.mp hhead)
          cases heq
          exact ⟨0, source, command, rfl, rfl, hfound, rfl⟩
        · obtain ⟨index, found, item, hfound, hitem, hlabel, hoffset⟩ := ih.mp htail
          exact ⟨index + 1, found, item, hfound, hitem, hlabel, hoffset⟩
      · rintro ⟨index, found, item, hfound, hitem, hlabel, rfl⟩
        cases index with
        | zero =>
          cases hfound
          cases hitem
          exact .inl (by simp [placedLabels, hlabel])
        | succ index => exact .inr (ih.mpr ⟨index, found, item, hfound, hitem, hlabel, rfl⟩)

theorem map_fst_zipLabels_placed {commands : List SourceCommand} {items : List Command}
    (hlength : commands.length = items.length) :
    (zipLabels placedLabels commands items).map Prod.fst = commands.filterMap (·.label) := by
  induction commands generalizing items with
  | nil => rfl
  | cons source commands ih =>
    cases items with
    | nil => cases hlength
    | cons command items =>
      have hrest := ih (Nat.succ.inj hlength)
      unfold zipLabels at hrest ⊢
      rw [List.zipWith_cons_cons, List.flatten_cons, List.map_append, hrest, List.filterMap_cons]
      unfold placedLabels
      cases source.label <;> rfl

/-- Where no label is given twice, a label has one command. -/
theorem index_of_label {commands : List SourceCommand} (hnodup : (commands.filterMap (·.label)).Nodup)
    {label : String} {index other : Nat} {source found : SourceCommand}
    (hsource : commands[index]? = some source) (hlabel : source.label = some label)
    (hfound : commands[other]? = some found) (hother : found.label = some label) : other = index := by
  induction commands generalizing index other with
  | nil => cases hsource
  | cons first commands ih =>
    have hmem : ∀ {place : Nat} {command : SourceCommand}, commands[place]? = some command →
        command.label = some label → label ∈ commands.filterMap (·.label) := fun hplace hcommand =>
      List.mem_filterMap.mpr ⟨_, List.mem_of_getElem? hplace, hcommand⟩
    have hrest : (commands.filterMap (·.label)).Nodup := by
      rw [List.filterMap_cons] at hnodup
      split at hnodup
      · exact hnodup
      · exact hnodup.of_cons
    have hfirst : first.label = some label → label ∉ commands.filterMap (·.label) := by
      intro hfirst
      rw [List.filterMap_cons, hfirst] at hnodup
      exact (List.nodup_cons.mp hnodup).1
    cases index with
    | zero =>
      cases hsource
      cases other with
      | zero => rfl
      | succ other => exact absurd (hmem hfound hother) (hfirst hlabel)
    | succ index =>
      cases other with
      | zero =>
        cases hfound
        exact absurd (hmem hsource hlabel) (hfirst hother)
      | succ other => rw [ih hrest hsource hfound]

/-- A jump operand goes to the command that a label stands at: no other command has the label, and
    the operand is the position at which this command starts in the record. -/
def JumpLands (sources : List SourceCommand) (script : Script) (bytes : List UInt8) (label : String)
    (operand : Operand) : Prop :=
  ∃ ordinal : Nat, ∃ source : SourceCommand, ∃ destination : Command,
    sources[ordinal]? = some source ∧ source.label = some label ∧
    (∀ other : Nat, ∀ found : SourceCommand, sources[other]? = some found → found.label = some label →
      other = ordinal) ∧
    script.commands[ordinal]? = some destination ∧ script.starts[destination.offset]? = some ordinal ∧
    (∃ rest, bytes.drop destination.offset = destination.opcode :: rest) ∧
    destination.offset < 0x10000 ∧ operand = .jump (UInt16.ofNat destination.offset)

/-- In a file that is assembled no label stands at two commands, and every jump that is not written
    as a number goes to the command of its label. So a file is refused if such a label stands at no
    command or at two of them, or at one that starts behind the positions that a jump can store. -/
theorem assembled_jumps_land (hparse : parse text = .ok files) (hfile : file ∈ files)
    (hbody : file.body = .tables ranges sources)
    (hassemble : Assembler.assembleWith ⟨.ofLayers name layers, symbols⟩ file texts pool =
      (.ok bytes, after)) :
    ((sources.flatMap SourceTable.commands).filterMap (·.label)).Nodup ∧
    ∃ script, Script.ofRecord (.ofLayers name layers) bytes = .ok script ∧
      List.Forall₂ (TableMatches (.ofLayers name layers) fun kind token operand =>
        kind = .jump → Text.decimal? 0x10000 token.toList = none →
          JumpLands (sources.flatMap SourceTable.commands) script bytes token operand)
        sources script.tables := by
  obtain ⟨tables, labels, hspelled, hmatches, hlabels⟩ := assembleWith_spelled
    (InstructionSet.ofLayers_sound name layers) (parse_headersPlaced hparse file hfile) hbody hassemble
  have hnodup := hlabels.nodup.1
  rw [map_fst_zipLabels_placed (forall₂_commands hmatches).length_eq] at hnodup
  refine ⟨hnodup, Script.ofTables tables, Script.ofRecord_eq_ok_iff.mpr ⟨rfl, hspelled⟩, ?_⟩
  refine hmatches.imp fun table item htable => htable.imp fun kind token operand hmeans hjump hnumber => ?_
  subst hjump
  cases hmeans with
  | denoted h =>
    cases h with
    | position hvalue =>
      rw [hnumber] at hvalue
      cases hvalue
    | word hword => cases hword
  | @label _ position _ hlabel hposition =>
    have hmem := hlabels.getElem?_iff.mp hlabel
    rw [Std.TreeMap.getElem?_emptyc, or_iff_left (Option.some_ne_none _).symm] at hmem
    obtain ⟨ordinal, source, destination, hsource, hdestination, hname, rfl⟩ :=
      mem_zipLabels_placed_iff.mp hmem
    have hstart := (Script.getElem?_starts_iff hspelled).mpr ⟨destination, hdestination, rfl⟩
    exact ⟨ordinal, source, destination, hsource, hname,
      fun other found hfound hother => index_of_label hnodup hsource hname hfound hother,
      hdestination, hstart, hspelled.drop_offset (List.mem_of_getElem? hdestination), hposition, rfl⟩

theorem assembled_jumps_land_backward :
    (([⟨2, 1, [⟨3, none, [⟨4, some "again", none, "NOT", []⟩, ⟨5, none, none, "GOTO", ["again"]⟩]⟩]⟩] :
      List SourceTable).flatMap SourceTable.commands |>.filterMap (·.label)).Nodup ∧
    ∃ script, Script.ofRecord (.ofLayers "small" [[⟨0, some "NOT", []⟩, ⟨1, some "GOTO", [.jump]⟩]])
        [0, 0, 0, 1, 0, 0, 0, 1, 0, 6, 0xff, 0, 1, 0, 1] = .ok script ∧
      List.Forall₂ (TableMatches (.ofLayers "small" [[⟨0, some "NOT", []⟩, ⟨1, some "GOTO", [.jump]⟩]])
        fun kind token operand => kind = .jump → Text.decimal? 0x10000 token.toList = none →
          JumpLands [⟨4, some "again", none, "NOT", []⟩, ⟨5, none, none, "GOTO", ["again"]⟩] script
            [0, 0, 0, 1, 0, 0, 0, 1, 0, 6, 0xff, 0, 1, 0, 1] token operand)
        [⟨2, 1, [⟨3, none, [⟨4, some "again", none, "NOT", []⟩,
          ⟨5, none, none, "GOTO", ["again"]⟩]⟩]⟩] script.tables := by
  have hparse : parse "== FILE A ~\n== TABLE 1\n==>\n\tagain: NOT\n\tGOTO again\n" =
      .ok [⟨1, "A", .tables [] [⟨2, 1, [⟨3, none, [⟨4, some "again", none, "NOT", []⟩,
        ⟨5, none, none, "GOTO", ["again"]⟩]⟩]⟩]⟩] :=
    Except.eq_ok_of_toOption (by decide +kernel)
  have hassemble : Assembler.assembleWith
      ⟨.ofLayers "small" [[⟨0, some "NOT", []⟩, ⟨1, some "GOTO", [.jump]⟩]], .empty⟩
      ⟨1, "A", .tables [] [⟨2, 1, [⟨3, none, [⟨4, some "again", none, "NOT", []⟩,
        ⟨5, none, none, "GOTO", ["again"]⟩]⟩]⟩]⟩ none (.startingAt 0) =
        (.ok [0, 0, 0, 1, 0, 0, 0, 1, 0, 6, 0xff, 0, 1, 0, 1], .startingAt 0) :=
    Prod.ext (Except.eq_ok_of_toOption (by decide +kernel)) (by decide +kernel)
  exact assembled_jumps_land hparse List.mem_cons_self rfl hassemble

end Adventure.Listing
