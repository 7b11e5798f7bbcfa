namespace Adventure.Text

/-- The pieces of a text around the occurrences of `part`, when `skipped` characters of an
    occurrence are left, and `current` stands before in the piece, last first. -/
def piecesFrom (part : List Char) (skipped : Nat) (current : List Char) :
    List Char → List (List Char)
  | [] => [current.reverse]
  | c :: rest =>
    if 0 < skipped then piecesFrom part (skipped - 1) current rest
    else if part.isPrefixOf (c :: rest) then
      current.reverse :: piecesFrom part (part.length - 1) [] rest
    else piecesFrom part 0 (c :: current) rest

/-- The pieces of a text around the occurrences of `part`. Nothing occurs before and behind every
    character. -/
def pieces (part text : List Char) : List (List Char) :=
  if part.isEmpty then [] :: text.map (fun c => [c]) ++ [[]] else piecesFrom part 0 [] text

end Adventure.Text
