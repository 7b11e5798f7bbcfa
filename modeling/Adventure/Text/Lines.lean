namespace Adventure.Text

/-- A line without the carriage return at its end, if it has one. -/
def dropReturn (line : List Char) : List Char :=
  if line.getLast? = some '\r' then line.dropLast else line

/-- The lines of a document, without their ends. -/
def lines (document : List Char) : List (List Char) :=
  let pieces := document.splitOn '\n'
  let last := pieces.getLastD []
  pieces.dropLast.map dropReturn ++ if last.isEmpty then [] else [last]

/-- A document of lines that each end with a newline. -/
def unlines (content : List (List Char)) : List Char :=
  content.flatMap fun line => line ++ ['\n']

/-- Lines with their numbers, counted from 1. -/
def numbered (content : List (List Char)) : List (Nat × List Char) :=
  content.zipIdx.map fun (line, index) => (index + 1, line)

end Adventure.Text
