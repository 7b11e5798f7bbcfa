import Adventure.Strings.Index

namespace Adventure

/-- The texts declared so far. The first has the number `first`, and all numbers are below
    `limit`. -/
structure StringPool where
  first : Nat
  limit : Nat
  added : List String
  deriving Repr, DecidableEq

namespace StringPool

/-- An empty pool. Its numbers stay below `limit` and below those of the text files. -/
def bounded (first limit : Nat) : StringPool := ⟨first, min limit TextIndex.firstBase, []⟩

/-- An empty pool that is bounded by the text files alone. -/
def startingAt (first : Nat) : StringPool := bounded first TextIndex.firstBase

/-- The number of a text, which is added if it is new. None if no number is left. -/
def add (pool : StringPool) (text : String) : Option (Nat × StringPool) :=
  match pool.added.idxOf? text with
  | some index => some (pool.first + index, pool)
  | none =>
    let id := pool.first + pool.added.length
    if id < pool.limit then some (id, { pool with added := pool.added ++ [text] }) else none

def get? (pool : StringPool) (id : Nat) : Option String :=
  if id < pool.first then none else pool.added[id - pool.first]?

end StringPool

end Adventure
