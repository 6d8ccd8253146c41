/-! # Pairs by name

  Blocks and variables are kept as pairs, each name once: a pair of a known name
  takes the old one's place, any other comes last.
-/

namespace TextTemplate.Pairs

/-- The pairs with one more, in the place of the one of its name if there is one. -/
def put {α : Type} (entries : List (String × α)) (pair : String × α) : List (String × α) :=
  if entries.any (·.1 == pair.1) then entries.map fun e => if e.1 == pair.1 then pair else e
  else entries ++ [pair]

end TextTemplate.Pairs
