import QuantumRelay.KeyMap

/-!
# Lists of names

The first name that comes twice, and the names of a list without repetitions.
-/

namespace QuantumRelay.Names

/-- The first name that is among `seen` or stands before in the list. -/
def firstRepeated? (seen : List String) : List String → Option String
  | [] => none
  | name :: rest =>
    if seen.contains name then some name else firstRepeated? (name :: seen) rest

/-- The names of a list, each once and in order. -/
def sorted (names : List String) : List String := (KeyMap.ofList (names.map (·, ()))).keys

end QuantumRelay.Names
