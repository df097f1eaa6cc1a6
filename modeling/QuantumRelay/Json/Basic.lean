/-!
# JSON values

`Json` is what a JSON document says. Numbers are whole or floating; an object keeps its members in
the order written, repeated keys included.

A document may hold parts that are well formed and still say nothing: a string with half of a
surrogate pair, a number past the largest double, an object with such a string for a key, a list or
object nested too deep. Such a part is `unreadable`. A member that a reader skips may hold one, a
member that it uses may not.
-/

namespace QuantumRelay

/-- What a JSON document says. -/
inductive Json where
  | null
  | bool (b : Bool)
  | int (n : Int)
  | float (x : Float)
  | text (s : String)
  | array (items : List Json)
  | object (members : List (String × Json))
  /-- A well-formed part without a meaning, which may only be skipped. -/
  | unreadable
deriving Inhabited

namespace Json

mutual

/-- Whether a value has no unreadable part. -/
def readable : Json → Bool
  | .array items => readableItems items
  | .object members => readableMembers members
  | .unreadable => false
  | _ => true

def readableItems : List Json → Bool
  | [] => true
  | j :: rest => j.readable && readableItems rest

def readableMembers : List (String × Json) → Bool
  | [] => true
  | (_, j) :: rest => j.readable && readableMembers rest

end

mutual

/-- The value with repeated keys resolved: in every object the last member of a key stays. -/
def lastWins : Json → Json
  | .array items => .array (lastWinsItems items)
  | .object members => .object (lastWinsMembers members)
  | j => j

def lastWinsItems : List Json → List Json
  | [] => []
  | j :: rest => j.lastWins :: lastWinsItems rest

/-- `lastWins` on members: one whose key comes again is dropped. -/
def lastWinsMembers : List (String × Json) → List (String × Json)
  | [] => []
  | (key, j) :: rest =>
    let later := lastWinsMembers rest
    if later.any (·.1 == key) then later else (key, j.lastWins) :: later

end

def member? (key : String) : Json → Option Json
  | .object members => members.lookup key
  | _ => none

end Json

end QuantumRelay
