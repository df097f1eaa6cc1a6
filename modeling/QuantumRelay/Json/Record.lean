import QuantumRelay.KeyMap
import QuantumRelay.Json.Basic

/-!
# Typed parts of a document

Readers of single values (`word32?`, `float?`, `items?`, …) and of records. A record is written as
an object, or as a list of its fields in their own order. In an object, a field stands at most once;
a key that is no field is skipped by an open record and refused by a closed one. In a list, fields
may be missing at the end only, and nothing may follow the last one.
-/

namespace QuantumRelay.Json

variable {α β : Type}

/-! ### Single values -/

def text? : Json → Option String
  | .text s => some s
  | _ => none

def bool? : Json → Option Bool
  | .bool b => some b
  | _ => none

def word32? : Json → Option UInt32
  | .int n => if 0 ≤ n && n < UInt32.size then some (UInt32.ofNat n.toNat) else none
  | _ => none

def word64? : Json → Option UInt64
  | .int n => if 0 ≤ n && n < UInt64.size then some (UInt64.ofNat n.toNat) else none
  | _ => none

/-- A number, whole ones included. -/
def float? : Json → Option Float
  | .float x => some x
  | .int n => some (if n < 0 then -Float.ofNat n.natAbs else Float.ofNat n.natAbs)
  | _ => none

def items? (item? : Json → Option α) : Json → Option (List α)
  | .array items => items.mapM item?
  | _ => none

def pair? (first? : Json → Option α) (second? : Json → Option β) : Json → Option (α × β)
  | .array [a, b] => do some (← first? a, ← second? b)
  | _ => none

def nullable? (value? : Json → Option α) : Json → Option (Option α)
  | .null => some none
  | j => (value? j).map some

/-- An object as a map; of two members with one key the later stays. -/
def keyed? (value? : Json → Option α) : Json → Option (KeyMap α)
  | .object members => do
    let pairs ← members.mapM fun m => (value? m.2).map fun v => (m.1, v)
    some (KeyMap.ofList pairs)
  | _ => none

/-- One of a fixed choice of names, written as the name or as an object from the name to `null`. An
empty object may stand for the `null` where that is said. -/
def choice? (choices : List (String × α)) (emptyIsNull : Bool) : Json → Option α
  | .text name => choices.lookup name
  | .object [(name, .null)] => choices.lookup name
  | .object [(name, .object [])] => if emptyIsNull then choices.lookup name else none
  | _ => none

/-! ### Records -/

/-- Whether a record skips keys that are no fields of it. -/
inductive Extent where
  | isOpen
  | isClosed
deriving DecidableEq

/-- The fields that a record was written with. -/
structure Record where
  fields : List (String × Json)

/-- The fields of a value written as a record with the given field names. -/
def record? (extent : Extent) (names : List String) : Json → Option Record
  | .object members =>
    let known := members.filter fun m => names.contains m.1
    if extent = .isClosed && known.length ≠ members.length then none
    else if (known.map (·.1)).Nodup then some ⟨known⟩
    else none
  | .array items => if items.length ≤ names.length then some ⟨names.zip items⟩ else none
  | _ => none

namespace Record

def required (r : Record) (name : String) (value? : Json → Option α) : Option α :=
  (r.fields.lookup name).bind value?

/-- A field that has a value of its own when it is missing. -/
def optional (r : Record) (name : String) (missing : α) (value? : Json → Option α) : Option α :=
  match r.fields.lookup name with
  | some j => value? j
  | none => some missing

end Record

/-! ### Writing -/

/-- A field unless it has nothing to say. -/
def fieldUnless (skip : Bool) (name : String) (value : Json) : List (String × Json) :=
  if skip then [] else [(name, value)]

/-- A field of an optional value, left out when there is none. -/
def fieldOf? (name : String) (value : Option α) (toJson : α → Json) : List (String × Json) :=
  match value with
  | some v => [(name, toJson v)]
  | none => []

def ofWord32 (n : UInt32) : Json := .int n.toNat

def ofWord64 (n : UInt64) : Json := .int n.toNat

def ofTexts (l : List String) : Json := .array (l.map .text)

def ofKeyMap (toJson : α → Json) (m : KeyMap α) : Json :=
  .object (m.entries.map fun (key, v) => (key, toJson v))

end QuantumRelay.Json
