import QuantumRelay.Decimal.Basic
import QuantumRelay.Digit
import QuantumRelay.Json.Basic

/-!
# Reading JSON text

`Json.read?` reads one document and nothing after it but blanks. Every reader here takes the text
that is left and hands back what follows the part it read. The nesting of lists and objects is
bounded by `Json.maxDepth`; one that is deeper is read to its end and counts as `unreadable`.

A number that is not a whole one is read as the double nearest to it. That is an assumption: a faster
reader may be off by one in the last place, and what is said here of numbers that are read back is not
said of such a reader.
-/

namespace QuantumRelay.Json

def maxDepth : Nat := 127

def isBlank (c : Char) : Bool := c = ' ' || c = '\n' || c = '\t' || c = '\r'

def skipBlanks (cs : List Char) : List Char := cs.dropWhile isBlank

/-! ### Numbers -/

/-- The exponent part of a number, zero when there is none; `none` when it has no digit. -/
def readExponent : List Char → Option (Option Int × List Char)
  | c :: rest =>
    if c = 'e' || c = 'E' then
      let (negative, rest) : Bool × List Char := match rest with
        | '+' :: r => (false, r)
        | '-' :: r => (true, r)
        | r => (false, r)
      let ds := rest.takeWhile Digit.isDecimal
      if ds.isEmpty then none
      else
        let n : Int := Decimal.ofDigits ds
        some (some (if negative then -n else n), rest.drop ds.length)
    else some (none, c :: rest)
  | [] => some (none, [])

/-- The fraction digits of a number; `none` when a point has no digit after it. -/
def readFraction : List Char → Option (List Char × List Char)
  | '.' :: rest =>
    let ds := rest.takeWhile Digit.isDecimal
    if ds.isEmpty then none else some (ds, rest.drop ds.length)
  | cs => some ([], cs)

/-- The whole digits of a number: one zero, or digits that do not start with a zero. -/
def readWhole : List Char → Option (List Char × List Char)
  | '0' :: rest => if (rest.head?.map Digit.isDecimal).getD false then none else some (['0'], rest)
  | cs =>
    let ds := cs.takeWhile Digit.isDecimal
    if ds.isEmpty then none else some (ds, cs.drop ds.length)

def signed (negative : Bool) (x : Float) : Json :=
  if x.isFinite then .float (if negative then -x else x) else .unreadable

/-- The value of a number without fraction and exponent: whole while it fits in 64 bits, with or
without a sign; minus zero is a double. -/
def wholeValue (negative : Bool) (n : Nat) : Json :=
  if negative then
    if n ≠ 0 && n ≤ UInt64.size / 2 then .int (-(n : Int)) else signed true (Decimal.toFloat ⟨n, 0⟩)
  else if n < UInt64.size then .int n
  else signed false (Decimal.toFloat ⟨n, 0⟩)

/-- Read a number whose sign has been taken off. -/
def readMagnitude (negative : Bool) (cs : List Char) : Option (Json × List Char) := do
  let (whole, cs) ← readWhole cs
  let (fraction, cs) ← readFraction cs
  let (exponent, cs) ← readExponent cs
  if fraction.isEmpty && exponent.isNone then
    some (wholeValue negative (Decimal.ofDigits whole), cs)
  else
    let d : Decimal :=
      ⟨Decimal.ofDigits (whole ++ fraction), exponent.getD 0 - (fraction.length : Int)⟩
    some (signed negative d.toFloat, cs)

/-! ### Strings -/

def readHex4 : List Char → Option (Nat × List Char)
  | a :: b :: c :: d :: rest => do
    let a ← Digit.value? a
    let b ← Digit.value? b
    let c ← Digit.value? c
    let d ← Digit.value? d
    some (((a * 16 + b) * 16 + c) * 16 + d, rest)
  | _ => none

def isLeading (n : Nat) : Bool := 0xD800 ≤ n && n < 0xDC00

def isTrailing (n : Nat) : Bool := 0xDC00 ≤ n && n < 0xE000

/-- The code unit that closes a pair, if the text goes on with one. -/
def readTrailing : List Char → Option (Nat × List Char)
  | '\\' :: 'u' :: rest => (readHex4 rest).filter (isTrailing ·.1)
  | _ => none

/-- The character after a `\u`; the character is missing when it is half of a pair. -/
def readUnicode (cs : List Char) : Option (Option Char × List Char) := do
  let (n, rest) ← readHex4 cs
  if isLeading n then
    match readTrailing rest with
    | some (m, rest) => some (some (Char.ofNat (0x10000 + (n - 0xD800) * 0x400 + (m - 0xDC00))), rest)
    | none => some (none, rest)
  else if isTrailing n then some (none, rest)
  else some (some (Char.ofNat n), rest)

def escaped? : Char → Option Char
  | '"' => some '"'
  | '\\' => some '\\'
  | '/' => some '/'
  | 'b' => some '\x08'
  | 'f' => some '\x0c'
  | 'n' => some '\n'
  | 'r' => some '\r'
  | 't' => some '\t'
  | _ => none

/-- The characters of a string up to its closing quote, in reverse order on top of `acc`, and
whether every surrogate was paired. -/
def readChars (fuel : Nat) (paired : Bool) (acc : List Char) (cs : List Char) :
    Option ((List Char × Bool) × List Char) :=
  match fuel, cs with
  | 0, _ => none
  | _, [] => none
  | _, '"' :: rest => some ((acc, paired), rest)
  | fuel + 1, '\\' :: 'u' :: rest =>
    match readUnicode rest with
    | none => none
    | some (none, rest) => readChars fuel false acc rest
    | some (some c, rest) => readChars fuel paired (c :: acc) rest
  | fuel + 1, '\\' :: c :: rest =>
    match escaped? c with
    | none => none
    | some c => readChars fuel paired (c :: acc) rest
  | fuel + 1, c :: rest =>
    if c.toNat < 0x20 || c = '\\' then none else readChars fuel paired (c :: acc) rest

/-- A string after its opening quote, `none` inside for one with half of a pair. -/
def readString (cs : List Char) : Option (Option String × List Char) := do
  let ((acc, paired), rest) ← readChars (cs.length + 1) true [] cs
  some (if paired then some (String.ofList acc.reverse) else none, rest)

/-! ### Values -/

def afterWord (word : List Char) (cs : List Char) : Option (List Char) := word.isPrefixOf? cs

mutual

/-- One value, blanks before it allowed, inside `depth` lists and objects. -/
def readValue (fuel depth : Nat) (cs : List Char) : Option (Json × List Char) :=
  match fuel with
  | 0 => none
  | fuel + 1 =>
    match skipBlanks cs with
    | [] => none
    | '"' :: rest => (readString rest).map fun (s, rest) => ((s.map .text).getD .unreadable, rest)
    | '[' :: rest =>
      match skipBlanks rest with
      | ']' :: rest => some (if depth < maxDepth then .array [] else .unreadable, rest)
      | rest => (readItems fuel (depth + 1) rest).map fun (items, rest) =>
          (if depth < maxDepth then .array items else .unreadable, rest)
    | '\x7b' :: rest =>
      match skipBlanks rest with
      | '\x7d' :: rest => some (if depth < maxDepth then .object [] else .unreadable, rest)
      | rest => (readMembers fuel (depth + 1) rest).map fun (members, rest) =>
          (match members with
            | some members => if depth < maxDepth then .object members else .unreadable
            | none => .unreadable, rest)
    | '-' :: rest => readMagnitude true rest
    | c :: rest =>
      if Digit.isDecimal c then readMagnitude false (c :: rest)
      else if c = 't' then (afterWord ['r', 'u', 'e'] rest).map (.bool true, ·)
      else if c = 'f' then (afterWord ['a', 'l', 's', 'e'] rest).map (.bool false, ·)
      else if c = 'n' then (afterWord ['u', 'l', 'l'] rest).map (.null, ·)
      else none
termination_by structural fuel

/-- The items of a list up to its closing bracket, at least one. -/
def readItems (fuel depth : Nat) (cs : List Char) : Option (List Json × List Char) :=
  match fuel with
  | 0 => none
  | fuel + 1 =>
    match readValue fuel depth cs with
    | none => none
    | some (item, rest) =>
      match skipBlanks rest with
      | ']' :: rest => some ([item], rest)
      | ',' :: rest => (readItems fuel depth rest).map fun (items, rest) => (item :: items, rest)
      | _ => none
termination_by structural fuel

/-- The members of an object up to its closing brace, at least one; `none` inside when a key has
half of a surrogate pair. -/
def readMembers (fuel depth : Nat) (cs : List Char) :
    Option (Option (List (String × Json)) × List Char) :=
  match fuel with
  | 0 => none
  | fuel + 1 =>
    match skipBlanks cs with
    | '"' :: rest =>
      match readString rest with
      | none => none
      | some (key, rest) =>
        match skipBlanks rest with
        | ':' :: rest =>
          match readValue fuel depth rest with
          | none => none
          | some (value, rest) =>
            match skipBlanks rest with
            | '\x7d' :: rest => some (key.map fun key => [(key, value)], rest)
            | ',' :: rest => (readMembers fuel depth rest).map fun (members, rest) =>
                (match key, members with
                  | some key, some members => some ((key, value) :: members)
                  | _, _ => none, rest)
            | _ => none
        | _ => none
    | _ => none
termination_by structural fuel

end

/-- The value of a document; `none` if the text is not one document. -/
def read? (text : String) : Option Json :=
  let cs := text.toList
  match readValue (cs.length + 1) 0 cs with
  | some (value, rest) => if (skipBlanks rest).isEmpty then some value else none
  | none => none

end QuantumRelay.Json
