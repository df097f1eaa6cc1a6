import QuantumRelay.Decimal.Shortest
import QuantumRelay.Json.Basic

/-!
# Writing JSON text

`Json.compact` writes a value without blanks, `Json.indented` over several lines with two blanks a
level. Both escape quotes, backslashes and control characters and leave all else as it is. Doubles
have their shortest digits, positional from `0.00001` up to below `1e+16`; a double that is not
finite is written `null`.
-/

namespace QuantumRelay.Json

/-- Doubles are positional while the leading digit stands for `10 ^ e` with `-5 ≤ e < 16`. -/
def floatStyle : Decimal.Style := ⟨-5, 16⟩

def floatChars (x : Float) : List Char :=
  if x.isFinite then Decimal.writtenFloat floatStyle x else ['n', 'u', 'l', 'l']

def intChars (n : Int) : List Char :=
  if n < 0 then '-' :: Decimal.digitChars n.natAbs else Decimal.digitChars n.natAbs

def escape (c : Char) : List Char :=
  if c = '"' then ['\\', '"']
  else if c = '\\' then ['\\', '\\']
  else if c = '\n' then ['\\', 'n']
  else if c = '\r' then ['\\', 'r']
  else if c = '\t' then ['\\', 't']
  else if c = '\x08' then ['\\', 'b']
  else if c = '\x0c' then ['\\', 'f']
  else if c.toNat < 0x20 then
    ['\\', 'u', '0', '0', Nat.digitChar (c.toNat / 16), Nat.digitChar (c.toNat % 16)]
  else [c]

def quoted (s : String) : List Char := '"' :: s.toList.flatMap escape ++ ['"']

mutual

def chars : Json → List Char
  | .null => ['n', 'u', 'l', 'l']
  | .bool true => ['t', 'r', 'u', 'e']
  | .bool false => ['f', 'a', 'l', 's', 'e']
  | .int n => intChars n
  | .float x => floatChars x
  | .text s => quoted s
  | .array items => '[' :: charsItems items
  | .object members => '\x7b' :: charsMembers members
  | .unreadable => ['n', 'u', 'l', 'l']

def charsItems : List Json → List Char
  | [] => [']']
  | [j] => j.chars ++ [']']
  | j :: rest => j.chars ++ ',' :: charsItems rest

def charsMembers : List (String × Json) → List Char
  | [] => ['\x7d']
  | [(key, j)] => quoted key ++ ':' :: j.chars ++ ['\x7d']
  | (key, j) :: rest => quoted key ++ ':' :: j.chars ++ ',' :: charsMembers rest

end

def compact (j : Json) : String := String.ofList j.chars

def newLine (level : Nat) : List Char := '\n' :: List.replicate (2 * level) ' '

mutual

/-- The characters of a value over several lines, its own line inside `level` brackets. -/
def indentedChars (level : Nat) : Json → List Char
  | .array [] => ['[', ']']
  | .array items => '[' :: indentedItems level items
  | .object [] => ['\x7b', '\x7d']
  | .object members => '\x7b' :: indentedMembers level members
  | .null => ['n', 'u', 'l', 'l']
  | .bool true => ['t', 'r', 'u', 'e']
  | .bool false => ['f', 'a', 'l', 's', 'e']
  | .int n => intChars n
  | .float x => floatChars x
  | .text s => quoted s
  | .unreadable => ['n', 'u', 'l', 'l']

def indentedItems (level : Nat) : List Json → List Char
  | [] => [']']
  | j :: rest => newLine (level + 1) ++ j.indentedChars (level + 1) ++
      (if rest.isEmpty then newLine level else [',']) ++ indentedItems level rest

def indentedMembers (level : Nat) : List (String × Json) → List Char
  | [] => ['\x7d']
  | (key, j) :: rest => newLine (level + 1) ++ quoted key ++ ':' :: ' ' ::
      j.indentedChars (level + 1) ++ (if rest.isEmpty then newLine level else [',']) ++
      indentedMembers level rest

end

def indented (j : Json) : String := String.ofList (j.indentedChars 0)

end QuantumRelay.Json
