import QuantumRelay.Digit
import QuantumRelay.Yaml.Cursor

/-!
# Scalars of a settings document

A scalar is written plain, between single quotes, in which a quote is written twice, or between double
quotes, in which a backslash starts an escape. It may go on over several lines: blanks around a line
end do not count, a single line end is read as a blank, and of several the first does not count.
-/

namespace QuantumRelay.Yaml

/-! ### Gaps -/

/-- What stands between two characters of a scalar that are neither blanks nor line ends. -/
inductive Gap where
  | blanks (cs : List Char)
  /-- Several lines: the line end of the first one, unless it was escaped, and those that follow. -/
  | lines (first : Option Char) (more : List Char)

namespace Gap

def empty : Gap := .blanks []

def isEmpty : Gap → Bool
  | blanks [] => true
  | _ => false

def hasLines : Gap → Bool
  | blanks _ => false
  | lines .. => true

/-- The gap with one more blank or line end. Once it has a line end, blanks do not count. -/
def add (a : Char) (g : Gap) : Gap :=
  let lineEnd := if a = '\u2028' || a = '\u2029' then a else '\n'
  match g, isBlank a with
  | blanks cs, true => blanks (cs ++ [a])
  | lines first more, true => lines first more
  | blanks _, false => lines (some lineEnd) []
  | lines first more, false => lines first (more ++ [lineEnd])

def text : Gap → List Char
  | blanks cs => cs
  | lines (some '\n') [] => [' ']
  | lines (some '\n') more => more
  | lines first more => first.toList ++ more

end Gap

/-! ### Quoted scalars -/

def escapes : List (Char × Char) := [
  ('0', '\x00'), ('a', '\x07'), ('b', '\x08'), ('t', '\t'), ('\t', '\t'), ('n', '\n'),
  ('v', '\x0b'), ('f', '\x0c'), ('r', '\r'), ('e', '\x1b'), (' ', ' '), ('"', '"'), ('/', '/'),
  ('\\', '\\'), ('N', '\u0085'), ('_', '\u00a0'), ('L', '\u2028'), ('P', '\u2029')]

def codeLengths : List (Char × Nat) := [('x', 2), ('u', 4), ('U', 8)]

/-- What follows a backslash: the character that it stands for, and how many characters it takes. -/
def escape? : List Char → Option (Char × Nat)
  | [] => none
  | c :: rest =>
    match codeLengths.lookup c with
    | none => (escapes.lookup c).map (·, 1)
    | some digits => do
      let n ← Digit.number? 16 (rest.take digits)
      if digits ≤ rest.length && (n < 0xD800 || (0xE000 ≤ n && n < 0x110000)) then
        some (Char.ofNat n, digits + 1)
      else none

/-- The rest of a quoted scalar up to its closing quote, in reverse order on top of `text`, and the
place after it. -/
def quotedRest (mark : Char) (text : List Char) (g : Gap) (c : Cursor) :
    Option (List Char × Cursor) :=
  match h : c.rest with
  | [] => none
  | a :: rest =>
    if isBlank a || isLineEnd a then
      have := Cursor.length_next_lt h
      quotedRest mark text (g.add a) c.next
    else if c.atMarker then none
    else
      let text := g.text.reverse ++ text
      have := Cursor.length_next_lt h
      have := c.next.length_next_le
      if a = mark then
        if mark = '\x27' && rest.head? = some mark then quotedRest mark (a :: text) .empty c.next.next
        else some (text, c.next)
      else if mark = '"' && a = '\\' then
        if (rest.head?.map isLineEnd).getD false then
          quotedRest mark text (.lines none []) c.next.next
        else
          match escape? rest with
          | none => none
          | some (b, length) =>
            have := c.next.length_skip_le length
            quotedRest mark (b :: text) .empty (c.next.skip length)
      else quotedRest mark (a :: text) .empty c.next
termination_by c.rest.length

/-- A scalar between quotes, and the place after it. -/
def quoted? (mark : Char) (c : Cursor) : Option (String × Cursor) :=
  (quotedRest mark [] .empty c.next).map fun (text, c) => (String.ofList text.reverse, c)

/-! ### Plain scalars -/

/-- The characters that end a plain scalar inside braces. -/
def isFlowMark (a : Char) : Bool := a = ',' || a = '[' || a = ']' || a = '\x7b' || a = '\x7d'

/-- The characters that a plain scalar never starts with. -/
def indicators : List Char := ['#', '&', '*', '!', '|', '>', '\x27', '"', '%', '@', '\x60']

/-- Whether a plain scalar may start here. A hyphen, a question mark or a colon starts one only if
something follows it, the last two outside of braces only. -/
def startsPlain (flow : Bool) : List Char → Bool
  | [] => false
  | a :: rest =>
    if a = '-' then !atGap rest
    else if a = '?' || a = ':' then !flow && !atGap rest
    else !(isBlank a || isLineEnd a || isFlowMark a || indicators.contains a)

/-- Whether a plain scalar ends before a gap here, rather than to go on after it: at a comment, at a
document marker, or at a line that is indented less than `margin`. -/
def endsAfterGap (flow : Bool) (margin : Nat) (a : Char) (c : Cursor) : Bool :=
  a = '#' || c.atMarker || (!flow && c.column < margin)

/-- The rest of a plain scalar, in reverse order on top of `text`, the gap after it, and the place
after the gap. -/
def plainRest (flow : Bool) (margin : Nat) (text : List Char) (g : Gap) (c : Cursor) :
    Option (List Char × Gap × Cursor) :=
  match h : c.rest with
  | [] => some (text, g, c)
  | a :: rest =>
    have := Cursor.length_next_lt h
    if isBlank a || isLineEnd a then
      if a = '\t' && g.hasLines && c.column < margin then none
      else plainRest flow margin text (g.add a) c.next
    else if !g.isEmpty && endsAfterGap flow margin a c then some (text, g, c)
    else if flow && a = ':' && (rest.head?.map fun b => b = '?' || isFlowMark b).getD false then none
    else if (a = ':' && atGap rest) || (flow && isFlowMark a) then some (text, g, c)
    else plainRest flow margin (a :: (g.text.reverse ++ text)) .empty c.next
termination_by c.rest.length

/-- A plain scalar, whether line ends follow it, and the place after them. -/
def plain? (flow : Bool) (margin : Nat) (c : Cursor) : Option (String × Bool × Cursor) :=
  (plainRest flow margin [] .empty c).map fun (text, g, c) =>
    (String.ofList text.reverse, g.hasLines, c)

end QuantumRelay.Yaml
