/-!
# Places in a settings document

A `Cursor` is a place in a text: what is left of it, and the line and column reached. A line ends
with a line feed, a carriage return, both in this order, or one of the line ends of Unicode.
-/

namespace QuantumRelay.Yaml

def isBlank (c : Char) : Bool := c = ' ' || c = '\t'

def isLineEnd (c : Char) : Bool :=
  c = '\n' || c = '\r' || c = '\u0085' || c = '\u2028' || c = '\u2029'

/-- The characters that a document may be written with: no control characters but tabs and line ends,
and none that Unicode keeps from being characters at all. -/
def isAllowed (c : Char) : Bool :=
  let n := c.toNat
  c = '\t' || isLineEnd c || (0x20 ≤ n && n < 0x7f) || (0xa0 ≤ n && n < 0xfffe) || 0x10000 ≤ n

/-- Whether a text starts with a blank or a line end, or is over. -/
def atGap : List Char → Bool
  | [] => true
  | c :: _ => isBlank c || isLineEnd c

/-- Whether a text starts with a mark three times, and nothing else up to the next gap. -/
def atMarker (mark : Char) : List Char → Bool
  | a :: b :: c :: rest => a = mark && b = mark && c = mark && atGap rest
  | _ => false

structure Cursor where
  rest : List Char
  /-- How many characters lie before. -/
  offset : Nat := 0
  line : Nat := 0
  column : Nat := 0

namespace Cursor

/-- The place after the next character, or after the next line end. -/
def next (c : Cursor) : Cursor :=
  match c.rest with
  | [] => c
  | '\r' :: '\n' :: rest => { rest, offset := c.offset + 2, line := c.line + 1, column := 0 }
  | a :: rest =>
    if isLineEnd a then { rest, offset := c.offset + 1, line := c.line + 1, column := 0 }
    else { c with rest, offset := c.offset + 1, column := c.column + 1 }

def skip (c : Cursor) : Nat → Cursor
  | 0 => c
  | n + 1 => c.next.skip n

/-- Whether a document ends or begins at the start of this line. -/
def atMarker (c : Cursor) : Bool :=
  c.column = 0 && (Yaml.atMarker '-' c.rest || Yaml.atMarker '.' c.rest)

theorem length_next_lt {c : Cursor} {a : Char} {rest : List Char} (h : c.rest = a :: rest) :
    c.next.rest.length < c.rest.length := by
  unfold next
  split <;> rename_i heq
  · simp [h] at heq
  · simp only [heq, List.length_cons]; omega
  · split <;> simp [heq]

theorem length_next_le (c : Cursor) : c.next.rest.length ≤ c.rest.length := by
  match h : c.rest with
  | [] => simp [next, h]
  | _ :: _ => exact h ▸ Nat.le_of_lt (length_next_lt h)

theorem length_skip_le (c : Cursor) (n : Nat) : (c.skip n).rest.length ≤ c.rest.length := by
  induction n generalizing c with
  | zero => exact Nat.le_refl _
  | succ n ih => exact Nat.le_trans (ih c.next) c.length_next_le

end Cursor

end QuantumRelay.Yaml
