import QuantumRelay.Yaml.Scalar

/-!
# Tokens of a settings document

`tokens?` splits a text into scalars and the marks between them. Indentation becomes marks of its
own: a mapping whose keys are indented further than what is around it is put between `openBlock` and
`close`.

That a scalar is a key shows only at the colon after it. So wherever a key may stand its place is
kept, and the marks before it are put there when the colon comes. A place is given up when the line
ends or the text since then gets too long; at the indentation of a mapping there has to be a key.

No setting is a list, so the marks of lists are refused, and with them anchors, tags, directives and
scalars in blocks.
-/

namespace QuantumRelay.Yaml

inductive Token where
  | start
  | stop
  | openBlock
  | openBrace
  /-- The end of a mapping by indentation. -/
  | close
  | closeBrace
  | comma
  | key
  | value
  | scalar (text : String) (plain : Bool)
deriving DecidableEq

structure KeyPlace where
  /-- How many tokens are before it. -/
  index : Nat
  offset : Nat
  line : Nat
  column : Nat
  /-- Whether there has to be a key. -/
  isRequired : Bool

/-- How many characters a key may take. -/
def maxKeyLength : Nat := 1024

/-- Whether a key that started at a place can still end here. -/
def KeyPlace.isOpenAt (k : KeyPlace) (c : Cursor) : Bool :=
  k.line = c.line && c.offset ≤ k.offset + maxKeyLength

/-- A text that has been split up to a place. -/
structure Scan where
  cursor : Cursor
  tokens : Array Token := #[]
  /-- The place of the last key that may still come. -/
  place : Option KeyPlace := none
  /-- The same around each open brace, innermost first. -/
  outer : List (Option KeyPlace) := []
  /-- The indentation of the open mappings, innermost first. -/
  indents : List Nat := []
  /-- Whether a key may start here. -/
  mayKey : Bool := true

namespace Scan

def flow (s : Scan) : Bool := !s.outer.isEmpty

def emit (s : Scan) (t : Token) : Scan := { s with tokens := s.tokens.push t }

def skip (s : Scan) (n : Nat) : Scan := { s with cursor := s.cursor.skip n }

/-! ### Keys -/

/-- Give up a place where no key has come, unless there has to be one. -/
def giveUp : Option KeyPlace → Option (Option KeyPlace)
  | some k => if k.isRequired then none else some none
  | none => some none

def dropPlace (s : Scan) : Option Scan :=
  (giveUp s.place).map fun place => { s with place }

/-- Give up the places whose keys cannot end here. -/
def dropStale (s : Scan) : Option Scan := do
  let check : Option KeyPlace → Option (Option KeyPlace)
    | some k => if k.isOpenAt s.cursor then some (some k) else giveUp (some k)
    | none => some none
  some { s with place := ← check s.place, outer := ← s.outer.mapM check }

/-- Keep this place, if a key may start here. -/
def keepPlace (s : Scan) : Option Scan :=
  if s.mayKey then do
    let s ← s.dropPlace
    let c := s.cursor
    some { s with place := some {
      index := s.tokens.size, offset := c.offset, line := c.line, column := c.column
      isRequired := !s.flow && s.indents.head? = some c.column } }
  else some s

/-! ### Indentation -/

/-- End the mappings that are indented further than `column`. -/
def closeDeeper (s : Scan) (column : Nat) : Scan :=
  if s.flow then s
  else
    let deeper := s.indents.takeWhile (column < ·)
    { s with
      indents := s.indents.drop deeper.length
      tokens := s.tokens ++ deeper.map fun _ => Token.close }

def closeAll (s : Scan) : Scan :=
  if s.flow then s
  else { s with indents := [], tokens := s.tokens ++ s.indents.map fun _ => Token.close }

/-- Start a mapping before the token at `index` if `column` is indented further. -/
def openAt (s : Scan) (column index : Nat) : Scan :=
  if s.flow || (s.indents.head?.map fun indent => decide (column ≤ indent)).getD false then s
  else
    { s with
      indents := column :: s.indents
      tokens := s.tokens.insertIdxIfInBounds index .openBlock }

/-! ### Steps -/

/-- The place of the next token: after blanks, comments and line ends. Tabs do not count as blanks
where a key may start. -/
def toToken (flow mayKey : Bool) (c : Cursor) : Bool × Cursor :=
  match h : c.rest with
  | [] => (mayKey, c)
  | a :: _ =>
    have := Cursor.length_next_lt h
    if a = ' ' || (a = '\t' && (flow || !mayKey)) || (a = '\ufeff' && c.column = 0) then
      toToken flow mayKey c.next
    else if a = '#' then
      have := c.next.length_skip_le (c.next.rest.takeWhile (!isLineEnd ·)).length
      toToken flow mayKey (c.next.skip (c.next.rest.takeWhile (!isLineEnd ·)).length)
    else if isLineEnd a then toToken flow (mayKey || !flow) c.next
    else (mayKey, c)
termination_by c.rest.length

def marker (s : Scan) (t : Token) : Option Scan := do
  let s ← s.closeAll.dropPlace
  some ({ s with mayKey := false }.emit t |>.skip 3)

def openBrace (s : Scan) : Option Scan := do
  let s ← s.keepPlace
  some ({ s with place := none, outer := s.place :: s.outer, mayKey := true }.emit .openBrace
    |>.skip 1)

def closeBrace (s : Scan) : Option Scan := do
  let s ← s.dropPlace
  some ({ s with
    place := (s.outer.head?.getD none), outer := s.outer.drop 1, mayKey := false }.emit .closeBrace
    |>.skip 1)

def comma (s : Scan) : Option Scan := do
  let s ← s.dropPlace
  some ({ s with mayKey := true }.emit .comma |>.skip 1)

def explicitKey (s : Scan) : Option Scan := do
  if !s.flow && !s.mayKey then none
  else
    let s ← (s.openAt s.cursor.column s.tokens.size).dropPlace
    some ({ s with mayKey := !s.flow }.emit .key |>.skip 1)

def colon (s : Scan) : Option Scan :=
  match s.place with
  | some k =>
    let s := { s with
      tokens := s.tokens.insertIdxIfInBounds k.index .key, place := none, mayKey := false }
    some ((s.openAt k.column k.index).emit .value |>.skip 1)
  | none =>
    if !s.flow && !s.mayKey then none
    else
      let s := s.openAt s.cursor.column s.tokens.size
      some ({ s with mayKey := !s.flow }.emit .value |>.skip 1)

def quoted (s : Scan) (mark : Char) : Option Scan := do
  let s ← s.keepPlace
  let (text, cursor) ← quoted? mark s.cursor
  some ({ s with cursor, mayKey := false }.emit (.scalar text false))

/-- A plain scalar. After its line a key may start. -/
def plain (s : Scan) : Option Scan := do
  let s ← s.keepPlace
  let margin := (s.indents.head?.map (· + 1)).getD 0
  let (text, hasLines, cursor) ← plain? s.flow margin s.cursor
  some ({ s with cursor, mayKey := hasLines }.emit (.scalar text true))

/-- The token at a place where one starts. -/
def token (s : Scan) (a : Char) (rest : List Char) : Option Scan :=
  if s.cursor.column = 0 && atMarker '-' (a :: rest) then s.marker .start
  else if s.cursor.column = 0 && atMarker '.' (a :: rest) then s.marker .stop
  else if a = '\x7b' then s.openBrace
  else if a = '\x7d' then s.closeBrace
  else if a = ',' then s.comma
  else if a = '?' && (s.flow || atGap rest) then s.explicitKey
  else if a = ':' && (s.flow || atGap rest) then s.colon
  else if a = '"' || a = '\x27' then s.quoted a
  else if startsPlain s.flow (a :: rest) then s.plain
  else none

def run (s : Scan) : Nat → Option (Array Token)
  | 0 => none
  | fuel + 1 => do
    let (mayKey, cursor) := toToken s.flow s.mayKey s.cursor
    let s ← { s with mayKey, cursor }.dropStale
    match cursor.rest with
    | [] => do
      let s ← s.closeAll.dropPlace
      some s.tokens
    | a :: rest => ((s.closeDeeper cursor.column).token a rest).bind (·.run fuel)

end Scan

def tokens? (text : String) : Option (List Token) :=
  let cs := text.toList
  if cs.all isAllowed then
    (Scan.run { cursor := { rest := cs } } (cs.length + 1)).map (·.toList)
  else none

end QuantumRelay.Yaml
