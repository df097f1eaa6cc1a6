import QuantumRelay.Yaml.Token

/-!
# Reading settings documents

A settings document is written in YAML: nested mappings by indentation or in braces, scalars plain
or quoted, comments, and at most one document between `---` and `...`. Every JSON document without
lists is one too. A mapping has scalars for keys; a value that is left out is an empty plain scalar.
-/

namespace QuantumRelay

inductive Yaml where
  | scalar (text : String) (plain : Bool)
  | mapping (entries : List (String × Yaml))
deriving Inhabited

namespace Yaml

/-- What is read where nothing is written. -/
def missing : Yaml := .scalar "" true

def endsFlow : List Token → Bool
  | .value :: _ | .comma :: _ | .closeBrace :: _ => true
  | _ => false

/-- Whether a value in a mapping by indentation is left out before this token. -/
def endsBlock : List Token → Bool
  | .key :: _ | .value :: _ | .close :: _ => true
  | _ => false

/-- Read a value unless it is left out. -/
def orMissing (isMissing : List Token → Bool) (read? : List Token → Option (Yaml × List Token))
    (ts : List Token) : Option (Yaml × List Token) :=
  if isMissing ts then some (missing, ts) else read? ts

def afterColon (isMissing : List Token → Bool) (read? : List Token → Option (Yaml × List Token)) :
    List Token → Option (Yaml × List Token)
  | .value :: rest => orMissing isMissing read? rest
  | ts => some (missing, ts)

mutual

/-- A scalar or a mapping, and the tokens after it. -/
def node? (fuel : Nat) (ts : List Token) : Option (Yaml × List Token) :=
  match fuel, ts with
  | _, .scalar text plain :: rest => some (.scalar text plain, rest)
  | fuel + 1, .openBrace :: rest =>
    (braceEntries? fuel true rest).map fun (entries, rest) => (.mapping entries, rest)
  | fuel + 1, .openBlock :: rest =>
    (blockEntries? fuel rest).map fun (entries, rest) => (.mapping entries, rest)
  | _, _ => none
termination_by structural fuel

def braceEntries? (fuel : Nat) (isFirst : Bool) (ts : List Token) :
    Option (List (String × Yaml) × List Token) :=
  match fuel with
  | 0 => none
  | fuel + 1 =>
    match isFirst, ts with
    | _, .closeBrace :: rest => some ([], rest)
    | false, .comma :: .closeBrace :: rest => some ([], rest)
    | _, _ =>
      let entry := match isFirst, ts with
        | true, ts => some ts
        | false, .comma :: rest => some rest
        | false, _ => none
      let read := match entry with
        | some (.key :: rest) =>
          match orMissing endsFlow (node? fuel) rest with
          | some (.scalar key _, rest) =>
            (afterColon endsFlow (node? fuel) rest).map fun (value, rest) => ((key, value), rest)
          | _ => none
        | some ts =>
          match node? fuel ts with
          | some (.scalar key _, rest) => some ((key, missing), rest)
          | _ => none
        | none => none
      match read with
      | some (entry, rest) =>
        (braceEntries? fuel false rest).map fun (entries, rest) => (entry :: entries, rest)
      | none => none
termination_by structural fuel

/-- The entries of a mapping by indentation up to its end. -/
def blockEntries? (fuel : Nat) (ts : List Token) : Option (List (String × Yaml) × List Token) :=
  match fuel with
  | 0 => none
  | fuel + 1 =>
    match ts with
    | .close :: rest => some ([], rest)
    | .key :: rest =>
      match orMissing endsBlock (node? fuel) rest with
      | some (.scalar key _, rest) =>
        match afterColon endsBlock (node? fuel) rest with
        | some (value, rest) =>
          (blockEntries? fuel rest).map fun (entries, rest) => ((key, value) :: entries, rest)
        | none => none
      | _ => none
    | _ => none
termination_by structural fuel

end

def endsDocument : List Token → Bool
  | [] | .start :: _ | .stop :: _ => true
  | _ => false

def read? (text : String) : Option Yaml := do
  let ts ← tokens? text
  let read := node? (2 * ts.length + 1)
  let (node, rest) ← match ts with
    | [] => some (missing, [])
    | .start :: rest => orMissing endsDocument read rest
    | ts => read ts
  if rest.all (· = .stop) then some node else none

end Yaml

end QuantumRelay
