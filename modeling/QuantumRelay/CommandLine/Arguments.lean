import QuantumRelay.Digit
import QuantumRelay.Settings.Run

/-!
# Arguments

`Invocation.ofArguments` reads a command and its options from the arguments of the program. Options
are read from left to right, and the first one that ends the reading, by asking for help or by being
wrong, decides. Short options may be joined, and the value of an option may follow it directly, after
an equals sign, or as the next argument unless that one starts with a hyphen. What is wrong with such
a next argument shows only later, so a request for help to a command comes before it.
-/

namespace QuantumRelay.CommandLine

inductive Stop where
  | help
  | version
  | usage
deriving DecidableEq, Repr

inductive Operand where
  | none
  /-- A value that passes a test. -/
  | value (accepts : String → Bool)

structure Switch where
  long : String
  short : Option Char := .none
  operand : Operand := .none
  /-- Whether it may be given more than once. -/
  repeats : Bool := false
  /-- Whether it ends the reading. -/
  stop : Option Stop := .none

abbrev Given : Type := List (String × String)

/-! ### Values -/

/-- A number below `2 ^ 32`, with or without a sign. -/
def word32? (text : String) : Option UInt32 :=
  let number := match text.toList with
    | '+' :: cs => Digit.number? 10 cs
    | '-' :: cs => (Digit.number? 10 cs).filter (· = 0)
    | cs => Digit.number? 10 cs
  number.bind fun n => if n < UInt32.size then some (UInt32.ofNat n) else none

/-- A number below `2 ^ 64`, with or without a plus sign. -/
def word64? (text : String) : Option UInt64 :=
  let number := match text.toList with
    | '+' :: cs => Digit.number? 10 cs
    | cs => Digit.number? 10 cs
  number.bind fun n => if n < UInt64.size then some (UInt64.ofNat n) else none

def isPath (text : String) : Bool := !text.isEmpty

def method? (text : String) : Option Method := Method.choices.lookup text

/-! ### Options -/

def helpSwitch : Switch := { long := "help", short := 'h', stop := some .help }

def globalSwitches : List Switch := [
  { long := "verbose", short := 'v', repeats := true },
  { long := "config", operand := .value isPath },
  helpSwitch]

def topSwitches : List Switch :=
  globalSwitches ++ [{ long := "version", short := 'V', stop := some .version }]

def commandSwitches : List (String × List Switch) := [
  ("endpoints", [
    { long := "directory", short := 'd', operand := .value isPath },
    { long := "group", short := 'g', operand := .value fun _ => true }]),
  ("resolve", [
    { long := "input", short := 'i', operand := .value isPath },
    { long := "strict" },
    { long := "format", short := 'f', operand := .value fun _ => true }]),
  ("run", [
    { long := "input", short := 'i', operand := .value isPath },
    { long := "directory", short := 'd', operand := .value isPath },
    { long := "group", short := 'g', operand := .value fun _ => true },
    { long := "local" },
    { long := "shots", short := 's', operand := .value (word32? · |>.isSome) },
    { long := "seed", operand := .value (word64? · |>.isSome) },
    { long := "method", short := 'm', operand := .value (method? · |>.isSome) },
    { long := "format", short := 'f', operand := .value fun _ => true }]),
  ("version", [])]

/-- Note an option that was given. -/
def note (given : Given) (s : Switch) (value : String) : Except Stop Given :=
  match s.stop with
  | some stop => .error stop
  | none =>
    let accepted := match s.operand with
      | .none => true
      | .value accepts => accepts value
    if accepted && (s.repeats || (given.lookup s.long).isNone) then .ok (given ++ [(s.long, value)])
    else .error .usage

/-- The options that are noted, and the one that waits for its value. -/
abbrev Scanned : Type := Given × Option Switch

/-- A value after an equals sign, which may be left out. -/
def attached : List Char → List Char
  | '=' :: cs => cs
  | cs => cs

/-- Joined short options. -/
def scanShort (switches : List Switch) (given : Given) : List Char → Except Stop Scanned
  | [] => .ok (given, none)
  | c :: cs =>
    match switches.find? (·.short == some c) with
    | none => .error .usage
    | some s =>
      match s.operand with
      | .none =>
        match note given s "" with
        | .error stop => .error stop
        | .ok given => scanShort switches given cs
      | .value _ =>
        if cs.isEmpty then .ok (given, some s)
        else (note given s (String.ofList (attached cs))).map (·, none)

/-- A long option, given without its hyphens. -/
def scanLong (switches : List Switch) (given : Given) (text : List Char) : Except Stop Scanned :=
  let name := String.ofList (text.takeWhile (· ≠ '='))
  let rest := text.dropWhile (· ≠ '=')
  match switches.find? (·.long == name) with
  | none => .error .usage
  | some s =>
    match s.operand, rest with
    | .none, [] => (note given s "").map (·, none)
    | .none, _ => .error .usage
    | .value _, [] => .ok (given, some s)
    | .value _, _ => (note given s (String.ofList (attached rest))).map (·, none)

def isOption (arg : String) : Bool :=
  match arg.toList with
  | '-' :: _ :: _ => true
  | _ => false

/-- What has been read so far. A value that stood as an argument of its own is held back until an
option follows it or the arguments end; a word does not make it count. -/
structure Reading where
  given : Given := []
  held : Option (Switch × String) := none

def Reading.settle (r : Reading) : Except Stop Given :=
  match r.held with
  | some (s, value) => note r.given s value
  | none => .ok r.given

/-- Read options up to the first word; gives what was read, and the word with what follows it. -/
def scan (switches : List Switch) (r : Reading) (pending : Option Switch) :
    List String → Except Stop (Reading × List String)
  | [] => if pending.isSome then .error .usage else r.settle.map fun given => ({ given }, [])
  | arg :: rest =>
    match pending with
    | some s =>
      if isOption arg then .error .usage
      else scan switches { r with held := some (s, arg) } none rest
    | none =>
      if !isOption arg then .ok (r, arg :: rest)
      else
        match r.settle with
        | .error stop => .error stop
        | .ok given =>
          if arg = "--" then if rest.isEmpty then .ok ({ given }, []) else .error .usage
          else
            let scanned : Except Stop Scanned := match arg.toList with
              | '-' :: '-' :: text => scanLong switches given text
              | '-' :: text => scanShort switches given text
              | _ => .error .usage
            match scanned with
            | .error stop => .error stop
            | .ok (given, pending) => scan switches { given } pending rest

end CommandLine

open CommandLine

/-! ### Commands -/

inductive Target where
  /-- On units made for the occasion. -/
  | localCluster
  | directory (path group : Option String)
deriving DecidableEq, Repr

inductive Command where
  | endpoints (directory group : Option String)
  | resolve (input : String) (strict : Bool) (format : String)
  | run (input : String) (target : Target) (shots : Option UInt32) (seed : Option UInt64)
    (method : Option Method) (format : String)
  | version
deriving DecidableEq, Repr

structure Invocation where
  config : Option String
  command : Command
deriving DecidableEq, Repr

namespace Command

def ofGiven (name : String) (given : Given) : Except Stop Command :=
  let format := (given.lookup "format").getD "table"
  let directory := given.lookup "directory"
  let group := given.lookup "group"
  match name, given.lookup "input" with
  | "endpoints", _ => .ok (.endpoints directory group)
  | "version", _ => .ok .version
  | "resolve", some input => .ok (.resolve input (given.lookup "strict").isSome format)
  | "run", some input =>
    let isLocal := (given.lookup "local").isSome
    if isLocal && (directory.isSome || group.isSome) then .error .usage
    else
      .ok (.run input (if isLocal then .localCluster else .directory directory group)
        ((given.lookup "shots").bind word32?) ((given.lookup "seed").bind word64?)
        ((given.lookup "method").bind method?) format)
  | _, _ => .error .usage

end Command

/-- Read the arguments of the program. The settings file that the environment names counts only where
no argument names one. -/
def Invocation.ofArguments (args : List String) (environment : Option String) :
    Except Stop Invocation := do
  let (top, words) ← scan topSwitches {} none args
  match words with
  | [] => .error .usage
  | name :: rest =>
    if name = "help" then
      match rest with
      | [] => .error .help
      | [word] =>
        .error (if word = "help" || (commandSwitches.lookup word).isSome then .help else .usage)
      | _ => .error .usage
    else
      match commandSwitches.lookup name with
      | none => .error .usage
      | some switches =>
        let (own, words) ← scan (switches ++ globalSwitches) {} none rest
        let top ← top.settle
        let own ← own.settle
        let above := top.lookup "config"
        let below := own.lookup "config"
        if !words.isEmpty then .error .usage
        else if environment = some "" && (above.isNone || below.isNone) then .error .usage
        else
          let command ← Command.ofGiven name own
          pure { config := (below.or above).or environment, command }

end QuantumRelay
