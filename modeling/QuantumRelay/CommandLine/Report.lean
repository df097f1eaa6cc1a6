import QuantumRelay.Batch.Resolution
import QuantumRelay.CommandLine.About
import QuantumRelay.Directory
import QuantumRelay.Outcome.Result

/-!
# Reports

What the commands print, line by line: tables for people, and JSON documents over several lines.
-/

namespace QuantumRelay.Report

/-- Text with blanks before it, `width` characters at least. -/
def alignRight (width : Nat) (cs : List Char) : String :=
  String.ofList (List.replicate (width - cs.length) ' ' ++ cs)

/-- Text with blanks after it, `width` characters at least. -/
def alignLeft (width : Nat) (text : String) : String :=
  String.ofList (text.toList ++ List.replicate (width - text.length) ' ')

/-- A magnitude with a number of decimal places. -/
def fixed (places : Nat) (x : Float) : List Char := Decimal.fixed places (Binary.ofFloat x)

def document (j : Json) : List String := [j.indented]

/-! ### Results -/

def shownOutcomes : Nat := 16

/-- The bar of a share: one block for two percent. -/
def bar (percent : Float) : String :=
  String.ofList (List.replicate ((Binary.ofFloat (percent / 2)).roundScaled 1 .away) '█')

def outcome (total : UInt64) (label : String) (n : UInt64) : String :=
  let percent := n.toFloat / total.toFloat * 100
  let shown := if label.isEmpty then "-" else label
  let count := alignRight 6 (Decimal.digitChars n.toNat)
  let share := alignRight 5 (fixed 2 percent)
  s!"  {shown}: {count} ({share}%) {bar percent}"

/-- The lines of a result, the most frequent outcomes first. -/
def result (r : RunResult) : Except Overflow (List String) := do
  let shots ← r.shots
  let sorted := r.counts.sorted
  let time := String.ofList (fixed 3 r.timeTaken)
  pure <|
    ["", s!"✓ {r.circuitId} on {r.endpoint} ({shots} shots):"] ++
    (sorted.take shownOutcomes).map (fun (label, n) => outcome shots label n) ++
    (if shownOutcomes < sorted.length then
      [s!"  ... and {sorted.length - shownOutcomes} more outcomes"] else []) ++
    [s!"  Execution time: {time} s"]

/-! ### Resolutions -/

def edgeToJson (e : Edge) : Json :=
  .object [("kind", .text e.kind.name), ("sink", .text e.sink), ("source", .text e.source)]

def danglingToJson (d : DanglingSend) : Json :=
  .object [("circuit", .text d.circuit), ("gate", .text d.gate), ("peer", .text d.peer),
    ("position", .int d.position)]

def resolutionToJson (r : Resolution) : Json :=
  .object [
    ("circuits", .ofTexts r.circuits),
    ("dangling_sends", .array (r.danglingSends.map danglingToJson)),
    ("distributed", .bool r.isDistributed),
    ("edges", .array (r.edges.map edgeToJson))]

def resolution (path : String) (r : Resolution) : List String :=
  [s!"→ Resolved {r.circuits.length} circuits from {path}"] ++
  (if r.edges.isEmpty then ["  No relays: the batch runs as independent circuits."] else []) ++
  r.edges.map (fun e => s!"  {e.source} → {e.sink} ({e.kind.name})") ++
  r.danglingSends.map fun d =>
    s!"  ! '{d.circuit}' instruction {d.position} ({d.gate}) " ++
      s!"sends to '{d.peer}', which nothing in the batch receives"

/-! ### Endpoints and versions -/

def endpoint (id : String) (r : EndpointRecord) : List String :=
  let simulator := if r.backend.simulator then ", simulator" else ""
  [s!"  ● {id} {r.address}",
    s!"    Backend: {r.backend.name} v{r.backend.version} " ++
      s!"({r.backend.numQubits} qubits{simulator})"] ++
  match r.group with
  | some group => [s!"    Group:   {group}"]
  | none => []

def endpoints (path : String) (rows : List (String × EndpointRecord)) : List String :=
  [s!"{About.programName} {rows.length} endpoints in {path}", ""] ++
  rows.flatMap fun (id, r) => endpoint id r

def component (width : Nat) (c : About.Component) : String :=
  s!"  {alignLeft width c.name}  {alignLeft 7 c.version} {c.description}"

def about : List String :=
  let width := (About.components.map (·.name.length)).foldl max 0
  [s!"{About.programName} v{About.version} - {About.summary}", "", "Components:"] ++
  About.components.map (component width) ++
  ["", s!"Repository: {About.repository}", s!"License:    {About.terms}"]

end QuantumRelay.Report
