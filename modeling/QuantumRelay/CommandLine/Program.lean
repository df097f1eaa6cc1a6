import QuantumRelay.CommandLine.Command

/-!
# The program

`Program.run` is the whole program as a function of its arguments: what it prints, the error message
if there is one, and the exit code. A command that fails ends with code one, arguments that are not
understood with code two, and a program that stops in the middle of an addition with code 101.
-/

namespace QuantumRelay.Program

/-- What the program leaves behind. -/
structure Outcome where
  code : UInt32
  lines : List String := []
  message : Option String := none
deriving DecidableEq, Repr

def ofStop : CommandLine.Stop → Outcome
  | .help => { code := 0 }
  | .version => { code := 0, lines := [s!"{About.programName} {About.version}"] }
  | .usage => { code := 2 }

def ofConclusion (c : Conclusion) : Outcome :=
  match c.failure with
  | none => { code := 0, lines := c.lines }
  | some e => { code := e.code, lines := c.lines, message := some e.message }

def run {m : Type → Type} [Monad m] {ω : Type} [Network ω]
    (readFile : String → m (Except FileFault String)) (connect : List Endpoint → ω)
    (entropy : UInt64) (args : List String) (environment : Option String) : m Outcome :=
  match Invocation.ofArguments args environment with
  | .error stop => pure (ofStop stop)
  | .ok invocation => ofConclusion <$> invocation.carryOut readFile connect entropy

end QuantumRelay.Program
