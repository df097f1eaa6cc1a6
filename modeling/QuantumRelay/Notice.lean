import QuantumRelay.Circuit.Register

/-!
# Notices

What an operation that succeeds has to warn about.
-/

namespace QuantumRelay

inductive Notice where
  | registerRenamed (kind : RegisterKind) (requested chosen : String)
  /-- Nothing in a batch receives what a circuit sends. -/
  | danglingSend
  | duplicateSubmit
  | jobFailed
deriving DecidableEq, Repr

def Notice.message : Notice → String
  | .registerRenamed kind requested chosen =>
    s!"{kind.name} register '{requested}' already exists, renamed to '{chosen}'"
  | .danglingSend => "send has no matching receive in this batch"
  | .duplicateSubmit => "Job already submitted; ignoring duplicate submit()"
  | .jobFailed => "Job failed"

end QuantumRelay
