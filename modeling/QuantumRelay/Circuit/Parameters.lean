import QuantumRelay.Circuit.Error
import QuantumRelay.Circuit.Instruction

/-!
# Tunable parameters

The parameters of the parametric instructions, one after the other, form one vector.
`Parameters.collect` reads it and `Parameters.bind` replaces it as a whole: either every parameter
gets its new value or, with an error, none does.
-/

namespace QuantumRelay.Parameters

def collect (instructions : List Instruction) : List Float :=
  (instructions.filter (·.isParametric)).flatMap (·.params)

/-- Deal values out to the parametric instructions in turn. -/
def assign : List Float → List Instruction → List Instruction
  | _, [] => []
  | values, i :: rest =>
    if i.isParametric then
      { i with params := values.take i.params.length } ::
        assign (values.drop i.params.length) rest
    else i :: assign values rest

/-- The instructions of `circuit` with another parameter vector, which needs the same length and
finite values. -/
def bind (circuit : String) (instructions : List Instruction) (values : List Float) :
    Except CircuitError (List Instruction) :=
  let expected := (collect instructions).length
  if values.length ≠ expected || values.any fun (v : Float) => !v.isFinite then
    .error (.parameterMismatch circuit expected values.length)
  else .ok (assign values instructions)

end QuantumRelay.Parameters
