/-!
# About the program

Names, versions and descriptions, as the program shows them.
-/

namespace QuantumRelay.About

structure Component where
  name : String
  version : String
  description : String

def programName : String := "qmesh"

def version : String := "0.3.0"

def repository : String := "https://github.com/qmesh-dev/qmesh"

def terms : String := "Apache-2.0"

def summary : String := "distributed quantum circuit batches"

def libraryComponents : List Component := [
  ⟨"qmesh-ir", version, "qmesh circuit model, instruction catalog and relay dependency resolver"⟩,
  ⟨"qmesh-hal", version, "qmesh execution endpoints, jobs and result gathering"⟩,
  ⟨"qmesh-adapter-sim", version,
    "qmesh in-process statevector cluster with relay-aware joint execution"⟩]

def components : List Component :=
  libraryComponents ++ [⟨"qmesh-cli", version, "qmesh command-line interface"⟩]

end QuantumRelay.About
