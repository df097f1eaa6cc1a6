import QuantumRelay.Batch.Resolution
import QuantumRelay.Batch.Submission
import QuantumRelay.Circuit.Basic
import QuantumRelay.Circuit.Builder
import QuantumRelay.Circuit.Catalog
import QuantumRelay.Circuit.Error
import QuantumRelay.Circuit.Instruction
import QuantumRelay.Circuit.Parameters
import QuantumRelay.Circuit.Register
import QuantumRelay.Circuit.Snapshot
import QuantumRelay.Circuit.Validation
import QuantumRelay.Cluster.Basic
import QuantumRelay.Cluster.Network
import QuantumRelay.Cluster.Reach
import QuantumRelay.CommandLine.About
import QuantumRelay.CommandLine.Arguments
import QuantumRelay.CommandLine.Command
import QuantumRelay.CommandLine.Program
import QuantumRelay.CommandLine.Report
import QuantumRelay.Complex
import QuantumRelay.Decimal.Basic
import QuantumRelay.Decimal.Shortest
import QuantumRelay.Digit
import QuantumRelay.Directory
import QuantumRelay.Engine.Layout
import QuantumRelay.Engine.Mail
import QuantumRelay.Engine.Run
import QuantumRelay.Engine.Shot
import QuantumRelay.Exchange.Http
import QuantumRelay.Exchange.Message
import QuantumRelay.Exchange.Network
import QuantumRelay.Job.Basic
import QuantumRelay.Job.Error
import QuantumRelay.Json.Basic
import QuantumRelay.Json.Printer
import QuantumRelay.Json.Reader
import QuantumRelay.Json.Record
import QuantumRelay.KeyMap
import QuantumRelay.Main
import QuantumRelay.Names
import QuantumRelay.Notice
import QuantumRelay.Outcome.Counts
import QuantumRelay.Outcome.Key
import QuantumRelay.Outcome.Result
import QuantumRelay.Random.ChaCha
import QuantumRelay.Random.Source
import QuantumRelay.Settings.Backend
import QuantumRelay.Settings.Client
import QuantumRelay.Settings.Run
import QuantumRelay.SimulationError
import QuantumRelay.Statevector.Basic
import QuantumRelay.Statevector.Gate
import QuantumRelay.Statevector.Index
import QuantumRelay.Statevector.Operation
import QuantumRelay.Statevector.Scalar
import QuantumRelay.Yaml.Reader
import QuantumRelay.Proofs.Batch.Dangling
import QuantumRelay.Proofs.Batch.Delivery
import QuantumRelay.Proofs.Batch.Joint
import QuantumRelay.Proofs.Batch.Matching
import QuantumRelay.Proofs.Batch.Place
import QuantumRelay.Proofs.Batch.Resolution
import QuantumRelay.Proofs.Batch.Submission
import QuantumRelay.Proofs.Catalog
import QuantumRelay.Proofs.Circuit.Validation
import QuantumRelay.Proofs.Cluster.Component
import QuantumRelay.Proofs.Cluster.Event
import QuantumRelay.Proofs.Cluster.Gather
import QuantumRelay.Proofs.Cluster.Operation
import QuantumRelay.Proofs.Cluster.Reach
import QuantumRelay.Proofs.Cluster.Sound
import QuantumRelay.Proofs.Cluster.Stranded
import QuantumRelay.Proofs.Cluster.Taken
import QuantumRelay.Proofs.Cluster.Timeout
import QuantumRelay.Proofs.Engine.Fault
import QuantumRelay.Proofs.Engine.Outcome
import QuantumRelay.Proofs.Engine.Placement
import QuantumRelay.Proofs.Engine.RoundRobin
import QuantumRelay.Proofs.Circuit.Parameters
import QuantumRelay.Proofs.Circuit.WellFormed
import QuantumRelay.Proofs.Circuit.Building
import QuantumRelay.Proofs.Circuit.Rebuilding
import QuantumRelay.Proofs.Batch.Sending
import QuantumRelay.Proofs.Job.Conversation
import QuantumRelay.Proofs.Job.Orderly
import QuantumRelay.Proofs.Exchange.Response
import QuantumRelay.Proofs.Cluster.Alone
import QuantumRelay.Proofs.Cluster.Update
import QuantumRelay.Proofs.Job.Unit
import QuantumRelay.Proofs.Outcome.Counts
import QuantumRelay.Proofs.Outcome.Key
import QuantumRelay.Proofs.Engine.Shots
import QuantumRelay.Proofs.Engine.Report
import QuantumRelay.Proofs.Json.Numeral
import QuantumRelay.Proofs.Json.Text
import QuantumRelay.Proofs.Circuit.Document
import QuantumRelay.Proofs.Circuit.RoundTrip
import QuantumRelay.Proofs.Binary64.Packing
import QuantumRelay.Proofs.Binary64.Arithmetic
import QuantumRelay.Proofs.Binary64.Decimals
import QuantumRelay.Proofs.Decimal.Shortest
import QuantumRelay.Proofs.Cluster.Lacking
import QuantumRelay.Proofs.Engine.History
import QuantumRelay.Proofs.Engine.InOrder
import QuantumRelay.Proofs.Statevector.Exact
import QuantumRelay.Proofs.Statevector.Index
import QuantumRelay.Proofs.Statevector.Sweep
import QuantumRelay.Proofs.Statevector.Local
import QuantumRelay.Proofs.Statevector.Matrix
import QuantumRelay.Proofs.Statevector.Specialised
import QuantumRelay.Proofs.Statevector.Weight
import QuantumRelay.Proofs.Statevector.Measurement
import QuantumRelay.Proofs.Statevector.Unitary
import QuantumRelay.Proofs.Statevector.Norm
import QuantumRelay.Proofs.Engine.Blocks
import QuantumRelay.Proofs.Engine.Channels
import QuantumRelay.Proofs.Engine.Coverage
import QuantumRelay.Proofs.Engine.Executable
import QuantumRelay.Proofs.Engine.Normalized
import QuantumRelay.Proofs.Circuit.Acceptance
import QuantumRelay.Proofs.Job.Gathering
import QuantumRelay.Proofs.Job.Upgrading
import QuantumRelay.Proofs.Exchange.Format
import QuantumRelay.Proofs.Outcome.Reading
import QuantumRelay.Proofs.Outcome.Sums
import QuantumRelay.Proofs.Outcome.Marginal
import QuantumRelay.Proofs.Cluster.AtOnce
import QuantumRelay.Proofs.Cluster.Search
import QuantumRelay.Proofs.Circuit.Extension
import QuantumRelay.Proofs.Outcome.Rendering
import QuantumRelay.Proofs.Circuit.Rebinding
