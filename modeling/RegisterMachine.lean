import RegisterMachine.CommandLine.Directory
import RegisterMachine.CommandLine.Files
import RegisterMachine.CommandLine.Invocation
import RegisterMachine.CommandLine.Log
import RegisterMachine.CommandLine.Arguments
import RegisterMachine.CommandLine.Frontend
import RegisterMachine.CommandLine.Options
import RegisterMachine.CommandLine.Standard
import RegisterMachine.Console
import RegisterMachine.Console.Buffer
import RegisterMachine.Console.Buffered
import RegisterMachine.Console.Stream
import RegisterMachine.Execution
import RegisterMachine.Fault
import RegisterMachine.Instruction
import RegisterMachine.Instruction.Encoding
import RegisterMachine.Machine
import RegisterMachine.Machine.Effect
import RegisterMachine.Main
import RegisterMachine.Memory
import RegisterMachine.Memory.Comparison
import RegisterMachine.Memory.Image
import RegisterMachine.Opcode
import RegisterMachine.Operand
import RegisterMachine.Session
import RegisterMachine.Session.Command
import RegisterMachine.Session.Run
import RegisterMachine.Text.Decimal
import RegisterMachine.Text.Terminal
import RegisterMachine.Text.Utf8
import RegisterMachine.Word
import RegisterMachine.Proofs.Atomicity
import RegisterMachine.Proofs.Checking
import RegisterMachine.Proofs.Places
import RegisterMachine.Proofs.Fetching
import RegisterMachine.Proofs.Refinement
import RegisterMachine.Proofs.Verdicts
import RegisterMachine.Proofs.Agreement
import RegisterMachine.Proofs.Streams
import RegisterMachine.Proofs.Buffering
import RegisterMachine.Proofs.Observation
import RegisterMachine.Proofs.Interruption
import RegisterMachine.Proofs.Continuation
import RegisterMachine.Proofs.Budget
import RegisterMachine.Proofs.Supply
import RegisterMachine.Proofs.Locality
import RegisterMachine.Proofs.Nesting
import RegisterMachine.Proofs.Origins
import RegisterMachine.Proofs.Flushing
import RegisterMachine.Proofs.Invocations
import RegisterMachine.Proofs.Histories
import RegisterMachine.Proofs.Exchange
import RegisterMachine.Proofs.Settings
import RegisterMachine.Proofs.Logging
import RegisterMachine.Proofs.Records
import RegisterMachine.Proofs.Watching
import RegisterMachine.Proofs.Delivery
import RegisterMachine.Proofs.Changes
import RegisterMachine.Proofs.Results
import RegisterMachine.Proofs.Storing
import RegisterMachine.Proofs.Rendering
import RegisterMachine.Proofs.Images
import RegisterMachine.Proofs.Writes
import RegisterMachine.Proofs.Retention
import RegisterMachine.Proofs.Blame
