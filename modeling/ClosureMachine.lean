import ClosureMachine.Cli
import ClosureMachine.Host.Sample
import ClosureMachine.Main
import ClosureMachine.Proofs.Machine.Effect
import ClosureMachine.Value.Describe
import ClosureMachine.Value.Equality
import ClosureMachine.Proofs.Machine.Transition
import ClosureMachine.Proofs.Machine.Invariant
import ClosureMachine.Proofs.Machine.Call
import ClosureMachine.Proofs.Machine.Faults
import ClosureMachine.Proofs.Machine.Context
import ClosureMachine.Proofs.Machine.Independence
import ClosureMachine.Proofs.Machine.Room
import ClosureMachine.Proofs.Machine.Guarded
import ClosureMachine.Proofs.Assembly.Listing
import ClosureMachine.Proofs.Assembly.Printing
import ClosureMachine.Proofs.Assembly.Joining
import ClosureMachine.Proofs.Assembly.Attribution
import ClosureMachine.Proofs.Code.Boundary
import ClosureMachine.Proofs.Code.Walk
import ClosureMachine.Proofs.Machine.Alignment
import ClosureMachine.Proofs.Machine.Footprint
import ClosureMachine.Proofs.Machine.Captures
import ClosureMachine.Proofs.Machine.Recoding
import ClosureMachine.Proofs.Machine.Returns
import ClosureMachine.Proofs.Machine.Leads
import ClosureMachine.Proofs.Machine.Termination
import ClosureMachine.Proofs.Host.Registration
import ClosureMachine.Proofs.Machine.Tracing
import ClosureMachine.Proofs.CommandLine
import ClosureMachine.Proofs.Machine.Succession
import ClosureMachine.Proofs.Value.Bisimulation
import ClosureMachine.Proofs.Value.Traversal
import ClosureMachine.Proofs.Text.Quoting
import ClosureMachine.Proofs.Value.Tree
import ClosureMachine.Proofs.Value.Unfolding
import ClosureMachine.Proofs.Text.Spacing
import ClosureMachine.Proofs.Assembly.Grammar
import ClosureMachine.Proofs.Assembly.Combinators
import ClosureMachine.Proofs.Assembly.Diagnosis
import ClosureMachine.Proofs.Code.Encoding
import ClosureMachine.Proofs.Code.Concatenation
import ClosureMachine.Proofs.Machine.StackEffect
import ClosureMachine.Proofs.Assembly.Layout
import ClosureMachine.Proofs.Machine.Comparison
import ClosureMachine.Proofs.Machine.Arithmetic
import ClosureMachine.Proofs.Machine.HashMaking
