import CircomMpc.Codegen.Agrees
import CircomMpc.Codegen.Allocated
import CircomMpc.Codegen.Arena
import CircomMpc.Codegen.Assembly
import CircomMpc.Codegen.Batches
import CircomMpc.Codegen.Compile
import CircomMpc.Codegen.Correct
import CircomMpc.Codegen.Emit
import CircomMpc.Codegen.Execution
import CircomMpc.Codegen.Homes
import CircomMpc.Codegen.Kept
import CircomMpc.Codegen.LineUp
import CircomMpc.Codegen.Liveness
import CircomMpc.Codegen.Optimized
import CircomMpc.Codegen.Pipeline
import CircomMpc.Codegen.Pool
import CircomMpc.Codegen.Reserve
import CircomMpc.Codegen.Reserved
import CircomMpc.Codegen.Served
import CircomMpc.Codegen.Serviced
import CircomMpc.Codegen.Setting
import CircomMpc.Codegen.Simulation
import CircomMpc.Codegen.Steps
import CircomMpc.Codegen.Stream
import CircomMpc.Codegen.Walk
import CircomMpc.Field
import CircomMpc.Frontend.Address
import CircomMpc.Frontend.Agreement
import CircomMpc.Frontend.Bucket
import CircomMpc.Frontend.Build
import CircomMpc.Frontend.Circuit
import CircomMpc.Frontend.Constant
import CircomMpc.Frontend.Create
import CircomMpc.Frontend.Flat
import CircomMpc.Frontend.Flatten
import CircomMpc.Frontend.Fold
import CircomMpc.Frontend.Frames
import CircomMpc.Frontend.Hierarchy
import CircomMpc.Frontend.Inline
import CircomMpc.Frontend.Inlined
import CircomMpc.Frontend.Lower
import CircomMpc.Frontend.Operators
import CircomMpc.Frontend.Simulation
import CircomMpc.Frontend.WellFormed
import CircomMpc.Gadgets.AliasCheck
import CircomMpc.Gadgets.Poseidon2
import CircomMpc.Gadgets.Poseidon2Blocks
import CircomMpc.Gadgets.Poseidon2Circuit
import CircomMpc.Gadgets.Poseidon2Equations
import CircomMpc.Gadgets.Poseidon2Mirrors
import CircomMpc.Gadgets.Poseidon2Reads
import CircomMpc.Gadgets.Poseidon2Requests
import CircomMpc.Gadgets.Poseidon2Trace
import CircomMpc.Gadgets.Poseidon2Walk
import CircomMpc.Gadgets.Site
import CircomMpc.Gadgets.Traces
import CircomMpc.Ir.Collect
import CircomMpc.Ir.Graph
import CircomMpc.Ir.Rewrite
import CircomMpc.Ir.Semantics
import CircomMpc.Ir.Stable
import CircomMpc.Lib.Bits
import CircomMpc.Lib.Chains
import CircomMpc.Lib.Codec
import CircomMpc.Lib.Dag
import CircomMpc.Lib.Outcome
import CircomMpc.Lib.Pratt
import CircomMpc.Lib.Ranges
import CircomMpc.Lib.Refines
import CircomMpc.Lib.Table
import CircomMpc.Lib.Tracks
import CircomMpc.Modulus
import CircomMpc.Passes.Classical
import CircomMpc.Passes.ConstFold
import CircomMpc.Passes.Cse
import CircomMpc.Passes.DeadCode
import CircomMpc.Passes.Fixpoint
import CircomMpc.Passes.Merging
import CircomMpc.Passes.Mpc.BatchCount
import CircomMpc.Passes.Mpc.Domain
import CircomMpc.Passes.Mpc.GadgetFusion
import CircomMpc.Passes.Mpc.GadgetIndex
import CircomMpc.Passes.Mpc.GadgetMinimal
import CircomMpc.Passes.Mpc.GadgetPlacement
import CircomMpc.Passes.Mpc.GadgetPlans
import CircomMpc.Passes.Mpc.GadgetSchedule
import CircomMpc.Passes.Mpc.Level
import CircomMpc.Passes.Mpc.Lowered
import CircomMpc.Passes.Mpc.Lowering
import CircomMpc.Passes.Mpc.MulSplit
import CircomMpc.Passes.Mpc.RoundCount
import CircomMpc.Passes.Mpc.RoundMeaning
import CircomMpc.Passes.Mpc.RoundOrder
import CircomMpc.Passes.Mpc.RoundRun
import CircomMpc.Passes.Mpc.RoundSchedule
import CircomMpc.Passes.Mpc.Split
import CircomMpc.Passes.Mpc.SplitMeaning
import CircomMpc.Passes.Mpc.WideMeaning
import CircomMpc.Passes.Mpc.WideOrder
import CircomMpc.Passes.Mpc.WideRun
import CircomMpc.Passes.Mpc.WideSchedule
import CircomMpc.Passes.NormalForm
import CircomMpc.Passes.Optimize
import CircomMpc.Passes.Pruning
import CircomMpc.Program.Canonical
import CircomMpc.Program.Inputs
import CircomMpc.Program.RoundTrip
import CircomMpc.Program.Rows
import CircomMpc.Program.Serialize
import CircomMpc.Program.Types
import CircomMpc.Program.Validate
import CircomMpc.Program.WellEncoded
import CircomMpc.Rep3.Circuit
import CircomMpc.Rep3.Driver
import CircomMpc.Rep3.Gadgets
import CircomMpc.Rep3.Ideal
import CircomMpc.Rep3.Lockstep
import CircomMpc.Rep3.MaskBudget
import CircomMpc.Rep3.MaskReuse
import CircomMpc.Rep3.MaskRun
import CircomMpc.Rep3.Poseidon2
import CircomMpc.Rep3.Poseidon2Reconstruct
import CircomMpc.Rep3.Poseidon2Spending
import CircomMpc.Rep3.Primitives
import CircomMpc.Rep3.Reconstruct
import CircomMpc.Rep3.Service
import CircomMpc.Rep3.Twins
import CircomMpc.Vm.Capacity
import CircomMpc.Vm.Communication
import CircomMpc.Vm.Driver
import CircomMpc.Vm.Effect
import CircomMpc.Vm.Error
import CircomMpc.Vm.InputCheck
import CircomMpc.Vm.Instructions
import CircomMpc.Vm.Machine
import CircomMpc.Vm.Noninterference
import CircomMpc.Vm.Precompute
import CircomMpc.Vm.Rows
import CircomMpc.Vm.Safety
import CircomMpc.Vm.Steps
import CircomMpc.Vm.Tracking
