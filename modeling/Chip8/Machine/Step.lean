import Chip8.Instruction.Decode
import Chip8.Machine.Execute

/-!
# Machine/Step — fetch, decode, execute

A step reads the word at the program counter, decodes it, carries the instruction out, and moves the
program counter on unless the instruction has set it. A word that encodes nothing stops the step before
anything is changed.
-/

namespace Chip8.Machine

variable {κ : Type}

/-- The word at the program counter. -/
def fetch : MachineM κ Opcode := do check ((← get).memory.getWord (← pc).toNat)

/-- One step; gives the instruction that was carried out. -/
def step [Keypad κ] : MachineM κ Instruction := do
  let addr ← pc
  let opcode ← fetch
  match Instruction.decode opcode with
  | none => throw (.error (.unknownOpcode opcode addr))
  | some instruction =>
    match ← execute instruction with
    | .next => advance
    | .jumped => pure ()
    return instruction

/-- Up to `n` steps, until one stops; gives how many completed and what stopped the next one. -/
def steps [Keypad κ] : Nat → Machine κ → Nat × Option Stop × Machine κ
  | 0, m => (0, none, m)
  | n + 1, m =>
    match step m with
    | .ok _ m =>
      let (done, stop, m) := steps n m
      (done + 1, stop, m)
    | .error stop m => (0, some stop, m)

end Chip8.Machine
