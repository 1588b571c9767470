import Chip8.Machine.Basic

/-!
# Machine/Stack — return addresses in memory

Pending return addresses are kept in memory from `Memory.stackBase` upward, two bytes each. The stack
pointer holds the address of the next free entry in eight bits, so the stack is full when moving it
would wrap around, and empty when it is below the end of the first entry.
-/

namespace Chip8.Machine

variable {κ : Type}

/-- The number of bytes of a stack entry. -/
def entrySize : Nat := 2

/-- The value of the program counter. -/
def pc : MachineM κ Word := do return (← get).registers.pc.value

/-- Moves the stack pointer by `d` and gives the register it then is. -/
def moveStackPointer (d : Int) : MachineM κ (Register 8) := do
  modifyRegisters fun r => do return { r with sp := ← r.sp.add d }
  return (← get).registers.sp

/-- Stacks a return address. On a full stack the pointer is put back where it was. -/
def push (addr : Word) : MachineM κ Unit := do
  let sp := (← get).registers.sp.toNat
  let moved ← moveStackPointer entrySize
  if moved.overflowed then
    modifyRegisters fun r => return { r with sp := .ofInt sp }
    throw (.error (.stackOverflow (← pc)))
  modifyMemory (·.setWord sp addr)

/-- Takes the most recent return address off the stack. -/
def pop : MachineM κ Word := do
  if (← get).registers.sp.toNat < Memory.stackBase + entrySize then
    throw (.error (.stackUnderflow (← pc)))
  let moved ← moveStackPointer (-entrySize)
  check ((← get).memory.getWord moved.toNat)

end Chip8.Machine
