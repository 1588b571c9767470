import Chip8.Config
import Chip8.Image
import Chip8.Keypad
import Chip8.RandomStream
import Chip8.Registers
import Chip8.Screen

/-!
# Machine/Basic — the state of a machine and its access to the parts

A machine owns memory, registers, a screen of 64 by 32 pixels and a stream of random bytes; its keypad
is the host's, of any type that answers as one. Operations that can end early run in `MachineM`, which
keeps the machine whether they complete or stop, so what had been changed before a stop is visible
after it. Each part has its own way into that monad: checked results through `check`, the keypad
through `onKeypad`, the register file and the memory through `modifyRegisters` and `modifyMemory`.

* `Machine.new`, `Machine.reset` — power-on state; a reset keeps keypad, dialect and random stream;
* `Machine.load` — a program at the load address;
* `Machine.tickTimers`, `Machine.takeRedraw` — the host's side between batches of steps.
-/

namespace Chip8

/-- The number of pixel columns of a machine's screen. -/
abbrev screenWidth : Nat := 64

/-- The number of pixel rows of a machine's screen. -/
abbrev screenHeight : Nat := 32

/-- A machine whose keypad is a `κ`. -/
@[ext]
structure Machine (κ : Type) where
  /-- The memory. -/
  memory : Memory
  /-- The register file. -/
  registers : Registers
  /-- The screen. -/
  screen : Screen screenWidth screenHeight
  /-- The source of random bytes. -/
  random : RandomStream
  /-- The dialect of the program. -/
  dialect : Dialect
  /-- The host's keypad. -/
  keypad : κ

namespace Machine

variable {κ α : Type}

/-- The registers at power-on. -/
def powerOn : Registers := .start Memory.programBase Memory.stackBase

/-- A machine at power-on, with no program loaded. -/
def new (keypad : κ) (dialect : Dialect) (random : RandomStream) : Machine κ where
  memory := .new
  registers := powerOn
  screen := .new
  random := random
  dialect := dialect
  keypad := keypad

/-- Back to power-on. The program is gone; keypad, dialect and random stream go on as they were. -/
def reset (m : Machine κ) : Machine κ :=
  { m with memory := .new, registers := powerOn, screen := .new }

/-- Loads a program, or refuses it and changes nothing. -/
def load (m : Machine κ) (program : List Byte) : Except Error (Machine κ) := do
  let memory ← m.memory.load program
  return { m with memory }

/-- Loads a program image. -/
def loadImage (m : Machine κ) (image : Image) : Except Error (Machine κ) := m.load image.bytes

/-- One tick of the timers: each counts down to zero and stops there. -/
def tickTimers (m : Machine κ) : Machine κ :=
  { m with registers := { m.registers with
      delay := m.registers.delay.countDown
      sound := m.registers.sound.countDown } }

/-- Whether a tone should sound. -/
def soundActive (m : Machine κ) : Bool := 0 < m.registers.sound.toNat

/-- Whether the host should redraw; the request is then settled. -/
def takeRedraw (m : Machine κ) : Bool × Machine κ :=
  (m.screen.takeDirty.1, { m with screen := m.screen.takeDirty.2 })

end Machine

/-- Operations on a machine that may stop early. -/
abbrev MachineM (κ : Type) := EStateM Stop (Machine κ)

namespace Machine

variable {κ α : Type}

/-- Goes on with a checked value, or stops with its fault. -/
def check (r : Except Fault α) : MachineM κ α := fun m =>
  match r with
  | .ok a => .ok a m
  | .error f => .error (.fault f) m

/-- Asks the keypad; its failure stops the operation. -/
def onKeypad (question : EStateM IoError κ α) : MachineM κ α := fun m =>
  match question m.keypad with
  | .ok a keypad => .ok a { m with keypad }
  | .error e keypad => .error (.error (.io e)) { m with keypad }

/-- Changes the register file, or stops with a fault. -/
def modifyRegisters (f : Registers → Except Fault Registers) : MachineM κ Unit := fun m =>
  match f m.registers with
  | .ok registers => .ok () { m with registers }
  | .error e => .error (.fault e) m

/-- Changes the memory, or stops with a fault. -/
def modifyMemory (f : Memory → Except Fault Memory) : MachineM κ Unit := fun m =>
  match f m.memory with
  | .ok memory => .ok () { m with memory }
  | .error e => .error (.fault e) m

/-- Lets the keypad take in what happened on the host. -/
def refreshInput [Keypad κ] : MachineM κ Unit := onKeypad Keypad.refresh

/-! ## The monad's operations, run -/

variable {m : Machine κ}

@[simp] theorem check_ok (a : α) : (check (.ok a) : MachineM κ α) m = .ok a m := rfl

@[simp] theorem check_error (f : Fault) :
    (check (.error f) : MachineM κ α) m = .error (.fault f) m := rfl

end Machine

end Chip8
