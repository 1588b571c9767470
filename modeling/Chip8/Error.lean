import Chip8.Hex

/-!
# Error — what can stop a machine

Two things end an instruction early, and they are kept apart. An `Error` is reported: the host failed
to answer, or the program has no further meaning (an opcode without an instruction, a call stack that
is full or empty). A `Fault` is the machine being used outside its bounds: an address past the end of
memory, a register that does not exist, a result that leaves its type, a pixel off the screen. After an
error the caller may go on with the machine; a fault is the end of a run.

* `Error.message` — the text reported for each cause;
* `Error.isQuit` — whether the cause is the user asking to stop;
* `Stop` — an error or a fault, as the outcome of a machine operation.
-/

namespace Chip8

/-- The kinds of host failure that are told apart. -/
inductive IoKind where
  /-- The user asked to stop while the host was waiting. -/
  | interrupted
  /-- The other end of a stream went away. -/
  | brokenPipe
  /-- A stream ended too early. -/
  | unexpectedEof
  /-- Any other failure. -/
  | other
deriving DecidableEq, Repr

/-- A failure of the host: a terminal, a keyboard, a file. -/
structure IoError where
  /-- What kind of failure it is. -/
  kind : IoKind
  /-- The host's own words. -/
  message : String
deriving DecidableEq, Repr

/-- The causes that are reported to whoever runs a machine. -/
inductive Error where
  /-- The host failed. -/
  | io (cause : IoError)
  /-- The path names no regular file. -/
  | notAFile (path : String)
  /-- The program image does not fit between the load address and the top of memory. -/
  | imageTooLarge (size capacity : Nat)
  /-- The word at `addr` encodes no instruction. -/
  | unknownOpcode (opcode addr : Word)
  /-- The call at `addr` finds the stack full. -/
  | stackOverflow (addr : Word)
  /-- The return at `addr` finds the stack empty. -/
  | stackUnderflow (addr : Word)
deriving DecidableEq, Repr

namespace Error

/-- The text reported for a cause. -/
def message : Error → String
  | io cause => "i/o error: " ++ cause.message
  | notAFile path => "rom path " ++ path ++ " is not a regular file"
  | imageTooLarge size capacity =>
    s!"rom is {size} bytes but only {capacity} bytes are available"
  | unknownOpcode opcode addr =>
    "unknown opcode " ++ Hex.lower 4 opcode.toNat ++ " at " ++ Hex.lower 3 addr.toNat
  | stackOverflow addr => "stack overflow at " ++ Hex.lower 3 addr.toNat
  | stackUnderflow addr => "stack underflow at " ++ Hex.lower 3 addr.toNat

/-- Whether the user asked to stop while the machine was waiting for them. -/
def isQuit : Error → Bool
  | io cause => cause.kind = .interrupted
  | _ => false

end Error

/-- The ways of leaving the machine's bounds. -/
inductive Fault where
  /-- The `size` bytes from `addr` on do not all lie in memory. -/
  | addressRange (addr size : Nat)
  /-- There is no register of this number. -/
  | registerNumber (number : Nat)
  /-- No register has this width. -/
  | registerWidth (width : Nat)
  /-- The result of a sum, a difference or a product leaves its type. -/
  | arithmetic
  /-- The pixel lies outside a screen of this size. -/
  | pixelOutside (x y width height : Nat)
deriving DecidableEq, Repr

/-- The text that goes with a fault, for those that have one. -/
def Fault.message? : Fault → Option String
  | .registerWidth _ => some "registers are between 1 and 16 bits wide"
  | .pixelOutside x y width height =>
    some s!"pixel ({x}, {y}) outside {width}x{height} framebuffer"
  | _ => none

/-- A checked computation goes on with its value. -/
theorem ok_bind {ε α β : Type} (a : α) (f : α → Except ε β) : (Except.ok a >>= f) = f a := rfl

/-- A checked computation that has a result had one at every stage. -/
theorem bind_eq_ok {ε α β : Type} {r : Except ε α} {f : α → Except ε β} {b : β} (h : (r >>= f) = .ok b) :
    ∃ a, r = .ok a ∧ f a = .ok b := by
  cases r with
  | error e => cases h
  | ok a => exact ⟨a, rfl, h⟩

/-- Why a machine operation did not complete. -/
inductive Stop where
  /-- A reported cause; the machine may be used further. -/
  | error (e : Error)
  /-- The machine left its bounds. -/
  | fault (f : Fault)
deriving DecidableEq, Repr

/-- Whether the operation ended because the user asked to stop. -/
def Stop.isQuit : Stop → Bool
  | .error e => e.isQuit
  | .fault _ => false

end Chip8
