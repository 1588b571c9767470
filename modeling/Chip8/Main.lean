import Chip8.Canvas.Terminal
import Chip8.CommandLine
import Chip8.Image
import Chip8.Keyboard.Input
import Chip8.Scheduler

/-!
# Main — the program

Reads the command line and the image, and runs frames on the terminal until the user quits or the
program cannot go on. Keys arrive one by one only from a terminal in raw mode. The size of the terminal
is taken from the environment.
-/

namespace Chip8.Program

open CommandLine Keyboard

/-- Prints a message as the reason for giving up. -/
def fail (message : String) : IO UInt32 := do
  IO.eprintln ("error: " ++ message)
  return 1

/-- The text that tells why a run stopped. -/
def stopText : Stop → String
  | .error e => e.message
  | .fault f => f.message?.getD "the program left the bounds of the machine"

/-- The image in a file; a missing file and a directory are no regular files. -/
def readImage (path : String) : IO (Except Error Image) := do
  try
    let data ← IO.FS.readBinFile path
    return Image.ofFile path (some (data.toList.map (·.toBitVec)))
  catch
    | .noFileOrDirectory .. | .inappropriateType .. => return Image.ofFile path none
    | e => return .error (.io ⟨.other, toString e⟩)

/-- A number of cells from the environment. -/
def cellCount (name : String) (default : Nat) : IO Nat := do
  let text ← IO.getEnv name
  return (text.bind (Numeral.read? UInt16.size)).getD default

/-- The bytes that have arrived and were not taken in. -/
abbrev Inbox := IO.Ref (List Byte)

/-- Puts the bytes of the input into the inbox as they arrive. -/
partial def collect (input : IO.FS.Stream) (inbox : Inbox) : IO Unit := do
  let data ← input.read 1
  unless data.isEmpty do
    inbox.modify (· ++ data.toList.map (·.toBitVec))
    collect input inbox

variable {terminal : Area}

/-- A machine on the terminal. -/
abbrev TerminalSession (terminal : Area) := Session TerminalKeypad (TerminalDisplay terminal)

/-- Hands over the keys that have arrived, and the time. -/
def deliver (inbox : Inbox) (s : TerminalSession terminal) : IO (TerminalSession terminal) := do
  let bytes ← inbox.swap []
  let now ← IO.monoMsNow
  let keypad := s.machine.keypad
  let keypad := { keypad with inbox := keypad.inbox ++ KeyEvent.ofBytes bytes, now }
  return { s with machine := { s.machine with keypad } }

/-- Sends the picture if there is a new one. -/
def present (output : IO.FS.Stream) (s : TerminalSession terminal) : IO (TerminalSession terminal) := do
  let some cells := s.display.unsent | return s
  output.putStr cells.text
  output.flush
  return { s with display := { s.display with unsent := none } }

/-- Runs `n` instructions. One that waits for a key is tried again until a key has arrived. -/
partial def runBatch (inbox : Inbox) (n : Nat) (s : TerminalSession terminal) :
    IO (Option Stop × TerminalSession terminal) := do
  let (done, stop, machine) := Machine.steps n s.machine
  let s := { s with machine }
  if stop = some (.error (.io TerminalKeypad.noKeyYet)) then
    IO.sleep 10
    runBatch inbox (n - done) (← deliver inbox s)
  else return (stop, s)

/-- Runs frames until quit, at their pace; gives why the last one stopped, unless the user quit. -/
partial def runFrames (pace : Scheduler) (inbox : Inbox) (output : IO.FS.Stream)
    (s : TerminalSession terminal) : IO (Option Stop) := do
  if s.machine.keypad.quit then return none
  let start ← IO.monoNanosNow
  let .ok () s := Scheduler.onMachine Machine.refreshInput (← deliver inbox s) | return none
  match ← runBatch inbox pace.instructionsPerTick s with
  | (some stop, _) => return if stop.isQuit then none else some stop
  | (none, s) =>
    match Scheduler.endFrame s with
    | .error stop _ => return some stop
    | .ok () s =>
      let s ← present output s
      let spent := (← IO.monoNanosNow) - start
      IO.sleep (.ofNat ((pace.tickNanos - spent) / 1000000))
      runFrames pace inbox output s

/-- The seed asked for, or a fresh one. -/
def chooseSeed : Option UInt64 → IO UInt64
  | some seed => return seed
  | none => return (← IO.getRandomBytes 8).foldl (fun n b => n <<< 8 ||| b.toUInt64) 0

/-- Runs an image on the terminal. -/
def runImage (config : Config) (image : Image) : IO UInt32 := do
  let random := RandomStream.ofSeed (← chooseSeed config.seed)
  let keypad : TerminalKeypad := { keymap := .ofLayout config.layout }
  match (Machine.new keypad config.dialect random).loadImage image with
  | .error e => fail e.message
  | .ok machine =>
    let terminal : Area := ⟨← cellCount "COLUMNS" 80, ← cellCount "LINES" 24⟩
    let display : TerminalDisplay terminal := { scale := config.scale.toNat }
    let inbox ← IO.mkRef []
    let _ ← IO.asTask (collect (← IO.getStdin) inbox)
    let output ← IO.getStdout
    output.putStr "\x1b[?1049h\x1b[?25l\x1b[2J"
    let stop ← runFrames (.ofConfig config) inbox output ⟨machine, display⟩
    output.putStr "\x1b[?25h\x1b[?1049l"
    output.flush
    match stop with
    | none => return 0
    | some stop => fail (stopText stop)

/-- Does what the arguments ask for; gives the exit code. -/
def run (args : List String) : IO UInt32 := do
  match CommandLine.parse args with
  | .error e => fail e.message
  | .ok .help => IO.println helpText; return 0
  | .ok .version => IO.println versionText; return 0
  | .ok (.run arguments) =>
    match arguments.config with
    | .error e => fail e.message
    | .ok config =>
      match ← readImage arguments.image with
      | .error e => fail e.message
      | .ok image => runImage config image

end Chip8.Program

/-- The program. -/
def main (args : List String) : IO UInt32 := Chip8.Program.run args
