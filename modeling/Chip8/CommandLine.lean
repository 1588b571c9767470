import Chip8.Config
import Chip8.Numeral

/-!
# CommandLine — from arguments to a configuration

The program takes one positional argument, the path of a program image, four options with a value and
two switches, in any order. The value of an option is the next argument or follows an equals sign. After
a lone double dash every argument is positional.

Arguments are read from left to right, and an unknown one, a second positional one, or a request for
help or the version ends the reading where it stands. What the arguments say together is checked after
that: that the image is there, that nothing is given twice, that each option has its value and that the
layout is one of those offered. Only then are the values read as numbers, in a fixed order whatever
their order on the command line.

* `CommandLine.parse` — the request that the arguments make, or why they cannot be used;
* `Arguments.config` — the configuration, or the first value that cannot be read.
-/

namespace Chip8.CommandLine

/-- The options that take a value. -/
inductive Setting where
  /-- Instructions per second. -/
  | ips
  /-- Terminal cells for each pixel. -/
  | scale
  /-- The seed of the random bytes. -/
  | seed
  /-- The keyboard layout. -/
  | layout
deriving DecidableEq, Repr

/-- The name of an option, without its dashes. -/
def Setting.name : Setting → String
  | ips => "ips"
  | scale => "scale"
  | seed => "seed"
  | layout => "layout"

/-- The options that take a value, in the order in which they are listed. -/
def Setting.all : List Setting := [ips, scale, seed, layout]

/-- The options that are given or not. -/
inductive Switch where
  /-- Shifts read the second operand. -/
  | shiftVy
  /-- Transfers leave the index past the block. -/
  | indexIncrement
deriving DecidableEq, Repr

/-- The name of a switch, without its dashes. -/
def Switch.name : Switch → String
  | shiftVy => "shift-vy"
  | indexIncrement => "index-increment"

/-- All switches. -/
def Switch.all : List Switch := [shiftVy, indexIncrement]

/-- Why a list of arguments cannot be used. -/
inductive UsageError where
  /-- An argument that is no option and has no place as a positional one. -/
  | unknownArgument (arg : String)
  /-- No program image is named. -/
  | missingImage
  /-- An option without its value. -/
  | missingValue (s : Setting)
  /-- An option given more than once. -/
  | repeatedSetting (s : Setting)
  /-- A switch given more than once. -/
  | repeatedSwitch (s : Switch)
  /-- A layout that is not offered. -/
  | unknownLayout (text : String)
deriving DecidableEq, Repr

/-- The text reported for a usage error. -/
def UsageError.message : UsageError → String
  | unknownArgument arg => "found argument '" ++ arg ++ "' which wasn't expected"
  | missingImage => "the program image is missing"
  | missingValue s => "the option --" ++ s.name ++ " needs a value"
  | repeatedSetting s => "the option --" ++ s.name ++ " was given more than once"
  | repeatedSwitch s => "the option --" ++ s.name ++ " was given more than once"
  | unknownLayout text => "'" ++ text ++ "' is no layout: use qwerty or azerty"

/-- What a usable list of arguments says. -/
structure Arguments where
  /-- The path of the program image. -/
  image : String
  /-- The value of each option that is given. -/
  value : Setting → Option String
  /-- Whether each switch is given. -/
  given : Switch → Bool

/-- What a usable list of arguments asks for. -/
inductive Request where
  /-- To run a program. -/
  | run (arguments : Arguments)
  /-- To show how the program is used. -/
  | help
  /-- To show the version. -/
  | version

/-! ## Reading the arguments one by one -/

/-- What has been read of a list of arguments. -/
structure Progress where
  /-- The path of the program image. -/
  image : Option String := none
  /-- The options met so far, each with its value if it has one. -/
  settings : List (Setting × Option String) := []
  /-- The switches met so far. -/
  switches : List Switch := []
  /-- The option whose value comes next. -/
  pending : Option Setting := none
  /-- Whether everything that follows is positional. -/
  positionalOnly : Bool := false

namespace Progress

/-- Settles the option whose value was still to come: it goes without. -/
def dropPending (p : Progress) : Progress :=
  match p.pending with
  | some s => { p with settings := p.settings ++ [(s, none)], pending := none }
  | none => p

/-- Takes a positional argument; there is room for one. -/
def addPositional (p : Progress) (arg : String) : Except UsageError Progress :=
  match p.image with
  | none => .ok { p with image := some arg }
  | some _ => .error (.unknownArgument arg)

end Progress

/-- A long option: the name between its dashes and the first equals sign, and what follows that sign.
More dashes in front and more equals signs after the first are passed over. -/
def splitLong (arg : List Char) : String × Option String :=
  let body := arg.dropWhile (· = '-')
  let name := body.takeWhile (· ≠ '=')
  let rest := body.dropWhile (· ≠ '=')
  (String.ofList name,
    if rest.isEmpty then none else some (String.ofList (rest.dropWhile (· = '='))))

/-- How reading goes on after one argument. -/
inductive Reading where
  /-- With the next argument. -/
  | goOn (p : Progress)
  /-- It ends with a request for information. -/
  | answer (r : Request)

/-- Reads an argument that starts with two dashes and is longer than that. -/
def readLong (p : Progress) (arg : String) : Except UsageError Reading :=
  let (name, value) := splitLong arg.toList
  match Setting.all.find? (·.name = name), Switch.all.find? (·.name = name) with
  | some s, _ =>
    match value with
    | some v => .ok (.goOn { p with settings := p.settings ++ [(s, some v)] })
    | none => .ok (.goOn { p with pending := some s })
  | none, some s => .ok (.goOn { p with switches := p.switches ++ [s] })
  | none, none =>
    if name = "help" then .ok (.answer .help)
    else if name = "version" then .ok (.answer .version)
    else .error (.unknownArgument arg)

/-- Reads an argument that starts with one dash and is longer than that. Its first letter decides. -/
def readShort (arg : String) : Except UsageError Reading :=
  match arg.toList.dropWhile (· = '-') with
  | 'h' :: _ => .ok (.answer .help)
  | 'V' :: _ => .ok (.answer .version)
  | _ => .error (.unknownArgument arg)

/-- Reads one argument. -/
def readArgument (p : Progress) (arg : String) : Except UsageError Reading :=
  if p.positionalOnly then .goOn <$> p.addPositional arg
  else match arg.toList with
    | ['-', '-'] => .ok (.goOn { p with positionalOnly := true })
    | '-' :: '-' :: _ => readLong p.dropPending arg
    | '-' :: _ :: _ => readShort arg
    | _ =>
      match p.pending with
      | some s => .ok (.goOn { p with settings := p.settings ++ [(s, some arg)], pending := none })
      | none => .goOn <$> p.addPositional arg

/-- Reads arguments to the end, or to a request for information. -/
def readArguments (p : Progress) : List String → Except UsageError Reading
  | [] => .ok (.goOn p.dropPending)
  | arg :: args => do
    match ← readArgument p arg with
    | .goOn p => readArguments p args
    | .answer r => return .answer r

/-! ## Checking them together -/

/-- The one value of an option, if it is given. -/
def settingValue (settings : List (Setting × Option String)) (s : Setting) :
    Except UsageError (Option String) :=
  match settings.filter (·.1 = s) with
  | [] => .ok none
  | [(_, some v)] => .ok (some v)
  | [(_, none)] => .error (.missingValue s)
  | _ => .error (.repeatedSetting s)

/-- Whether a switch is given, at most once. -/
def switchGiven (switches : List Switch) (s : Switch) : Except UsageError Bool :=
  match switches.filter (· = s) with
  | [] => .ok false
  | [_] => .ok true
  | _ => .error (.repeatedSwitch s)

/-- The values that the option for the layout may have. -/
def layoutNames : List String := [Keyboard.Layout.qwerty.name, Keyboard.Layout.azerty.name]

/-- Checks what the arguments say together. -/
def Progress.arguments (p : Progress) : Except UsageError Arguments := do
  let some image := p.image | throw .missingImage
  let ips ← settingValue p.settings .ips
  let scale ← settingValue p.settings .scale
  let seed ← settingValue p.settings .seed
  let layout ← settingValue p.settings .layout
  let shiftVy ← switchGiven p.switches .shiftVy
  let indexIncrement ← switchGiven p.switches .indexIncrement
  if let some text := layout then
    unless layoutNames.contains text do throw (.unknownLayout text)
  return {
    image
    value := fun
      | .ips => ips
      | .scale => scale
      | .seed => seed
      | .layout => layout
    given := fun
      | .shiftVy => shiftVy
      | .indexIncrement => indexIncrement }

/-- The request that a list of arguments makes. -/
def parse (args : List String) : Except UsageError Request := do
  match ← readArguments {} args with
  | .goOn p => return .run (← p.arguments)
  | .answer r => return r

/-! ## Reading the values -/

/-- A value that is not of the kind its option takes. -/
structure BadValue where
  /-- The option. -/
  setting : Setting
  /-- The value as it was given. -/
  text : String
deriving DecidableEq, Repr

/-- The text reported for a bad value. -/
def BadValue.message (e : BadValue) : String :=
  "bad value '" ++ e.text ++ "' for --" ++ e.setting.name

namespace Arguments

/-- The value of an option, read; nothing if it is not given. -/
def read {α : Type} (a : Arguments) (s : Setting) (ofText : String → Option α) :
    Except BadValue (Option α) :=
  match a.value s with
  | none => .ok none
  | some text =>
    match ofText text with
    | some v => .ok (some v)
    | none => .error ⟨s, text⟩

/-- A 32-bit unsigned number. -/
def readUInt32 (text : String) : Option UInt32 := (Numeral.read? UInt32.size text).map UInt32.ofNat

/-- A 64-bit unsigned number. -/
def readUInt64 (text : String) : Option UInt64 := (Numeral.read? UInt64.size text).map UInt64.ofNat

/-- The configuration that the arguments ask for. The values are read in the order layout, instructions
per second, scale, seed, and the first that cannot be read is reported. -/
def config (a : Arguments) : Except BadValue Config := do
  let defaults : Config := {}
  let layout ← a.read .layout fun text => (Keyboard.Layout.ofName text).toOption
  let ips ← a.read .ips readUInt32
  let scale ← a.read .scale readUInt64
  let seed ← a.read .seed readUInt64
  return { defaults with
    dialect := {
      shiftSource := if a.given .shiftVy then .vy else .vx
      advancesIndex := a.given .indexIncrement }
    layout := layout.getD defaults.layout
    instructionsPerSecond := ips.getD defaults.instructionsPerSecond
    scale := scale.getD defaults.scale
    seed }

end Arguments

/-! ## Information about the program -/

/-- The name and the version of the program. -/
def versionText : String := "chip8-vm 0.1"

/-- How the program is used. -/
def helpText : String := "\n".intercalate [
  versionText,
  "CHIP-8 interpreter that runs in the terminal. Esc quits.",
  "",
  "USAGE:",
  "    chip8-vm [FLAGS] [OPTIONS] <rom>",
  "",
  "FLAGS:",
  "    -h, --help               Prints help information",
  "        --index-increment    Fx55/Fx65 leave I past the last register",
  "        --shift-vy           8xy6/8xyE shift Vy into Vx, as on the COSMAC VIP",
  "    -V, --version            Prints version information",
  "",
  "OPTIONS:",
  "        --ips <ips>          instructions per second (default 700)",
  "        --layout <layout>    host keyboard layout (default qwerty) [possible values: qwerty, azerty]",
  "        --scale <scale>      terminal cells per pixel (default 1)",
  "        --seed <seed>        fixed random seed, for reproducible runs",
  "",
  "ARGS:",
  "    <rom>    CHIP-8 program to load at 0x200"]

end Chip8.CommandLine
