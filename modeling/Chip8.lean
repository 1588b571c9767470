import Chip8.Area
import Chip8.ByteSource
import Chip8.Canvas
import Chip8.Canvas.Terminal
import Chip8.CommandLine
import Chip8.Config
import Chip8.Display
import Chip8.Error
import Chip8.Font
import Chip8.Grid
import Chip8.Hex
import Chip8.Image
import Chip8.Instruction.Basic
import Chip8.Instruction.Decode
import Chip8.Instruction.Mnemonic
import Chip8.Keyboard.Input
import Chip8.Keyboard.KeyMap
import Chip8.Keyboard.Layout
import Chip8.Keyboard.Terminal
import Chip8.Keypad
import Chip8.Machine.Basic
import Chip8.Machine.Execute
import Chip8.Machine.Stack
import Chip8.Machine.Step
import Chip8.Main
import Chip8.Memory
import Chip8.Numeral
import Chip8.Opcode
import Chip8.Plane
import Chip8.Proofs.Accumulation
import Chip8.Proofs.Arguments
import Chip8.Proofs.Arithmetic
import Chip8.Proofs.Bounds
import Chip8.Proofs.ByteStore
import Chip8.Proofs.Bytes
import Chip8.Proofs.CallStack
import Chip8.Proofs.Clipping
import Chip8.Proofs.Clocks
import Chip8.Proofs.Compositing
import Chip8.Proofs.Configuration
import Chip8.Proofs.Dependence
import Chip8.Proofs.Drawing
import Chip8.Proofs.Dump
import Chip8.Proofs.Effect
import Chip8.Proofs.Encoding
import Chip8.Proofs.Enlargement
import Chip8.Proofs.Failure
import Chip8.Proofs.Footprint
import Chip8.Proofs.Frames
import Chip8.Proofs.Glyphs
import Chip8.Proofs.Hexadecimal
import Chip8.Proofs.History
import Chip8.Proofs.Influence
import Chip8.Proofs.Invariant
import Chip8.Proofs.Iteration
import Chip8.Proofs.KeyEvents
import Chip8.Proofs.Limits
import Chip8.Proofs.LitCount
import Chip8.Proofs.Loading
import Chip8.Proofs.LostRedraw
import Chip8.Proofs.Mnemonics
import Chip8.Proofs.Numerals
import Chip8.Proofs.Operations
import Chip8.Proofs.Outcomes
import Chip8.Proofs.Painting
import Chip8.Proofs.Picture
import Chip8.Proofs.PixelGrid
import Chip8.Proofs.Precision
import Chip8.Proofs.Presses
import Chip8.Proofs.ProgramCounter
import Chip8.Proofs.Randomness
import Chip8.Proofs.Reading
import Chip8.Proofs.Redraw
import Chip8.Proofs.Restart
import Chip8.Proofs.Rows
import Chip8.Proofs.Shape
import Chip8.Proofs.Spelling
import Chip8.Proofs.Steps
import Chip8.Proofs.Storage
import Chip8.Proofs.Timers
import Chip8.Proofs.Torus
import Chip8.Proofs.Transfers
import Chip8.Proofs.Updates
import Chip8.Proofs.Writes
import Chip8.RandomStream
import Chip8.Register
import Chip8.Registers
import Chip8.Rounding
import Chip8.Scheduler
import Chip8.Screen
import Chip8.Sprite
import Chip8.Word
