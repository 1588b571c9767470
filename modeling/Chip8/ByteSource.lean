import Chip8.Memory

/-!
# ByteSource — reading a program of unknown length

A byte source is what the calls to a reader answer up to the end of its input, one after the other: some
bytes, or a failure of the host. An answer of no bytes is how a reader tells that its input has ended, so
every other one has at least one byte. Reading a source to its end joins the bytes. An interrupted call is
made again, and any other failure ends the reading with nothing kept; `Memory.loadFrom` therefore either
stores the whole program or leaves the memory as it was.
-/

namespace Chip8

/-- The answer of one call to a reader whose input has not ended. -/
inductive Chunk where
  /-- Some bytes, and at least one. -/
  | bytes (first : Byte) (rest : List Byte)
  /-- A failure of the host. -/
  | failure (e : IoError)
deriving DecidableEq, Repr

/-- The answers of a reader up to the end of its input. -/
abbrev ByteSource := List Chunk

/-- All the bytes of a source, or the first failure that is not an interruption. -/
def ByteSource.readToEnd : ByteSource → Except IoError (List Byte)
  | [] => .ok []
  | .bytes first rest :: source => (first :: rest ++ ·) <$> readToEnd source
  | .failure e :: source => if e.kind = .interrupted then readToEnd source else .error e

/-- Reads a source to its end and loads the bytes as a program. -/
def Memory.loadFrom (m : Memory) (source : ByteSource) : Except Error Memory :=
  match source.readToEnd with
  | .ok program => m.load program
  | .error e => .error (.io e)

end Chip8
