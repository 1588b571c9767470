import Chip8.Word

/-!
# RandomStream — reproducible random bytes from a seed

The random bytes of a machine come from a stream cipher's key stream: the seed is stretched to a
256-bit key, and block number `b` of the stream is the cipher's block function on that key and `b`. A
block is sixteen 32-bit words. A draw takes the next word, in block order, and uses its low eight bits,
so the bytes drawn depend on the seed and on how many were drawn before, and on nothing else.

* `RandomStream.expand` — the key that belongs to a seed;
* `RandomStream.block` — sixteen words of the key stream;
* `RandomStream.next` — one draw.
-/

namespace Chip8

/-- A stream of random bytes: the key, and the number of draws so far. -/
structure RandomStream where
  /-- The key of the cipher. -/
  key : Vector UInt32 8
  /-- The number of words drawn. -/
  drawn : Nat
deriving DecidableEq, Repr

namespace RandomStream

/-- The word turned left by `n` bits, for `n` below 32. -/
def rotateLeft (x n : UInt32) : UInt32 := (x <<< n) ||| (x >>> (32 - n))

/-- The word turned right by `n` bits, for `n` below 32. -/
def rotateRight (x n : UInt32) : UInt32 := (x >>> n) ||| (x <<< (32 - n))

/-- One step of the generator that stretches a seed. -/
def seedStep (s : UInt64) : UInt64 := s * 6364136223846793005 + 11634580027462260723

/-- The output of the generator that stretches a seed: shifted bits, turned by the number in the top
five. -/
def seedWord (s : UInt64) : UInt32 :=
  rotateRight (((s >>> 18) ^^^ s) >>> 27).toUInt32 (s >>> 59).toUInt32

/-- The generator's state after `n` steps. -/
def seedState (seed : UInt64) : Nat → UInt64
  | 0 => seed
  | n + 1 => seedStep (seedState seed n)

/-- The key that belongs to a seed: eight outputs of the generator. -/
def expand (seed : UInt64) : Vector UInt32 8 := .ofFn fun i => seedWord (seedState seed (i + 1))

/-- The sixteen words of the cipher's state. -/
abbrev State := Vector UInt32 16

/-- Mixes four words of the state by additions, exclusive ors and rotations. -/
def quarterRound (s : State) (a b c d : Fin 16) : State :=
  let s := s.set a (s[a] + s[b])
  let s := s.set d (rotateLeft (s[d] ^^^ s[a]) 16)
  let s := s.set c (s[c] + s[d])
  let s := s.set b (rotateLeft (s[b] ^^^ s[c]) 12)
  let s := s.set a (s[a] + s[b])
  let s := s.set d (rotateLeft (s[d] ^^^ s[a]) 8)
  let s := s.set c (s[c] + s[d])
  s.set b (rotateLeft (s[b] ^^^ s[c]) 7)

/-- Two rounds: the columns of the square of words, then its diagonals. -/
def doubleRound (s : State) : State :=
  let s := quarterRound s 0 4 8 12
  let s := quarterRound s 1 5 9 13
  let s := quarterRound s 2 6 10 14
  let s := quarterRound s 3 7 11 15
  let s := quarterRound s 0 5 10 15
  let s := quarterRound s 1 6 11 12
  let s := quarterRound s 2 7 8 13
  quarterRound s 3 4 9 14

/-- The state after `n` double rounds. -/
def doubleRounds : Nat → State → State
  | 0, s => s
  | n + 1, s => doubleRounds n (doubleRound s)

/-- The state a block starts from: four constants, the key, the block number in two words, zeros. -/
def initial (key : Vector UInt32 8) (number : UInt64) : State :=
  #v[0x61707865, 0x3320646e, 0x79622d32, 0x6b206574,
    key[0], key[1], key[2], key[3], key[4], key[5], key[6], key[7],
    number.toUInt32, (number >>> 32).toUInt32, 0, 0]

/-- Block `number` of the key stream: twelve rounds, then the sum with the starting state. -/
def block (key : Vector UInt32 8) (number : UInt64) : State :=
  Vector.zipWith (· + ·) (doubleRounds 6 (initial key number)) (initial key number)

/-- Word `k` of the key stream. -/
def word (key : Vector UInt32 8) (k : Nat) : UInt32 :=
  have : k % 16 < 16 := Nat.mod_lt _ (by decide)
  (block key (UInt64.ofNat (k / 16)))[k % 16]

/-- The stream of a seed, from its start. -/
def ofSeed (seed : UInt64) : RandomStream := ⟨expand seed, 0⟩

/-- The byte that draw number `k` of a key's stream gives, counting from 0. -/
def byteAt (key : Vector UInt32 8) (k : Nat) : Byte := BitVec.ofNat 8 (word key k).toNat

/-- Draws a byte. -/
def next (s : RandomStream) : Byte × RandomStream :=
  (byteAt s.key s.drawn, { s with drawn := s.drawn + 1 })

end RandomStream

end Chip8
