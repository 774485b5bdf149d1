/-!
# A seeded keystream

Random words are the keystream of the ChaCha cipher with twelve rounds: block `n` is a fixed
scrambling of the key and of `n`. A stream is a key, the number of the next block and the words of
the current block that nobody has drawn yet.
-/

namespace ProceduralTree

/-- Sixteen words: a block of the cipher's state. -/
abbrev Keystream.Block := Vector UInt32 16

structure Keystream where
  key : Vector UInt32 8
  /-- The number of the next block. -/
  counter : UInt64
  /-- The words of the current block that are still to be drawn, first word first. -/
  pending : List UInt32

namespace Keystream

def rotateLeft (word amount : UInt32) : UInt32 :=
  (word <<< amount) ||| (word >>> (32 - amount))

def rotateRight (word amount : UInt32) : UInt32 :=
  rotateLeft word ((32 - amount) % 32)

namespace Block

/-- One half of a quarter round: an addition and two rotations on four of the block's words. -/
def mix (a b c d : Fin 16) (first second : UInt32) (x : Block) : Block :=
  let x := x.set a (x[a] + x[b])
  let x := x.set d (rotateLeft (x[d] ^^^ x[a]) first)
  let x := x.set c (x[c] + x[d])
  x.set b (rotateLeft (x[b] ^^^ x[c]) second)

def quarterRound (a b c d : Fin 16) (x : Block) : Block :=
  (x.mix a b c d 16 12).mix a b c d 8 7

/-- A round on the four columns, then one on the four diagonals. -/
def doubleRound (x : Block) : Block :=
  let x := x.quarterRound 0 4 8 12
  let x := x.quarterRound 1 5 9 13
  let x := x.quarterRound 2 6 10 14
  let x := x.quarterRound 3 7 11 15
  let x := x.quarterRound 0 5 10 15
  let x := x.quarterRound 1 6 11 12
  let x := x.quarterRound 2 7 8 13
  x.quarterRound 3 4 9 14

def doubleRounds : Nat → Block → Block
  | 0, x => x
  | n + 1, x => doubleRounds n x.doubleRound

/-- The block to scramble: a fixed text, the key, the block's number, and an empty nonce. -/
def start (key : Vector UInt32 8) (counter : UInt64) : Block :=
  #v[0x61707865, 0x3320646e, 0x79622d32, 0x6b206574,
     key[0], key[1], key[2], key[3], key[4], key[5], key[6], key[7],
     counter.toUInt32, (counter >>> 32).toUInt32, 0, 0]

/-- The words that block number `counter` contributes to the stream. -/
def keyed (key : Vector UInt32 8) (counter : UInt64) : Block :=
  let x := start key counter
  (doubleRounds 6 x).zipWith (· + ·) x

end Block

/-- `count` key words from a seed: a multiplicative generator whose states are folded to words. -/
def keyWords : Nat → UInt64 → List UInt32
  | 0, _ => []
  | count + 1, state =>
    let state := state * 6364136223846793005 + 11634580027462260723
    let folded := (((state >>> 18) ^^^ state) >>> 27).toUInt32
    rotateRight folded (state >>> 59).toUInt32 :: keyWords count state

@[simp] theorem length_keyWords (count : Nat) (state : UInt64) :
    (keyWords count state).length = count := by
  induction count generalizing state with
  | zero => rfl
  | succ count ih => simp [keyWords, ih]

def ofSeed (seed : UInt64) : Keystream where
  key := ⟨(keyWords 8 seed).toArray, by simp⟩
  counter := 0
  pending := []

def word32 (s : Keystream) : UInt32 × Keystream :=
  match s.pending with
  | word :: pending => (word, { s with pending })
  | [] =>
    let block := Block.keyed s.key s.counter
    (block[0], { s with counter := s.counter + 1, pending := block.toList.tail })

/-- Two words of the stream; the first is the low half. -/
def word64 (s : Keystream) : UInt64 × Keystream :=
  let (low, s) := s.word32
  let (high, s) := s.word32
  (high.toUInt64 <<< 32 ||| low.toUInt64, s)

end Keystream

end ProceduralTree
