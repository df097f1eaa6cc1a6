import QuantumRelay.Random.Source

/-!
# Seeded draws

`SeededDraws.ofSeed` is the stream of draws of a seed: the seed is stretched to a key of eight words,
and the key stream of ChaCha with twelve rounds, read as 64-bit words, gives one draw a word.
-/

namespace QuantumRelay

namespace ChaCha

abbrev Block : Type := Vector UInt32 16

/-- A word with its bits moved left in a circle. -/
def rotateLeft (x n : UInt32) : UInt32 := (x <<< n) ||| (x >>> (32 - n))

/-- Mix four words of a block. -/
def quarterRound (s : Block) (a b c d : Fin 16) : Block :=
  let s := s.set a (s[a] + s[b])
  let s := s.set d (rotateLeft (s[d] ^^^ s[a]) 16)
  let s := s.set c (s[c] + s[d])
  let s := s.set b (rotateLeft (s[b] ^^^ s[c]) 12)
  let s := s.set a (s[a] + s[b])
  let s := s.set d (rotateLeft (s[d] ^^^ s[a]) 8)
  let s := s.set c (s[c] + s[d])
  s.set b (rotateLeft (s[b] ^^^ s[c]) 7)

/-- Mix the four columns of a block, then its four diagonals. -/
def doubleRound (s : Block) : Block :=
  let s := quarterRound s 0 4 8 12
  let s := quarterRound s 1 5 9 13
  let s := quarterRound s 2 6 10 14
  let s := quarterRound s 3 7 11 15
  let s := quarterRound s 0 5 10 15
  let s := quarterRound s 1 6 11 12
  let s := quarterRound s 2 7 8 13
  quarterRound s 3 4 9 14

/-- The block that a key and a counter start from, with the constants of the cipher. -/
def initial (key : Vector UInt32 8) (counter : UInt64) : Block :=
  #v[0x61707865, 0x3320646e, 0x79622d32, 0x6b206574,
    key[0], key[1], key[2], key[3], key[4], key[5], key[6], key[7],
    counter.toUInt32, (counter >>> 32).toUInt32, 0, 0]

def rounds : Nat → Block → Block
  | 0, s => s
  | n + 1, s => rounds n (doubleRound s)

/-- The key stream block of a counter, after twelve rounds. -/
def block (key : Vector UInt32 8) (counter : UInt64) : Block :=
  let start := initial key counter
  (rounds 6 start).zipWith (· + ·) start

/-- The `k`-th pair of words of a block as a double word, the low one first. -/
def doubleWord (s : Block) (k : Fin 8) : UInt64 :=
  (s[2 * k.val + 1]).toUInt64 <<< 32 ||| (s[2 * k.val]).toUInt64

end ChaCha

/-- The draws of a key from a position on. -/
structure SeededDraws where
  key : Vector UInt32 8
  /-- How many double words of the key stream have been used. -/
  position : Nat := 0
  /-- The block of the last one used. -/
  block : ChaCha.Block := ChaCha.initial key 0

namespace SeededDraws

/-- Advance the generator that stretches seeds. -/
def stretch (state : UInt64) : UInt64 := state * 6364136223846793005 + 11634580027462260723

/-- The word that a state of the stretching generator stands for. -/
def wordOf (state : UInt64) : UInt32 :=
  let x := (((state >>> 18) ^^^ state) >>> 27).toUInt32
  let turn := (state >>> 59).toUInt32
  if turn = 0 then x else (x >>> turn) ||| (x <<< (32 - turn))

def keyOf (seed : UInt64) : Vector UInt32 8 :=
  Vector.ofFn fun k : Fin 8 => wordOf (Nat.repeat stretch (k.val + 1) seed)

def ofSeed (seed : UInt64) : SeededDraws := { key := keyOf seed }

/-- The draw that a double word stands for: its upper 53 bits. -/
def drawOf (v : UInt64) : Draw := .ofNumber (v >>> 11).toNat

/-- The next double word of the key stream; every eighth one starts a block. -/
def nextWord (s : SeededDraws) : UInt64 × SeededDraws :=
  let k : Fin 8 := Fin.ofNat 8 s.position
  let block := if k = 0 then ChaCha.block s.key (UInt64.ofNat (s.position / 8)) else s.block
  (ChaCha.doubleWord block k, { s with position := s.position + 1, block })

instance : DrawSource SeededDraws where
  next s :=
    let (v, s) := s.nextWord
    (drawOf v, s)

end SeededDraws

end QuantumRelay
