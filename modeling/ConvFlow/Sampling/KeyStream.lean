/-
# A seeded stream of random words

The stream is the key stream of the ChaCha block function with twelve rounds.  Its key is derived
from a 64-bit seed by a linear congruential sequence whose states are scrambled by a shift and a
rotation.  Blocks are numbered from zero, and the sixteen words of every block are used in order.
-/

namespace ConvFlow.Sampling

/-- The sixteen words that the block function works on. -/
abbrev Block := Vector UInt32 16

/-- Rotate a word to the left by `k` bits, for `k` between 1 and 31. -/
def rotateLeft (x k : UInt32) : UInt32 := (x <<< k) ||| (x >>> (32 - k))

/-- Rotate a word to the right by `k` bits. -/
def rotateRight (x k : UInt32) : UInt32 :=
  if k = 0 then x else (x >>> k) ||| (x <<< (32 - k))

/-- Mix the four words at the given places. -/
def quarterRound (s : Block) (a b c d : Fin 16) : Block :=
  let s := s.set a (s[a] + s[b])
  let s := s.set d (rotateLeft (s[d] ^^^ s[a]) 16)
  let s := s.set c (s[c] + s[d])
  let s := s.set b (rotateLeft (s[b] ^^^ s[c]) 12)
  let s := s.set a (s[a] + s[b])
  let s := s.set d (rotateLeft (s[d] ^^^ s[a]) 8)
  let s := s.set c (s[c] + s[d])
  s.set b (rotateLeft (s[b] ^^^ s[c]) 7)

/-- One round on the columns and one on the diagonals of the four by four square of words. -/
def doubleRound (s : Block) : Block :=
  let s := quarterRound s 0 4 8 12
  let s := quarterRound s 1 5 9 13
  let s := quarterRound s 2 6 10 14
  let s := quarterRound s 3 7 11 15
  let s := quarterRound s 0 5 10 15
  let s := quarterRound s 1 6 11 12
  let s := quarterRound s 2 7 8 13
  quarterRound s 3 4 9 14

/-- The words that a block starts from: four constants, the key, the number of the block and two
zeros. -/
def initialBlock (key : Vector UInt32 8) (number : UInt64) : Block :=
  #v[0x61707865, 0x3320646e, 0x79622d32, 0x6b206574,
    key[0], key[1], key[2], key[3], key[4], key[5], key[6], key[7],
    number.toUInt32, (number >>> 32).toUInt32, 0, 0]

/-- The block with the given number: six double rounds, added to what they started from. -/
def block (key : Vector UInt32 8) (number : UInt64) : Block :=
  let start := initialBlock key number
  Vector.zipWith (· + ·) (Nat.repeat doubleRound 6 start) start

/-- The next state of the sequence that a key is derived from. -/
def nextState (state : UInt64) : UInt64 := state * 6364136223846793005 + 11634580027462260723

/-- The word that a state of the sequence yields. -/
def scramble (state : UInt64) : UInt32 :=
  rotateRight (((state >>> 18) ^^^ state) >>> 27).toUInt32 (state >>> 59).toUInt32

/-- The state of the sequence after `n` steps. -/
def stateAfter (seed : UInt64) (n : Nat) : UInt64 := Nat.repeat nextState n seed

/-- The key for a seed. -/
def keyOfSeed (seed : UInt64) : Vector UInt32 8 :=
  Vector.ofFn fun i => scramble (stateAfter seed (i.val + 1))

/-- A place in the stream of a key. -/
structure KeyStream where
  /-- The key. -/
  key : Vector UInt32 8
  /-- The number of the next block. -/
  number : UInt64
  /-- The words of the current block that have not been used yet. -/
  ready : List UInt32

namespace KeyStream

/-- The beginning of the stream for a seed. -/
def ofSeed (seed : UInt64) : KeyStream := ⟨keyOfSeed seed, 0, []⟩

/-- The next word, and the place behind it. -/
def next (s : KeyStream) : UInt32 × KeyStream :=
  match s.ready with
  | w :: rest => (w, { s with ready := rest })
  | [] =>
    let words := block s.key s.number
    (words[0], { s with number := s.number + 1, ready := words.toList.tail })

/-- The next `n` words, and the place behind them. -/
def take (n : Nat) (s : KeyStream) : Array UInt32 × KeyStream :=
  n.fold (fun _ _ (words, s) => let (w, s) := s.next; (words.push w, s)) (#[], s)

/-- Taking `n` words yields `n` words. -/
theorem size_take (n : Nat) (s : KeyStream) : (take n s).1.size = n := by
  unfold take
  induction n with
  | zero => rfl
  | succ n ih => simp [Nat.fold_succ, ih]

end KeyStream

end ConvFlow.Sampling
