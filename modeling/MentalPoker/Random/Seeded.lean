/-
Replayable randomness: a source whose words follow from a label. The label's digest is the seed, the
seed is the key of a ChaCha20 keystream, and the source is a place in that keystream. A fork takes
its seed from the parent's seed and a label, so that forks are independent of each other and of how
far the parent has been read.
-/
import MentalPoker.Hash.Blake2
import MentalPoker.Random.ChaCha
import MentalPoker.Random.Source

namespace MentalPoker

/-- A place in the keystream of a seed, which is a value of `digest`. -/
structure Seeded (digest : Bytes → Bytes) where
  seed : Bytes
  /-- How many 32-bit words have been drawn. -/
  position : Nat

namespace Seeded

variable {digest : Bytes → Bytes}

/-- The start of the stream of a label. -/
def ofLabel (digest : Bytes → Bytes) (label : Bytes) : Seeded digest := ⟨digest label, 0⟩

/-- The start of the stream that belongs to `label` under this stream's seed. -/
def fork (source : Seeded digest) (label : Bytes) : Seeded digest :=
  ⟨digest (source.seed ++ label), 0⟩

/-- The next 32-bit word. -/
def nextUInt32 (source : Seeded digest) : UInt32 × Seeded digest :=
  (ChaCha.word source.seed source.position, { source with position := source.position + 1 })

/-- Two 32-bit words make a 64-bit word, the lower half first. -/
def nextUInt64 (source : Seeded digest) : UInt64 × Seeded digest :=
  let (low, source) := source.nextUInt32
  let (high, source) := source.nextUInt32
  (low.toUInt64 ||| (high.toUInt64 <<< 32), source)

instance : RandomSource (Seeded digest) := ⟨nextUInt64⟩

/-- The next `size` bytes; what is left of the last word is dropped. -/
def nextBytes (size : Nat) (source : Seeded digest) : Bytes × Seeded digest :=
  let words := (size + 3) / 4
  let bytes := (List.range words).flatMap fun i =>
    Bytes.ofNat (ChaCha.word source.seed (source.position + i)).toNat 4
  (bytes.take size, { source with position := source.position + words })

end Seeded

/-- The sources that label a table and its players. -/
abbrev Labelled := Seeded Blake2.blake2s256

end MentalPoker
