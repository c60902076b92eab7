/-
The BLAKE2 hash functions without a key: BLAKE2s over 32-bit words and BLAKE2b over 64-bit words,
with a digest of any size. Both are one construction; `Flavour` holds what differs.
-/
import MentalPoker.Bytes

namespace MentalPoker.Blake2

/-- What distinguishes BLAKE2s from BLAKE2b. -/
class Flavour (w : Type) extends Add w, XorOp w where
  /-- Bytes in a word. -/
  wordBytes : Nat
  rounds : Nat
  /-- The word that a number is equal to, as far as its bits go. -/
  ofNat : Nat → w
  toNat : w → Nat
  rotateRight : w → Nat → w
  /-- The four rotation distances of the mixing function. -/
  distances : Nat × Nat × Nat × Nat
  /-- The words every chain starts from. -/
  initial : Vector w 8

instance : Flavour UInt32 where
  wordBytes := 4
  rounds := 10
  ofNat := UInt32.ofNat
  toNat := UInt32.toNat
  rotateRight x n := (x >>> UInt32.ofNat n) ||| (x <<< UInt32.ofNat (32 - n))
  distances := (16, 12, 8, 7)
  initial := #v[0x6a09e667, 0xbb67ae85, 0x3c6ef372, 0xa54ff53a,
    0x510e527f, 0x9b05688c, 0x1f83d9ab, 0x5be0cd19]

instance : Flavour UInt64 where
  wordBytes := 8
  rounds := 12
  ofNat := UInt64.ofNat
  toNat := UInt64.toNat
  rotateRight x n := (x >>> UInt64.ofNat n) ||| (x <<< UInt64.ofNat (64 - n))
  distances := (32, 24, 16, 63)
  initial := #v[0x6a09e667f3bcc908, 0xbb67ae8584caa73b, 0x3c6ef372fe94f82b, 0xa54ff53a5f1d36f1,
    0x510e527fade682d1, 0x9b05688c2b3e6c1f, 0x1f83d9abfb41bd6b, 0x5be0cd19137e2179]

/-- The order in which a round takes the words of a block; rounds past the tenth start over. -/
def schedule : Vector (Vector (Fin 16) 16) 10 :=
  #v[#v[0, 1, 2, 3, 4, 5, 6, 7, 8, 9, 10, 11, 12, 13, 14, 15],
    #v[14, 10, 4, 8, 9, 15, 13, 6, 1, 12, 0, 2, 11, 7, 5, 3],
    #v[11, 8, 12, 0, 5, 2, 15, 13, 10, 14, 3, 6, 7, 1, 9, 4],
    #v[7, 9, 3, 1, 13, 12, 11, 14, 2, 6, 5, 10, 4, 0, 15, 8],
    #v[9, 0, 5, 7, 2, 4, 10, 15, 14, 1, 11, 12, 6, 8, 3, 13],
    #v[2, 12, 6, 10, 0, 11, 8, 3, 4, 13, 7, 5, 15, 14, 1, 9],
    #v[12, 5, 1, 15, 14, 13, 4, 10, 0, 7, 6, 3, 9, 2, 8, 11],
    #v[13, 11, 7, 14, 12, 1, 3, 9, 5, 0, 15, 4, 8, 6, 2, 10],
    #v[6, 15, 14, 9, 11, 3, 0, 8, 12, 2, 13, 7, 1, 4, 10, 5],
    #v[10, 2, 8, 4, 7, 6, 1, 5, 15, 11, 9, 14, 3, 12, 13, 0]]

section

variable {w : Type} [Flavour w]

/-- Bytes in a block of sixteen words. -/
def blockBytes (w : Type) [Flavour w] : Nat := 16 * Flavour.wordBytes w

/-- The words of a block, zero padded at its end. -/
@[specialize] def blockWords (block : Bytes) : Vector w 16 :=
  Vector.ofFn fun i =>
    Flavour.ofNat <| Bytes.toNat <|
      (block.drop (i * Flavour.wordBytes w)).take (Flavour.wordBytes w)

/-- Mixes two words of the block into a column or a diagonal of the working state. -/
@[specialize] def mix (v : Vector w 16) (a b c d : Fin 16) (x y : w) : Vector w 16 :=
  let (r₁, r₂, r₃, r₄) := Flavour.distances w
  let a₁ := v[a] + v[b] + x
  let d₁ := Flavour.rotateRight (v[d] ^^^ a₁) r₁
  let c₁ := v[c] + d₁
  let b₁ := Flavour.rotateRight (v[b] ^^^ c₁) r₂
  let a₂ := a₁ + b₁ + y
  let d₂ := Flavour.rotateRight (d₁ ^^^ a₂) r₃
  let c₂ := c₁ + d₂
  let b₂ := Flavour.rotateRight (b₁ ^^^ c₂) r₄
  (((v.set a a₂).set b b₂).set c c₂).set d d₂

/-- Mixes a whole block: the four columns, then the four diagonals. -/
@[specialize] def mixRound (m : Vector w 16) (v : Vector w 16) (order : Vector (Fin 16) 16) :
    Vector w 16 :=
  let v := mix v 0 4 8 12 m[order[0]] m[order[1]]
  let v := mix v 1 5 9 13 m[order[2]] m[order[3]]
  let v := mix v 2 6 10 14 m[order[4]] m[order[5]]
  let v := mix v 3 7 11 15 m[order[6]] m[order[7]]
  let v := mix v 0 5 10 15 m[order[8]] m[order[9]]
  let v := mix v 1 6 11 12 m[order[10]] m[order[11]]
  let v := mix v 2 7 8 13 m[order[12]] m[order[13]]
  mix v 3 4 9 14 m[order[14]] m[order[15]]

/-- Absorbs a block into the chain. `count` is the number of message bytes up to its end. -/
@[specialize] def compress (h : Vector w 8) (block : Bytes) (count : Nat) (last : Bool) :
    Vector w 8 :=
  let bits := 8 * Flavour.wordBytes w
  let tail : Vector w 8 := Flavour.initial
  let tail := tail.set 4 (tail[4] ^^^ Flavour.ofNat count)
  let tail := tail.set 5 (tail[5] ^^^ Flavour.ofNat (count >>> bits))
  let tail := if last then tail.set 6 (tail[6] ^^^ Flavour.ofNat ((1 <<< bits) - 1)) else tail
  let m := blockWords block
  let v := (List.range (Flavour.rounds w)).foldl (fun v r => mixRound m v schedule[r % 10])
    (h ++ tail)
  Vector.ofFn fun i => h[i] ^^^ v[i.val] ^^^ v[i.val + 8]

/-- Absorbs `more` blocks and a last one, which takes what is left of the message. -/
@[specialize] def absorb (h : Vector w 8) (count : Nat) (message : Bytes) :
    (more : Nat) → Vector w 8
  | 0 => compress h message (count + message.length) true
  | more + 1 =>
    let size := blockBytes w
    absorb (compress h (message.take size) (count + size) false) (count + size)
      (message.drop size) more

/-- The digest of `size` bytes. The last block is never empty unless the message is. -/
@[specialize] def digest (w : Type) [Flavour w] (size : Nat) (message : Bytes) : Bytes :=
  let start : Vector w 8 := Flavour.initial
  let start := start.set 0 (start[0] ^^^ Flavour.ofNat (0x01010000 + size))
  let h := absorb start 0 message ((message.length - 1) / blockBytes w)
  (h.toList.flatMap fun x => Bytes.ofNat (Flavour.toNat x) (Flavour.wordBytes w)).take size

end

/-- BLAKE2s with a digest of 32 bytes. -/
def blake2s256 : Bytes → Bytes := digest UInt32 32

/-- BLAKE2s with a digest of 16 bytes. -/
def blake2s128 : Bytes → Bytes := digest UInt32 16

/-- BLAKE2b with a digest of 64 bytes. -/
def blake2b512 : Bytes → Bytes := digest UInt64 64

end MentalPoker.Blake2
