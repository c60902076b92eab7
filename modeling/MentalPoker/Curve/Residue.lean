/-
Residues modulo a prime: powers, inverses by Fermat's little theorem, binary digits, and uniform
sampling. The two primes of the secp256k1 curve are named here: the one its coordinates live below,
and the order of its group, below which its scalars live.
-/
import MentalPoker.Random.Source

namespace MentalPoker

/-- There are residues modulo `m`, since it is not zero. -/
abbrev Modulus (m : Nat) : Prop := @NeZero Nat Zero.ofOfNat0 m

namespace Residue

variable {m : Nat} [Modulus m]

/-- The power `a ^ (k % 2 ^ bits)` by repeated squaring. -/
def power (a : Fin m) (k : Nat) : (bits : Nat) → Fin m
  | 0 => 1
  | bits + 1 =>
    let root := power a (k / 2) bits
    if k % 2 = 1 then root * root * a else root * root

/-- The inverse of a nonzero residue modulo a prime. The inverse of zero is zero. -/
def inverse (a : Fin m) : Fin m := power a (m - 2) (m.log2 + 1)

/-- The number of binary digits of a residue. Zero has none. -/
def bitLength (a : Fin m) : Nat := if a.val = 0 then 0 else a.val.log2 + 1

/-- The lowest 64 binary digits of a residue. -/
def lowestWord (a : Fin m) : UInt64 := UInt64.ofNat a.val

/-- A uniform residue modulo a 256-bit number: a drawn number `a` below `m` stands for
`a / 2 ^ 256`. At the limit `RandomSource.maxAttempts` a number that is not below `m` counts modulo
`m`. -/
def sample {γ : Type} [RandomSource γ] (m : Nat) [Modulus m] (source : γ) : Fin m × γ :=
  let (a, source) := RandomSource.drawUntil (· < m) (RandomSource.nextWords 4)
    RandomSource.maxAttempts source
  (Fin.ofNat m a * inverse (Fin.ofNat m (1 <<< 256)), source)

end Residue

/-- The prime of the field over which the curve is taken. -/
def fieldPrime : Nat := 0xfffffffffffffffffffffffffffffffffffffffffffffffffffffffefffffc2f

/-- The order of the curve's group, a prime. -/
def groupOrder : Nat := 0xfffffffffffffffffffffffffffffffebaaedce6af48a03bbfd25e8cd0364141

instance : Modulus fieldPrime := ⟨by decide⟩

instance : Modulus groupOrder := ⟨by decide⟩

/-- A coordinate of a point. -/
abbrev Coordinate := Fin fieldPrime

/-- A secret, or a card on its way through the shuffle chain. -/
abbrev Scalar := Fin groupOrder

end MentalPoker
