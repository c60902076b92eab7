/-
The commutative cipher. Two parties that know each other's public key share the point
`public key of the one * secret key of the other`; its x coordinate, as a scalar, is the factor of a
layer. Adding the layer multiplies a message by the factor, removing it divides by it, so that
layers can be removed in any order.
-/
import MentalPoker.Curve.Point
import MentalPoker.Text.Decimal

namespace MentalPoker

/-- Why a pair of keys gives no layer. -/
inductive CipherError where
  /-- The shared point has no coordinates. -/
  | pointAtInfinity
  /-- The shared point's x coordinate is a multiple of the group order. -/
  | zeroFactor
deriving DecidableEq

namespace CipherError

def reason : CipherError → String
  | pointAtInfinity => "point at infinity"
  | zeroFactor => "zero x coordinate"

def message (e : CipherError) : String := s!"Shared secret is degenerate ({e.reason})"

end CipherError

/-! ## Keys -/

/-- The coordinates as text. -/
def Point.describe : Point → String
  | .infinity => "infinity"
  | .affine x y => s!"({Decimal.write x.val}, {Decimal.write y.val})"

structure KeyPair where
  secretKey : Scalar
  publicKey : Point
deriving DecidableEq

namespace KeyPair

/-- The pair of a secret. -/
def ofSecret (secret : Scalar) : KeyPair := ⟨secret, Point.generator.multiple secret.val⟩

/-- A pair with a random secret. -/
def generate {γ : Type} [RandomSource γ] (source : γ) : KeyPair × γ :=
  let (secret, source) := Residue.sample groupOrder source
  (ofSecret secret, source)

/-- The pair as text, which keeps the secret to itself. -/
def describe (keys : KeyPair) : String :=
  "KeyPair \x7b public_key: " ++ keys.publicKey.describe ++ ", .. \x7d"

end KeyPair

/-! ## Layers -/

namespace Cipher

/-- The factor of the layer shared with the holder of `counterparty`. -/
def sharedFactor (counterparty : Point) (own : Scalar) : Except CipherError Scalar :=
  match counterparty.multiple own.val with
  | .infinity => .error .pointAtInfinity
  | .affine x _ =>
    let factor : Scalar := Fin.ofNat _ x.val
    if factor = 0 then .error .zeroFactor else .ok factor

/-- Adds the shared layer to each message. -/
def encryptAll (messages : List Scalar) (counterparty : Point) (own : Scalar) :
    Except CipherError (List Scalar) :=
  (sharedFactor counterparty own).map fun factor => messages.map (· * factor)

/-- Removes the shared layer from each ciphertext. -/
def decryptAll (ciphertexts : List Scalar) (counterparty : Point) (own : Scalar) :
    Except CipherError (List Scalar) :=
  (sharedFactor counterparty own).map fun factor =>
    let inverse := Residue.inverse factor
    ciphertexts.map (· * inverse)

/-- Adds the shared layer. -/
def encrypt (message : Scalar) (counterparty : Point) (own : Scalar) : Except CipherError Scalar :=
  (sharedFactor counterparty own).map (message * ·)

/-- Removes the shared layer. -/
def decrypt (ciphertext : Scalar) (counterparty : Point) (own : Scalar) :
    Except CipherError Scalar :=
  (sharedFactor counterparty own).map (ciphertext * Residue.inverse ·)

end Cipher

end MentalPoker
