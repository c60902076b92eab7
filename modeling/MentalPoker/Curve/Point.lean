/-
The group of the curve y² = x³ + 7 over the coordinate field (secp256k1). Multiples are computed in
Jacobian coordinates, where a triple `(x, y, z)` with `z ≠ 0` stands for the point
`(x / z², y / z³)`, so that one division is enough for a whole product.
-/
import MentalPoker.Curve.Residue

namespace MentalPoker

/-- A point of the curve. The constructor `affine` alone does not check the equation. -/
inductive Point where
  | infinity
  | affine (x y : Coordinate)
deriving DecidableEq

/-- A point in Jacobian coordinates; `z = 0` is the point at infinity. -/
structure Jacobian where
  x : Coordinate
  y : Coordinate
  z : Coordinate

namespace Jacobian

def infinity : Jacobian := ⟨1, 1, 0⟩

/-- The point added to itself. -/
def double (p : Jacobian) : Jacobian :=
  let a := p.x * p.x
  let b := p.y * p.y
  let c := b * b
  let s := p.x * b
  let d := s + s + (s + s)
  let e := a + a + a
  let x := e * e - (d + d)
  let c₂ := c + c
  let c₄ := c₂ + c₂
  let yz := p.y * p.z
  ⟨x, e * (d - x) - (c₄ + c₄), yz + yz⟩

/-- The sum with the affine point `(x, y)`. -/
def addAffine (p : Jacobian) (x y : Coordinate) : Jacobian :=
  if p.z = 0 then ⟨x, y, 1⟩
  else
    let zz := p.z * p.z
    let h := x * zz - p.x
    let r := y * (zz * p.z) - p.y
    if h = 0 then
      if r = 0 then p.double else infinity
    else
      let hh := h * h
      let hhh := h * hh
      let v := p.x * hh
      let x₃ := r * r - hhh - (v + v)
      ⟨x₃, r * (v - x₃) - p.y * hhh, p.z * h⟩

/-- The multiple of `(x, y)` by `k % 2 ^ bits`: twice the multiple by half of it, and the point once
more if it is odd. -/
def multiple (x y : Coordinate) (k : Nat) : (bits : Nat) → Jacobian
  | 0 => infinity
  | bits + 1 =>
    let half := multiple x y (k / 2) bits
    if k % 2 = 1 then half.double.addAffine x y else half.double

def toPoint (p : Jacobian) : Point :=
  if p.z = 0 then .infinity
  else
    let w := Residue.inverse p.z
    let ww := w * w
    .affine (p.x * ww) (p.y * (ww * w))

end Jacobian

namespace Point

/-- The point that generates the group. -/
def generator : Point := .affine
  (Fin.ofNat _ 0x79be667ef9dcbbac55a06295ce870b07029bfcdb2dce28d959f2815b16f81798)
  (Fin.ofNat _ 0x483ada7726a3c4655da4fbfc0e1108a8fd17b448a68554199c47d08ffb10d4b8)

/-- The point added to itself `k` times. -/
def multiple (k : Nat) : Point → Point
  | infinity => infinity
  | affine x y => (Jacobian.multiple x y k (k.log2 + 1)).toPoint

/-- The opposite point. -/
def opposite : Point → Point
  | infinity => infinity
  | affine x y => affine x (0 - y)

/-- The equation of the curve. -/
def OnCurve : Point → Prop
  | infinity => True
  | affine x y => y * y = x * x * x + 7

instance (p : Point) : Decidable p.OnCurve :=
  match p with
  | infinity => inferInstanceAs (Decidable True)
  | affine x y => inferInstanceAs (Decidable (y * y = x * x * x + 7))

/-- Membership in the subgroup whose order is the group order. -/
def InSubgroup (p : Point) : Prop := p.multiple groupOrder = infinity

instance (p : Point) : Decidable p.InSubgroup := inferInstanceAs (Decidable (_ = _))

end Point

end MentalPoker
