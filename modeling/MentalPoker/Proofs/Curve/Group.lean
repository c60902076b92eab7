/-
The points of the curve as a group: multiples taken in Jacobian coordinates are the multiples of the
group of nonsingular points of y² = x³ + 7 over the coordinate field. Hence the multiples of a point
commute, and the public key of any secret is on the curve and in the subgroup of the group order.
-/
import MentalPoker.Cipher
import MentalPoker.Proofs.Curve.Field
import Mathlib.AlgebraicGeometry.EllipticCurve.Affine.Point
import Mathlib.Tactic.FieldSimp
import Mathlib.Tactic.LinearCombination

namespace MentalPoker

open Residue WeierstrassCurve.Affine

/-! ## The curve -/

/-- The field of the coordinates. -/
abbrev CoordinateField : Type := ZMod fieldPrime

/-- The curve y² = x³ + 7. -/
def curve : WeierstrassCurve.Affine CoordinateField := ⟨0, 0, 0, 0, 7⟩

/-- The group of its points. -/
abbrev CurvePoint : Type := curve.Point

theorem natCast_ne_zero {n : ℕ} (pos : 0 < n) (small : n < fieldPrime) :
    (n : CoordinateField) ≠ 0 := by
  rw [Ne, ZMod.natCast_eq_zero_iff]
  intro divides
  exact absurd (Nat.le_of_dvd pos divides) (by omega)

theorem two_ne_zero_coordinate : (2 : CoordinateField) ≠ 0 := by
  exact_mod_cast natCast_ne_zero (n := 2) (by decide) (by decide)

theorem curve_equation_iff (x y : CoordinateField) :
    curve.Equation x y ↔ y ^ 2 = x ^ 3 + 7 := by
  simp [equation_iff, curve]

theorem curve_nonsingular_iff (x y : CoordinateField) :
    curve.Nonsingular x y ↔ y ^ 2 = x ^ 3 + 7 := by
  rw [← curve_equation_iff, equation_iff_nonsingular_of_Δ_ne_zero]
  have h : (21168 : CoordinateField) ≠ 0 := by
    exact_mod_cast natCast_ne_zero (n := 21168) (by decide) (by decide)
  have discriminant : curve.Δ = -21168 := by
    simp only [WeierstrassCurve.Δ, WeierstrassCurve.b₂, WeierstrassCurve.b₄, WeierstrassCurve.b₆,
      WeierstrassCurve.b₈, curve]
    ring
  rw [discriminant]
  exact neg_ne_zero.2 h

/-! ## Jacobian coordinates -/

namespace Jacobian

/-- The triple stands for the point of the group. -/
def Stands (p : Jacobian) (P : CurvePoint) : Prop :=
  (p.z = 0 ∧ P = 0) ∨
    (p.z ≠ 0 ∧ ∃ h : curve.Nonsingular (toZMod p.x / toZMod p.z ^ 2) (toZMod p.y / toZMod p.z ^ 3),
      P = .some _ _ h)

theorem stands_infinity : infinity.Stands 0 := .inl ⟨rfl, rfl⟩

theorem negY_eq (x y : CoordinateField) : curve.negY x y = -y := by simp [negY, curve]

/-- A triple with the coordinates of a sum stands for the sum. -/
theorem stands_of_coordinates {p : Jacobian} {x y : CoordinateField} {h : curve.Nonsingular x y}
    (hz : p.z ≠ 0) (hx : toZMod p.x / toZMod p.z ^ 2 = x) (hy : toZMod p.y / toZMod p.z ^ 3 = y) :
    p.Stands (.some x y h) := by
  subst hx hy
  exact .inr ⟨hz, h, rfl⟩

theorem double_x (p : Jacobian) :
    toZMod p.double.x = 9 * toZMod p.x ^ 4 - 8 * toZMod p.x * toZMod p.y ^ 2 := by
  simp only [double, toZMod_add, toZMod_mul, toZMod_sub]
  ring

theorem double_y (p : Jacobian) :
    toZMod p.double.y = 3 * toZMod p.x ^ 2 *
      (4 * toZMod p.x * toZMod p.y ^ 2 - toZMod p.double.x) - 8 * toZMod p.y ^ 4 := by
  simp only [double, toZMod_add, toZMod_mul, toZMod_sub]
  ring

theorem double_z (p : Jacobian) : toZMod p.double.z = 2 * toZMod p.y * toZMod p.z := by
  simp only [double, toZMod_add, toZMod_mul]
  ring

/-- Doubling adds the point to itself. -/
theorem double_stands {p : Jacobian} {P : CurvePoint} (hp : p.Stands P) :
    p.double.Stands (P + P) := by
  rcases hp with ⟨hz, rfl⟩ | ⟨hz, h, rfl⟩
  · exact .inl ⟨by simp [double, hz], by simp⟩
  have hZ : toZMod p.z ≠ 0 := fun e => hz (toZMod_eq_zero.1 e)
  have two := two_ne_zero_coordinate
  by_cases hy : p.y = 0
  · -- the tangent is vertical
    refine .inl ⟨by simp [double, hy], Point.add_self_of_Y_eq ?_⟩
    rw [negY_eq, hy, toZMod_zero, zero_div, neg_zero]
  · have hY : toZMod p.y ≠ 0 := fun e => hy (toZMod_eq_zero.1 e)
    have ne : toZMod p.y / toZMod p.z ^ 3 ≠
        curve.negY (toZMod p.x / toZMod p.z ^ 2) (toZMod p.y / toZMod p.z ^ 3) := by
      rw [negY_eq]
      intro e
      refine mul_ne_zero two (div_ne_zero hY (pow_ne_zero 3 hZ)) ?_
      linear_combination e
    have slope : curve.slope (toZMod p.x / toZMod p.z ^ 2) (toZMod p.x / toZMod p.z ^ 2)
        (toZMod p.y / toZMod p.z ^ 3) (toZMod p.y / toZMod p.z ^ 3) =
        3 * toZMod p.x ^ 2 / (2 * toZMod p.y * toZMod p.z) := by
      rw [slope_of_Y_ne rfl ne, negY_eq, sub_neg_eq_add, ← two_mul]
      simp only [curve]
      field_simp
      ring
    rw [Point.add_self_of_Y_ne ne]
    have hz' : toZMod p.double.z ≠ 0 := by
      rw [double_z]; exact mul_ne_zero (mul_ne_zero two hY) hZ
    have hx' : toZMod p.double.x / toZMod p.double.z ^ 2 =
        curve.addX (toZMod p.x / toZMod p.z ^ 2) (toZMod p.x / toZMod p.z ^ 2)
          (3 * toZMod p.x ^ 2 / (2 * toZMod p.y * toZMod p.z)) := by
      rw [double_x, double_z]
      simp only [addX, curve]
      field_simp
      ring
    refine stands_of_coordinates (fun e => hz' (by rw [e, toZMod_zero])) ?_ ?_
    · rw [slope, hx']
    · rw [slope, addY, negAddY, negY_eq, ← hx', double_y, double_x, double_z]
      field_simp
      ring

/-- The chord through a point and an affine one with another `x` leads to their sum. The differences between
the two are over the denominators of the first. -/
theorem chord_stands {p : Jacobian} {x y h r : Coordinate} (hz : p.z ≠ 0)
    (hP : curve.Nonsingular (toZMod p.x / toZMod p.z ^ 2) (toZMod p.y / toZMod p.z ^ 3))
    (hQ : curve.Nonsingular (toZMod x) (toZMod y)) (hx : toZMod x = (toZMod h + toZMod p.x) / toZMod p.z ^ 2)
    (hy : toZMod y = (toZMod r + toZMod p.y) / toZMod p.z ^ 3) (h0 : h ≠ 0) :
    Stands ⟨r * r - h * (h * h) - (p.x * (h * h) + p.x * (h * h)),
      r * (p.x * (h * h) - (r * r - h * (h * h) - (p.x * (h * h) + p.x * (h * h)))) - p.y * (h * (h * h)),
      p.z * h⟩ (.some _ _ hP + .some _ _ hQ) := by
  have hZ : toZMod p.z ≠ 0 := fun e => hz (toZMod_eq_zero.1 e)
  have hH : toZMod h ≠ 0 := fun e => h0 (toZMod_eq_zero.1 e)
  have ne : toZMod p.x / toZMod p.z ^ 2 ≠ toZMod x := by
    rw [hx, Ne, div_left_inj' (pow_ne_zero 2 hZ)]
    exact fun e => hH (by linear_combination -e)
  have slope : curve.slope (toZMod p.x / toZMod p.z ^ 2) (toZMod x)
      (toZMod p.y / toZMod p.z ^ 3) (toZMod y) = toZMod r / (toZMod p.z * toZMod h) := by
    rw [slope_of_X_ne ne, hx, hy, ← sub_div, ← sub_div, sub_add_cancel_right,
      sub_add_cancel_right]
    field_simp
  rw [Point.add_of_X_ne ne]
  refine stands_of_coordinates ?_ ?_ ?_
  · rw [Ne, ← toZMod_eq_zero, toZMod_mul]
    exact mul_ne_zero hZ hH
  · rw [slope, hx]
    simp only [addX, curve, toZMod_sub, toZMod_mul, toZMod_add]
    field_simp
    ring
  · rw [slope, hx, addY, negAddY, negY_eq]
    simp only [addX, curve, toZMod_sub, toZMod_mul, toZMod_add]
    field_simp
    ring

/-- The sum with an affine point. -/
theorem addAffine_stands {p : Jacobian} {P : CurvePoint} {x y : Coordinate}
    (hp : p.Stands P) (hQ : curve.Nonsingular (toZMod x) (toZMod y)) :
    (p.addAffine x y).Stands (P + .some _ _ hQ) := by
  rcases hp with ⟨hz, rfl⟩ | ⟨hz, hP, rfl⟩
  · rw [addAffine, if_pos hz, zero_add]
    exact stands_of_coordinates (show (1 : Coordinate) ≠ 0 by decide) (by simp) (by simp)
  have hZ : toZMod p.z ≠ 0 := fun e => hz (toZMod_eq_zero.1 e)
  rw [addAffine, if_neg hz]
  dsimp only
  generalize hh : x * (p.z * p.z) - p.x = h
  generalize hr : y * (p.z * p.z * p.z) - p.y = r
  have hx : toZMod x = (toZMod h + toZMod p.x) / toZMod p.z ^ 2 := by
    rw [← hh, toZMod_sub, toZMod_mul, toZMod_mul]
    field_simp
    ring
  have hy : toZMod y = (toZMod r + toZMod p.y) / toZMod p.z ^ 3 := by
    rw [← hr, toZMod_sub, toZMod_mul, toZMod_mul, toZMod_mul]
    field_simp
    ring
  split
  · rename_i h0
    have sameX : toZMod p.x / toZMod p.z ^ 2 = toZMod x := by
      rw [hx, h0, toZMod_zero, zero_add]
    split
    · rename_i r0
      -- the two points are the same
      have sameY : toZMod p.y / toZMod p.z ^ 3 = toZMod y := by
        rw [hy, r0, toZMod_zero, zero_add]
      have same : (.some _ _ hQ : CurvePoint) = .some _ _ hP := by
        simp only [sameX, sameY]
      rw [same]
      exact double_stands (.inr ⟨hz, hP, rfl⟩)
    · rename_i r0
      refine .inl ⟨rfl, Point.add_of_Y_eq sameX ?_⟩
      rcases Y_eq_of_X_eq hP.1 hQ.1 sameX with e | e
      · refine absurd (toZMod_eq_zero.1 ?_) r0
        rw [hy, div_left_inj' (pow_ne_zero 3 hZ)] at e
        linear_combination -e
      · exact e
  · exact chord_stands hz hP hQ hx hy ‹_›

/-- The multiple by doubling and adding. -/
theorem multiple_stands {x y : Coordinate} (hQ : curve.Nonsingular (toZMod x) (toZMod y)) :
    ∀ (bits k : ℕ), k < 2 ^ bits → (multiple x y k bits).Stands (k • (.some _ _ hQ : CurvePoint))
  | 0, k, h => by
    have : k = 0 := by simpa using h
    subst this
    rw [zero_nsmul]
    exact stands_infinity
  | bits + 1, k, h => by
    have half : k / 2 < 2 ^ bits := by rw [Nat.pow_succ] at h; omega
    have ih := double_stands (multiple_stands hQ bits (k / 2) half)
    rw [← two_nsmul, ← mul_nsmul] at ih
    simp only [multiple]
    split
    · rename_i odd
      have : k = k / 2 * 2 + 1 := by omega
      conv => rhs; rw [this, succ_nsmul]
      exact addAffine_stands ih hQ
    · have : k = k / 2 * 2 := by omega
      conv => rhs; rw [this]
      exact ih

end Jacobian

/-! ## Points -/

namespace Point

/-- The point stands for the point of the group. -/
def Stands (p : Point) (P : CurvePoint) : Prop :=
  match p with
  | infinity => P = 0
  | affine x y => ∃ h : curve.Nonsingular (toZMod x) (toZMod y), P = .some _ _ h

theorem stands_infinity_iff {P : CurvePoint} : infinity.Stands P ↔ P = 0 := Iff.rfl

theorem exists_stands {p : Point} (h : p.OnCurve) : ∃ P, p.Stands P := by
  cases p with
  | infinity => exact ⟨0, rfl⟩
  | affine x y =>
    refine ⟨_, (curve_nonsingular_iff _ _).2 ?_, rfl⟩
    have := congrArg toZMod (show y * y = x * x * x + 7 from h)
    simp only [toZMod_mul, toZMod_add] at this
    have seven : toZMod (7 : Coordinate) = 7 := toZMod_ofNat 7
    rw [seven] at this
    linear_combination this

theorem Stands.onCurve {p : Point} {P : CurvePoint} (h : p.Stands P) : p.OnCurve := by
  cases p with
  | infinity => trivial
  | affine x y =>
    obtain ⟨h, -⟩ := h
    have := (curve_nonsingular_iff _ _).1 h
    show y * y = x * x * x + 7
    rw [← toZMod_inj]
    simp only [toZMod_mul, toZMod_add]
    have seven : toZMod (7 : Coordinate) = 7 := toZMod_ofNat 7
    rw [seven]
    linear_combination this

/-- A point of the group is stood for once. -/
theorem Stands.unique {p q : Point} {P : CurvePoint} (hp : p.Stands P) (hq : q.Stands P) : p = q := by
  cases p with
  | infinity =>
    cases q with
    | infinity => rfl
    | affine x y =>
      obtain ⟨h, e⟩ := hq
      rw [stands_infinity_iff.1 hp] at e
      exact absurd e.symm (Point.some_ne_zero h)
  | affine x y =>
    obtain ⟨h, rfl⟩ := hp
    cases q with
    | infinity => exact absurd (stands_infinity_iff.1 hq) (Point.some_ne_zero h)
    | affine x' y' =>
      obtain ⟨h', e⟩ := hq
      simp only [Point.some.injEq, toZMod_inj] at e
      rw [e.1, e.2]

end Point

theorem Jacobian.Stands.toPoint {p : Jacobian} {P : CurvePoint} (hp : p.Stands P) :
    p.toPoint.Stands P := by
  rcases hp with ⟨hz, rfl⟩ | ⟨hz, h, rfl⟩
  · rw [Jacobian.toPoint, if_pos hz]
    rfl
  · rw [Jacobian.toPoint, if_neg hz]
    have hZ : toZMod p.z ≠ 0 := fun e => hz (toZMod_eq_zero.1 e)
    have hx : toZMod (p.x * (inverse p.z * inverse p.z)) = toZMod p.x / toZMod p.z ^ 2 := by
      simp only [toZMod_mul, toZMod_inverse hz]
      field_simp
    have hy : toZMod (p.y * (inverse p.z * inverse p.z * inverse p.z)) =
        toZMod p.y / toZMod p.z ^ 3 := by
      simp only [toZMod_mul, toZMod_inverse hz]
      field_simp
    refine ⟨by rw [hx, hy]; exact h, ?_⟩
    simp only [hx, hy]

namespace Point

/-- The multiple of a point is the multiple of the group. -/
theorem Stands.multiple {p : Point} {P : CurvePoint} (hp : p.Stands P) (k : ℕ) :
    (p.multiple k).Stands (k • P) := by
  cases p with
  | infinity =>
    rw [stands_infinity_iff.1 hp, nsmul_zero]
    rfl
  | affine x y =>
    obtain ⟨h, rfl⟩ := hp
    exact (Jacobian.multiple_stands h _ k Nat.lt_log2_self).toPoint

theorem Stands.multiple_eq_infinity {p : Point} {P : CurvePoint} (hp : p.Stands P) (k : ℕ) :
    p.multiple k = infinity ↔ k • P = 0 := by
  have multiple := hp.multiple k
  constructor
  · intro h
    rwa [h, stands_infinity_iff] at multiple
  · exact fun h => multiple.unique (stands_infinity_iff.2 h)

theorem OnCurve.multiple {p : Point} (hp : p.OnCurve) (k : ℕ) : (p.multiple k).OnCurve := by
  obtain ⟨P, hP⟩ := exists_stands hp
  exact (hP.multiple k).onCurve

theorem multiple_multiple {p : Point} (hp : p.OnCurve) (j k : ℕ) :
    (p.multiple j).multiple k = p.multiple (j * k) := by
  obtain ⟨P, hP⟩ := exists_stands hp
  have h := (hP.multiple j).multiple k
  rw [← mul_nsmul] at h
  exact h.unique (hP.multiple (j * k))

theorem multiple_comm {p : Point} (hp : p.OnCurve) (j k : ℕ) :
    (p.multiple j).multiple k = (p.multiple k).multiple j := by
  rw [multiple_multiple hp, multiple_multiple hp, Nat.mul_comm]

@[simp] theorem multiple_infinity (k : ℕ) : infinity.multiple k = infinity := rfl

/-! ## Opposites -/

/-- The opposite point stands for the opposite in the group. -/
theorem Stands.opposite {p : Point} {P : CurvePoint} (hp : p.Stands P) : p.opposite.Stands (-P) := by
  cases p with
  | infinity =>
    rw [stands_infinity_iff.1 hp, neg_zero]
    rfl
  | affine x y =>
    obtain ⟨h, rfl⟩ := hp
    have hy : toZMod (0 - y) = curve.negY (toZMod x) (toZMod y) := by
      rw [toZMod_sub, toZMod_zero, zero_sub, Jacobian.negY_eq]
    refine ⟨by rw [hy]; exact (nonsingular_neg ..).2 h, ?_⟩
    simp only [Point.neg_some, hy]

/-- The multiple of the opposite is the opposite of the multiple. -/
theorem opposite_multiple {p : Point} (hp : p.OnCurve) (k : ℕ) :
    p.opposite.multiple k = (p.multiple k).opposite := by
  obtain ⟨P, hP⟩ := exists_stands hp
  have h := hP.opposite.multiple k
  rw [neg_nsmul] at h
  exact h.unique (hP.multiple k).opposite

/-- Two multiples whose numbers add up to the order of the subgroup are opposites. -/
theorem multiple_eq_opposite {p : Point} (hp : p.OnCurve) (inSubgroup : p.InSubgroup) {j k : ℕ}
    (h : groupOrder ∣ j + k) : p.multiple j = (p.multiple k).opposite := by
  obtain ⟨P, hP⟩ := exists_stands hp
  have torsion : groupOrder • P = 0 := (hP.multiple_eq_infinity groupOrder).1 inSubgroup
  have sum : j • P + k • P = 0 := by
    obtain ⟨m, h⟩ := h
    rw [← add_nsmul, h, mul_nsmul, torsion, nsmul_zero]
  have multiple := hP.multiple j
  rw [eq_neg_of_add_eq_zero_left sum] at multiple
  exact multiple.unique (hP.multiple k).opposite

/-! ## The generator -/

theorem generator_onCurve : generator.OnCurve := by decide +kernel

theorem generator_inSubgroup : generator.InSubgroup := by decide +kernel

/-- The generator stands for a point that the group order takes to zero, and that is not zero itself. -/
theorem exists_generator_stands : ∃ P : CurvePoint, generator.Stands P ∧ P ≠ 0 ∧ groupOrder • P = 0 := by
  obtain ⟨P, stands⟩ := exists_stands generator_onCurve
  refine ⟨P, stands, ?_, (stands.multiple_eq_infinity groupOrder).1 generator_inSubgroup⟩
  rintro rfl
  cases stands.unique (stands_infinity_iff.2 rfl)

/-- The generator has the order of the group. -/
theorem multiple_generator_eq_infinity {k : ℕ} : generator.multiple k = .infinity ↔ groupOrder ∣ k := by
  obtain ⟨P, stands, nonzero, torsion⟩ := exists_generator_stands
  rw [stands.multiple_eq_infinity, ← addOrderOf_dvd_iff_nsmul_eq_zero, addOrderOf_eq_prime torsion nonzero]

end Point

namespace KeyPair

theorem generate_eq_ofSecret {γ : Type} [RandomSource γ] (source : γ) :
    ∃ secret, (generate source).1 = ofSecret secret := by
  unfold generate
  exact ⟨_, rfl⟩

theorem ofSecret_onCurve (secret : Scalar) : (ofSecret secret).publicKey.OnCurve :=
  Point.generator_onCurve.multiple secret.val

theorem ofSecret_inSubgroup (secret : Scalar) : (ofSecret secret).publicKey.InSubgroup := by
  have h := Point.multiple_comm Point.generator_onCurve secret.val groupOrder
  rw [Point.generator_inSubgroup] at h
  exact h

end KeyPair

/-! ## Shared factors -/

/-- Two parties come to the same factor. -/
theorem Cipher.sharedFactor_comm (a b : Scalar) :
    sharedFactor (KeyPair.ofSecret a).publicKey b = sharedFactor (KeyPair.ofSecret b).publicKey a := by
  have h := Point.multiple_comm Point.generator_onCurve a.val b.val
  simp only [sharedFactor, KeyPair.ofSecret, h]

theorem Cipher.exists_factor_of_isOk {p : Point} {own : Scalar} (h : (sharedFactor p own).isOk = true) :
    ∃ factor, sharedFactor p own = .ok factor := by
  cases shared : sharedFactor p own with
  | ok factor => exact ⟨factor, rfl⟩
  | error e =>
    rw [shared] at h
    cases h

theorem Cipher.sharedFactor_ne_zero {p : Point} {own factor : Scalar}
    (h : sharedFactor p own = .ok factor) : factor ≠ 0 := by
  unfold sharedFactor at h
  split at h
  · cases h
  · dsimp only at h
    split at h
    · cases h
    · cases h
      assumption

/-- A key that shares a factor with someone is no point at infinity. -/
theorem Cipher.ne_infinity_of_sharedFactor {p : Point} {own factor : Scalar}
    (h : sharedFactor p own = .ok factor) : p ≠ .infinity := by
  rintro rfl
  simp [sharedFactor] at h

end MentalPoker
