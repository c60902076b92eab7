/-
Arithmetic modulo the two primes: `Residue.power` is the power, `Residue.inverse` is the inverse, and
the field prime and the group order are primes. A residue is carried over to `ZMod m`, where the
algebra of Mathlib is at hand, and the tests of primality are evaluated with `Residue.power`.
-/
import MentalPoker.Curve.Residue
import Mathlib.NumberTheory.LucasPrimality
import Mathlib.FieldTheory.Finite.Basic
import Mathlib.Data.List.Prime
import Mathlib.Tactic.NormNum.Prime

namespace MentalPoker

namespace Residue

section

variable {m : ℕ}

/-! ## Residues in `ZMod m` -/

/-- The residue among the integers modulo `m`. -/
def toZMod (a : Fin m) : ZMod m := (a.val : ZMod m)

theorem toZMod_inj {a b : Fin m} : toZMod a = toZMod b ↔ a = b := by
  constructor
  · intro h
    have := (ZMod.natCast_eq_natCast_iff' a.val b.val m).1 h
    rw [Nat.mod_eq_of_lt a.isLt, Nat.mod_eq_of_lt b.isLt] at this
    exact Fin.ext this
  · rintro rfl; rfl

@[simp] theorem toZMod_add (a b : Fin m) : toZMod (a + b) = toZMod a + toZMod b := by
  simp [toZMod, Fin.val_add]

@[simp] theorem toZMod_mul (a b : Fin m) : toZMod (a * b) = toZMod a * toZMod b := by
  simp [toZMod, Fin.val_mul]

@[simp] theorem toZMod_sub (a b : Fin m) : toZMod (a - b) = toZMod a - toZMod b := by
  have le : b.val ≤ m := b.isLt.le
  simp [toZMod, Fin.sub_def, Nat.cast_sub le]
  ring

variable [Modulus m]

@[simp] theorem toZMod_zero : toZMod (0 : Fin m) = 0 := by
  simp [toZMod]

@[simp] theorem toZMod_one : toZMod (1 : Fin m) = 1 := by
  simp [toZMod]

@[simp] theorem toZMod_ofNat (n : ℕ) : toZMod (Fin.ofNat m n) = (n : ZMod m) := by
  simp [toZMod, Fin.ofNat]

theorem toZMod_eq_zero {a : Fin m} : toZMod a = 0 ↔ a = 0 := by
  rw [← toZMod_zero, toZMod_inj]

/-! ## Powers -/

/-- Repeated squaring computes the power. -/
theorem toZMod_power (a : Fin m) :
    ∀ (bits k : ℕ), k < 2 ^ bits → toZMod (power a k bits) = toZMod a ^ k
  | 0, k, h => by
    have : k = 0 := by simpa using h
    subst this
    simp [power]
  | bits + 1, k, h => by
    have half : k / 2 < 2 ^ bits := by rw [Nat.pow_succ] at h; omega
    have ih := toZMod_power a bits (k / 2) half
    have even : toZMod a ^ (2 * (k / 2)) = toZMod a ^ (k / 2) * toZMod a ^ (k / 2) := by
      rw [two_mul, pow_add]
    simp only [power]
    split
    · rename_i odd
      have : k = 2 * (k / 2) + 1 := by omega
      conv_rhs => rw [this, pow_succ, even]
      simp [ih]
    · have : k = 2 * (k / 2) := by omega
      conv_rhs => rw [this, even]
      simp [ih]

/-! ## Lucas's test -/

/-- Lucas's test with a witness `a` and the prime factors of `m - 1`. -/
def passesLucas (bits : ℕ) (a : Fin m) (factors : List ℕ) : Bool :=
  m - 1 < 2 ^ bits && factors.prod == m - 1 && power a (m - 1) bits == 1 &&
    factors.all fun q => power a ((m - 1) / q) bits != 1

theorem prime_of_passesLucas {bits : ℕ} {a : Fin m} {factors : List ℕ}
    (primes : ∀ q ∈ factors, q.Prime) (passes : passesLucas bits a factors = true) : m.Prime := by
  simp only [passesLucas, Bool.and_eq_true, decide_eq_true_eq, List.all_eq_true, beq_iff_eq,
    bne_iff_ne, ne_eq] at passes
  obtain ⟨⟨⟨small, product⟩, whole⟩, parts⟩ := passes
  refine lucas_primality m (toZMod a) ?_ fun q hq divides => ?_
  · rw [← toZMod_power a bits _ small, whole, toZMod_one]
  · have mem : q ∈ factors := by
      rw [← product] at divides
      obtain ⟨r, hr, hqr⟩ := (Prime.dvd_prod_iff hq.prime).1 divides
      rwa [(Nat.prime_dvd_prime_iff_eq hq (primes r hr)).1 hqr]
    have part : (m - 1) / q < 2 ^ bits := lt_of_le_of_lt (Nat.div_le_self _ _) small
    rw [← toZMod_power a bits _ part, ← toZMod_one, ne_eq, toZMod_inj]
    exact parts q mem

end

/-! ## The two primes -/

/-- A table of numbers, each with a witness and the prime factors of the number before it. The
factors are known beforehand or stand in an earlier line. -/
def tablePasses : (known : List ℕ) → List (ℕ × ℕ × List ℕ) → Bool
  | _, [] => true
  | _, (0, _) :: _ => false
  | known, (m + 1, a, factors) :: table =>
    factors.all (· ∈ known) && passesLucas 256 (Fin.ofNat (m + 1) a) factors &&
      tablePasses ((m + 1) :: known) table

theorem primes_of_tablePasses :
    ∀ (table : List (ℕ × ℕ × List ℕ)) (known : List ℕ), (∀ q ∈ known, q.Prime) →
      tablePasses known table = true → ∀ line ∈ table, line.1.Prime
  | [], _, _, _, _, mem => by cases mem
  | (0, _) :: _, _, _, passes, _, _ => by simp [tablePasses] at passes
  | (m + 1, a, factors) :: table, known, primes, passes, line, mem => by
    simp only [tablePasses, Bool.and_eq_true, List.all_eq_true, decide_eq_true_eq] at passes
    obtain ⟨⟨isKnown, lucas⟩, rest⟩ := passes
    have prime : (m + 1).Prime := prime_of_passesLucas (fun q hq => primes q (isKnown q hq)) lucas
    rcases List.mem_cons.1 mem with rfl | mem
    · exact prime
    · refine primes_of_tablePasses table ((m + 1) :: known) (fun q hq => ?_) rest line mem
      rcases List.mem_cons.1 hq with rfl | hq
      · exact prime
      · exact primes q hq

/-- Primes small enough to be tried for divisors. -/
def smallPrimes : List ℕ :=
  [2, 3, 5, 7, 11, 17, 29, 31, 41, 53, 59, 97, 109, 149, 293, 461, 631, 797, 971, 1373, 1627, 1871,
    2011, 2621, 2657, 4051, 4423, 5323, 7723, 9349, 13441, 16699, 20113, 24809, 28181, 41201, 85831, 96557, 120233,
    305873]

theorem prime_of_mem_smallPrimes : ∀ q ∈ smallPrimes, q.Prime := by
  simp only [smallPrimes, List.forall_mem_cons]
  norm_num

/-- The chain of numbers that leads to the two moduli. -/
def primeTable : List (ℕ × ℕ × List ℕ) :=
  [(1206781, 10, [2, 2, 3, 5, 20113]),
    (1627771, 3, [2, 3, 5, 29, 1871]),
    (4681609, 23, [2, 2, 2, 3, 97, 2011]),
    (7240687, 3, [2, 3, 1206781]),
    (13331831, 13, [2, 5, 971, 1373]),
    (44706919, 6, [2, 3, 797, 9349]),
    (107590001, 3, [2, 2, 2, 2, 5, 5, 5, 5, 7, 29, 53]),
    (545358713, 5, [2, 2, 2, 41, 59, 28181]),
    (173378833005251801, 6, [2, 2, 2, 5, 5, 2621, 24809, 13331831]),
    (22149492674086928081353, 5, [2, 2, 2, 3, 5323, 173378833005251801]),
    (132896956044521568488119, 6, [2, 3, 22149492674086928081353]),
    (255515944373312847190720520512484175977, 3,
      [2, 2, 2, 7, 7, 11, 1627, 2657, 4423, 41201, 96557, 7240687, 107590001]),
    (205115282021455665897114700593932402728804164701536103180137503955397371, 10,
      [2, 3, 5, 29, 29, 31, 7723, 132896956044521568488119,
        255515944373312847190720520512484175977]),
    (fieldPrime, 3,
      [2, 3, 7, 13441, 205115282021455665897114700593932402728804164701536103180137503955397371]),
    (107361793816595537, 3, [2, 2, 2, 2, 16699, 85831, 4681609]),
    (174723607534414371449, 3, [2, 2, 2, 17, 59, 4051, 120233, 44706919]),
    (297159362677, 2, [2, 2, 3, 3, 11, 461, 1627771]),
    (29047611873442575647497758179, 2, [2, 293, 305873, 545358713, 297159362677]),
    (341948486974166000522343609283189, 2,
      [2, 2, 3, 3, 3, 109, 29047611873442575647497758179]),
    (groupOrder, 7,
      [2, 2, 2, 2, 2, 2, 3, 149, 631, 107361793816595537, 174723607534414371449,
        341948486974166000522343609283189])]

theorem prime_of_mem_primeTable : ∀ line ∈ primeTable, line.1.Prime :=
  primes_of_tablePasses primeTable smallPrimes prime_of_mem_smallPrimes (by decide +kernel)

end Residue

theorem fieldPrime_prime : fieldPrime.Prime := by
  have mem : fieldPrime ∈ Residue.primeTable.map (·.1) := by simp [Residue.primeTable]
  obtain ⟨line, hline, h⟩ := List.mem_map.1 mem
  exact h ▸ Residue.prime_of_mem_primeTable line hline

theorem groupOrder_prime : groupOrder.Prime := by
  have mem : groupOrder ∈ Residue.primeTable.map (·.1) := by simp [Residue.primeTable]
  obtain ⟨line, hline, h⟩ := List.mem_map.1 mem
  exact h ▸ Residue.prime_of_mem_primeTable line hline

instance : Fact fieldPrime.Prime := ⟨fieldPrime_prime⟩

instance : Fact groupOrder.Prime := ⟨groupOrder_prime⟩

/-! ## Inverses -/

namespace Residue

/-- By Fermat's little theorem. -/
theorem toZMod_inverse {m : ℕ} [Modulus m] [Fact m.Prime] {a : Fin m} (ha : a ≠ 0) :
    toZMod (inverse a) = (toZMod a)⁻¹ := by
  have two : 2 ≤ m := (Fact.out : m.Prime).two_le
  have small : m - 2 < 2 ^ (m.log2 + 1) :=
    lt_of_le_of_lt (Nat.sub_le m 2) Nat.lt_log2_self
  have nonzero : toZMod a ≠ 0 := fun h => ha (toZMod_eq_zero.1 h)
  rw [inverse, toZMod_power a _ _ small]
  apply eq_inv_of_mul_eq_one_left
  rw [← pow_succ, show m - 2 + 1 = m - 1 by omega, ZMod.pow_card_sub_one_eq_one nonzero]

theorem mul_inverse {m : ℕ} [Modulus m] [Fact m.Prime] {a : Fin m} (ha : a ≠ 0) :
    a * inverse a = 1 := by
  have nonzero : toZMod a ≠ 0 := fun h => ha (toZMod_eq_zero.1 h)
  rw [← toZMod_inj, toZMod_mul, toZMod_inverse ha, toZMod_one, mul_inv_cancel₀ nonzero]

theorem mul_eq_zero_iff {m : ℕ} [Modulus m] [Fact m.Prime] {a b : Fin m} : a * b = 0 ↔ a = 0 ∨ b = 0 := by
  rw [← toZMod_eq_zero, toZMod_mul, mul_eq_zero, toZMod_eq_zero, toZMod_eq_zero]

theorem mul_eq_mul_iff {m : ℕ} [Modulus m] [Fact m.Prime] {a b c : Fin m} :
    a * b = a * c ↔ b = c ∨ a = 0 := by
  rw [← toZMod_inj, toZMod_mul, toZMod_mul, mul_eq_mul_left_iff, toZMod_inj, toZMod_eq_zero]

theorem mul_inverse_eq_iff {m : ℕ} [Modulus m] [Fact m.Prime] {a b c : Fin m} (hb : b ≠ 0) :
    a * inverse b = c ↔ a = c * b := by
  have nonzero : toZMod b ≠ 0 := fun h => hb (toZMod_eq_zero.1 h)
  rw [← toZMod_inj, toZMod_mul, toZMod_inverse hb, mul_inv_eq_iff_eq_mul₀ nonzero, ← toZMod_mul, toZMod_inj]

theorem inverse_ne_zero {m : ℕ} [Modulus m] [Fact m.Prime] {a : Fin m} (ha : a ≠ 0) : inverse a ≠ 0 := by
  rw [Ne, ← toZMod_eq_zero, toZMod_inverse ha]
  exact inv_ne_zero fun h => ha (toZMod_eq_zero.1 h)

end Residue

end MentalPoker
