/-
Places and counts are words of 64 bits. What becomes of a sum or a product that no word holds is
settled when the program is built: either it stops, or the number loses what is above the word.
-/

namespace MentalPoker

/-- What becomes of a number that no word holds. -/
inductive Overflow where
  | stops
  | wraps
deriving DecidableEq

namespace Overflow

/-- The word for a number, if the program goes on. -/
def word? : Overflow → Nat → Option Nat
  | stops, n => if n < UInt64.size then some n else none
  | wraps, n => some (n % UInt64.size)

variable {overflow : Overflow} {n : Nat}

theorem word?_of_lt (overflow : Overflow) (fits : n < UInt64.size) : overflow.word? n = some n := by
  cases overflow with
  | stops => exact if_pos fits
  | wraps => exact congrArg some (Nat.mod_eq_of_lt fits)

theorem word?_stops_eq_none_iff : stops.word? n = none ↔ UInt64.size ≤ n := by
  simp only [word?, ite_eq_right_iff, reduceCtorEq, imp_false, Nat.not_lt]

theorem lt_of_word? {word : Nat} (computed : overflow.word? n = some word) : word < UInt64.size := by
  cases overflow with
  | stops =>
    simp only [word?, Option.ite_none_right_eq_some, Option.some.injEq] at computed
    exact computed.2 ▸ computed.1
  | wraps =>
    simp only [word?, Option.some.injEq] at computed
    exact computed ▸ Nat.mod_lt _ (by decide)

/-- A sum of words that comes out no smaller than the first of them is their sum. -/
theorem eq_add_of_word? {first second sum : Nat} (word : first < UInt64.size) (word' : second < UInt64.size)
    (computed : overflow.word? (first + second) = some sum) (order : first ≤ sum) : sum = first + second := by
  cases overflow with
  | stops =>
    simp only [word?, Option.ite_none_right_eq_some, Option.some.injEq] at computed
    exact computed.2.symm
  | wraps =>
    simp only [word?, Option.some.injEq, UInt64.size] at computed word word'
    omega

end Overflow

end MentalPoker
