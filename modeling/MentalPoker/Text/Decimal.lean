/-
Decimal numerals, the form in which numbers travel in payloads. Written numerals have no leading
zeros; leading zeros are accepted when reading, and nothing else than the ten ASCII digits is.
-/

namespace MentalPoker.Decimal

/-- The numeral of a number. -/
def write (n : Nat) : String := String.ofList (Nat.toDigits 10 n)

/-- The number a numeral stands for; `none` if the text is empty or holds anything but digits. -/
def read? (s : String) : Option Nat :=
  let digits := s.toList
  if digits ≠ [] ∧ digits.all Char.isDigit then some (Nat.ofDigitChars 10 digits 0) else none

theorem read?_write (n : Nat) : read? (write n) = some n := by
  have digits : ∀ c ∈ Nat.toDigits 10 n, c.isDigit = true :=
    fun _ h => Nat.isDigit_of_mem_toDigits (by decide) (by decide) h
  have nonempty : Nat.toDigits 10 n ≠ [] := by
    intro h
    have := Nat.length_toDigits_pos (b := 10) (n := n)
    simp [h] at this
  simp only [read?, write, String.toList_ofList]
  rw [if_pos ⟨nonempty, List.all_eq_true.2 digits⟩,
    Nat.ofDigitChars_toDigits (by decide) (by decide)]

end MentalPoker.Decimal
