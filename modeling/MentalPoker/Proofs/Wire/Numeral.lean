/-
Numerals by value. A text is read exactly if it is made of ASCII digits, as the number they denote in base
ten; the numeral that is written for this number is the text without its leading zeros. A list of numerals
is read up to the first bad one, and what is wrong with that one is what is wrong with the list.
-/
import MentalPoker.Wire.Numeral
import Mathlib.Data.List.Forall2
import Mathlib.Data.List.Induction
import Mathlib.Data.Nat.Digits.Defs
import Mathlib.Tactic.Common

namespace MentalPoker

/-! ## Decimal numerals -/

namespace Decimal

/-- The text is one ASCII digit or more, and nothing else. -/
def IsNumeral (text : String) : Prop := text.toList ≠ [] ∧ ∀ c ∈ text.toList, '0' ≤ c ∧ c ≤ '9'

instance (text : String) : Decidable (IsNumeral text) := inferInstanceAs (Decidable (_ ∧ _))

/-- What the digits of a text denote in base ten, the last digit counting once. -/
def value (text : String) : ℕ := Nat.ofDigits 10 (text.toList.reverse.map fun c => c.toNat - '0'.toNat)

/-- The text without its leading zeros, of which one stays if there is nothing else. -/
def canonical (text : String) : String :=
  match text.toList.dropWhile (· = '0') with
  | [] => "0"
  | digits => String.ofList digits

theorem isDigit_iff (c : Char) : c.isDigit = true ↔ '0' ≤ c ∧ c ≤ '9' := by
  simp [Char.isDigit, Char.le_def]

theorem ofDigitChars_eq_ofDigits (digits : List Char) :
    Nat.ofDigitChars 10 digits 0 = Nat.ofDigits 10 (digits.reverse.map fun c => c.toNat - '0'.toNat) := by
  induction digits using List.reverseRecOn with
  | nil => rfl
  | append_singleton digits c ih =>
    rw [Nat.ofDigitChars_append, Nat.ofDigitChars_cons, Nat.ofDigitChars_nil, List.reverse_append,
      List.reverse_singleton, List.singleton_append, List.map_cons, Nat.ofDigits_cons, ih, Nat.add_comm]

theorem read?_eq (text : String) : read? text = if IsNumeral text then some (value text) else none := by
  have same : IsNumeral text ↔ text.toList ≠ [] ∧ text.toList.all Char.isDigit = true := by
    simp only [IsNumeral, List.all_eq_true, isDigit_iff]
  simp only [read?, same, value, ofDigitChars_eq_ofDigits]

theorem read?_eq_some_iff {text : String} {n : ℕ} : read? text = some n ↔ IsNumeral text ∧ value text = n := by
  rw [read?_eq]
  split <;> simp_all

/-! ## Leading zeros -/

theorem digit_lt_ten {c : Char} (digit : '0' ≤ c ∧ c ≤ '9') : c.toNat - '0'.toNat < 10 := by
  have high : c.toNat ≤ 57 := digit.2
  rw [show '0'.toNat = 48 from rfl]
  omega

/-- The digit of a character's value is the character. -/
theorem digitChar_value {c : Char} (digit : '0' ≤ c ∧ c ≤ '9') : (c.toNat - '0'.toNat).digitChar = c := by
  have low : '0'.toNat ≤ c.toNat := digit.1
  have all : ∀ d < 10, d.digitChar = Char.ofNat (d + '0'.toNat) := by decide
  rw [all _ (digit_lt_ten digit), Nat.sub_add_cancel low, Char.ofNat_toNat]

/-- Digits that follow on a number above zero are written as they are. -/
theorem toDigits_ofDigitChars : ∀ {digits : List Char}, (∀ c ∈ digits, '0' ≤ c ∧ c ≤ '9') →
    ∀ {n : ℕ}, 0 < n → Nat.toDigits 10 (Nat.ofDigitChars 10 digits n) = Nat.toDigits 10 n ++ digits
  | [], _, n, _ => by rw [Nat.ofDigitChars_nil, List.append_nil]
  | c :: digits, all, n, pos => by
    obtain ⟨digit, rest⟩ := List.forall_mem_cons.1 all
    rw [Nat.ofDigitChars_cons, toDigits_ofDigitChars rest (by omega),
      ← Nat.toDigits_append_toDigits (by decide) pos (digit_lt_ten digit),
      Nat.toDigits_of_lt_base (digit_lt_ten digit), digitChar_value digit, List.append_assoc, List.singleton_append]

/-- Leading zeros do not count. -/
theorem ofDigitChars_dropWhile (digits : List Char) :
    Nat.ofDigitChars 10 (digits.dropWhile (· = '0')) 0 = Nat.ofDigitChars 10 digits 0 := by
  induction digits with
  | nil => rfl
  | cons c digits ih =>
    rw [List.dropWhile_cons]
    split
    · rename_i zero
      rw [ih, of_decide_eq_true zero]
      rfl
    · rfl

/-- The numeral of a number that was read is the text without its leading zeros. -/
theorem write_value {text : String} (numeral : IsNumeral text) : write (value text) = canonical text := by
  rw [write, value, ← ofDigitChars_eq_ofDigits, ← ofDigitChars_dropWhile, canonical]
  have digits : ∀ c ∈ text.toList.dropWhile (· = '0'), '0' ≤ c ∧ c ≤ '9' :=
    fun c member => numeral.2 c ((List.dropWhile_sublist _).mem member)
  cases left : text.toList.dropWhile (· = '0') with
  | nil => rfl
  | cons c rest =>
    have first : c ≠ '0' := by
      have := List.head_dropWhile_not (l := text.toList) (p := fun c => decide (c = '0')) (by rw [left]; simp)
      simpa [left] using this
    rw [left] at digits
    obtain ⟨digit, others⟩ := List.forall_mem_cons.1 digits
    have pos : 0 < c.toNat - '0'.toNat := by
      have low : '0'.toNat ≤ c.toNat := digit.1
      have differ : c.toNat ≠ '0'.toNat := fun same => first (Char.toNat_inj.1 same)
      omega
    rw [Nat.ofDigitChars_cons, Nat.mul_zero, Nat.zero_add, toDigits_ofDigitChars others pos,
      Nat.toDigits_of_lt_base (digit_lt_ten digit), digitChar_value digit]
    rfl

end Decimal

/-! ## Residues -/

namespace Residue

variable {m : ℕ}

/-- The text is a numeral of a value below the modulus. -/
def Fits (m : ℕ) (text : String) : Prop := Decimal.IsNumeral text ∧ Decimal.value text < m

/-- Why a text is not read as a residue. -/
inductive Unfit (m : ℕ) (text : String) : DealError → Prop
  | notDecimal (bad : ¬ Decimal.IsNumeral text) : Unfit m text (.notDecimal text)
  | outOfRange (numeral : Decimal.IsNumeral text) (high : m ≤ Decimal.value text) : Unfit m text (.outOfRange text)

theorem Unfit.not_fits {text : String} {e : DealError} (unfit : Unfit m text e) : ¬ Fits m text := by
  cases unfit with
  | notDecimal bad => exact fun fits => bad fits.1
  | outOfRange _ high => exact fun fits => Nat.not_le_of_lt fits.2 high

theorem read_eq_ok_iff {text : String} {a : Fin m} :
    read text = .ok a ↔ Fits m text ∧ Decimal.value text = a.val := by
  have numeral : Decimal.read? text = some a.val ↔ Fits m text ∧ Decimal.value text = a.val := by
    rw [Decimal.read?_eq_some_iff]
    exact ⟨fun ⟨digits, same⟩ => ⟨⟨digits, same ▸ a.isLt⟩, same⟩, fun ⟨fits, same⟩ => ⟨fits.1, same⟩⟩
  rw [← numeral, read]
  cases Decimal.read? text with
  | none => simp
  | some n =>
    dsimp only
    split
    · simp [Fin.ext_iff]
    · rename_i high
      simp only [reduceCtorEq, Option.some.injEq, false_iff]
      rintro rfl
      exact high a.isLt

theorem exists_read_iff {text : String} : (∃ a : Fin m, read text = .ok a) ↔ Fits m text := by
  simp only [read_eq_ok_iff]
  exact ⟨fun ⟨_, fits, _⟩ => fits, fun fits => ⟨⟨_, fits.2⟩, fits, rfl⟩⟩

theorem read_eq_error_iff {text : String} {e : DealError} :
    (read text : Except DealError (Fin m)) = .error e ↔ Unfit m text e := by
  rw [read, Decimal.read?_eq]
  by_cases numeral : Decimal.IsNumeral text
  · rw [if_pos numeral]
    dsimp only
    split
    · rename_i low
      exact ⟨nofun, fun
        | .notDecimal bad => absurd numeral bad
        | .outOfRange _ high => absurd low (Nat.not_lt.2 high)⟩
    · rename_i high
      constructor
      · rintro ⟨⟩
        exact .outOfRange numeral (Nat.le_of_not_lt high)
      · rintro (bad | _)
        · exact absurd numeral bad
        · rfl
  · rw [if_neg numeral]
    constructor
    · rintro ⟨⟩
      exact .notDecimal numeral
    · rintro (_ | ⟨numeral', -⟩)
      · rfl
      · exact absurd numeral' numeral

end Residue

/-! ## Lists of numerals -/

section

variable {α β ε : Type} {f : α → Except ε β}

/-- A list is read if each of its items is. -/
theorem mapM_eq_ok_iff {xs : List α} {ys : List β} :
    xs.mapM f = .ok ys ↔ List.Forall₂ (fun x y => f x = .ok y) xs ys := by
  induction xs generalizing ys with
  | nil => cases ys <;> simp [pure, Except.pure]
  | cons x xs ih =>
    rw [List.mapM_cons, List.forall₂_cons_left_iff]
    cases first : f x with
    | error e => simp [bind, Except.bind]
    | ok y =>
      cases rest : xs.mapM f with
      | error e => simp [bind, Except.bind, ← ih, rest]
      | ok zs => simp [bind, Except.bind, pure, Except.pure, ← ih, rest, eq_comm]

/-- The first item that is not read says why the list is not. -/
theorem mapM_eq_error_iff {xs : List α} {e : ε} :
    xs.mapM f = .error e ↔
      ∃ before x after, xs = before ++ x :: after ∧ (∀ y ∈ before, ∃ b, f y = .ok b) ∧ f x = .error e := by
  constructor
  · intro fails
    induction xs with
    | nil => cases fails
    | cons x xs ih =>
      rw [List.mapM_cons] at fails
      cases first : f x with
      | error e' =>
        rw [first] at fails
        cases fails
        exact ⟨[], x, xs, rfl, nofun, first⟩
      | ok y =>
        rw [first] at fails
        cases rest : xs.mapM f with
        | ok ys =>
          rw [rest] at fails
          cases fails
        | error e' =>
          rw [rest] at fails
          cases fails
          obtain ⟨before, x', after, rfl, read, bad⟩ := ih rest
          exact ⟨x :: before, x', after, rfl, List.forall_mem_cons.2 ⟨⟨y, first⟩, read⟩, bad⟩
  · rintro ⟨before, x, after, rfl, read, bad⟩
    induction before with
    | nil =>
      rw [List.nil_append, List.mapM_cons, bad]
      rfl
    | cons y before ih =>
      obtain ⟨⟨b, first⟩, read⟩ := List.forall_mem_cons.1 read
      rw [List.cons_append, List.mapM_cons, first, ih read]
      rfl

end

namespace Residue

variable {m : ℕ} {texts : List String}

/-- The residues of a list of numerals have their values, in the same order. -/
theorem mapM_read_eq_ok_iff {entries : List (Fin m)} :
    texts.mapM read = .ok entries ↔
      (∀ text ∈ texts, Fits m text) ∧ texts.map Decimal.value = entries.map Fin.val := by
  simp only [mapM_eq_ok_iff, read_eq_ok_iff, List.forall₂_and_left]
  rw [← List.forall₂_eq_eq_eq, List.forall₂_map_left_iff, List.forall₂_map_right_iff]

/-- What is wrong with a list of numerals is what is wrong with the first bad one. -/
theorem mapM_read_eq_error_iff {e : DealError} :
    (texts.mapM read : Except DealError (List (Fin m))) = .error e ↔
      ∃ before text after, texts = before ++ text :: after ∧ (∀ t ∈ before, Fits m t) ∧ Unfit m text e := by
  simp only [mapM_eq_error_iff, exists_read_iff, read_eq_error_iff]

end Residue

end MentalPoker
