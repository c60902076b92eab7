/-
The shuffle loses no entry and makes none: its choices are indices of the entries that are left,
whatever the source draws, and what choices make of a list is a permutation of it.
-/
import MentalPoker.Card.Deck
import Mathlib.Data.List.Perm.Basic
import Mathlib.Tactic.Common

namespace MentalPoker

variable {α γ : Type}

/-! ## Draws -/

namespace RandomSource

/-- What holds of every draw holds of the one that is accepted. -/
theorem drawUntil_holds {P : α → Prop} {accept : α → Bool} {draw : γ → α × γ}
    (each : ∀ source, P (draw source).1) :
    ∀ attempts source, P (drawUntil accept draw attempts source).1
  | 0, source => each source
  | attempts + 1, source => by
    rw [drawUntil]
    dsimp only
    split
    · exact each source
    · exact drawUntil_holds each attempts _

theorem below_lt [RandomSource γ] {bound : Nat} (pos : 0 < bound) (source : γ) :
    (below bound source).1 < bound := by
  have product : (drawUntil (fun product => product % wordCount ≤ bound <<< (63 - bound.log2) - 1)
      (fun source : γ => ((nextUInt64 source).1.toNat * bound, (nextUInt64 source).2))
      maxAttempts source).1 < wordCount * bound := by
    refine drawUntil_holds (P := (· < wordCount * bound)) (fun source => ?_) _ _
    exact (Nat.mul_lt_mul_right pos).2 (nextUInt64 source).1.toNat_lt
  exact Nat.div_lt_of_lt_mul product

end RandomSource

/-! ## Choices -/

namespace Shuffle

/-- The choices take every entry of a list of `size`: one of `size`, then one of `size - 1`, and so
on. -/
def Fit : (choices : List Nat) → (size : Nat) → Prop
  | [], size => size = 0
  | _ :: _, 0 => False
  | i :: choices, size + 1 => i < size + 1 ∧ Fit choices size

theorem choose_fit [RandomSource γ] : ∀ (size : Nat) (source : γ), Fit (choose size source).1 size
  | 0, _ => rfl
  | size + 1, source => ⟨RandomSource.below_lt (Nat.succ_pos size) source, choose_fit size _⟩

/-- The entry taken and those that are left, the last of them in its place, are the entries. -/
theorem fillGap_perm {xs : List α} {i : Nat} (h : i < xs.length) :
    (xs[i] :: fillGap xs i).Perm xs := by
  rcases List.eq_nil_or_concat' xs with rfl | ⟨front, last, rfl⟩
  · simp at h
  have gap : fillGap (front ++ [last]) i = ((front ++ [last]).set i last).dropLast := by
    simp [fillGap]
  rw [gap]
  by_cases inside : i < front.length
  · rw [List.set_append_left i last inside, List.dropLast_concat, List.getElem_append_left inside]
    calc (front[i] :: front.set i last).Perm (front[i] :: last :: front.eraseIdx i) :=
          (List.set_perm_cons_eraseIdx inside last).cons _
      _ |>.Perm (last :: front[i] :: front.eraseIdx i) := .swap _ _ _
      _ |>.Perm (last :: front) := (List.getElem_cons_eraseIdx_perm inside).cons _
      _ |>.Perm (front ++ [last]) := (List.perm_append_singleton last front).symm
  · have end_ : i = front.length := by simp at h; omega
    subst end_
    simp [List.set_append_right, List.perm_append_singleton last front |>.symm]

theorem length_fillGap {xs : List α} {i : Nat} (inside : i < xs.length) :
    (fillGap xs i).length + 1 = xs.length := by
  have := (fillGap_perm inside).length_eq
  simpa using this

theorem fit_cons_iff {i : Nat} {choices : List Nat} {xs : List α} :
    Fit (i :: choices) xs.length ↔ i < xs.length ∧ Fit choices (fillGap xs i).length := by
  cases length : xs.length with
  | zero => simp [Fit]
  | succ n =>
    rw [Fit]
    refine and_congr_right fun inside => ?_
    have := length_fillGap (length ▸ inside)
    rw [show (fillGap xs i).length = n by omega]

theorem arrange_cons {i : Nat} {xs : List α} (inside : i < xs.length) (choices : List Nat) :
    arrange (i :: choices) xs = xs[i] :: arrange choices (fillGap xs i) := by
  rw [arrange, List.getElem?_eq_getElem inside]

theorem arrange_perm : ∀ {choices : List Nat} {xs : List α}, Fit choices xs.length →
    (arrange choices xs).Perm xs
  | [], xs, h => by
    rw [List.length_eq_zero_iff.1 h]
    exact .refl _
  | i :: choices, xs, h => by
    obtain ⟨inside, rest⟩ := fit_cons_iff.1 h
    rw [arrange_cons inside]
    exact ((arrange_perm rest).cons _).trans (fillGap_perm inside)

/-- The shuffled list has the same entries, whatever the source: those that come to the limit
`RandomSource.maxAttempts` too. -/
theorem shuffle_perm [RandomSource γ] (xs : List α) (source : γ) : (shuffle xs source).1.Perm xs :=
  arrange_perm (choose_fit xs.length source)

end Shuffle

theorem Deck.shuffle_perm [RandomSource γ] (deck : Deck α) (source : γ) :
    (deck.shuffle source).1.entries.Perm deck.entries :=
  Shuffle.shuffle_perm deck.entries source

end MentalPoker
