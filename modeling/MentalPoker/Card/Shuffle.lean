/-
The shuffle. As often as there are entries left, one of them is taken, each with the same chance,
and the last entry moves into the gap. What is drawn depends on the number of entries alone, so a
shuffle is a list of choices and what `arrange` makes of it.
-/
import MentalPoker.Random.Source

namespace MentalPoker.Shuffle

variable {α γ : Type}

/-- The list without its entry at place `i`, the last entry having moved there. -/
def fillGap (xs : List α) (i : Nat) : List α :=
  match xs.getLast? with
  | none => []
  | some last => (xs.set i last).dropLast

/-- The entries in the order in which the choices take them. -/
def arrange : (choices : List Nat) → List α → List α
  | [], _ => []
  | i :: choices, xs =>
    match xs[i]? with
    | none => []
    | some x => x :: arrange choices (fillGap xs i)

/-- Choices for a list of `size` entries: an index below `size`, one below `size - 1`, and so on. -/
def choose [RandomSource γ] : (size : Nat) → γ → List Nat × γ
  | 0, source => ([], source)
  | size + 1, source =>
    let (i, source) := RandomSource.below (size + 1) source
    let (choices, source) := choose size source
    (i :: choices, source)

/-- The list in random order. -/
def shuffle [RandomSource γ] (xs : List α) (source : γ) : List α × γ :=
  let (choices, source) := choose xs.length source
  (arrange choices xs, source)

end MentalPoker.Shuffle
