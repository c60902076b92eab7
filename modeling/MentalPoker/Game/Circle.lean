/-
The seats of a table as a circle: after the last seat comes the first. The dealer's seat anchors the
order in which the players act.
-/

namespace MentalPoker.Circle

variable {α : Type} [BEq α]

/-- The place of a player's seat. -/
def position? (players : List α) (player : α) : Option Nat := players.idxOf? player

/-- The player who acts right after `player`. -/
def next? (players : List α) (player : α) : Option α := do
  let i ← position? players player
  players[(i + 1) % players.length]?

/-- The player who acts right before `player`. -/
def previous? (players : List α) (player : α) : Option α := do
  let i ← position? players player
  players[(i + players.length - 1) % players.length]?

/-- Every seat once, from the dealer's seat on. -/
def rotation? (players : List α) (dealer : α) : Option (List α) := do
  let i ← position? players dealer
  return players.drop i ++ players.take i

/-- How many seats after the dealer a player sits; the dealer sits a whole turn after itself. -/
def distance? (players : List α) (dealer player : α) : Option Nat := do
  let d ← position? players dealer
  let p ← position? players player
  let steps := (p + players.length - d) % players.length
  return if steps = 0 then players.length else steps

end MentalPoker.Circle
