/-
Transaction categories. A category names the step a transaction belongs to and its game, in the form
`<start><tag>:<game>`, cut to the length the ledger allows.
-/
import MentalPoker.Ledger.Basic

namespace MentalPoker

/-- The steps of a deal that leave transactions. -/
inductive Step where
  | join | publicKey | shuffle | decrypt
deriving DecidableEq

namespace Step

def all : List Step := [join, publicKey, shuffle, decrypt]

def tag : Step → String
  | join => "join"
  | publicKey => "pk"
  | shuffle => "shuf"
  | decrypt => "dec"

end Step

/-- What the transactions of one step of one game have in common. -/
structure Category where
  name : String
deriving DecidableEq

namespace Category

/-- The longest beginning of whole characters that takes at most `size` bytes. -/
def cut (size : Nat) : List Char → List Char
  | [] => []
  | c :: cs => if c.utf8Size ≤ size then c :: cut (size - c.utf8Size) cs else []

/-- The category of a step of a game, at most `maxLength` bytes long. Games whose references differ
past the cut only have their categories in common. -/
def ofStep (start : String) (step : Step) (game : GameId) (maxLength : Nat) : Category :=
  ⟨String.ofList (cut maxLength (start.toList ++ step.tag.toList ++ ':' :: game.text.toList))⟩

end Category

end MentalPoker
