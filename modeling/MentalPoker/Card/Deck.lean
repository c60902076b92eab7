/-
Decks. A plain deck holds cards, a deck in the shuffle chain holds scalars. A deck is made of
distinct entries, and no operation makes two of them equal.
-/
import MentalPoker.Card.Basic
import MentalPoker.Card.Shuffle
import MentalPoker.Error
import MentalPoker.Game.Circle
import MentalPoker.Word

namespace MentalPoker

/-- An ordered collection of distinct entries. -/
structure Deck (α : Type) where
  entries : List α
deriving DecidableEq

namespace Deck

/-- The number of cards of a full deck. -/
def fullSize : Nat := Card.count

variable {α γ : Type}

def size (deck : Deck α) : Nat := deck.entries.length

def isEmpty (deck : Deck α) : Bool := deck.entries.isEmpty

/-- A deck of the given entries, if they are distinct. -/
def ofList [DecidableEq α] (entries : List α) : Except DealError (Deck α) :=
  if entries.Nodup then .ok ⟨entries⟩ else .error .duplicateCard

/-- A deck of the given entries, if there are 52 and they are distinct. -/
def ofFullList [DecidableEq α] (entries : List α) : Except DealError (Deck α) :=
  if entries.length = fullSize then ofList entries
  else .error (.deckSize entries.length fullSize)

/-- The 52 cards in canonical order. -/
def plain : Deck Card := ⟨Card.all⟩

/-- The deck in random order. -/
def shuffle [RandomSource γ] (deck : Deck α) (source : γ) : Deck α × γ :=
  let (entries, source) := Shuffle.shuffle deck.entries source
  (⟨entries⟩, source)

/-! ## Cards as scalars -/

/-- The scalars of the cards. -/
def encode (deck : Deck Card) : Deck Scalar := ⟨deck.entries.map Card.toScalar⟩

/-- The cards of the scalars, once every layer is removed. -/
def decode (deck : Deck Scalar) : Except DealError (Deck Card) :=
  match deck.entries.mapM Card.ofScalar? with
  | some cards => .ok ⟨cards⟩
  | none => .error .unknownCard

/-! ## Layers -/

/-- Adds the layer shared with the holder of `counterparty` to every card. -/
def encrypt (deck : Deck Scalar) (counterparty : Point) (own : Scalar) :
    Except DealError (Deck Scalar) :=
  match Cipher.encryptAll deck.entries counterparty own with
  | .ok entries => .ok ⟨entries⟩
  | .error e => .error (.cipher e)

/-- Removes the layer shared with the holder of `counterparty` from every card. -/
def decrypt (deck : Deck Scalar) (counterparty : Point) (own : Scalar) :
    Except DealError (Deck Scalar) :=
  match Cipher.decryptAll deck.entries counterparty own with
  | .ok entries => .ok ⟨entries⟩
  | .error e => .error (.cipher e)

/-! ## Hands -/

/-- The entries from the place `start` on and before the place `stop`, if the deck has these places. -/
def slice? (deck : Deck α) (start stop : Nat) : Option (List α) :=
  if start ≤ stop ∧ stop ≤ deck.size then some ((deck.entries.drop start).take (stop - start)) else none

/-- The `count` cards in a row that a player is dealt. The player after the dealer gets the first
hand, the dealer the last; `some none` if someone is not seated or the deck is too short, and `none`
if the program stops at a place that no word holds. -/
def handWith? {β : Type} [BEq β] (overflow : Overflow) (deck : Deck α) (players : List β)
    (dealer player : β) (count : Nat) : Option (Option (List α)) :=
  match Circle.distance? players dealer player with
  | none => some none
  | some seat => do
    let start ← overflow.word? ((seat - 1) * count)
    let stop ← overflow.word? (start + count)
    return deck.slice? start stop

/-- The hand of a player where the program does not stop at places that no word holds. -/
def hand? {β : Type} [BEq β] (deck : Deck α) (players : List β) (dealer player : β) (count : Nat) :
    Option (List α) :=
  (deck.handWith? .wraps players dealer player count).join

end Deck

end MentalPoker
