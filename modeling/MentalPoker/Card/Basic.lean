/-
Playing cards: their tokens (`10H`, `AS`), their places in the canonical deck, which has the suits
in order and the ranks in order within a suit, and the scalars they enter the shuffle chain as.
-/
import MentalPoker.Error

namespace MentalPoker

inductive Suit where
  | clubs | diamonds | hearts | spades
deriving DecidableEq

namespace Suit

/-- The suits in order. -/
def all : List Suit := [clubs, diamonds, hearts, spades]

def symbol : Suit → Char
  | clubs => 'C'
  | diamonds => 'D'
  | hearts => 'H'
  | spades => 'S'

def name : Suit → String
  | clubs => "Clubs"
  | diamonds => "Diamonds"
  | hearts => "Hearts"
  | spades => "Spades"

/-- The place of a suit in the order. -/
def position (suit : Suit) : Nat := all.idxOf suit

end Suit

inductive Rank where
  | two | three | four | five | six | seven | eight | nine | ten | jack | queen | king | ace
deriving DecidableEq

namespace Rank

/-- The ranks in order. -/
def all : List Rank :=
  [two, three, four, five, six, seven, eight, nine, ten, jack, queen, king, ace]

def symbol : Rank → List Char
  | two => ['2']
  | three => ['3']
  | four => ['4']
  | five => ['5']
  | six => ['6']
  | seven => ['7']
  | eight => ['8']
  | nine => ['9']
  | ten => ['1', '0']
  | jack => ['J']
  | queen => ['Q']
  | king => ['K']
  | ace => ['A']

def name : Rank → String
  | two => "Two"
  | three => "Three"
  | four => "Four"
  | five => "Five"
  | six => "Six"
  | seven => "Seven"
  | eight => "Eight"
  | nine => "Nine"
  | ten => "Ten"
  | jack => "Jack"
  | queen => "Queen"
  | king => "King"
  | ace => "Ace"

/-- The place of a rank in the order. -/
def position (rank : Rank) : Nat := all.idxOf rank

end Rank

structure Card where
  rank : Rank
  suit : Suit
deriving DecidableEq

namespace Card

/-! ## Tokens -/

/-- The rank's symbol, then the suit's. -/
def token (card : Card) : String := String.ofList (card.rank.symbol ++ [card.suit.symbol])

/-- The place a byte before the end of a text. There is none if the text is empty or its last
character takes more than a byte. -/
def cut? (text : String) : Option text.Pos :=
  let place : String.Pos.Raw := ⟨text.utf8ByteSize - 1⟩
  if text.utf8ByteSize = 0 then none
  else if boundary : place.IsValid text then some ⟨place, boundary⟩ else none

/-- The card of a token: behind the cut stands the suit's symbol, before it the rank's. -/
def ofToken? (token : String) : Option Card := do
  let cut ← cut? token
  let rank ← Rank.all.find? (String.ofList ·.symbol = (token.sliceTo cut).copy)
  let suit ← Suit.all.find? (String.singleton ·.symbol = (token.sliceFrom cut).copy)
  return ⟨rank, suit⟩

/-- The card of a token. Any other text is refused. -/
def ofToken (token : String) : Except DealError Card :=
  match ofToken? token with
  | some card => .ok card
  | none => .error .unknownCard

/-- By rank, cards of one rank by suit. -/
def le (a b : Card) : Bool :=
  a.rank.position < b.rank.position ||
    (a.rank.position == b.rank.position && a.suit.position ≤ b.suit.position)

/-! ## Places and scalars -/

/-- The number of cards. -/
def count : Nat := Suit.all.length * Rank.all.length

/-- The place of a card in the canonical deck. -/
def index (card : Card) : Nat := card.suit.position * Rank.all.length + card.rank.position

/-- The card at a place of the canonical deck. -/
def ofIndex? (i : Nat) : Option Card := do
  let suit ← Suit.all[i / Rank.all.length]?
  let rank ← Rank.all[i % Rank.all.length]?
  return ⟨rank, suit⟩

/-- The 52 cards in canonical order. -/
def all : List Card := (List.range count).filterMap ofIndex?

/-- The scalar a card enters the first layer as. Zero is left out, because a layer would not change
it. -/
def toScalar (card : Card) : Scalar := Fin.ofNat _ (card.index + 1)

/-- The card a scalar stands for. None of more than eight binary digits stands for a card, so that
the lowest word tells the place of the card, counted from one. -/
def ofScalar? (value : Scalar) : Option Card :=
  if 8 < Residue.bitLength value then none
  else match (Residue.lowestWord value).toNat with
    | 0 => none
    | i + 1 => ofIndex? i

end Card

end MentalPoker
