/-
Why a step of the deal fails. Each error names its cause; `DealError.message` words it. The errors
of the cipher and of the ledger are wrapped, and their texts nest.
-/
import MentalPoker.Cipher
import MentalPoker.Ledger.Basic
import MentalPoker.Text.Quoted

namespace MentalPoker

/-- What is wrong with a configuration. -/
inductive ConfigFault where
  | tooFewPlayers (minPlayers : Nat)
  | noCards
  | tooManyCards (minPlayers cardsPerPlayer needed deckSize : Nat)
  /-- The fixed part of a category fills it, so that no room is left for the game. -/
  | noRoomForGame (protocolPrefix : String) (maxCategoryLength : Nat)
  | zeroInterval
deriving DecidableEq

def ConfigFault.message : ConfigFault → String
  | tooFewPlayers n => s!"min_players must be at least 2, got {n}"
  | noCards => "cards_per_player must be positive"
  | tooManyCards players cards needed size =>
    s!"{players} players with {cards} cards each need {needed} cards, the deck has {size}"
  | noRoomForGame start length =>
    s!"prefix {Text.quoted start} leaves no room for the game id within {length} characters"
  | zeroInterval => "poll intervals must be positive"

inductive DealError where
  | cipher (cause : CipherError)
  | ledger (cause : LedgerError)
  /-- A payload is not of the JSON form it should have. -/
  | malformedPayload
  | notDecimal (text : String)
  /-- A numeral stands for a value at or above the modulus. -/
  | outOfRange (text : String)
  | invalidPoint
  | unknownCard
  | duplicateCard
  | deckSize (held expected : Nat)
  | notSeated (player : Address)
  | invalidConfig (fault : ConfigFault)
  /-- A configuration is not of the YAML form it should have. -/
  | malformedConfig
  /-- A configuration file is missing or holds no text. -/
  | unreadableFile
deriving DecidableEq

/-- The text of an error; none for input whose form is wrong, where the cause lies outside. -/
def DealError.message? : DealError → Option String
  | cipher cause => some s!"Crypto error: {cause.message}"
  | ledger cause => some s!"Ledger error: {cause.message}"
  | notDecimal text => some s!"Invalid decimal encoding: {Text.quoted text}"
  | outOfRange text => some s!"Value does not fit the field: {text}"
  | invalidPoint => some "Point is not on the curve"
  | unknownCard => some "Unknown card encoding"
  | duplicateCard => some "Duplicate card in deck"
  | deckSize held expected => some s!"Deck holds {held} cards, expected {expected}"
  | notSeated player => some s!"Player {player.name} is not seated at this table"
  | invalidConfig fault => some s!"Invalid configuration: {fault.message}"
  | malformedPayload | malformedConfig | unreadableFile => none

end MentalPoker
