/-
The configuration of a table: how transactions are filed, how many players and cards there are, and
how often each part of a player polls the ledger.
-/
import MentalPoker.Card.Deck
import MentalPoker.Ledger.Category

namespace MentalPoker

structure Config where
  /-- What every category starts with. -/
  protocolPrefix : String
  /-- The most bytes a category may take. -/
  maxCategoryLength : Nat
  minPlayers : Nat
  cardsPerPlayer : Nat
  /-- The polling intervals in milliseconds. -/
  keyExchangeInterval : UInt64
  shuffleInterval : UInt64
  decryptionInterval : UInt64
  sessionInterval : UInt64
deriving DecidableEq

/-- A span of time in seconds and nanoseconds. -/
structure Span where
  seconds : Nat
  nanoseconds : Nat

/-- The whole milliseconds of a span. -/
def Span.milliseconds (span : Span) : Nat := span.seconds * 1000 + span.nanoseconds / 1000000

namespace Config

def default : Config := ⟨"mp:", 30, 3, 2, 2000, 2000, 4000, 2000⟩

/-- The largest number a setting can be. -/
def maxSetting : Nat := 0xffffffffffffffff

/-- The bytes of the longest step tag. -/
def longestTag : Nat := (Step.all.map (·.tag.utf8ByteSize)).foldl max 0

/-- The first thing that is wrong with a configuration. A deal needs two players or more, at least
one card for each and all of them from one deck; every category must have room for its start, the
longest tag, a colon and a byte of the game; and nobody polls without a pause. -/
def fault? (config : Config) : Option ConfigFault :=
  let needed := min (config.cardsPerPlayer * config.minPlayers) maxSetting
  if config.minPlayers < 2 then some (.tooFewPlayers config.minPlayers)
  else if config.cardsPerPlayer = 0 then some .noCards
  else if Deck.fullSize < needed then
    some (.tooManyCards config.minPlayers config.cardsPerPlayer needed Deck.fullSize)
  else if config.maxCategoryLength ≤ config.protocolPrefix.utf8ByteSize + longestTag + 1 then
    some (.noRoomForGame config.protocolPrefix config.maxCategoryLength)
  else if config.keyExchangeInterval = 0 ∨ config.shuffleInterval = 0
      ∨ config.decryptionInterval = 0 ∨ config.sessionInterval = 0 then some .zeroInterval
  else none

/-- Nothing is wrong with the configuration. -/
def Valid (config : Config) : Prop := config.fault? = none

/-- The configuration, if it is valid. -/
def validate (config : Config) : Except DealError Config :=
  match config.fault? with
  | none => .ok config
  | some fault => .error (.invalidConfig fault)

/-- The configuration with one polling interval for everything, at least a millisecond long. The
number of milliseconds is kept in 64 bits. -/
def withInterval (config : Config) (span : Span) : Config :=
  let interval := UInt64.ofNat (max span.milliseconds 1)
  { config with keyExchangeInterval := interval, shuffleInterval := interval
                decryptionInterval := interval, sessionInterval := interval }

/-- The category of a step of a game. -/
def category (config : Config) (step : Step) (game : GameId) : Category :=
  .ofStep config.protocolPrefix step game config.maxCategoryLength

end Config

end MentalPoker
