/-
A player at a table: what it was given, what it has learned, and the random source it draws from.
All that is not given can be learned from the ledger again, except the key pair. An observer is a
player that cannot sign, so that it follows the game and publishes nothing.
-/
import MentalPoker.Config.Basic
import MentalPoker.Ledger.Signer
import MentalPoker.Game.Role

namespace MentalPoker

structure Player (γ : Type) where
  config : Config
  address : Address
  signer : Option Signer
  /-- Who is to deal instead of the creator, once seated. -/
  preferredDealer : Option Address
  session : Session
  keys : Option KeyPair
  ring : KeyRing
  /-- The deck that bears every layer, once it has been seen. -/
  finishedDeck : Option (Deck Scalar)
  source : γ
  /-- The phase that has been announced to whoever watches the player. -/
  announced : Phase

namespace Player

variable {γ : Type}

/-- A player that follows a game without taking part. -/
def observer (config : Config) (address : Address) (game : GameId) (creator : Address)
    (source : γ) : Player γ where
  config
  address
  signer := none
  preferredDealer := none
  session := (Session.start game creator).withSeats config.minPlayers
  keys := none
  ring := .empty
  finishedDeck := none
  source
  announced := .waitingForPlayers

/-- A player that takes part in a game. -/
def new (config : Config) (signer : Signer) (game : GameId) (creator : Address) (source : γ) :
    Player γ :=
  { observer config signer.address game creator source with signer := some signer }

/-- The player with a wish for the dealer. -/
def withDealer (player : Player γ) (dealer : Address) : Player γ :=
  { player with preferredDealer := some dealer }

def publicKey? (player : Player γ) : Option Point := player.keys.map (·.publicKey)

/-- Where the transactions of a step of the player's game are filed. -/
def category (player : Player γ) (step : Step) : Category :=
  player.config.category step player.session.game

/-- The player is seated in its own view. -/
def isSeated (player : Player γ) : Bool := player.session.isSeated player.address

/-- The facts that the player's phase follows from. -/
def progress (player : Player γ) : Progress where
  keysCollected := player.keys.isSome && player.session.keysComplete player.ring
  shuffleFinished := player.finishedDeck.isSome

end Player

end MentalPoker
