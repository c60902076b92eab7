/-
One game as one player sees it: who is seated, who deals, how far the deal has come, and the
player's hand. Seats are taken in the order of joining and never given up, the creator has the first
seat, the phase never goes back, and the first hand is kept.
-/
import MentalPoker.Error

namespace MentalPoker

/-! ## Phases -/

/-- How far a deal has come. -/
inductive Phase where
  | waitingForPlayers | keyExchange | encrypting | decrypting | ready
deriving DecidableEq

namespace Phase

/-- The phases in order. -/
def all : List Phase := [waitingForPlayers, keyExchange, encrypting, decrypting, ready]

def position (phase : Phase) : Nat := all.idxOf phase

/-- The later one of two phases. -/
def later (a b : Phase) : Phase := if a.position < b.position then b else a

def name : Phase → String
  | waitingForPlayers => "WAITING_FOR_PLAYERS"
  | keyExchange => "KEY_EXCHANGE"
  | encrypting => "ENCRYPTING"
  | decrypting => "DECRYPTING"
  | ready => "READY"

end Phase

/-- Facts the phase follows from, besides the session's own. -/
structure Progress where
  /-- The keys of all players are known. -/
  keysCollected : Bool
  /-- The fully encrypted deck has been seen. -/
  shuffleFinished : Bool
deriving DecidableEq

/-! ## Sessions -/

structure Session where
  game : GameId
  creator : Address
  /-- The seated players in the order of their seats. -/
  players : List Address
  dealer : Address
  phase : Phase
  /-- The player's cards, still under the layers that the one decryption leaves on. -/
  hand : List Scalar
  /-- The number of seats, if it is limited. -/
  seats : Option Nat
deriving DecidableEq

namespace Session

/-- A new session, with its creator seated and dealing. -/
def start (game : GameId) (creator : Address) : Session :=
  ⟨game, creator, [creator], creator, .waitingForPlayers, [], none⟩

/-- The session with a table of `seats` seats, of which the creator needs one. -/
def withSeats (session : Session) (seats : Nat) : Session :=
  { session with seats := some (max seats 1) }

/-- No seat is free. -/
def isFull (session : Session) : Bool := session.seats.any (· ≤ session.players.length)

def isSeated (session : Session) (player : Address) : Bool := player ∈ session.players

/-- Gives a player a seat if one is free and the player has none. -/
def seat (session : Session) (player : Address) : Session :=
  if session.isFull ∨ player ∈ session.players then session
  else { session with players := session.players ++ [player] }

/-- Seats those who joined, in order, while seats are free. -/
def seatAll (session : Session) (joined : List Address) : Session := joined.foldl seat session

/-- Lets a seated player deal. -/
def setDealer (session : Session) (dealer : Address) : Except DealError Session :=
  if session.isSeated dealer then .ok { session with dealer } else .error (.notSeated dealer)

/-- Records a hand, unless there is one or it is empty; says whether it did. -/
def setHand (session : Session) (hand : List Scalar) : Bool × Session :=
  if session.hand ≠ [] ∨ hand = [] then (false, session) else (true, { session with hand })

/-- The phase the facts speak for, whatever phase has been reached. -/
def observedPhase (session : Session) (progress : Progress) (minPlayers : Nat) : Phase :=
  if session.players.length < minPlayers then .waitingForPlayers
  else if session.hand ≠ [] then .ready
  else if progress.shuffleFinished then .decrypting
  else if progress.keysCollected then .encrypting
  else .keyExchange

/-- Moves on to the phase the facts speak for, if it is a later one. -/
def observe (session : Session) (progress : Progress) (minPlayers : Nat) : Session :=
  { session with phase := session.phase.later (session.observedPhase progress minPlayers) }

end Session

end MentalPoker
