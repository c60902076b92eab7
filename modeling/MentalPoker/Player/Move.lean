/-
The moves a player can be told to make, one for each kind of turn and one for a turn at everything.
-/
import MentalPoker.Player.Protocol

namespace MentalPoker

inductive Move where
  | join | refreshPlayers | exchangeKeys | shuffle | refreshEncryption | decrypt | deal
  | updateSession | everything
deriving DecidableEq

/-- What a move reports: the outcome of its turn, or the phase after a turn at everything. -/
inductive Report where
  | outcome (outcome : Outcome)
  | phase (phase : Phase)
deriving DecidableEq

/-- The turn of a move. -/
def Move.turn {γ : Type} [RandomSource γ] : Move → Turn γ Report
  | join => Report.outcome <$> Turn.join
  | refreshPlayers => Report.outcome <$> Turn.refreshPlayers
  | exchangeKeys => Report.outcome <$> Turn.exchangeKeys
  | shuffle => Report.outcome <$> Turn.shuffle
  | refreshEncryption => Report.outcome <$> Turn.refreshEncryption
  | decrypt => Report.outcome <$> Turn.decrypt
  | deal => Report.outcome <$> Turn.deal
  | updateSession => Report.outcome <$> Turn.updateSession
  | everything => Report.phase <$> Turn.everything

end MentalPoker
