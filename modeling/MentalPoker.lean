import MentalPoker.Config.Document
import MentalPoker.Play.Table
import MentalPoker.Random.Seeded
import MentalPoker.Proofs.Entries
import MentalPoker.Proofs.Curve.Field
import MentalPoker.Proofs.Curve.Group
import MentalPoker.Proofs.Json.RoundTrip
import MentalPoker.Proofs.Wire.RoundTrip
import MentalPoker.Proofs.Wire.Numeral
import MentalPoker.Proofs.Wire.DeckMessage
import MentalPoker.Proofs.Wire.KeyMessage
import MentalPoker.Proofs.Card.Shuffle
import MentalPoker.Proofs.Card.Uniform
import MentalPoker.Proofs.Card.Code
import MentalPoker.Proofs.Card.Token
import MentalPoker.Proofs.Card.Layer
import MentalPoker.Proofs.Card.Hand
import MentalPoker.Proofs.Card.Peeling
import MentalPoker.Proofs.Card.Distinct
import MentalPoker.Proofs.Card.Places
import MentalPoker.Proofs.Card.Pairing
import MentalPoker.Proofs.Config.Valid
import MentalPoker.Proofs.Game.Circle
import MentalPoker.Proofs.Game.Cycle
import MentalPoker.Proofs.Game.Seating
import MentalPoker.Proofs.Game.Session
import MentalPoker.Proofs.Game.KeyRing
import MentalPoker.Proofs.Game.Role
import MentalPoker.Proofs.Ledger.Category
import MentalPoker.Proofs.Ledger.Log
import MentalPoker.Proofs.Ledger.Calls
import MentalPoker.Proofs.Player.Yields
import MentalPoker.Proofs.Player.Ensures
import MentalPoker.Proofs.Player.Act
import MentalPoker.Proofs.Player.Course
import MentalPoker.Proofs.Player.Frame
import MentalPoker.Proofs.Player.Deeds
import MentalPoker.Proofs.Player.Calm
import MentalPoker.Proofs.Player.Abreast
import MentalPoker.Proofs.Player.Honest
import MentalPoker.Proofs.Player.Hitch
import MentalPoker.Proofs.Player.Resume
import MentalPoker.Proofs.Player.Retry
import MentalPoker.Proofs.Player.Change
import MentalPoker.Proofs.Player.Coherent
import MentalPoker.Proofs.Play.Run
import MentalPoker.Proofs.Play.Knowledge
import MentalPoker.Proofs.Play.Chain
import MentalPoker.Proofs.Play.Decks
import MentalPoker.Proofs.Play.Once
import MentalPoker.Proofs.Play.Gathering
import MentalPoker.Proofs.Play.Rounds
import MentalPoker.Proofs.Play.Settled
import MentalPoker.Proofs.Play.Completion
import MentalPoker.Proofs.Play.Hands
import MentalPoker.Proofs.Play.KeyAgreement
import MentalPoker.Proofs.Play.Seats
import MentalPoker.Proofs.Play.Script
import MentalPoker.Proofs.Play.Schedule
import MentalPoker.Proofs.Play.Padding
import MentalPoker.Proofs.Play.Outsiders
import MentalPoker.Proofs.Play.Restarts
import MentalPoker.Proofs.Play.Played
import MentalPoker.Proofs.Play.Safety
import MentalPoker.Proofs.Play.Recovery
import MentalPoker.Proofs.Play.Final
import MentalPoker.Proofs.Play.Phases
import MentalPoker.Proofs.Play.Bystanders
import MentalPoker.Proofs.Play.Served
import MentalPoker.Proofs.Play.KeyCollection
