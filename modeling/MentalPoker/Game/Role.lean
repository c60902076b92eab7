/-
Who has to do what at a table, given the session and what has been read from the ledger. Everybody
publishes one key. The deck travels once around the table from the dealer on: each player shuffles
it and adds a layer shared with the player after them. The player after the dealer then removes the
layer it shares with its own successor, and everybody takes their hand from the result.
-/
import MentalPoker.Card.Deck
import MentalPoker.Game.KeyRing
import MentalPoker.Game.Session

namespace MentalPoker

namespace Session

/-! ## Keys -/

/-- To whom a player announces its key: all who are seated, if the player is one of them and has no
key yet. -/
def keyRecipients? (session : Session) (me : Address) (hasKey : Bool) : Option (List Address) :=
  if hasKey ∨ !session.isSeated me then none else some session.players

/-- The other players whose key is not known. -/
def missingKeys (session : Session) (me : Address) (ring : KeyRing) : List Address :=
  session.players.filter fun player => player ≠ me && !ring.contains player

/-- Besides the player's own, the key of every seat is known. -/
def keysComplete (session : Session) (ring : KeyRing) : Bool :=
  ring.size + 1 == session.players.length

/-! ## The shuffle chain -/

/-- The player whose deck `me` goes on with. The dealer opens the chain and has none. -/
def chainPredecessor? (session : Session) (me : Address) : Option Address :=
  if me = session.dealer then none else Circle.previous? session.players me

/-- The player before the dealer, whose deck bears every layer. -/
def finalShuffler? (session : Session) : Option Address :=
  Circle.previous? session.players session.dealer

end Session

/-- The deck a player shuffles: the plain one, or a published one. -/
inductive ShuffleInput where
  | plain
  | published (deck : Deck Scalar)
deriving DecidableEq

/-- A turn in the shuffle chain: what to shuffle, and with whom to share the new layer. -/
structure ShuffleStep where
  input : ShuffleInput
  sharedWith : Address
deriving DecidableEq

/-- The turn of `me` in the shuffle chain, if it has come. `previous` is the predecessor's deck,
once it is published; the dealer waits for the keys instead. -/
def Session.shuffleStep? (session : Session) (me : Address) (published : Bool)
    (previous : Option (Deck Scalar)) (keysCollected : Bool) : Option ShuffleStep :=
  if published then none
  else do
    let successor ← Circle.next? session.players me
    if successor = me then none
    else if me = session.dealer then
      if keysCollected then some ⟨.plain, successor⟩ else none
    else return ⟨.published (← previous), successor⟩

/-- The input in random order and under a new layer. -/
def ShuffleInput.apply {γ : Type} [RandomSource γ] (input : ShuffleInput) (counterparty : Point)
    (own : Scalar) (source : γ) : Except DealError (Deck Scalar) × γ :=
  let (shuffled, source) := match input with
    | .plain =>
      let (deck, source) := Deck.plain.shuffle source
      (deck.encode, source)
    | .published deck => deck.shuffle source
  (shuffled.encrypt counterparty own, source)

/-! ## The decryption -/

/-- The player after the dealer, who alone removes a layer. -/
def Session.decryptor? (session : Session) : Option Address :=
  Circle.next? session.players session.dealer

/-- The removal of a layer: from which deck, and with whom the layer is shared. -/
structure DecryptionStep where
  source : Deck Scalar
  sharedWith : Address
deriving DecidableEq

/-- The turn of `me` to decrypt the finished deck, if it has come. -/
def Session.decryptionStep? (session : Session) (me : Address) (published : Bool)
    (finished : Option (Deck Scalar)) : Option DecryptionStep :=
  if published ∨ session.decryptor? ≠ some me then none
  else do
    let successor ← Circle.next? session.players me
    if successor = me then none else return ⟨← finished, successor⟩

/-! ## Hands -/

/-- The cards of the decrypted deck that belong to `me`; `none` if the deck is too short for the
table. -/
def Session.dealtHand? (session : Session) (me : Address) (deck : Deck Scalar) (count : Nat) :
    Option (List Scalar) :=
  if count = 0 then none else deck.hand? session.players session.dealer me count

end MentalPoker
