/-
The turns of the protocol. Each one reads what it needs from the ledger, decides from the session
what is to be done, and publishes the result. Nothing a turn leaves undone is lost: the next one
starts from the ledger again.
-/
import MentalPoker.Player.Turn
import MentalPoker.Wire.DeckMessage
import MentalPoker.Wire.KeyMessage

namespace MentalPoker

/-- What a turn came to. -/
inductive Outcome where
  /-- There is nothing to do. -/
  | idle
  /-- A signer, a key pair or another player's key is missing. -/
  | skipped
  | published (id : TransactionId)
  /-- Something new was read from the ledger. -/
  | observed
deriving DecidableEq

namespace Turn

variable {γ : Type}

/-- Whether the player has a transaction for a step on the ledger. -/
def hasPublished (step : Step) : Turn γ Bool := do
  let player ← get
  let latest ← askLatest (player.category step) player.address
  return latest.isSome

/-- The last deck a player has published for a step. -/
def latestDeck? (step : Step) (sender : Address) : Turn γ (Option (Deck Scalar)) := do
  let player ← get
  match ← askLatest (player.category step) sender with
  | none => return none
  | some payload =>
    let message ← ofExcept (DeckMessage.ofBytes payload)
    return some (← ofExcept message.deck)

/-- Publishes the transaction of a step. -/
def publish (signer : Signer) (step : Step) (recipients : List Address) (payload : Bytes) :
    Turn γ Outcome := do
  let player ← get
  return .published (← askPublish signer (player.category step) recipients payload)

/-! ## Seats -/

/-- Announces the player to the creator, once. The creator is seated from the start. -/
def join : Turn γ Outcome := do
  let player ← get
  if player.address = player.session.creator then return .idle
  if ← hasPublished .join then return .idle
  let some signer := player.signer | return .skipped
  publish signer .join [player.session.creator] []

/-- Seats those who have joined since, and lets the preferred dealer deal once seated. -/
def refreshPlayers : Turn γ Outcome := do
  let player ← get
  let creator := player.session.creator
  let joined ← askSenders (player.category .join) creator
  let session := player.session.seatAll joined
  let dealt := match player.preferredDealer with
    | none => session
    | some dealer => (session.setDealer dealer).toOption.getD session
  set { player with session := dealt }
  return if session.players.length = player.session.players.length then .idle else .observed

/-! ## Keys -/

/-- Announces a new key pair, if the player has none and none on the ledger. A key on the ledger
whose pair is lost cannot be replaced, because the others keep the first key they see. The pair is
the player's own only once its announcement is acknowledged. -/
def announceKey [RandomSource γ] (recipients : List Address) : Turn γ Outcome := do
  let some signer := (← get).signer | return .skipped
  if ← hasPublished .publicKey then return .skipped
  let keys ← draw KeyPair.generate
  let message ← ofExcept (KeyMessage.ofPoint keys.publicKey)
  let outcome ← publish signer .publicKey recipients message.toBytes
  modify fun player => { player with keys := some keys }
  return outcome

/-- Looks for the key of another player; says whether a new one was found. An unreadable key is
passed over. -/
def collectKey (other : Address) : Turn γ Bool := do
  match ← askLatest ((← get).category .publicKey) other with
  | none => return false
  | some payload =>
    match (KeyMessage.ofBytes payload).bind KeyMessage.point with
    | .error _ => return false
    | .ok key =>
      let player ← get
      let (new, ring) := player.ring.record other key
      set { player with ring }
      return new

/-- Looks for the keys of several players; says whether new ones were found. -/
def collectKeys : List Address → Turn γ Bool
  | [] => return false
  | other :: others => do
    let new ← collectKey other
    let more ← collectKeys others
    return new || more

/-- Announces the player's key once the table is known, then collects the keys that are missing. -/
def exchangeKeys [RandomSource γ] : Turn γ Outcome := do
  let player ← get
  if player.session.players.length < max player.config.minPlayers 2 then return .idle
  let outcome ← match player.session.keyRecipients? player.address player.keys.isSome with
    | none => pure Outcome.idle
    | some recipients => announceKey recipients
  if outcome = .skipped then return .skipped
  let player ← get
  let new ← collectKeys (player.session.missingKeys player.address player.ring)
  return if outcome = .idle ∧ new then .observed else outcome

/-! ## The shuffle chain -/

/-- Takes the player's turn in the shuffle chain, once it has come. -/
def shuffle [RandomSource γ] : Turn γ Outcome := do
  let player ← get
  if !player.isSeated then return .idle
  let some signer := player.signer | return .skipped
  let some keys := player.keys | return .skipped
  if ← hasPublished .shuffle then return .idle
  let previous ← match player.session.chainPredecessor? player.address with
    | none => pure none
    | some predecessor => latestDeck? .shuffle predecessor
  let collected := player.session.keysComplete player.ring
  let some step := player.session.shuffleStep? player.address false previous collected
    | return .idle
  let some counterparty := player.ring.get? step.sharedWith | return .skipped
  let deck ← ofExcept (← draw (step.input.apply counterparty keys.secretKey))
  publish signer .shuffle player.session.players (DeckMessage.ofDeck deck).toBytes

/-- Looks for the deck that bears every layer. -/
def refreshEncryption : Turn γ Outcome := do
  let player ← get
  if player.finishedDeck.isSome ∨ player.session.players.length < 2 then return .idle
  let some last := player.session.finalShuffler? | return .idle
  match ← latestDeck? .shuffle last with
  | none => return .idle
  | some deck =>
    modify fun player => { player with finishedDeck := some deck }
    return .observed

/-! ## The decryption and the hands -/

/-- Removes the decryptor's layer from the finished deck, if the player is the decryptor. -/
def decrypt : Turn γ Outcome := do
  let player ← get
  if player.session.decryptor? ≠ some player.address then return .idle
  let some signer := player.signer | return .skipped
  let some keys := player.keys | return .skipped
  let _ ← refreshEncryption
  let player ← get
  if player.finishedDeck.isNone then return .idle
  if ← hasPublished .decrypt then return .idle
  let some step := player.session.decryptionStep? player.address false player.finishedDeck
    | return .idle
  let some counterparty := player.ring.get? step.sharedWith | return .skipped
  let deck ← ofExcept (step.source.decrypt counterparty keys.secretKey)
  publish signer .decrypt player.session.players (DeckMessage.ofDeck deck).toBytes

/-- Takes the player's hand from the decrypted deck, once it is published. The cards that are needed
are a word as the places of a hand are: where the program stops at a number that no word holds it
stops here, before anything of the player has changed. -/
def deal : Turn γ Outcome := do
  let player ← get
  let session := player.session
  if session.hand ≠ [] then return .idle
  if !player.isSeated then return .skipped
  let some decryptor := session.decryptor? | return .idle
  if decryptor = session.dealer then return .idle
  let some deck ← latestDeck? .decrypt decryptor | return .idle
  let count := player.config.cardsPerPlayer
  let some hand := session.dealtHand? player.address deck count
    | throw (.deckSize deck.size (count * session.players.length % UInt64.size))
  set { player with session := (session.setHand hand).2 }
  return .observed

/-! ## The session -/

/-- Brings seats, finished deck and phase up to date, and announces a new phase. -/
def updateSession : Turn γ Outcome := do
  let _ ← refreshPlayers
  if !(← get).isSeated then return .idle
  let _ ← refreshEncryption
  let player ← get
  let session := player.session.observe player.progress player.config.minPlayers
  if session.phase = player.session.phase then return .idle
  set { player with session, announced := session.phase }
  return .observed

/-- One turn at everything. What fails is tried again with the next one. -/
def everything [RandomSource γ] : Turn γ Phase := do
  attempt join
  attempt updateSession
  attempt exchangeKeys
  attempt shuffle
  attempt decrypt
  attempt deal
  attempt updateSession
  return (← get).session.phase

end Turn

end MentalPoker
