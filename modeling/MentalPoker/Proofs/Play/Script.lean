/-
What a game comes to is written in the sources of its players. Given the seats, who deals, and the source
that each player starts with, each key, each deck of the chain and the decrypted deck are determined: a key
is the first one from its player's source that can be announced, and a deck is drawn from what is left of
the source after it. Nothing in the script says when anything happens.
-/
import MentalPoker.Proofs.Card.Layer
import MentalPoker.Proofs.Play.Chain
import MentalPoker.Proofs.Player.Deeds

namespace MentalPoker

variable {γ : Type} [RandomSource γ]

/-! ## Keys -/

/-- The first pair from a source whose key can be announced, with its announcement and what is left of
the source. -/
inductive FirstPair : γ → KeyPair → KeyMessage → γ → Prop
  | now {source rest : γ} {pair : KeyPair} {message : KeyMessage}
      (drew : KeyPair.generate source = (pair, rest)) (made : KeyMessage.ofPoint pair.publicKey = .ok message) :
      FirstPair source pair message rest
  | later {source left rest : γ} {missed pair : KeyPair} {message : KeyMessage} {e : DealError}
      (drew : KeyPair.generate source = (missed, left)) (unfit : KeyMessage.ofPoint missed.publicKey = .error e)
      (first : FirstPair left pair message rest) : FirstPair source pair message rest

theorem FirstPair.unique {source rest rest' : γ} {pair pair' : KeyPair} {message message' : KeyMessage}
    (h : FirstPair source pair message rest) (h' : FirstPair source pair' message' rest') :
    pair = pair' ∧ message = message' ∧ rest = rest' := by
  induction h with
  | now drew made =>
    cases h' with
    | now drew' made' =>
      cases drew.symm.trans drew'
      cases made.symm.trans made'
      exact ⟨rfl, rfl, rfl⟩
    | later drew' unfit' =>
      cases drew.symm.trans drew'
      cases made.symm.trans unfit'
  | later drew unfit _ ih =>
    cases h' with
    | now drew' made' =>
      cases drew.symm.trans drew'
      cases unfit.symm.trans made'
    | later drew' _ first' =>
      cases drew.symm.trans drew'
      exact ih first'

/-- What a player and the one after it at the table share a layer by: the secret of the one, the announced
key of the other, and what is left of the player's source for its shuffle. -/
structure Neighbours (gen : Address → γ) (seats : List Address) (a : Address) (secret : Scalar) (key : Point)
    (rest : γ) : Prop where
  own : ∃ pair message, FirstPair (gen a) pair message rest ∧ pair.secretKey = secret
  other : ∃ b pair message left, Circle.next? seats a = some b ∧ FirstPair (gen b) pair message left ∧
    Payload.key message.toBytes = .ok key

theorem Neighbours.unique {gen : Address → γ} {seats : List Address} {a : Address} {secret secret' : Scalar}
    {key key' : Point} {rest rest' : γ} (h : Neighbours gen seats a secret key rest)
    (h' : Neighbours gen seats a secret' key' rest') : secret = secret' ∧ key = key' ∧ rest = rest' := by
  obtain ⟨⟨pair, message, first, rfl⟩, b, other, theirs, left, next, second, read⟩ := h
  obtain ⟨⟨pair', message', first', rfl⟩, b', other', theirs', left', next', second', read'⟩ := h'
  obtain ⟨rfl, -, rfl⟩ := first.unique first'
  cases next.symm.trans next'
  obtain ⟨-, rfl, -⟩ := second.unique second'
  cases read.symm.trans read'
  exact ⟨rfl, rfl, rfl⟩

/-! ## Decks -/

/-- The deck that a player hands on in the chain. -/
inductive Chained (gen : Address → γ) (seats : List Address) (dealer : Address) : Address → Bytes → Prop
  | opens {secret : Scalar} {key : Point} {rest : γ} {deck : Deck Scalar}
      (layer : Neighbours gen seats dealer secret key rest)
      (layered : (ShuffleInput.plain.apply key secret rest).1 = .ok deck) :
      Chained gen seats dealer dealer (DeckMessage.ofDeck deck).toBytes
  | follows {a predecessor : Address} {payload : Bytes} {input deck : Deck Scalar} {secret : Scalar}
      {key : Point} {rest : γ} (follows : a ≠ dealer) (before : Circle.previous? seats a = some predecessor)
      (handed : Chained gen seats dealer predecessor payload) (read : Payload.deck payload = .ok input)
      (layer : Neighbours gen seats a secret key rest)
      (layered : ((ShuffleInput.published input).apply key secret rest).1 = .ok deck) :
      Chained gen seats dealer a (DeckMessage.ofDeck deck).toBytes

theorem Chained.unique {gen : Address → γ} {seats : List Address} {dealer a : Address} {payload payload' : Bytes}
    (h : Chained gen seats dealer a payload) (h' : Chained gen seats dealer a payload') :
    payload = payload' := by
  induction h generalizing payload' with
  | opens layer layered =>
    cases h' with
    | opens layer' layered' =>
      obtain ⟨rfl, rfl, rfl⟩ := layer.unique layer'
      cases layered.symm.trans layered'
      rfl
    | follows follows => exact absurd rfl follows
  | follows follows before _ read layer layered ih =>
    cases h' with
    | opens => exact absurd rfl follows
    | follows _ before' handed' read' layer' layered' =>
      cases before.symm.trans before'
      obtain rfl := ih handed'
      cases read.symm.trans read'
      obtain ⟨rfl, rfl, rfl⟩ := layer.unique layer'
      cases layered.symm.trans layered'
      rfl

/-- The deck that comes of the whole chain once a player has removed its layer. -/
def Bared (gen : Address → γ) (seats : List Address) (dealer a : Address) (payload : Bytes) : Prop :=
  ∃ last handed finished secret key rest deck, Circle.previous? seats dealer = some last ∧
    Chained gen seats dealer last handed ∧ Payload.deck handed = .ok finished ∧
    Neighbours gen seats a secret key rest ∧ finished.decrypt key secret = .ok deck ∧
    payload = (DeckMessage.ofDeck deck).toBytes

theorem Bared.unique {gen : Address → γ} {seats : List Address} {dealer a : Address} {payload payload' : Bytes}
    (h : Bared gen seats dealer a payload) (h' : Bared gen seats dealer a payload') : payload = payload' := by
  obtain ⟨last, handed, finished, secret, key, rest, deck, ends, chained, read, layer, bared, rfl⟩ := h
  obtain ⟨last', handed', finished', secret', key', rest', deck', ends', chained', read', layer', bared', rfl⟩ := h'
  cases ends.symm.trans ends'
  obtain rfl := chained.unique chained'
  cases read.symm.trans read'
  obtain ⟨rfl, rfl, -⟩ := layer.unique layer'
  cases bared.symm.trans bared'
  rfl

/-! ## The script -/

/-- What a player files for a step. -/
def Says (gen : Address → γ) (seats : List Address) (dealer : Address) : Step → Address → Bytes → Prop
  | .join, _, _ => True
  | .publicKey, a, payload => ∃ pair message rest, FirstPair (gen a) pair message rest ∧ payload = message.toBytes
  | .shuffle, a, payload => Chained gen seats dealer a payload
  | .decrypt, a, payload => Bared gen seats dealer a payload

/-- At one table a player says one thing for a step. -/
theorem Says.unique {gen : Address → γ} {seats : List Address} {dealer a : Address} {step : Step}
    {payload payload' : Bytes} (inGame : step ≠ .join) (h : Says gen seats dealer step a payload)
    (h' : Says gen seats dealer step a payload') : payload = payload' := by
  cases step with
  | join => exact absurd rfl inGame
  | publicKey =>
    obtain ⟨pair, message, rest, first, rfl⟩ := h
    obtain ⟨pair', message', rest', first', rfl⟩ := h'
    rw [(first.unique first').2.1]
  | shuffle => exact Chained.unique h h'
  | decrypt => exact Bared.unique h h'

namespace Rules

variable (rules : Rules)

/-- Everything on the ledger is in the script of its table. -/
def Scripted (gen : Address → γ) (log : Log) : Prop :=
  ∀ step, ∀ tx ∈ log.filed (rules.category step),
    Says gen (rules.seats log) (rules.dealerAt log) step tx.sender tx.payload

/-- The player shares no factor with the one after it at the table. -/
def Jammed (log : Log) (a : Address) (secret : Scalar) : Prop :=
  ∃ b key e, Circle.next? (rules.seats log) a = some b ∧ rules.Announced log b key ∧
    Cipher.sharedFactor key secret = .error e

/-- A player's source is where the script has it. -/
structure OnScript (gen : Address → γ) (log : Log) (player : Player γ) : Prop where
  /-- Until its key is announced, the first pair it would announce is that of its start. -/
  first : player.address ∉ log.senders (rules.category .publicKey) → ∀ pair message rest,
    FirstPair player.source pair message rest → FirstPair (gen player.address) pair message rest
  /-- Its pair is that one, and until its deck is filed its source is what is left then, unless it will
  never file one. -/
  pair : ∀ pair, player.keys = some pair → ∃ message rest, FirstPair (gen player.address) pair message rest ∧
    (player.address ∉ log.senders (rules.category .shuffle) →
      player.source = rest ∨ rules.Jammed log player.address pair.secretKey)

section

variable {rules} {gen : Address → γ} {log later : Log} {player next : Player γ}

omit [RandomSource γ] in
/-- Whoever files anything but a joining sees the whole table. -/
theorem Ordered.full_of_filed (ordered : rules.Ordered log) {step : Step} (inGame : step ≠ .join)
    {tx : Transaction} (member : tx ∈ log.filed (rules.category step)) : rules.Full log := by
  have filed : tx.sender ∈ log.senders (rules.category step) := List.mem_map_of_mem member
  cases step with
  | join => exact absurd rfl inGame
  | publicKey => exact (ordered.keys _ filed).1
  | shuffle => exact (ordered.opened (List.ne_nil_of_mem filed)).1
  | decrypt => exact ordered.full_of_closed (List.ne_nil_of_mem filed)

/-- The ledger stays scripted as it grows, if what is new is in the script. -/
theorem Scripted.grow (valid : rules.config.Valid) (ordered : rules.Ordered log)
    (scripted : rules.Scripted gen log) (grows : rules.Grows log later)
    (new : ∀ step, step ≠ .join → ∀ tx ∈ later.filed (rules.category step), tx ∈ log.filed (rules.category step) ∨
      Says gen (rules.seats later) (rules.dealerAt later) step tx.sender tx.payload) :
    rules.Scripted gen later := by
  intro step tx member
  by_cases joins : step = .join
  · subst joins
    trivial
  rcases new step joins tx member with old | said
  · have said := scripted step tx old
    have seats := grows.seats_of_full valid (ordered.full_of_filed joins old)
    rw [dealerAt, seats]
    exact said
  · exact said

theorem Jammed.grows (valid : rules.config.Valid) {a : Address} {secret : Scalar}
    (jammed : rules.Jammed log a secret) (full : rules.Full log) (grows : rules.Grows log later) :
    rules.Jammed later a secret := by
  obtain ⟨b, key, e, next, announced, fails⟩ := jammed
  exact ⟨b, key, e, grows.seats_of_full valid full ▸ next, announced.grows grows, fails⟩

/-- A player whose pair and source are as they were is still on script. -/
theorem OnScript.grows (valid : rules.config.Valid) (knows : rules.Knows log player)
    (on : rules.OnScript gen log player) (grows : rules.Grows log later) (address : next.address = player.address)
    (keys : next.keys = player.keys) (source : next.source = player.source) : rules.OnScript gen later next := by
  refine ⟨fun unfiled => ?_, fun pair held => ?_⟩
  · rw [address] at unfiled ⊢
    rw [source]
    exact on.first fun filed => unfiled (grows.senders filed)
  · rw [keys] at held
    obtain ⟨message, rest, first, left⟩ := on.pair pair held
    rw [address, source]
    refine ⟨message, rest, first, fun unfiled => ?_⟩
    obtain ⟨-, -, full, -⟩ := knows.whole valid held
    exact (left fun filed => unfiled (grows.senders filed)).imp_right fun jammed => jammed.grows valid full grows

theorem Fresh.onScript (fresh : rules.Fresh player) (given : player.source = gen player.address) (log : Log) :
    rules.OnScript gen log player := by
  obtain ⟨-, -, -, none, -⟩ := fresh.blank
  refine ⟨fun _ pair message rest first => given ▸ first, fun pair held => ?_⟩
  rw [none] at held
  cases held

/-! ## What is done is in the script -/

/-- The key of a neighbour is the one in the script. -/
theorem Scripted.neighbours (scripted : rules.Scripted gen log) {a b : Address} {pair : KeyPair}
    {message : KeyMessage} {key : Point} {rest : γ} (own : FirstPair (gen a) pair message rest)
    (next : Circle.next? (rules.seats log) a = some b) (announced : rules.Announced log b key) :
    Neighbours gen (rules.seats log) a pair.secretKey key rest := by
  refine ⟨⟨pair, message, own, rfl⟩, ?_⟩
  obtain ⟨payload, found, read⟩ := announced
  obtain ⟨tx, member, rfl, rfl⟩ := Log.exists_of_payload? found
  obtain ⟨theirs, said, left, first, same⟩ := scripted .publicKey tx member
  exact ⟨tx.sender, theirs, said, left, next, first, same ▸ read⟩

/-- What somebody has handed on in the chain is in the script. -/
theorem Scripted.chained (scripted : rules.Scripted gen log) {a : Address} {payload : Bytes}
    (found : log.payload? (rules.category .shuffle) a = some payload) :
    Chained gen (rules.seats log) (rules.dealerAt log) a payload := by
  obtain ⟨tx, member, rfl, rfl⟩ := Log.exists_of_payload? found
  exact scripted .shuffle tx member

omit [RandomSource γ] in
/-- A player that has its pair and its neighbour's key has them as they are at the table. -/
theorem Knows.shares (valid : rules.config.Valid) (knows : rules.Knows log player) {pair : KeyPair}
    {successor : Address} {key : Point} (shares : player.Shares pair successor key) :
    Circle.next? (rules.seats log) player.address = some successor ∧ rules.Announced log successor key := by
  obtain ⟨players, -⟩ := knows.whole valid shares.held
  exact ⟨players ▸ shares.next, knows.announced_of_get? shares.found⟩

/-- A deck that is filed is the next one in the script. -/
theorem OnScript.shuffles (valid : rules.config.Valid) (knows : rules.Knows log player)
    (scripted : rules.Scripted gen log) (on : rules.OnScript gen log player) {pair : KeyPair} {successor : Address}
    {key : Point} {input : ShuffleInput} {deck : Deck Scalar} (shares : player.Shares pair successor key)
    (unfiled : player.address ∉ log.senders (rules.category .shuffle)) (feeds : player.Feeds log input)
    (layered : (input.apply key pair.secretKey player.source).1 = .ok deck) :
    Chained gen (rules.seats log) (rules.dealerAt log) player.address (DeckMessage.ofDeck deck).toBytes := by
  obtain ⟨players, dealer, -⟩ := knows.whole valid shares.held
  obtain ⟨next, announced⟩ := knows.shares valid shares
  obtain ⟨message, rest, own, left⟩ := on.pair pair shares.held
  have source : player.source = rest := by
    refine (left unfiled).resolve_right ?_
    rintro ⟨b, key', e, next', announced', fails⟩
    obtain rfl : successor = b := Option.some.inj (next.symm.trans next')
    obtain rfl := announced.unique announced'
    obtain ⟨shuffled, -, applied⟩ := input.apply_eq key pair.secretKey player.source
    obtain ⟨factor, shared, -⟩ := Deck.factor_of_encrypt (applied.symm.trans layered)
    cases shared.symm.trans fails
  have layer := scripted.neighbours own next announced
  rw [source] at layered
  cases feeds with
  | opens deals =>
    rw [deals, dealer] at layer ⊢
    exact .opens layer layered
  | follows follows before found read =>
    rw [dealer] at follows
    rw [players] at before
    rw [knows.told.category] at found
    exact .follows follows before (scripted.chained found) read layer layered

/-- A player that cannot add its layer never will. -/
theorem Knows.jammed (valid : rules.config.Valid) (knows : rules.Knows log player) {pair : KeyPair}
    {successor : Address} {key : Point} {input : ShuffleInput} {e : DealError}
    (shares : player.Shares pair successor key)
    (fails : (input.apply key pair.secretKey player.source).1 = .error e) :
    rules.Jammed log player.address pair.secretKey := by
  obtain ⟨next, announced⟩ := knows.shares valid shares
  cases shared : Cipher.sharedFactor key pair.secretKey with
  | error e => exact ⟨successor, key, e, next, announced, shared⟩
  | ok factor =>
    obtain ⟨shuffled, -, applied⟩ := input.apply_eq key pair.secretKey player.source
    rw [applied, Deck.encrypt_eq shared] at fails
    cases fails

/-- The decryption that is filed is the one in the script. -/
theorem OnScript.decrypts (valid : rules.config.Valid) (knows : rules.Knows log player)
    (scripted : rules.Scripted gen log) (on : rules.OnScript gen log player) {pair : KeyPair} {successor : Address}
    {key : Point} {last : Address} {finished deck : Deck Scalar} (shares : player.Shares pair successor key)
    (ends : Circle.previous? (rules.seats log) (rules.dealerAt log) = some last)
    (handed : rules.Handed log .shuffle last finished) (bared : finished.decrypt key pair.secretKey = .ok deck) :
    Bared gen (rules.seats log) (rules.dealerAt log) player.address (DeckMessage.ofDeck deck).toBytes := by
  obtain ⟨next, announced⟩ := knows.shares valid shares
  obtain ⟨message, rest, own, -⟩ := on.pair pair shares.held
  obtain ⟨payload, found, read⟩ := handed
  exact ⟨last, payload, finished, _, _, rest, deck, ends, scripted.chained found, read,
    scripted.neighbours own next announced, bared, rfl⟩

end

end Rules

end MentalPoker
