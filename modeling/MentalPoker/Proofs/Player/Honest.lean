/-
What honest players publish, whatever is on the ledger. A player that has come about by its own moves
hands on full decks only: its input in some order under one more layer, or the finished deck with the
layer taken off. The decks on the ledger may be anything, so it is the player that checks them: a payload
that is at fault stops the turn that has to read it, and nothing has changed.
-/
import MentalPoker.Proofs.Card.Layer
import MentalPoker.Proofs.Play.Rounds
import MentalPoker.Proofs.Player.Frame
import MentalPoker.Proofs.Wire.DeckMessage
import MentalPoker.Random.Seeded

namespace MentalPoker

/-! ## Faulty payloads -/

namespace Payload

/-- What can be wrong with the payload of a deck. -/
inductive Faulty (payload : Bytes) : Prop
  /-- It is no JSON, or of another shape. -/
  | malformed (unread : DeckMessage.ofBytes payload = .error .malformedPayload)
  | notDecimal {message : DeckMessage} {text : String} (read : DeckMessage.ofBytes payload = .ok message)
      (member : text ∈ message.cards) (bad : Decimal.read? text = none)
  | outOfRange {message : DeckMessage} {text : String} {n : Nat}
      (read : DeckMessage.ofBytes payload = .ok message) (member : text ∈ message.cards)
      (value : Decimal.read? text = some n) (high : groupOrder ≤ n)
  | size {message : DeckMessage} (read : DeckMessage.ofBytes payload = .ok message)
      (count : message.cards.length ≠ 52)
  | repeated {message : DeckMessage} (read : DeckMessage.ofBytes payload = .ok message)
      (twice : ¬ (message.cards.map Decimal.read?).Nodup)

/-- The numerals of a deck stand for its entries. -/
theorem values_of_deck {message : DeckMessage} {deck : Deck Scalar} (h : message.deck = .ok deck) :
    message.cards.map Decimal.read? = deck.entries.map fun a => some a.val := by
  obtain ⟨lists, values⟩ := DeckMessage.deck_eq_ok_iff.1 h
  calc message.cards.map Decimal.read? = message.cards.map (some ∘ Decimal.value) :=
        List.map_congr_left fun text member => Decimal.read?_eq_some_iff.2 ⟨(lists.fits text member).1, rfl⟩
    _ = (deck.entries.map Fin.val).map some := by rw [values, List.map_map]
    _ = deck.entries.map fun a => some a.val := List.map_map

/-- A payload that is at fault holds no deck. -/
theorem Faulty.unread {payload : Bytes} (faulty : Faulty payload) : ∃ e, Payload.deck payload = .error e := by
  cases held : Payload.deck payload with
  | error e => exact ⟨e, rfl⟩
  | ok deck =>
    exfalso
    have full := full_of_deck held
    rw [Payload.deck] at held
    -- the numerals of a deck are those of 52 different scalars, which leaves no room for a fault
    have values {message : DeckMessage} (read : DeckMessage.ofBytes payload = .ok message) :
        message.cards.map Decimal.read? = deck.entries.map fun a => some a.val := by
      rw [read] at held
      exact values_of_deck held
    have value {message : DeckMessage} {text : String} (read : DeckMessage.ofBytes payload = .ok message)
        (member : text ∈ message.cards) : ∃ a : Scalar, Decimal.read? text = some a.val := by
      have among : Decimal.read? text ∈ message.cards.map Decimal.read? := List.mem_map_of_mem member
      rw [values read, List.mem_map] at among
      obtain ⟨a, -, same⟩ := among
      exact ⟨a, same.symm⟩
    cases faulty with
    | malformed unread =>
      rw [unread] at held
      cases held
    | notDecimal read member bad =>
      obtain ⟨a, value⟩ := value read member
      rw [bad] at value
      cases value
    | outOfRange read member stands high =>
      obtain ⟨a, value⟩ := value read member
      rw [stands] at value
      cases value
      exact Nat.not_le_of_lt a.isLt high
    | size read count =>
      have length := congrArg List.length (values read)
      rw [List.length_map, List.length_map] at length
      exact count (length.trans full.1)
    | repeated read twice =>
      rw [values read] at twice
      exact twice (full.2.map fun a b same => Fin.val_injective (Option.some.inj same))

end Payload

namespace Player

variable {γ : Type}

/-- A player that has been made in one of the ways there are, and has then taken turns, on whatever
lines. -/
inductive Lived [RandomSource γ] : Player γ → Prop
  | plays (config : Config) (signer : Signer) (game : GameId) (creator : Address) (source : γ) :
      Lived (.new config signer game creator source)
  | observes (config : Config) (address : Address) (game : GameId) (creator : Address) (source : γ) :
      Lived (.observer config address game creator source)
  | wishes {player : Player γ} (lived : Lived player) (dealer : Address) : Lived (player.withDealer dealer)
  | moves {player : Player γ} (lived : Lived player) (move : Move) (line : Line) :
      Lived (move.turn.take Line.answer player line).2.1

/-- The finished deck of the player is full. -/
def Fit (player : Player γ) : Prop := ∀ deck, player.finishedDeck = some deck → deck.Full

end Player

/-! ## Finished decks -/

namespace Turn

variable {γ α σ : Type} {m : Manner σ}

/-- Turns that leave the finished deck alone. -/
theorem fit_of_within {turn : Turn γ α} {R : Player γ → Request → Prop} {C : Player γ → Player γ → Prop}
    (within : ∀ player, turn.Within (R player) (C player) player)
    (same : ∀ player next, C player next → next.finishedDeck = player.finishedDeck) :
    turn.Keeps m fun player _ => player.Fit := by
  intro player s fit
  refine ((within player).yields (S := fun _ _ => True) (fun _ => trivial) (fun _ _ => trivial)
    (fun _ _ => trivial) s).mono ?_
  rintro result next after ⟨changed, -⟩ deck held
  rw [same player next changed] at held
  exact fit deck held

/-- A deck that is taken for the finished one has been read from a payload. -/
theorem refreshEncryption_fit : (refreshEncryption : Turn γ Outcome).Keeps m fun player _ => player.Fit := by
  intro player s fit
  simp only [refreshEncryption, yields_bind, yields_get]
  split
  · exact (yields_pure ..).2 fit
  split
  case h_2 => exact (yields_pure ..).2 fit
  simp only [yields_bind, yields_latestDeck?]
  intro answer after _
  cases read : (answer.mapError DealError.ledger).bind deckOf with
  | error e => exact fit
  | ok latest =>
    cases latest with
    | none => exact (yields_pure ..).2 fit
    | some deck =>
      simp only [yields_bind, yields_modify, yields_pure]
      rintro _ ⟨⟩
      cases answer with
      | error e => cases read
      | ok payload =>
        obtain ⟨payload, -, read⟩ := deck_of_deckOf read
        exact Payload.full_of_deck read

theorem decrypt_fit : (decrypt : Turn γ Outcome).Keeps m fun player _ => player.Fit := by
  intro player s fit
  simp only [decrypt, yields_bind, yields_get]
  split
  · exact (yields_pure ..).2 fit
  split
  case h_2 => exact (yields_pure ..).2 fit
  split
  case h_2 => exact (yields_pure ..).2 fit
  refine (refreshEncryption_fit player s fit).bind (fun _ _ _ fit => fit) fun _ player s fit => ?_
  simp only [yields_bind, yields_get]
  split
  · exact (yields_pure ..).2 fit
  simp only [yields_bind, yields_hasPublished]
  rintro (e | latest) after _
  · exact fit
  dsimp only [Except.mapError, Except.map]
  split
  · exact (yields_pure ..).2 fit
  split
  case h_2 => exact (yields_pure ..).2 fit
  split
  case h_2 => exact (yields_pure ..).2 fit
  simp only [yields_bind, yields_ofExcept]
  split
  · rw [yields_publish]
    exact fun _ _ _ => fit
  · exact fit

theorem refreshPlayers_fit : (refreshPlayers : Turn γ Outcome).Keeps m fun player _ => player.Fit := by
  refine fit_of_within refreshPlayers_within ?_
  rintro player _ (rfl | ⟨joined, rfl⟩)
  · rfl
  · rfl

theorem updateSession_fit : (updateSession : Turn γ Outcome).Keeps m fun player _ => player.Fit := by
  refine refreshPlayers_fit.bind fun _ player s fit => ?_
  simp only [yields_bind, yields_get]
  split
  · exact (yields_pure ..).2 fit
  refine (refreshEncryption_fit player s fit).bind (fun _ _ _ fit => fit) fun _ player s fit => ?_
  simp only [yields_bind, yields_get]
  split
  · exact (yields_pure ..).2 fit
  · simp only [yields_bind, yields_set, yields_pure]
    exact fit

theorem allKeep_fit [RandomSource γ] : AllKeep (γ := γ) m fun player _ => player.Fit where
  join := fit_of_within join_within fun _ _ h => h ▸ rfl
  refreshPlayers := refreshPlayers_fit
  exchangeKeys := fit_of_within exchangeKeys_within (by rintro player _ ⟨keys, ring, source, rfl⟩; rfl)
  shuffle := fit_of_within shuffle_within (by rintro player _ ⟨source, rfl⟩; rfl)
  refreshEncryption := refreshEncryption_fit
  decrypt := decrypt_fit
  deal := fit_of_within deal_within (by rintro player _ ⟨hand, rfl⟩; rfl)
  updateSession := updateSession_fit

end Turn

/-- A player that has come about by its own moves has a full deck for the finished one. -/
theorem Player.Lived.fit {γ : Type} [RandomSource γ] {player : Player γ} (lived : player.Lived) : player.Fit := by
  induction lived with
  | plays | observes => exact fun deck held => by cases held
  | wishes _ dealer ih => exact ih
  | moves _ move line ih =>
    have keeps := move.turn_keeps (m := Conditions.unreliable.manner) Turn.allKeep_fit _ line.transactions ih
    exact keeps.take ((Dialogue.meets_iff_heeds _ _).1 (Line.meets _ line))

/-! ## The decks that are published -/

namespace Player

variable {γ : Type}

/-- What the player goes on with in the chain: the bare cards, which are the scalars from 1 to 52, or the
last deck of its predecessor. -/
structure GoesOnWith (player : Player γ) (log : Log) (input : Deck Scalar) : Prop where
  opens : player.address = player.session.dealer →
    input.entries = (List.range 52).map fun i => Fin.ofNat _ (i + 1)
  follows : player.address ≠ player.session.dealer → ∃ predecessor payload,
    Circle.previous? player.session.players player.address = some predecessor ∧
      log.payload? (player.category .shuffle) predecessor = some payload ∧ Payload.deck payload = .ok input

/-- The factor of the layer that the player shares with the one after it. -/
def SharesFactor (player : Player γ) (factor : Scalar) : Prop :=
  ∃ keys successor key, player.keys = some keys ∧
    Circle.next? player.session.players player.address = some successor ∧
    player.ring.get? successor = some key ∧ Cipher.sharedFactor key keys.secretKey = .ok factor

/-- The payload holds the player's input in some order under one more layer. -/
def AddsLayer (player : Player γ) (log : Log) (payload : Bytes) : Prop :=
  ∃ factor input deck, player.SharesFactor factor ∧ factor ≠ 0 ∧ player.GoesOnWith log input ∧
    Payload.deck payload = .ok deck ∧ deck.entries.length = 52 ∧ deck.entries.Nodup ∧
    deck.entries.Perm (input.entries.map (· * factor))

/-- The payload holds the finished deck without the layer. -/
def RemovesLayer (player next : Player γ) (payload : Bytes) : Prop :=
  ∃ factor inverse finished deck, player.SharesFactor factor ∧ factor * inverse = 1 ∧
    next.finishedDeck = some finished ∧ Payload.deck payload = .ok deck ∧ deck.entries.length = 52 ∧
    deck.entries.Nodup ∧ deck.entries = finished.entries.map (· * inverse)

end Player

/-- A turn has published nothing, or one transaction of the player with a payload of the given kind. -/
def PublishesAtMost {γ : Type} (player : Player γ) (step : Step) (P : Player γ → Bytes → Prop) (log : Log)
    (result : Except DealError Outcome) (next : Player γ) (later : Log) : Prop :=
  (later = log ∧ ∀ id, result ≠ .ok (.published id)) ∨
    ∃ signer payload, player.signer = some signer ∧ P next payload ∧
      later = log ++ [Log.filing log signer (player.category step) player.session.players payload]

section

variable {γ : Type} {player next : Player γ} {step : Step} {P : Player γ → Bytes → Prop} {log : Log}

theorem PublishesAtMost.error (e : DealError) : PublishesAtMost player step P log (.error e) next log :=
  .inl ⟨rfl, fun _ h => by cases h⟩

theorem PublishesAtMost.idle : PublishesAtMost player step P log (.ok .idle) next log :=
  .inl ⟨rfl, fun _ h => by cases h⟩

/-- Whoever has a transaction afterwards and had none has published one. -/
theorem PublishesAtMost.published {result : Except DealError Outcome} {later : Log} {a : Address}
    (atMost : PublishesAtMost player step P log result next later) (none : a ∉ log.senders (player.category step))
    (filed : a ∈ later.senders (player.category step)) : ∃ signer payload, player.signer = some signer ∧ P next payload ∧
      later = log ++ [Log.filing log signer (player.category step) player.session.players payload] := by
  rcases atMost with ⟨rfl, -⟩ | published
  · exact absurd filed none
  · exact published

theorem PublishesAtMost.skipped : PublishesAtMost player step P log (.ok .skipped) next log :=
  .inl ⟨rfl, fun _ h => by cases h⟩

end

namespace Turn

variable {γ : Type} {player : Player γ} {log : Log}

/-- A publication is the only thing that changes the ledger. -/
theorem publish_atMost {start : Player γ} {P : Player γ → Bytes → Prop} {signer : Signer} {step : Step}
    {payload : Bytes} (signs : start.signer = some signer) (category : player.category step = start.category step)
    (right : P player payload) :
    (publish signer step start.session.players payload).Ensures .unreliable
      (PublishesAtMost start step P log) player log := by
  rw [ensures_publish]
  rintro _ rfl
  have filed (result : Except DealError Outcome) : PublishesAtMost start step P log result player
      ((Scene.mk player log).file signer step start.session.players payload).log :=
    .inr ⟨signer, payload, signs, right, by rw [Scene.file, category]⟩
  exact ⟨fun id => filed _, fun _ e => filed _, fun _ e => .error _⟩

theorem addLayer_sound [RandomSource γ] {signer : Signer} {keys : KeyPair} {previous : Option (Deck Scalar)}
    (signs : player.signer = some signer) (held : player.keys = some keys) (looked : player.Looked log previous) :
    (addLayer player signer keys previous).Ensures .unreliable
      (PublishesAtMost player .shuffle (fun _ => player.AddsLayer log) log) player log := by
  unfold addLayer
  split
  case h_2 => exact (ensures_pure ..).2 .idle
  rename_i step turn
  split
  case h_2 => exact (ensures_pure ..).2 .skipped
  rename_i key shared
  obtain ⟨-, next, -, how⟩ := Session.shuffleStep?_eq_some_iff.1 turn
  rw [ensures_bind]
  refine ensures_draw fun applied source drew => ?_
  simp only [ensures_bind, ensures_ofExcept]
  cases applied with
  | error e => exact .error e
  | ok deck =>
    obtain ⟨shuffled, perm, applied⟩ := step.input.apply_eq key keys.secretKey player.source
    -- the shuffle only rearranges, so the layer lies on the input in some order
    have layered : shuffled.encrypt key keys.secretKey = .ok deck := by rw [← applied, drew]
    obtain ⟨factor, factors, rfl⟩ := Deck.factor_of_encrypt layered
    have nonzero := Cipher.sharedFactor_ne_zero factors
    have input : player.GoesOnWith log step.input.deck ∧ step.input.deck.Full := by
      rcases how with ⟨deals, complete, plain⟩ | ⟨follows, deck, some, published⟩
      · rw [plain]
        exact ⟨⟨fun _ => Deck.plain_scalars, fun follows => absurd deals follows⟩, Deck.plain_full⟩
      · obtain ⟨predecessor, payload, before, found, read⟩ := looked deck some
        rw [Session.chainPredecessor?, if_neg follows] at before
        rw [published]
        exact ⟨⟨fun deals => absurd deals follows, fun _ => ⟨predecessor, payload, before, found, read⟩⟩,
          Payload.full_of_deck read⟩
    have full := (input.2.of_perm perm).times nonzero
    exact publish_atMost signs rfl ⟨factor, _, _, ⟨keys, _, key, held, next, shared, factors⟩, nonzero, input.1,
      Payload.deck_ofDeck full, full.1, full.2, perm.map _⟩

theorem shuffle_sound [RandomSource γ] (player : Player γ) (log : Log) :
    (shuffle : Turn γ Outcome).Ensures .unreliable
      (PublishesAtMost player .shuffle (fun _ => player.AddsLayer log) log) player log := by
  simp only [shuffle, ensures_bind, ensures_get]
  split
  · exact (ensures_pure ..).2 .idle
  split
  case h_2 => exact (ensures_pure ..).2 .skipped
  rename_i signer signs
  split
  case h_2 => exact (ensures_pure ..).2 .skipped
  rename_i keys held
  simp only [ensures_bind, ensures_hasPublished]
  rintro _ rfl
  refine ⟨?_, fun _ _ => .error _⟩
  split
  · exact (ensures_pure ..).2 .idle
  split
  · exact addLayer_sound signs held (player.looked_none log)
  · rename_i predecessor before
    simp only [ensures_bind, ensures_latestDeck?]
    rintro _ rfl
    refine ⟨?_, fun _ _ => .error _⟩
    cases read : deckOf (log.payload? (player.category .shuffle) predecessor) with
    | error e => exact .error e
    | ok previous => exact addLayer_sound signs held (Player.looked_of_deckOf before read)

theorem decrypt_sound {player : Player γ} (fit : player.Fit) (log : Log) :
    (decrypt : Turn γ Outcome).Ensures .unreliable
      (PublishesAtMost player .decrypt player.RemovesLayer log) player log := by
  have refreshed : (refreshEncryption : Turn γ Outcome).Ensures .unreliable (fun _ next later =>
      (later = log ∧ ∃ finishedDeck, next = { player with finishedDeck }) ∧ next.Fit) player log := by
    rw [ensures_iff_yields]
    refine (((refreshEncryption_within player).yields (S := (· = ·)) (fun _ => rfl) Eq.trans ?_ log).and
      (refreshEncryption_fit player log fit)).mono fun _ _ _ h => ⟨⟨h.1.2.symm, h.1.1⟩, h.2⟩
    rintro log (_ | _ | _) answer after reads ⟨_, rfl, exchange⟩
    · exact reads.elim
    · exact exchange.1.symm
    · exact reads.elim
  simp only [decrypt, ensures_bind, ensures_get]
  split
  · exact (ensures_pure ..).2 .idle
  split
  case h_2 => exact (ensures_pure ..).2 .skipped
  rename_i signer signs
  split
  case h_2 => exact (ensures_pure ..).2 .skipped
  rename_i keys held
  refine refreshed.bind (fun e _ _ h => h.1.1 ▸ .error e) ?_
  rintro _ _ log' ⟨⟨rfl, finishedDeck, rfl⟩, fit⟩
  simp only [ensures_bind, ensures_get]
  split
  · exact (ensures_pure ..).2 .idle
  simp only [ensures_bind, ensures_hasPublished]
  rintro _ rfl
  refine ⟨?_, fun _ _ => .error _⟩
  split
  · exact (ensures_pure ..).2 .idle
  split
  case h_2 => exact (ensures_pure ..).2 .idle
  rename_i step turn
  split
  case h_2 => exact (ensures_pure ..).2 .skipped
  rename_i key shared
  obtain ⟨-, -, next, -, finished⟩ := Session.decryptionStep?_eq_some_iff.1 turn
  simp only [ensures_bind, ensures_ofExcept]
  cases bared : step.source.decrypt key keys.secretKey with
  | error e => exact .error e
  | ok deck =>
    obtain ⟨factor, factors, rfl⟩ := Deck.factor_of_decrypt bared
    have inverse := Residue.mul_inverse (Cipher.sharedFactor_ne_zero factors)
    have nonzero := Residue.inverse_ne_zero (Cipher.sharedFactor_ne_zero factors)
    have full := (fit step.source finished).times nonzero
    exact publish_atMost signs rfl ⟨factor, _, step.source, _, ⟨keys, _, key, held, next, shared, factors⟩, inverse,
      finished, Payload.deck_ofDeck full, full.1, full.2, rfl⟩

end Turn

/-! ## Decks that are refused -/

namespace Player

variable {γ : Type}

/-- On this line the player comes to read the payload as the deck of its predecessor: it may shuffle, it
finds no deck of its own, and it finds the predecessor's. -/
structure ReadsPrevious (player : Player γ) (line : Line) (payload : Bytes) : Prop where
  seated : player.isSeated = true
  signs : player.signer.isSome = true
  keyed : player.keys.isSome = true
  unfiled : (line.answer (.latestBySender (player.category .shuffle) player.address)).1 = .ok none
  found : ∃ predecessor, player.session.chainPredecessor? player.address = some predecessor ∧
    ((line.answer (.latestBySender (player.category .shuffle) player.address)).2.answer
      (.latestBySender (player.category .shuffle) predecessor)).1 = .ok (some payload)

/-- On this line the player comes to read the payload as the deck to decrypt: it is to decrypt, it has no
finished deck yet, and it finds the one of the last player in the chain. -/
structure ReadsFinished (player : Player γ) (line : Line) (payload : Bytes) : Prop where
  decryptor : player.session.decryptor? = some player.address
  signs : player.signer.isSome = true
  keyed : player.keys.isSome = true
  unfinished : player.finishedDeck = none
  several : 2 ≤ player.session.players.length
  found : ∃ last, player.session.finalShuffler? = some last ∧
    (line.answer (.latestBySender (player.category .shuffle) last)).1 = .ok (some payload)

/-- The turn has failed and everything is as it was. -/
structure Refuses (turn : Turn γ Outcome) (player : Player γ) (line : Line) : Prop where
  fails : ∃ e, (turn.take Line.answer player line).1 = .error e
  stays : (turn.take Line.answer player line).2.1 = player
  unchanged : (turn.take Line.answer player line).2.2.transactions = line.transactions

variable {player : Player γ} {line : Line} {payload : Bytes}

theorem ReadsPrevious.refuses [RandomSource γ] (reads : player.ReadsPrevious line payload)
    (faulty : Payload.Faulty payload) :
    Refuses Turn.shuffle player line := by
  obtain ⟨signer, signs⟩ := Option.isSome_iff_exists.1 reads.signs
  obtain ⟨keys, held⟩ := Option.isSome_iff_exists.1 reads.keyed
  obtain ⟨predecessor, before, found⟩ := reads.found
  obtain ⟨e, unread⟩ := faulty.unread
  have unchanged : (line.answer (.latestBySender (player.category .shuffle) player.address)).2.transactions =
      line.transactions := (line.answer_exchange (.latestBySender _ _)).1
  have run : Turn.shuffle.take Line.answer player line = (.error e, player,
      ((line.answer (.latestBySender (player.category .shuffle) player.address)).2.answer
        (.latestBySender (player.category .shuffle) predecessor)).2) := by
    simp [Turn.shuffle, reads.seated, signs, held, Turn.take_hasPublished, reads.unfiled, Except.mapError,
      Except.map, before, Turn.take_latestDeck?, found, Except.bind, Turn.deckOf, unread]
  refine ⟨⟨e, by rw [run]⟩, by rw [run], ?_⟩
  rw [run, ← unchanged]
  exact (Line.answer_exchange (.latestBySender _ _) _).1

theorem ReadsFinished.refuses (reads : player.ReadsFinished line payload) (faulty : Payload.Faulty payload) :
    Refuses Turn.decrypt player line := by
  obtain ⟨signer, signs⟩ := Option.isSome_iff_exists.1 reads.signs
  obtain ⟨keys, held⟩ := Option.isSome_iff_exists.1 reads.keyed
  obtain ⟨last, finishes, found⟩ := reads.found
  obtain ⟨e, unread⟩ := faulty.unread
  have several : ¬ player.session.players.length ≤ 1 := Nat.not_le_of_lt reads.several
  have refreshed : Turn.refreshEncryption.take Line.answer player line = (.error e, player,
      (line.answer (.latestBySender (player.category .shuffle) last)).2) := by
    simp [Turn.refreshEncryption, reads.unfinished, several, finishes, Turn.take_latestDeck?, found, Except.mapError,
      Except.bind, Turn.deckOf, unread, Except.map]
  have run : Turn.decrypt.take Line.answer player line = (.error e, player,
      (line.answer (.latestBySender (player.category .shuffle) last)).2) := by
    simp [Turn.decrypt, reads.decryptor, signs, held, refreshed]
  refine ⟨⟨e, by rw [run]⟩, by rw [run], ?_⟩
  rw [run]
  exact (line.answer_exchange (.latestBySender _ _)).1

end Player

/-- Honest players publish sound decks only, whatever is on the ledger. A turn in the chain publishes
nothing, or the player's input in some order with every card multiplied by the factor it shares with the
one after it; the decryption publishes nothing, or the finished deck with every card divided by that
factor. If the deck that has to be read is at fault, the turn fails and changes nothing. -/
theorem published_decks_sound {γ : Type} [RandomSource γ] {player : Player γ} (lived : player.Lived) (line : Line) :
    PublishesAtMost player .shuffle (fun _ => player.AddsLayer line.transactions) line.transactions
      (Turn.shuffle.take Line.answer player line).1 (Turn.shuffle.take Line.answer player line).2.1
      (Turn.shuffle.take Line.answer player line).2.2.transactions ∧
    PublishesAtMost player .decrypt player.RemovesLayer line.transactions
      (Turn.decrypt.take Line.answer player line).1 (Turn.decrypt.take Line.answer player line).2.1
      (Turn.decrypt.take Line.answer player line).2.2.transactions ∧
    ∀ payload, Payload.Faulty payload →
      (player.ReadsPrevious line payload → Player.Refuses Turn.shuffle player line) ∧
      (player.ReadsFinished line payload → Player.Refuses Turn.decrypt player line) := by
  refine ⟨?_, ?_, fun payload faulty => ⟨fun reads => reads.refuses faulty, fun reads => reads.refuses faulty⟩⟩
  · exact (Turn.shuffle_sound player line.transactions).take (Line.meets _ line)
  · exact (Turn.decrypt_sound lived.fit line.transactions).take (Line.meets _ line)

namespace Player

/-- A ledger on which somebody has asked the creator of a game for a seat. -/
def asked : Line :=
  ⟨⟨[Log.filing [] ⟨⟨"bob"⟩, []⟩ (Config.default.category .join ⟨"tx0"⟩) [⟨"alice"⟩] []], 0, 0⟩, [], []⟩

/-- Somebody in a game for two. -/
def ofTwo (name : String) : Player (Seeded id) :=
  .new { Config.default with minPlayers := 2 } ⟨⟨name⟩, []⟩ ⟨"tx0"⟩ ⟨"alice"⟩ ⟨[], 0⟩

/-- What has come of a player that looks who has joined, announces its key and records those of the others. -/
def seatedOn (line : Line) (name : String) : Except DealError Report × Player (Seeded id) × Line :=
  Move.exchangeKeys.turn.take Line.answer (Move.refreshPlayers.turn.take Line.answer (ofTwo name) line).2.1 line

theorem lived_seatedOn (line : Line) (name : String) : (seatedOn line name).2.1.Lived := by
  have lived : (ofTwo name).Lived := .plays ..
  have seated := lived.moves .refreshPlayers line
  exact seated.moves .exchangeKeys line

/-- The one who has asked, once it is seated and has announced its key. -/
def second : Player (Seeded id) := (seatedOn asked "bob").2.1

/-- The ledger with its key. -/
def keyed : Line := (seatedOn asked "bob").2.2

/-- The creator, which deals, once it has announced a key as well. -/
def first : Player (Seeded id) := (seatedOn keyed "alice").2.1

theorem lived_second : second.Lived := lived_seatedOn asked "bob"

theorem lived_first : first.Lived := lived_seatedOn keyed "alice"

/-- Its turn has come, and it has what it takes. -/
theorem first_files : ⟨"alice"⟩ ∉ Log.senders (first.category .shuffle) keyed.transactions ∧
    ⟨"alice"⟩ ∈ Log.senders (first.category .shuffle) (Turn.shuffle.take Line.answer first keyed).2.2.transactions := by
  have facts : first.signer = some ⟨⟨"alice"⟩, []⟩ ∧ first.address = ⟨"alice"⟩ ∧
      first.session.players = [⟨"alice"⟩, ⟨"bob"⟩] ∧ first.session.dealer = ⟨"alice"⟩ ∧
      first.session.keysComplete first.ring = true ∧
      (first.keys.bind fun keys => (first.ring.get? ⟨"bob"⟩).map fun key =>
        (Cipher.sharedFactor key keys.secretKey).isOk) = some true ∧
      Log.senders (first.category .shuffle) keyed.transactions = [] ∧
      keyed.script = [] ∧ keyed.journal.failures = 0 ∧ keyed.journal.lostReplies = 0 := by decide +kernel
  obtain ⟨signs, address, players, dealer, complete, shares, unfiled, script, failures, replies⟩ := facts
  obtain ⟨keys, held, shares⟩ := Option.bind_eq_some_iff.1 shares
  obtain ⟨key, has, isOk⟩ := Option.map_eq_some_iff.1 shares
  obtain ⟨factor, shared⟩ := Cipher.exists_factor_of_isOk isOk
  have next : Circle.next? first.session.players first.address = some ⟨"bob"⟩ := by
    rw [players, address]
    decide
  refine ⟨by rw [unfiled]; exact List.not_mem_nil, ?_⟩
  have calm : keyed.Calm := ⟨script, failures, replies⟩
  have files := Turn.Ensures.take (calm.meets _) (Turn.shuffle_calm signs address.symm held
    (by rw [players, address]; decide) next (by rw [address]; decide) has shared
    (.inl ⟨address.trans dealer.symm, complete⟩))
  rwa [address] at files

/-- A ledger on which the dealer has filed no deck but an empty object. -/
def forged : Line :=
  ⟨⟨[Log.filing [] ⟨⟨"alice"⟩, []⟩ (Config.default.category .shuffle ⟨"tx0"⟩) [] (Bytes.ofString "\x7b\x7d")], 0, 0⟩,
    [], []⟩

end Player

/-- The dealer of two publishes a deck under its layer; the other one refuses a deck that is none. -/
theorem published_decks_sound_two : Player.first.Lived ∧
    (∃ signer payload, Player.first.AddsLayer Player.keyed.transactions payload ∧
      (Turn.shuffle.take Line.answer Player.first Player.keyed).2.2.transactions = Player.keyed.transactions ++
        [Log.filing Player.keyed.transactions signer (Player.first.category .shuffle) Player.first.session.players
          payload]) ∧
    Player.second.Lived ∧ Player.second.keys.isSome = true ∧
    Player.Refuses Turn.shuffle Player.second Player.forged := by
  have facts : Player.second.isSeated = true ∧ Player.second.signer.isSome = true ∧ Player.second.keys.isSome = true ∧
      Player.second.category .shuffle = Config.default.category .shuffle ⟨"tx0"⟩ ∧
      Player.second.address = ⟨"bob"⟩ ∧
      Player.second.session.chainPredecessor? ⟨"bob"⟩ = some ⟨"alice"⟩ := by decide +kernel
  obtain ⟨seated, signs, keyed, category, address, before⟩ := facts
  have faulty : Payload.Faulty (Bytes.ofString "\x7b\x7d") := .malformed (by decide +kernel)
  obtain ⟨atMost, -⟩ := published_decks_sound Player.lived_first Player.keyed
  obtain ⟨-, -, refuses⟩ := published_decks_sound Player.lived_second Player.forged
  refine ⟨Player.lived_first, ?_, Player.lived_second, keyed, (refuses _ faulty).1 ?_⟩
  · obtain ⟨signer, payload, -, adds, appended⟩ := atMost.published Player.first_files.1 Player.first_files.2
    exact ⟨signer, payload, adds, appended⟩
  constructor
  case seated => exact seated
  case signs => exact signs
  case keyed => exact keyed
  case unfiled =>
    rw [category, address]
    decide +kernel
  case found =>
    rw [category, address]
    exact ⟨_, before, by decide +kernel⟩

end MentalPoker
