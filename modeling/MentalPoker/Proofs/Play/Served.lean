/-
A valid configuration always deals. Whatever a player has been answered, its table has no more seats than
the configuration tells, nobody sits twice and the dealer sits: so one deck is enough for everybody, the player
after the dealer decrypts, and a player that reads the decrypted deck takes its hand from it. That the deck is too
short for the table never happens.
-/
import MentalPoker.Proofs.Card.Hand
import MentalPoker.Proofs.Game.Role
import MentalPoker.Proofs.Play.Phases
import MentalPoker.Proofs.Wire.DeckMessage

namespace MentalPoker

namespace Player

variable {γ : Type} {player next : Player γ}

/-- Nobody sits twice, and the dealer sits. -/
structure Arranged (player : Player γ) : Prop where
  once : player.session.players.Nodup
  deals : player.session.dealer ∈ player.session.players

/-- Who comes to deal when others are seated is somebody who sits then. -/
theorem Arranged.seated (arranged : player.Arranged) (joined : List Address) : (player.seated joined).Arranged := by
  have once := Session.nodup_seatAll arranged.once joined
  have more := player.session.seatAll_players_subset joined arranged.deals
  obtain ⟨players, seated⟩ := player.session.seatAll_eq joined
  obtain ⟨dealer, become, how, -⟩ := player.seated_eq joined
  rw [become]
  refine ⟨once, ?_⟩
  rcases how with same | ⟨-, sits⟩
  · rw [seated] at same more ⊢
    exact same ▸ more
  · exact sits

end Player

theorem Change.arranged {γ : Type} {player next : Player γ} (change : Change player next)
    (arranged : player.Arranged) : next.Arranged := by
  cases change with
  | seats joined => exact arranged.seated joined
  | observes _ observed =>
    subst observed
    exact ⟨arranged.once, arranged.deals⟩
  | _ => exact ⟨arranged.once, arranged.deals⟩

namespace Player

variable {γ : Type} {player next : Player γ}

theorem Becomes.arranged (becomes : player.Becomes next) (arranged : player.Arranged) : next.Arranged := by
  induction becomes with
  | refl => exact arranged
  | tail _ change ih => exact change.arranged ih

/-- A wish for the dealer is not heard before others are seated. -/
theorem arranged_of_weathers [RandomSource γ] (run : Relation.ReflTransGen Weathers player next)
    (arranged : player.Arranged) : next.Arranged ∧ next.config = player.config := by
  induction run with
  | refl => exact ⟨arranged, rfl⟩
  | tail _ step ih =>
    obtain ⟨arranged, config⟩ := ih
    cases step with
    | endures endures =>
      have becomes := endures.becomes
      exact ⟨becomes.arranged arranged, becomes.same.config.trans config⟩
    | wishes => exact ⟨⟨arranged.once, arranged.deals⟩, config⟩

end Player

/-! ## Dealing from one deck -/

/-- A payload is not refused for the size of a deck of 52 cards. -/
theorem Payload.deck_ne_deckSize (payload : Bytes) (needed : Nat) :
    Payload.deck payload ≠ .error (.deckSize 52 needed) := by
  intro refused
  unfold Payload.deck at refused
  cases read : DeckMessage.ofBytes payload with
  | error e =>
    rw [read] at refused
    unfold DeckMessage.ofBytes at read
    split at read
    · cases read
    · cases read
      cases refused
  | ok message =>
    rw [read] at refused
    exact (DeckMessage.deck_eq_error_iff.1 refused).ne_deckSize needed rfl

/-- One deck is enough for the table of the player, and everybody gets a card. -/
structure Player.Provided {γ : Type} (player : Player γ) : Prop extends player.Arranged where
  cards : 0 < player.config.cardsPerPlayer
  enough : player.session.players.length * player.config.cardsPerPlayer ≤ Deck.fullSize

namespace Player.Provided

variable {γ σ : Type} {player : Player γ}

/-- What is dealt to the whole table is counted by a word. -/
theorem fits (provided : player.Provided) :
    player.session.players.length * player.config.cardsPerPlayer < UInt64.size :=
  provided.enough.trans_lt (by decide)

/-- Every program deals the player the same hand and needs the same cards, whatever it does beyond the words. -/
theorem deals_alike (provided : player.Provided) (overflow : Overflow) (deck : Deck Scalar) :
    deck.handWith? overflow player.session.players player.session.dealer player.address player.config.cardsPerPlayer =
        some (deck.hand? player.session.players player.session.dealer player.address player.config.cardsPerPlayer) ∧
      overflow.word? (player.config.cardsPerPlayer * player.session.players.length) =
        some (player.config.cardsPerPlayer * player.session.players.length) := by
  refine ⟨Deck.handWith?_of_fits overflow provided.fits, overflow.word?_of_lt ?_⟩
  rw [Nat.mul_comm]
  exact provided.fits

/-- Of every deck that can be read there is a hand for the player. -/
theorem exists_hand (provided : player.Provided) (seated : player.isSeated = true) {payload : Bytes}
    {deck : Deck Scalar} (read : Payload.deck payload = .ok deck) :
    ∃ hand, player.session.dealtHand? player.address deck player.config.cardsPerPlayer = some hand ∧
      hand.length = player.config.cardsPerPlayer := by
  have size : deck.size = Deck.fullSize := (Payload.full_of_deck read).1
  exact Session.exists_dealtHand provided.deals (isSeated_iff.1 seated) provided.cards provided.fits
    (size ▸ provided.enough)

/-- A player that reads the decrypted deck has its hand. -/
theorem deal_take (provided : player.Provided) (seated : player.isSeated = true) (empty : player.session.hand = [])
    {decryptor : Address} (decrypts : player.session.decryptor? = some decryptor)
    (apart : decryptor ≠ player.session.dealer)
    {answer : (request : Request) → σ → request.Answer × σ} {s after : σ} {payload : Bytes} {deck : Deck Scalar}
    (answered : answer (.latestBySender (player.category .decrypt) decryptor) s = (.ok (some payload), after))
    (read : Payload.deck payload = .ok deck) :
    ∃ hand, hand.length = player.config.cardsPerPlayer ∧ Turn.deal.take answer player s =
      (.ok .observed, { player with session := { player.session with hand } }, after) := by
  obtain ⟨hand, dealt, length⟩ := provided.exists_hand seated read
  have held : hand ≠ [] := by
    rintro rfl
    exact provided.cards.ne length
  refine ⟨hand, length, ?_⟩
  simp [Turn.deal, empty, seated, decrypts, apart, Turn.take_latestDeck?, answered, Except.mapError, Except.bind,
    Turn.deckOf, read, Except.map, dealt, Session.setHand, held]

/-- Whatever the player is answered, it never finds the deck too short for its table. -/
theorem deal_yields {m : Manner σ} (provided : player.Provided) (needed : Nat) (s : σ) :
    (Turn.deal : Turn γ Outcome).Yields m (fun result _ _ => result ≠ .error (.deckSize 52 needed)) player s := by
  simp only [Turn.deal, Turn.yields_bind, Turn.yields_get]
  split
  · simp
  split
  · simp
  rename_i absent
  have seated : player.isSeated = true := by simpa using absent
  split
  case h_2 => simp
  rename_i decryptor decrypts
  split
  · simp
  simp only [Turn.yields_bind, Turn.yields_latestDeck?]
  intro answer after _
  -- the ledger fails, has nothing, or has a payload, which is a deck or is refused
  rcases answer with e | _ | payload
  · simp [Except.mapError, Except.bind]
  · simp [Except.mapError, Except.bind, Turn.deckOf]
  simp only [Except.mapError, Except.bind, Turn.deckOf]
  cases read : Payload.deck payload with
  | error e =>
    rintro ⟨⟩
    exact Payload.deck_ne_deckSize payload needed read
  | ok deck =>
    obtain ⟨hand, dealt, -⟩ := provided.exists_hand seated read
    simp [Except.map, dealt]

end Player.Provided

/-! ## Valid configurations -/

namespace Rules

variable {γ : Type} {rules : Rules} {start player : Player γ}

theorem Fresh.arranged (fresh : rules.Fresh player) : player.Arranged := by
  obtain ⟨players, dealer, -⟩ := fresh.blank
  constructor
  · rw [players]
    exact List.nodup_singleton _
  · rw [players, dealer]
    exact List.mem_singleton_self _

/-- No player in a game with a valid configuration ever sees a table that one deck is too small for. -/
theorem provided_of_weathers [RandomSource γ] (valid : rules.config.Valid) (fresh : rules.Fresh start)
    (reached : Relation.ReflTransGen Player.Weathers start player) :
    player.Provided ∧ player.session.players.length ≤ rules.config.minPlayers ∧ player.config = rules.config := by
  obtain ⟨arranged, kept⟩ := Player.arranged_of_weathers reached fresh.arranged
  have config : player.config = rules.config := kept.trans fresh.told.config
  have least := valid.two_le
  have fits : player.session.players.length ≤ rules.config.minPlayers := by
    have limit := (Player.truthful_of_weathers reached fresh.truthful).1.fits
    rw [config] at limit
    omega
  refine ⟨⟨arranged, ?_, ?_⟩, fits, config⟩
  · rw [config]
    exact valid.cards_pos
  · rw [config]
    exact (Nat.mul_le_mul_right _ fits).trans valid.cards_fit

/-- A valid configuration always deals. Whatever a player has been answered, no more sit at its table than the
configuration tells. If it is seated, has no hand, and is not alone, somebody is to decrypt, and as soon as the
player reads a full deck of that one it has a hand of as many cards as the configuration tells. That the deck is too
short for the table it never finds, however it is answered. -/
theorem valid_config_deals [RandomSource γ] (valid : rules.config.Valid) (fresh : rules.Fresh start)
    (reached : Relation.ReflTransGen Player.Weathers start player) :
    player.session.players.length ≤ rules.config.minPlayers ∧
    (player.isSeated = true → player.session.hand = [] → 2 ≤ player.session.players.length →
      ∃ decryptor, player.session.decryptor? = some decryptor ∧
        ∀ {σ : Type} (answer : (request : Request) → σ → request.Answer × σ) (s after : σ) (payload : Bytes)
          (deck : Deck Scalar),
          answer (.latestBySender (player.category .decrypt) decryptor) s = (.ok (some payload), after) →
          Payload.deck payload = .ok deck →
          ∃ hand, hand.length = rules.config.cardsPerPlayer ∧ Turn.deal.take answer player s =
            (.ok .observed, { player with session := { player.session with hand } }, after)) ∧
    ∀ {σ : Type} (answer : (request : Request) → σ → request.Answer × σ) (s : σ) (needed : Nat),
      (Turn.deal.take answer player s).1 ≠ .error (.deckSize 52 needed) := by
  obtain ⟨provided, fits, config⟩ := provided_of_weathers valid fresh reached
  refine ⟨fits, fun seated empty two => ?_, fun answer s needed => ?_⟩
  · obtain ⟨decryptor, decrypts, apart⟩ := Session.exists_decryptor provided.once provided.deals two
    refine ⟨decryptor, decrypts, fun answer s after payload deck answered read => ?_⟩
    rw [← config]
    exact provided.deal_take seated empty decrypts apart answered read
  · exact (provided.deal_yields needed s).take_any answer

/-- Bob once it has seen that Carol has joined before it. -/
def besideCarol : Player (Seeded id) := heed (hearsay ⟨"bob"⟩ [⟨"carol"⟩, ⟨"bob"⟩] []) .refreshPlayers joiner

/-- Carol, who comes after the dealer, has filed the bare cards. -/
def bareCards : (request : Request) → Unit → request.Answer × Unit :=
  hearsay ⟨"bob"⟩ [⟨"carol"⟩, ⟨"bob"⟩] (DeckMessage.ofDeck Deck.plain.encode).toBytes

/-- Three at the table have two cards each. -/
theorem valid_config_deals_three : forThree.config.Valid ∧ forThree.Fresh joiner ∧
    Relation.ReflTransGen Player.Weathers joiner besideCarol ∧ besideCarol.session.players.length = 3 ∧
    ∃ hand, hand.length = 2 ∧ Turn.deal.take bareCards besideCarol () =
      (.ok .observed, { besideCarol with session := { besideCarol.session with hand } }, ()) := by
  have reached : Relation.ReflTransGen Player.Weathers joiner besideCarol :=
    .single (.endures (endures_heed _ .refreshPlayers joiner))
  have seats : besideCarol.session.players.length = 3 := by decide +kernel
  obtain ⟨-, deals, -⟩ := valid_config_deals forThree_valid fresh_joiner reached
  obtain ⟨decryptor, decrypts, dealt⟩ := deals (by decide +kernel) (by decide +kernel) (by decide +kernel)
  have carol : besideCarol.session.decryptor? = some ⟨"carol"⟩ := by decide +kernel
  obtain rfl : ⟨"carol"⟩ = decryptor := Option.some.inj (carol.symm.trans decrypts)
  refine ⟨forThree_valid, fresh_joiner, reached, seats, ?_⟩
  exact dealt bareCards () () _ _ rfl (Payload.deck_ofDeck Deck.plain_full)

end Rules

end MentalPoker
