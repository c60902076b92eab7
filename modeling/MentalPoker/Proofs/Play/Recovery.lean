/-
Recovery from the ledger. A process that starts anew and takes one turn at everything, with nothing going
wrong, has by then what the process before it had, its key pair apart: the seats, the deck that ends the
chain, the hand, and a phase that is no earlier. All of that is on the ledger, and nothing the ledger has
said has changed since.
-/
import MentalPoker.Proofs.Play.KeyAgreement
import MentalPoker.Proofs.Play.Played
import MentalPoker.Proofs.Player.Calm
import MentalPoker.Proofs.Player.Hitch

namespace MentalPoker

/-! ## Calm ledgers -/

/-- A ledger that nothing happens to is calm. -/
theorem Log.meets_calm {α : Type} (d : Dialogue α) (log : Log) : d.Meets .calm Log.answer id log := by
  refine Dialogue.meets_of_forall (I := fun _ => True) (fun request log _ => ⟨trivial, log, rfl, ?_⟩) d trivial
  cases request with
  | publish => exact .inl ⟨rfl, .inl ⟨_, rfl⟩⟩
  | latestBySender => exact ⟨rfl, .inl rfl⟩
  | sendersTo => exact ⟨rfl, .inl rfl⟩

/-- What a turn ensures when nothing goes wrong it comes to on a journal without failures. -/
theorem Turn.Ensures.take_unhindered {γ α : Type} {Q : Except DealError α → Player γ → Log → Prop} {turn : Turn γ α}
    {player : Player γ} {log : Log} (ensures : turn.Ensures .calm Q player log) :
    Q (turn.take Journal.answer player (.unhindered log)).1 (turn.take Journal.answer player (.unhindered log)).2.1
      (turn.take Journal.answer player (.unhindered log)).2.2.transactions := by
  rw [Turn.take_unhindered]
  exact ensures.take (Log.meets_calm _ log)

/-- The later one of two phases is no earlier than the second. -/
theorem Phase.position_le_later (a b : Phase) : b.position ≤ (a.later b).position := by
  unfold later
  split <;> omega

namespace Rules

variable {γ : Type} (rules : Rules)

/-! ## What there is to recover -/

/-- The ledger has the deck that ends the chain. -/
def Finished (log : Log) : Prop := ∃ deck, rules.Ends log (rules.seats log) deck

/-- The ledger has a hand for the player. -/
def Served (log : Log) (a : Address) : Prop := ∃ hand, hand ≠ [] ∧ rules.Dealt log a hand

/-! ## The new process -/

/-- A process of the address that knows what it needs to, on a ledger that has grown. -/
structure Follows (log : Log) (a : Address) (player : Player γ) (later : Log) : Prop where
  history : rules.History later
  knows : rules.Knows later player
  looked : rules.Looked later player
  viewed : rules.Viewed later True player
  grows : rules.Grows log later
  address : player.address = a

/-- The process sees the seats, and has the finished deck and a hand once there are. -/
structure Regains (log : Log) (a : Address) (finished dealt : Prop) (player : Player γ) (later : Log) : Prop
    extends Follows rules log a player later where
  seats : rules.seats log <+: player.session.players
  finished : finished → player.finishedDeck.isSome = true
  hand : dealt → player.session.hand ≠ []

section

variable {rules} [RandomSource γ] {log later last : Log} {a : Address} {finished dealt : Prop} {player next : Player γ}

theorem Follows.act (valid : rules.config.Valid) (follows : rules.Follows log a player later)
    (act : Act .unreliable ⟨player, later⟩ ⟨next, last⟩) : rules.Follows log a next last := by
  have ordered := follows.history.ordered
  have grows := follows.knows.told.grows act
  have viewed : rules.Viewed later (player.keys.isSome ∨ True) player :=
    follows.viewed.grows valid ordered (fun _ => trivial) (.refl later)
  exact ⟨follows.history.act valid follows.knows act,
    follows.knows.act valid (fun some => (ordered.opened some).2) act,
    follows.looked.act valid follows.knows ordered act,
    (viewed.act valid follows.knows ordered (fun _ => follows.looked) act).grows valid
      (ordered.act valid follows.knows act) (fun _ => .inr trivial) (.refl last),
    follows.grows.trans grows, act.same.address.trans follows.address⟩

theorem Regains.act (valid : rules.config.Valid) (regains : rules.Regains log a finished dealt player later)
    (act : Act .unreliable ⟨player, later⟩ ⟨next, last⟩) : rules.Regains log a finished dealt next last := by
  -- a finished deck may be found again, a hand is kept, and nothing else touches the two
  refine ⟨regains.toFollows.act valid act, regains.seats.trans (regains.knows.sees_more act), fun some => ?_,
    fun some => ?_⟩
  · have held := regains.finished some
    cases act with
    | finishes => rfl
    | _ => exact held
  · have held := regains.hand some
    cases act with
    | seats =>
      rw [regains.knows.seated]
      exact held
    | deals =>
      rw [Session.setHand, if_pos (.inl held)]
      exact held
    | _ => exact held

theorem follows_stable (valid : rules.config.Valid) (log : Log) (a : Address) :
    Turn.Stable .calm (rules.Follows (γ := γ) log a) :=
  fun act follows => follows.act valid (act.mono (rules.calm_le.trans rules.acknowledged_le))

theorem regains_stable (valid : rules.config.Valid) (log : Log) (a : Address) (finished dealt : Prop) :
    Turn.Stable .calm (rules.Regains (γ := γ) log a finished dealt) :=
  fun act regains => regains.act valid (act.mono (rules.calm_le.trans rules.acknowledged_le))

/-! ## Its turn -/

/-- A deck that ends the chain does so for good. -/
theorem Ends.grows (valid : rules.config.Valid) (ordered : rules.Ordered log) {deck : Deck Scalar}
    (ends : rules.Ends log (rules.seats log) deck) (grows : rules.Grows log later) :
    rules.Ends later (rules.seats later) deck := by
  rw [grows.seats_of_full valid (ordered.opened ends.opened).1]
  obtain ⟨last, before, handed⟩ := ends
  exact ⟨last, before, handed.grows grows⟩

/-- Only one deck ends the chain. -/
theorem Ends.unique {view : List Address} {deck deck' : Deck Scalar} (ends : rules.Ends log view deck)
    (ends' : rules.Ends log view deck') : deck = deck' := by
  obtain ⟨last, before, handed⟩ := ends
  obtain ⟨last', before', handed'⟩ := ends'
  cases before.symm.trans before'
  exact handed.unique handed'

/-- Where a hand is dealt the deck is decrypted. -/
theorem Dealt.closed {hand : List Scalar} (dealt : rules.Dealt log a hand) :
    log.senders (rules.category .decrypt) ≠ [] := by
  obtain ⟨decryptor, deck, -, ⟨payload, found, -⟩, -⟩ := dealt
  exact List.ne_nil_of_mem (Log.mem_senders_of_payload? found)

/-- The ledger has one hand for a player. -/
theorem Dealt.unique {hand hand' : List Scalar} (dealt : rules.Dealt log a hand) (dealt' : rules.Dealt log a hand') :
    hand = hand' := by
  obtain ⟨decryptor, deck, next, handed, cut⟩ := dealt
  obtain ⟨decryptor', deck', next', handed', cut'⟩ := dealt'
  cases next.symm.trans next'
  cases handed.unique handed'
  exact Option.some.inj (cut.symm.trans cut')

/-- The session that is brought up to date has the seats, and the finished deck if there is one. -/
theorem Follows.updateSession (valid : rules.config.Valid) (ordered : rules.Ordered log) (seated : a ∈ rules.seats log)
    (follows : rules.Follows log a player later) :
    (Turn.updateSession : Turn γ Outcome).Ensures .calm
      (fun _ => rules.Regains log a (rules.Finished log) False) player later := by
  have sees := follows.knows.seated
  have still := Turn.Stable.ensures (follows_stable valid log a) Turn.updateSession_runs follows
  have seats : (Turn.updateSession : Turn γ Outcome).Ensures .calm (fun _ next _ =>
      rules.seats log <+: next.session.players) player later := by
    refine Turn.updateSession_sees.mono fun _ next _ same => ?_
    rw [same, sees]
    exact follows.grows.seats
  have finishes : (Turn.updateSession : Turn γ Outcome).Ensures .calm (fun _ next _ =>
      rules.Finished log → next.finishedDeck.isSome = true) player later := by
    by_cases some : rules.Finished log
    case neg => exact Turn.updateSession_sees.mono fun _ _ _ _ is => absurd is some
    obtain ⟨deck, ends⟩ := some
    -- a chain that has started needs a full table, and then the last place in it is settled
    have full := follows.grows.full valid (ordered.opened ends.opened).1
    obtain ⟨last, before, payload, found, read⟩ := ends.grows valid ordered follows.grows
    have told : rules.Told _ := (follows.knows.sits valid).told
    refine (Turn.updateSession_calm sees (follows.address ▸ follows.grows.seats.subset seated)
      (Turn.refreshEncryption_calm (full ▸ valid.two_le) before (told.category .shuffle ▸ found) read)).mono ?_
    rintro _ _ _ ⟨deck, announced, progress, -, rfl⟩ -
    rfl
  refine (still.and (seats.and finishes)).mono ?_
  rintro _ next last ⟨follows, seats, finished⟩
  exact ⟨follows, seats, finished, False.elim⟩

/-- The process takes its hand if there is one for it. -/
theorem Regains.deal (valid : rules.config.Valid) (ordered : rules.Ordered log) (seated : a ∈ rules.seats log)
    (regains : rules.Regains log a finished False player later) :
    (Turn.deal : Turn γ Outcome).Ensures .calm (fun _ =>
      rules.Regains log a finished (rules.Served log a)) player later := by
  have still := Turn.Stable.ensures (regains_stable valid log a finished False) Turn.deal_runs regains
  have deals : (Turn.deal : Turn γ Outcome).Ensures .calm (fun _ next _ =>
      rules.Served log a → next.session.hand ≠ []) player later := by
    by_cases some : rules.Served log a
    case neg => exact (Turn.deal_runs player later).mono fun _ _ _ _ is => absurd is some
    obtain ⟨hand, some, dealt⟩ := some
    -- with the whole table in view, the player looks where the ledger has its hand
    have full := ordered.full_of_closed dealt.closed
    have sees : rules.config.minPlayers ≤ player.session.players.length := full.ge.trans regains.seats.length_le
    obtain ⟨decryptor, deck, next, ⟨payload, found, read⟩, cut⟩ := dealt.grows valid ordered regains.grows
    obtain ⟨players, whole⟩ := regains.knows.players_eq valid sees
    have dealer := regains.knows.dealer_eq valid sees
    have told := regains.knows.told
    have sits : player.address ∈ player.session.players := regains.seats.subset (regains.address ▸ seated)
    have apart : decryptor ≠ player.session.dealer := by
      rw [dealer]
      exact Circle.ne_of_next? (seats_nodup later) (whole.ge.trans' valid.two_le) next
    have hand : player.session.dealtHand? player.address deck player.config.cardsPerPlayer = Option.some hand := by
      rw [Session.dealtHand?, told.config, if_neg (Nat.ne_of_gt valid.cards_pos), players, dealer, regains.address]
      exact cut
    refine (Turn.deal_calm sits ?_ apart ?_ read hand some).mono fun _ _ _ taken _ => taken
    · rw [Session.decryptor?, players, dealer]
      exact next
    · rw [told.category]
      exact found
  refine (still.and deals).mono ?_
  rintro _ next last ⟨regains, hand⟩
  exact ⟨regains.toFollows, regains.seats, regains.finished, hand⟩

omit [RandomSource γ] in
/-- A process that sees the whole table and has the finished deck brings its phase up to date. -/
theorem Regains.updateSession (seated : a ∈ rules.seats log) (valid : rules.config.Valid) (full : rules.Full log)
    (regains : rules.Regains log a True dealt player later) :
    (Turn.updateSession : Turn γ Outcome).Ensures .calm (fun _ next _ =>
      Phase.decrypting.position ≤ next.session.phase.position ∧ (dealt → next.session.phase = .ready))
      player later := by
  have knows := regains.knows
  have sees : rules.config.minPlayers ≤ player.session.players.length := full.ge.trans regains.seats.length_le
  have same : player.seated (later.sendersTo (player.category .join) player.session.creator) = player := by
    rw [knows.seated, ← (knows.players_eq valid sees).1, ← knows.dealer_eq valid sees]
  have sits : player.address ∈ player.session.players := regains.seats.subset (regains.address ▸ seated)
  refine (Turn.updateSession_calm same sits (Turn.refreshEncryption_finished (regains.finished trivial))).mono ?_
  rintro _ _ _ ⟨deck, announced, progress, finished, rfl⟩
  dsimp only
  rw [Session.observe, Session.observedPhase, knows.told.config, if_neg (Nat.not_lt.2 sees), finished]
  by_cases held : player.session.hand ≠ []
  · simp only [if_pos held, Turn.later_ready]
    exact ⟨by decide, fun _ => trivial⟩
  · simp only [if_neg held]
    exact ⟨Phase.position_le_later _ .decrypting, fun some => absurd (regains.hand some) held⟩

end

/-- Once a deck is decrypted, the deck that ends the chain can be read. -/
theorem Sound.ends {rules : Rules} {players : List (Player γ)} {log : Log}
    (ordered : rules.Ordered log) (sound : rules.Sound players log)
    (closed : log.senders (rules.category .decrypt) ≠ []) : rules.Finished log := by
  obtain ⟨order, layers, factors, rotation, decks⟩ := sound
  obtain ⟨chain, second, place, -⟩ := ordered.closed closed order rotation
  have inside := (List.getElem?_eq_some_iff.1 place).1
  obtain ⟨last, there⟩ : ∃ last, order[order.length - 1]? = some last :=
    ⟨_, List.getElem?_eq_getElem (by omega)⟩
  have sends : (log.senders (rules.category .shuffle))[order.length - 1]? = some last := by
    rw [chain]
    exact there
  obtain ⟨tx, filed, -, found⟩ := Log.filed_of_senders (ordered.once .shuffle) sends
  obtain ⟨deck, read, -⟩ := decks.shuffled _ tx filed
  exact ⟨deck, last, (Circle.previous?_dealer (seats_nodup log) rotation).trans there, tx.payload, found, read⟩

/-! ## Recovery -/

/-- The second process has what the first one has, its key pair apart. -/
structure Recovers (player next : Player γ) : Prop where
  players : player.session.players <+: next.session.players
  /-- At a full table the same players sit, and the same one deals. -/
  table : player.session.isFull = true →
    next.session.players = player.session.players ∧ next.session.dealer = player.session.dealer
  finished : ∀ deck, player.finishedDeck = some deck → next.finishedDeck = some deck
  hand : player.session.hand ≠ [] → next.session.hand = player.session.hand
  phase : player.session.phase = .decrypting ∨ player.session.phase = .ready →
    player.session.phase.position ≤ next.session.phase.position

section

variable {rules : Rules} {log later : Log} {a : Address} {player next : Player γ}

/-- A finished deck that comes from the whole table ends the chain. -/
theorem Viewed.ends (valid : rules.config.Valid) (viewed : rules.Viewed log True player)
    (knows : rules.Knows log player) (seated : player.address ∈ rules.seats log) {deck : Deck Scalar}
    (held : player.finishedDeck = some deck) : rules.Ends log (rules.seats log) deck := by
  obtain ⟨view, part, ends, whole⟩ := viewed.deck deck held
  rwa [eq_seats valid (part.trans knows.view) (whole trivial seated)] at ends

/-- What the process comes to in its turn. -/
structure Arrives (rules : Rules) (log : Log) (a : Address) (player : Player γ) (later : Log) : Prop
    extends Regains rules log a (rules.Finished log) (rules.Served log a) player later where
  decrypting : rules.Finished log → Phase.decrypting.position ≤ player.session.phase.position
  ready : rules.Served log a → player.session.phase = .ready

/-- A turn at everything takes a new process there. -/
theorem Fresh.arrives [RandomSource γ] (valid : rules.config.Valid) {players : List (Player γ)}
    (history : rules.History log) (sound : rules.Sound players log) (seated : a ∈ rules.seats log)
    (fresh : rules.Fresh player) (same : player.address = a) :
    (Turn.everything : Turn γ Phase).Ensures .calm (fun _ => rules.Arrives log a) player log := by
  have ordered := history.ordered
  have follows : rules.Follows log a player log :=
    ⟨history, fresh.knows log, fresh.looked log, fresh.viewed log True, .refl log, same⟩
  have joins : (Turn.join : Turn γ Outcome).Ensures .calm (fun _ => rules.Follows log a) player log :=
    Turn.Stable.ensures (follows_stable valid log a) Turn.join_runs follows
  -- the turns in the middle take nothing away
  let regained (player : Player γ) (later : Log) := rules.Regains log a (rules.Finished log) False player later
  have stays : Turn.Stable .calm regained := regains_stable valid log a (rules.Finished log) False
  refine Turn.everything_ensures (rules.Follows log a) regained regained regained regained
    (rules.Regains log a (rules.Finished log) (rules.Served log a)) (rules.Arrives log a)
    joins (Follows.updateSession valid ordered seated) (stays.ensures Turn.exchangeKeys_runs)
    (stays.ensures Turn.shuffle_runs) (stays.ensures Turn.decrypt_runs) (Regains.deal valid ordered seated) ?_
  intro player now regains
  have still := Turn.Stable.ensures (regains_stable valid log a (rules.Finished log) (rules.Served log a))
    Turn.updateSession_runs regains
  -- without the finished deck there is no hand either, and nothing is promised about the phase
  by_cases is : rules.Finished log
  · obtain ⟨deck, ends⟩ := is
    have sure : rules.Regains log a True (rules.Served log a) player now :=
      ⟨regains.toFollows, regains.seats, fun _ => regains.finished ⟨deck, ends⟩, regains.hand⟩
    refine (still.and (sure.updateSession seated valid (ordered.opened ends.opened).1)).mono ?_
    rintro _ next last ⟨regains, decrypting, ready⟩
    exact ⟨regains, fun _ => decrypting, ready⟩
  · refine still.mono fun _ next last regains => ⟨regains, fun ends => absurd ends is, ?_⟩
    rintro ⟨hand, -, dealt⟩
    exact absurd (sound.ends ordered dealt.closed) is

/-- What a process that has arrived has is what any process of the address has that has it. -/
theorem Arrives.recovers (valid : rules.config.Valid) (ordered : rules.Ordered log)
    (knows : rules.Knows log player) (viewed : rules.Viewed log True player) (phased : rules.Phased player)
    (seated : player.address ∈ rules.seats log) (arrives : rules.Arrives log player.address next later) :
    Recovers player next := by
  have grows := arrives.grows
  have sits : next.address ∈ rules.seats later := by
    rw [arrives.address]
    exact grows.seats.subset seated
  have ends {deck : Deck Scalar} (held : player.finishedDeck = some deck) := viewed.ends valid knows seated held
  have dealt (some : player.session.hand ≠ []) : rules.Served log player.address :=
    ⟨_, some, viewed.dealt valid knows some trivial⟩
  refine ⟨knows.view.trans arrives.seats, fun full => ?_, fun deck held => ?_, fun some => ?_, fun reached => ?_⟩
  · have sees : rules.config.minPlayers ≤ player.session.players.length := by
      rw [Session.isFull, knows.told.limit] at full
      have := of_decide_eq_true full
      omega
    have sees' : rules.config.minPlayers ≤ next.session.players.length :=
      sees.trans (knows.view.trans arrives.seats).length_le
    obtain ⟨players, whole⟩ := knows.players_eq valid sees
    have seats := grows.seats_of_full valid whole
    rw [(arrives.knows.players_eq valid sees').1, arrives.knows.dealer_eq valid sees', players,
      knows.dealer_eq valid sees, dealerAt, dealerAt, seats]
    exact ⟨rfl, rfl⟩
  · obtain ⟨deck', held'⟩ := Option.isSome_iff_exists.1 (arrives.finished ⟨deck, ends held⟩)
    have ends' := arrives.viewed.ends valid arrives.knows sits held'
    rw [held', ends'.unique ((ends held).grows valid ordered grows)]
  · have some' := arrives.hand (dealt some)
    have mine := arrives.viewed.dealt valid arrives.knows some' trivial
    rw [arrives.address] at mine
    exact mine.unique ((viewed.dealt valid knows some trivial).grows valid ordered grows)
  · rcases reached with decrypting | ready
    · obtain ⟨deck, held⟩ := Option.isSome_iff_exists.1 (phased.decrypting decrypting).2
      rw [decrypting]
      exact arrives.decrypting ⟨deck, ends held⟩
    · rw [ready, arrives.ready (dealt (phased.ready ready).2)]

end

/-- Whatever the processes of an address with a seat have been through, a new one has what they have, their key
pairs apart, once it has taken a turn at everything with nothing going wrong. -/
theorem new_process_recovers [RandomSource γ] {rules : Rules} (valid : rules.config.Valid) {table : Table γ}
    (renewed : rules.Renewed table) {p : Player γ} (member : p ∈ table.players)
    (seated : p.address ∈ rules.seats table.log) {signer : Signer} (same : signer.address = p.address) (source : γ) :
    Recovers p (Turn.everything.take Journal.answer
      (rules.told (.new rules.config signer rules.game rules.creator source)) (.unhindered table.log)).2.1 := by
  have tracked := renewed.tracked valid
  obtain ⟨⟨-, -, sound⟩, -⟩ := (kept_decks valid).reachable renewed.reachable
  have fresh : rules.Fresh (rules.told (.new rules.config signer rules.game rules.creator source)) :=
    .plays signer source
  have named : (rules.told (.new rules.config signer rules.game rules.creator source)).address = p.address := by
    rw [← same]
    unfold told
    cases rules.dealer <;> rfl
  have arrives := fresh.arrives valid tracked.history sound seated named
  exact arrives.take_unhindered.recovers valid tracked.history.ordered (tracked.knows p member)
    (tracked.current.viewed p member) (tracked.current.phased p member) seated

/-- A second process of an address arrives after the deal is over for the first one. -/
theorem new_process_recovers_replaced : ∃ (table : Table (Seeded id)) (p : Player (Seeded id)),
    forTwo.Renewed table ∧ table.players.map (·.address) = [⟨"alice"⟩, ⟨"bob"⟩, ⟨"bob"⟩] ∧
      p ∈ table.players ∧ ⟨"bob"⟩ ∈ forTwo.seats table.log ∧ p.address = ⟨"bob"⟩ ∧ p.keys.isSome = true ∧
      p.session.isFull = true ∧ p.Over ∧
      Recovers p (Turn.everything.take Journal.answer (playerOfTwo "bob" none) (.unhindered table.log)).2.1 := by
  obtain ⟨alice, p, pair, first, named, has⟩ := players_two
  have member : p ∈ twoPlayed.players := by simp [pair]
  obtain ⟨ended, held, seated, full⟩ := has p member
  obtain ⟨renewed, players, log⟩ := renewed_two.arrives ⟨"c", playerOfTwo "bob" none⟩ absent_two rfl
  have present := List.mem_append_left [playerOfTwo "bob" none] member
  rw [← players] at present
  rw [← log] at seated
  refine ⟨_, p, renewed, ?_, present, ?_, named, held, full, ended, ?_⟩
  · rw [players, pair]
    show [alice.address, p.address, ⟨"bob"⟩] = _
    rw [first, named]
  · rwa [named] at seated
  · have same : (Signer.mk ⟨"bob"⟩ []).address = p.address := named.symm
    have starts : forTwo.told (.new forTwo.config ⟨⟨"bob"⟩, []⟩ forTwo.game forTwo.creator
        (playerOfTwo "bob" none).source) = playerOfTwo "bob" none := rfl
    have recovers := new_process_recovers forTwo_valid renewed present seated same (playerOfTwo "bob" none).source
    rwa [starts] at recovers

end Rules

end MentalPoker
