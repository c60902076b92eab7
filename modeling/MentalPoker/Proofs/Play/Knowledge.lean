/-
What players know is so. Each view of the table is the beginning of the table, the keys and decks a
player holds are those on the ledger, and a player that holds a pair knows the whole table. All of
it stays so while the ledger grows, since a transaction of the game is only ever the first of its
sender for its step.
-/
import MentalPoker.Proofs.Ledger.Category
import MentalPoker.Proofs.Game.Circle
import MentalPoker.Proofs.Game.KeyRing
import MentalPoker.Proofs.Game.Seating
import MentalPoker.Proofs.Play.Run

namespace MentalPoker

namespace Rules

variable {γ : Type} (rules : Rules)

/-! ## The table -/

/-- Who sits at the table: the creator and the first who joined. -/
def seats (log : Log) : List Address :=
  Session.seating rules.creator (max rules.config.minPlayers 1)
    (log.sendersTo (rules.category .join) rules.creator)

/-- The table has all its players. -/
def Full (log : Log) : Prop := (rules.seats log).length = rules.config.minPlayers

/-- Who deals. -/
def dealerAt (log : Log) : Address := Session.dealerOf rules.dealer rules.creator (rules.seats log)

/-- The seats from the dealer's on. -/
def rotation? (log : Log) : Option (List Address) :=
  Circle.rotation? (rules.seats log) (rules.dealerAt log)

section

variable {rules} {log later : Log}

theorem creator_prefix_seats (log : Log) : [rules.creator] <+: rules.seats log :=
  Session.creator_prefix_seating (by omega)

theorem creator_mem_seats (log : Log) : rules.creator ∈ rules.seats log :=
  (creator_prefix_seats log).subset List.mem_cons_self

theorem seats_nodup (log : Log) : (rules.seats log).Nodup :=
  Session.seating_nodup (Log.sendersTo_nodup _ _ log)

theorem exists_rotation (rules : Rules) (log : Log) : ∃ order, rules.rotation? log = some order :=
  Circle.exists_rotation (Session.dealerOf_mem (creator_mem_seats log))

theorem seats_length_le (valid : rules.config.Valid) (log : Log) :
    (rules.seats log).length ≤ rules.config.minPlayers := by
  have limit : (rules.seats log).length ≤ max rules.config.minPlayers 1 := Session.seating_length_le
  have := valid.two_le
  omega

end

/-! ## Growth -/

/-- The ledger has grown, and what it says about the steps of a player is as before. -/
structure Grows (log later : Log) : Prop where
  more : log <+: later
  keeps : ∀ {step a payload}, log.payload? (rules.category step) a = some payload →
    later.payload? (rules.category step) a = some payload

section

variable {rules} {log later : Log}

theorem Grows.refl (log : Log) : rules.Grows log log := ⟨List.prefix_rfl, id⟩

/-- A transaction is the first of its sender for its step, or has nothing to do with the game. -/
theorem grows_append {tx : Transaction}
    (first : ∀ step, tx.category = rules.category step → tx.sender ∉ log.senders (rules.category step)) :
    rules.Grows log (log ++ [tx]) := by
  refine ⟨List.prefix_append _ _, fun {step a payload} found => ?_⟩
  rw [Log.payload?_append_of_ne, found]
  rintro filed rfl
  exact first step filed (Log.mem_senders_of_payload? found)

theorem grows_foreign {tx : Transaction} (outside : ∀ step, tx.category ≠ rules.category step) :
    rules.Grows log (log ++ [tx]) :=
  grows_append fun step filed => absurd filed (outside step)

theorem Grows.senders (grows : rules.Grows log later) {category : Category} {a : Address}
    (h : a ∈ log.senders category) : a ∈ later.senders category := by
  obtain ⟨more, rfl⟩ := grows.more
  exact Log.senders_subset_append more h

theorem seats_grow (more : log <+: later) : rules.seats log <+: rules.seats later := by
  obtain ⟨rest, rfl⟩ := more
  exact Session.seating_mono (Log.sendersTo_prefix_append _ _ log rest)

/-- A full table stays as it is. -/
theorem seats_of_full (valid : rules.config.Valid) (more : log <+: later) (full : rules.Full log) :
    rules.seats later = rules.seats log := by
  refine ((seats_grow more).eq_of_length_le ?_).symm
  rw [full]
  exact seats_length_le valid later

theorem Grows.seats (grows : rules.Grows log later) : rules.seats log <+: rules.seats later :=
  seats_grow grows.more

theorem Grows.seats_of_full (valid : rules.config.Valid) (grows : rules.Grows log later)
    (full : rules.Full log) : rules.seats later = rules.seats log :=
  Rules.seats_of_full valid grows.more full

theorem Grows.full (valid : rules.config.Valid) (grows : rules.Grows log later)
    (full : rules.Full log) : rules.Full later := by
  rw [Full, grows.seats_of_full valid full, full]

theorem Grows.rotation (valid : rules.config.Valid) (grows : rules.Grows log later)
    (full : rules.Full log) : rules.rotation? later = rules.rotation? log := by
  rw [rotation?, rotation?, dealerAt, dealerAt, grows.seats_of_full valid full]

end

/-! ## Players -/

/-- What a player has been told it has kept. -/
structure Told (player : Player γ) : Prop where
  config : player.config = rules.config
  game : player.session.game = rules.game
  creator : player.session.creator = rules.creator
  dealer : player.preferredDealer = rules.dealer
  limit : player.session.seats = some (max rules.config.minPlayers 1)
  signs : ∀ signer, player.signer = some signer → signer.address = player.address

/-- The announced key of somebody. -/
def Announced (log : Log) (a : Address) (key : Point) : Prop :=
  ∃ payload, log.payload? (rules.category .publicKey) a = some payload ∧ Payload.key payload = .ok key

/-- The deck that somebody has handed on for a step. -/
def Handed (log : Log) (step : Step) (a : Address) (deck : Deck Scalar) : Prop :=
  ∃ payload, log.payload? (rules.category step) a = some payload ∧ Payload.deck payload = .ok deck

/-- What a player holds is what the ledger says. -/
structure Knows (log : Log) (player : Player γ) : Prop where
  told : rules.Told player
  creator : [rules.creator] <+: player.session.players
  view : player.session.players <+: rules.seats log
  dealer : player.session.dealer = Session.dealerOf rules.dealer rules.creator player.session.players
  /-- Whoever has a pair is seated at the full table and has announced the key. -/
  keys : ∀ keys, player.keys = some keys →
    rules.config.minPlayers ≤ player.session.players.length ∧ player.address ∈ player.session.players ∧
      (∃ secret, keys = KeyPair.ofSecret secret) ∧ rules.Announced log player.address keys.publicKey
  ring : ∀ a key, (a, key) ∈ player.ring.entries →
    a ∈ player.session.players ∧ a ≠ player.address ∧ rules.Announced log a key
  once : player.ring.names.Nodup
  /-- A finished deck comes from the chain, and from its end if the player has a pair. -/
  finished : ∀ deck, player.finishedDeck = some deck → log.senders (rules.category .shuffle) ≠ [] ∧
    (player.keys.isSome → ∃ last, player.session.finalShuffler? = some last ∧
      rules.Handed log .shuffle last deck)

section

variable {rules} {log later : Log} {player : Player γ}

theorem Told.category (told : rules.Told player) (step : Step) :
    player.category step = rules.category step := by
  rw [Player.category, told.config, told.game, Rules.category]

theorem Announced.grows {a : Address} {key : Point} (h : rules.Announced log a key)
    (grows : rules.Grows log later) : rules.Announced later a key := by
  obtain ⟨payload, found, read⟩ := h
  exact ⟨payload, grows.keeps found, read⟩

theorem Handed.grows {step : Step} {a : Address} {deck : Deck Scalar} (h : rules.Handed log step a deck)
    (grows : rules.Grows log later) : rules.Handed later step a deck := by
  obtain ⟨payload, found, read⟩ := h
  exact ⟨payload, grows.keeps found, read⟩

/-- What the latest transaction of somebody reads as is one thing. -/
theorem eq_of_read {ε β : Type} {read : Bytes → Except ε β} {found : Option Bytes} {x y : β}
    (first : ∃ payload, found = some payload ∧ read payload = .ok x)
    (second : ∃ payload, found = some payload ∧ read payload = .ok y) : x = y := by
  obtain ⟨payload, rfl, first⟩ := first
  obtain ⟨_, ⟨⟩, second⟩ := second
  exact Except.ok.inj (first.symm.trans second)

/-- The announced key of somebody is one key. -/
theorem Announced.unique {a : Address} {key key' : Point} (h : rules.Announced log a key)
    (h' : rules.Announced log a key') : key = key' :=
  eq_of_read h h'

theorem Handed.unique {step : Step} {a : Address} {deck deck' : Deck Scalar}
    (h : rules.Handed log step a deck) (h' : rules.Handed log step a deck') : deck = deck' :=
  eq_of_read h h'

/-- Whose key a player has is another one whom it sees, and has announced it. -/
theorem Knows.known (knows : rules.Knows log player) {a : Address} (known : a ∈ player.ring.names) :
    a ∈ player.session.players ∧ a ≠ player.address ∧ a ∈ log.senders (rules.category .publicKey) := by
  obtain ⟨⟨a, key⟩, entry, rfl⟩ := List.mem_map.1 known
  obtain ⟨seated, other, payload, found, -⟩ := knows.ring a key entry
  exact ⟨seated, other, Log.mem_senders_of_payload? found⟩

/-- Nobody has to learn anew what the ledger has said. -/
theorem Knows.grows (knows : rules.Knows log player) (grows : rules.Grows log later) :
    rules.Knows later player where
  told := knows.told
  creator := knows.creator
  view := knows.view.trans grows.seats
  dealer := knows.dealer
  keys keys held := by
    obtain ⟨full, seated, secret, announced⟩ := knows.keys keys held
    exact ⟨full, seated, secret, announced.grows grows⟩
  ring a key member := by
    obtain ⟨seated, other, announced⟩ := knows.ring a key member
    exact ⟨seated, other, announced.grows grows⟩
  once := knows.once
  finished deck held := by
    obtain ⟨shuffled, right⟩ := knows.finished deck held
    refine ⟨?_, fun keys => ?_⟩
    · obtain ⟨a, member⟩ := List.exists_mem_of_ne_nil _ shuffled
      exact List.ne_nil_of_mem (grows.senders member)
    · obtain ⟨last, finishes, handed⟩ := right keys
      exact ⟨last, finishes, handed.grows grows⟩

/-- Whoever holds a pair has its key on the ledger. -/
theorem Knows.announces (knows : rules.Knows log player) {keys : KeyPair} (held : player.keys = some keys) :
    player.address ∈ log.senders (rules.category .publicKey) := by
  obtain ⟨-, -, -, payload, found, -⟩ := knows.keys keys held
  exact Log.mem_senders_of_payload? found

/-- A view with all its players is the table. -/
theorem Knows.players_eq (valid : rules.config.Valid) (knows : rules.Knows log player)
    (full : rules.config.minPlayers ≤ player.session.players.length) :
    player.session.players = rules.seats log ∧ rules.Full log := by
  have same := knows.view.eq_of_length_le ((seats_length_le valid log).trans full)
  refine ⟨same, Nat.le_antisymm (seats_length_le valid log) ?_⟩
  rw [← same]
  exact full

theorem Knows.dealer_eq (valid : rules.config.Valid) (knows : rules.Knows log player)
    (full : rules.config.minPlayers ≤ player.session.players.length) :
    player.session.dealer = rules.dealerAt log := by
  rw [knows.dealer, (knows.players_eq valid full).1, dealerAt]

theorem Fresh.told (fresh : rules.Fresh player) : rules.Told player := by
  have kept (player : Player γ) (config : player.config = rules.config)
      (game : player.session.game = rules.game) (creator : player.session.creator = rules.creator)
      (limit : player.session.seats = some (max rules.config.minPlayers 1))
      (signs : ∀ signer, player.signer = some signer → signer.address = player.address)
      (none : player.preferredDealer = none) : rules.Told (rules.told player) := by
    unfold Rules.told
    cases wish : rules.dealer with
    | none => exact ⟨config, game, creator, none.trans wish.symm, limit, signs⟩
    | some dealer => exact ⟨config, game, creator, wish.symm, limit, signs⟩
  cases fresh with
  | plays signer source => exact kept _ rfl rfl rfl rfl (fun _ h => by cases h; rfl) rfl
  | observes address source => exact kept _ rfl rfl rfl rfl (fun _ h => by cases h) rfl

/-- What a fresh player has not learned. -/
theorem Fresh.blank (fresh : rules.Fresh player) :
    player.session.players = [rules.creator] ∧ player.session.dealer = rules.creator ∧
      player.session.hand = [] ∧ player.keys = none ∧ player.ring = .empty ∧
      player.finishedDeck = none := by
  cases fresh <;> unfold Rules.told <;> cases rules.dealer <;> exact ⟨rfl, rfl, rfl, rfl, rfl, rfl⟩

theorem Fresh.waits (fresh : rules.Fresh player) :
    player.session.phase = .waitingForPlayers ∧ player.announced = .waitingForPlayers := by
  cases fresh <;> unfold Rules.told <;> cases rules.dealer <;> exact ⟨rfl, rfl⟩

/-- At a table with the creator alone the creator deals. -/
theorem dealerOf_singleton (wished : Option Address) (creator : Address) :
    Session.dealerOf wished creator [creator] = creator := by
  unfold Session.dealerOf
  split
  · rfl
  · split
    · rename_i seated
      exact List.mem_singleton.1 seated
    · rfl

/-- A player that has just arrived knows what it needs to. -/
theorem Fresh.knows (fresh : rules.Fresh player) (log : Log) : rules.Knows log player := by
  obtain ⟨players, dealer, -, keys, ring, finished⟩ := fresh.blank
  refine ⟨fresh.told, ?_, ?_, ?_, ?_, ?_, ?_, ?_⟩
  · rw [players]
  · rw [players]
    exact creator_prefix_seats log
  · rw [players, dealer, dealerOf_singleton]
  · simp [keys]
  · simp [ring, KeyRing.empty]
  · simp [ring, KeyRing.names, KeyRing.empty]
  · simp [finished]

end

/-! ## Acts -/

section

variable {rules} {log later : Log} {player next : Player γ}

/-- Once everybody is seated who has joined, a view that is the beginning of the table is the table. -/
theorem Told.seatAll (told : rules.Told player) (creator : [rules.creator] <+: player.session.players)
    (view : player.session.players <+: rules.seats log) :
    player.session.seatAll (log.sendersTo (rules.category .join) rules.creator) =
      { player.session with players := rules.seats log } := by
  have seats := Session.seatAll_of_prefix told.limit (Log.sendersTo_nodup (rules.category .join) rules.creator log)
    (by rwa [told.creator]) (by rwa [told.creator])
  simp only [seats, Rules.seats, told.creator]

/-- With the table in view the player knows who deals. -/
theorem Told.seated (told : rules.Told player) (creator : [rules.creator] <+: player.session.players)
    (view : player.session.players <+: rules.seats log)
    (dealer : player.session.dealer = Session.dealerOf rules.dealer rules.creator player.session.players) :
    player.seated (log.sendersTo (rules.category .join) rules.creator) =
      { player with session := { player.session with
        players := rules.seats log
        dealer := rules.dealerAt log } } := by
  unfold Player.seated
  rw [told.seatAll creator view, told.dealer]
  unfold dealerAt Session.dealerOf at *
  cases wish : rules.dealer with
  | none =>
    rw [wish] at dealer
    simp only [← dealer]
  | some wished =>
    rw [wish] at dealer
    dsimp only at dealer ⊢
    by_cases seated : wished ∈ rules.seats log
    · simp [Session.setDealer, Session.isSeated, seated, Except.toOption]
    · rw [if_neg fun early => seated (view.subset early)] at dealer
      simp [Session.setDealer, Session.isSeated, seated, Except.toOption, dealer]

theorem Knows.seated (knows : rules.Knows log player) :
    player.seated (log.sendersTo (player.category .join) player.session.creator) =
      { player with session := { player.session with
        players := rules.seats log
        dealer := rules.dealerAt log } } := by
  rw [knows.told.category, knows.told.creator]
  exact knows.told.seated knows.creator knows.view knows.dealer

@[simp] theorem saw_unreliable {scene : Scene γ} {P : Log → Prop} :
    scene.Saw .unreliable P ↔ P scene.log :=
  ⟨fun ⟨_, same, holds⟩ => same ▸ holds, fun holds => ⟨_, rfl, holds⟩⟩

/-- What a player has not found of its own is not there. -/
theorem Told.unfiled (told : rules.Told player) {step : Step}
    (unfiled : (Scene.mk player log).Unfiled .unreliable step) :
    player.address ∉ log.senders (rules.category step) :=
  told.category step ▸ saw_unreliable.1 unfiled

/-- What a player has found is there. -/
theorem Told.found (told : rules.Told player) {step : Step} {a : Address} {payload : Bytes}
    (found : (Scene.mk player log).Found .unreliable step a payload) :
    log.payload? (rules.category step) a = some payload :=
  told.category step ▸ saw_unreliable.1 found

/-- An act leaves the ledger as it is, or files the player's first transaction for a step. -/
theorem files_of_act [RandomSource γ] (act : Act .unreliable ⟨player, log⟩ ⟨next, later⟩) :
    later = log ∨ ∃ signer step recipients payload, player.signer = some signer ∧
      player.address ∉ log.senders (player.category step) ∧
      later = log ++ [Log.filing log signer (player.category step) recipients payload] := by
  rcases act.files with unchanged | same | ⟨signer, step, recipients, payload, signs, unfiled, -, filed⟩
  · exact .inl unchanged.symm
  · exact .inl same
  · exact .inr ⟨signer, step, recipients, payload, signs, saw_unreliable.1 unfiled, filed⟩

/-- What a player files is its first transaction for a step. -/
theorem Told.grows [RandomSource γ] (told : rules.Told player) (act : Act .unreliable ⟨player, log⟩ ⟨next, later⟩) :
    rules.Grows log later := by
  rcases files_of_act act with rfl | ⟨signer, step, recipients, payload, signs, unfiled, rfl⟩
  · exact .refl _
  · refine grows_append fun other filed => ?_
    replace filed : player.category step = rules.category other := filed
    rw [← filed]
    rw [Log.filing, told.signs signer signs]
    exact unfiled

/-- What a player has been told it keeps. -/
theorem Told.of_same (told : rules.Told player) (same : player.Same next) : rules.Told next :=
  ⟨same.config.trans told.config, same.game.trans told.game, same.creator.trans told.creator,
    same.dealer.trans told.dealer, same.limit.trans told.limit, fun s signs => by
      rw [same.address]
      exact told.signs s (same.signer ▸ signs)⟩

/-- A session that differs in the phase and the hand only is as good. -/
theorem Knows.session (knows : rules.Knows log player) {phase : Phase} {hand : List Scalar}
    {announced : Phase} :
    rules.Knows log { player with session := { player.session with phase, hand }, announced } :=
  ⟨knows.told.of_same ⟨rfl, rfl, rfl, rfl, rfl, rfl, rfl⟩, knows.creator, knows.view, knows.dealer, knows.keys,
    knows.ring, knows.once, knows.finished⟩

theorem Knows.full_of_announces [RandomSource γ] (knows : rules.Knows log player) {signer : Signer} {keys : KeyPair}
    {source : γ} {message : KeyMessage}
    (h : (Scene.mk player log).Announces .unreliable signer keys source message) :
    rules.config.minPlayers ≤ player.session.players.length := by
  have view : max player.config.minPlayers 2 ≤ player.session.players.length := h.full
  rw [knows.told.config] at view
  omega

/-- The key of a pair that has just been announced can be read on the ledger. -/
theorem Told.announced [RandomSource γ] (told : rules.Told player) {signer : Signer} {keys : KeyPair}
    {source : γ} {message : KeyMessage}
    (h : (Scene.mk player log).Announces .unreliable signer keys source message) (recipients : List Address) :
    (∃ secret, keys = KeyPair.ofSecret secret) ∧
      rules.Announced (log ++ [Log.filing log signer (player.category .publicKey) recipients message.toBytes])
        player.address keys.publicKey := by
  obtain ⟨secret, rfl⟩ : ∃ secret, keys = KeyPair.ofSecret secret := by
    obtain ⟨secret, same⟩ := KeyPair.generate_eq_ofSecret player.source
    exact ⟨secret, by rw [← same, h.drawn]⟩
  refine ⟨⟨secret, rfl⟩, message.toBytes, ?_, KeyPair.key_of_announced h.message⟩
  exact Log.payload?_append_of_eq (told.category .publicKey) (told.signs signer h.signs)

/-- A pair that has just been announced is the player's, and no deck had been finished. -/
theorem Knows.keeps [RandomSource γ] (knows : rules.Knows log player)
    (opened : log.senders (rules.category .shuffle) ≠ [] →
      ∀ a ∈ rules.seats log, a ∈ log.senders (rules.category .publicKey))
    {signer : Signer} {keys : KeyPair} {source : γ} {message : KeyMessage}
    (h : (Scene.mk player log).Announces .unreliable signer keys source message) :
    rules.Knows (Scene.file ⟨{ player with keys := some keys, source }, log⟩ signer .publicKey
      player.session.players message.toBytes).log { player with keys := some keys, source } := by
  have grows := knows.told.grows (.keepsKeys h)
  have known := knows.grows grows
  have full := knows.full_of_announces h
  refine ⟨known.told.of_same ⟨rfl, rfl, rfl, rfl, rfl, rfl, rfl⟩, known.creator, known.view, known.dealer, ?_,
    known.ring, known.once, fun deck held => ?_⟩
  · rintro _ ⟨⟩
    exact ⟨full, h.seated, knows.told.announced h player.session.players⟩
  · -- a finished deck would show that the key is on the ledger already
    have seated := knows.view.subset h.seated
    exact absurd (opened (knows.finished deck held).1 _ seated) (knows.told.unfiled h.unfiled)

theorem Knows.learns (knows : rules.Knows log player) {other : Address} {key : Point}
    (seated : other ∈ player.session.players) (notSelf : other ≠ player.address)
    (announced : rules.Announced log other key) :
    rules.Knows log { player with ring := (player.ring.record other key).2 } := by
  refine ⟨knows.told.of_same ⟨rfl, rfl, rfl, rfl, rfl, rfl, rfl⟩, knows.creator, knows.view, knows.dealer,
    knows.keys, fun a k member => ?_, KeyRing.nodup_record knows.once, knows.finished⟩
  rcases KeyRing.mem_record member with old | new
  · exact knows.ring a k old
  · cases new
    exact ⟨seated, notSelf, announced⟩

/-- Seeing the whole table takes nothing away from a player. -/
theorem Knows.sits (valid : rules.config.Valid) (knows : rules.Knows log player) :
    rules.Knows log { player with session := { player.session with
      players := rules.seats log
      dealer := rules.dealerAt log } } := by
  refine ⟨knows.told.of_same ⟨rfl, rfl, rfl, rfl, rfl, rfl, rfl⟩, creator_prefix_seats log, List.prefix_rfl, rfl,
    fun keys held => ?_, fun a key member => ?_, knows.once, fun deck held => ?_⟩
  · obtain ⟨full, seated, rest⟩ := knows.keys keys held
    exact ⟨full.trans knows.view.length_le, knows.view.subset seated, rest⟩
  · obtain ⟨seated, rest⟩ := knows.ring a key member
    exact ⟨knows.view.subset seated, rest⟩
  · obtain ⟨shuffled, right⟩ := knows.finished deck held
    refine ⟨shuffled, fun keys => ?_⟩
    obtain ⟨last, finishes, handed⟩ := right keys
    obtain ⟨pair, held⟩ := Option.isSome_iff_exists.1 keys
    have full := (knows.keys pair held).1
    rw [Session.finalShuffler?, (knows.players_eq valid full).1, knows.dealer_eq valid full] at finishes
    exact ⟨last, finishes, handed⟩

/-- Players know what they need to after every act. -/
theorem Knows.act [RandomSource γ] (valid : rules.config.Valid) (knows : rules.Knows log player)
    (opened : log.senders (rules.category .shuffle) ≠ [] →
      ∀ a ∈ rules.seats log, a ∈ log.senders (rules.category .publicKey))
    (act : Act .unreliable ⟨player, log⟩ ⟨next, later⟩) : rules.Knows later next := by
  have grown := knows.grows (knows.told.grows act)
  cases act with
  | others | joins | shuffles | decrypts => exact grown
  | losesKeys =>
    exact ⟨grown.told.of_same ⟨rfl, rfl, rfl, rfl, rfl, rfl, rfl⟩, grown.creator, grown.view, grown.dealer,
      grown.keys, grown.ring, grown.once, grown.finished⟩
  | draws =>
    exact ⟨knows.told.of_same ⟨rfl, rfl, rfl, rfl, rfl, rfl, rfl⟩, knows.creator, knows.view, knows.dealer,
      knows.keys, knows.ring, knows.once, knows.finished⟩
  | seats =>
    rw [knows.seated]
    exact knows.sits valid
  | keepsKeys h => exact knows.keeps opened h
  | learns full seated notSelf found read =>
    rw [knows.told.category] at found
    exact knows.learns seated notSelf ⟨_, found, read⟩
  | @finishes _ _ _ payload deck none finishes found read =>
    rw [knows.told.category] at found
    refine ⟨knows.told.of_same ⟨rfl, rfl, rfl, rfl, rfl, rfl, rfl⟩, knows.creator, knows.view, knows.dealer,
      knows.keys, knows.ring, knows.once, ?_⟩
    rintro _ ⟨⟩
    exact ⟨List.ne_nil_of_mem (Log.mem_senders_of_payload? found), fun _ => ⟨_, finishes, payload, found, read⟩⟩
  | deals _ _ _ dealt =>
    unfold Session.setHand
    split
    · exact knows
    · exact knows.session
  | observes => exact knows.session

end

end Rules

end MentalPoker
