/-
What the decks on the ledger are. The deck that comes after `k` shuffles is the plain deck in some
order under the layers of the first `k` neighbours of the rotation, and the decrypted deck lacks the
second of them and no other; so the cards come out of it once the other layers are removed.
-/
import MentalPoker.Proofs.Card.Layer
import MentalPoker.Proofs.Play.Chain

namespace MentalPoker

namespace Rules

variable {γ : Type} (rules : Rules)

/-! ## Layers of neighbours -/

/-- A player at the address holds the pair. -/
def Holds (players : List (Player γ)) (a : Address) (keys : KeyPair) : Prop :=
  ∃ player ∈ players, player.address = a ∧ player.keys = some keys

/-- The layer between a player and another one, as the player makes and removes it. -/
def Between (players : List (Player γ)) (log : Log) (a b : Address) (layer : Deck.Layer) : Prop :=
  (∃ keys, Holds players a keys ∧ layer.secret = keys.secretKey) ∧ rules.Announced log b layer.key

/-- All players of an address that hold a pair hold the same one. -/
def OnePair (players : List (Player γ)) : Prop :=
  ∀ a keys keys', Holds players a keys → Holds players a keys' → keys = keys'

/-- The decks on the ledger, given the rotation, the layers of the first neighbours, and their
factors. -/
structure Decks (players : List (Player γ)) (log : Log) (order : List Address)
    (layers : List Deck.Layer) (factors : List Scalar) : Prop where
  count : layers.length = (log.filed (rules.category .shuffle)).length
  has : List.Forall₂ Deck.Layer.Has layers factors
  /-- The layer at place `k` is the one between the player there and the next one around the table. -/
  between : ∀ k layer, layers[k]? = some layer → ∃ a b, order[k]? = some a ∧
    order[(k + 1) % order.length]? = some b ∧ rules.Between players log a b layer
  shuffled : ∀ k tx, (log.filed (rules.category .shuffle))[k]? = some tx → ∃ deck,
    Payload.deck tx.payload = .ok deck ∧
      deck.entries.Perm (Deck.plain.encode.times (factors.take (k + 1)).prod).entries
  decrypted : ∀ tx ∈ log.filed (rules.category .decrypt), ∃ deck last finished second,
    Payload.deck tx.payload = .ok deck ∧
      (log.filed (rules.category .shuffle))[order.length - 1]? = some last ∧
      Payload.deck last.payload = .ok finished ∧ factors[1]? = some second ∧
      deck = finished.times (Residue.inverse second)

section

variable {rules} {log later : Log} {players others : List (Player γ)}

theorem Between.mono {a b : Address} {layer : Deck.Layer} (h : rules.Between players log a b layer)
    (more : ∀ a keys, Holds players a keys → Holds others a keys) (grows : rules.Grows log later) :
    rules.Between others later a b layer := by
  obtain ⟨⟨keys, holds, same⟩, announced⟩ := h
  exact ⟨⟨keys, more a keys holds, same⟩, announced.grows grows⟩

/-- Only decks and decryptions have a say in what the decks are. -/
theorem Decks.mono {order : List Address} {layers : List Deck.Layer} {factors : List Scalar}
    (decks : rules.Decks players log order layers factors)
    (more : ∀ a keys, Holds players a keys → Holds others a keys) (grows : rules.Grows log later)
    (shuffles : later.filed (rules.category .shuffle) = log.filed (rules.category .shuffle))
    (decrypts : later.filed (rules.category .decrypt) = log.filed (rules.category .decrypt)) :
    rules.Decks others later order layers factors := by
  refine ⟨by rw [shuffles]; exact decks.count, decks.has, fun k layer place => ?_, ?_, ?_⟩
  · obtain ⟨a, b, ha, hb, between⟩ := decks.between k layer place
    exact ⟨a, b, ha, hb, between.mono more grows⟩
  · rw [shuffles]
    exact decks.shuffled
  · rw [shuffles, decrypts]
    exact decks.decrypted

/-- What somebody hands on is in its transaction. -/
theorem handed_iff {step : Step} {a : Address} {deck : Deck Scalar} {k : Nat} {tx : Transaction}
    (once : (log.senders (rules.category step)).Nodup)
    (place : (log.filed (rules.category step))[k]? = some tx) (sender : tx.sender = a) :
    rules.Handed log step a deck ↔ Payload.deck tx.payload = .ok deck := by
  have found := Log.payload?_of_mem_filed once (List.mem_of_getElem? place)
  rw [sender] at found
  constructor
  · rintro ⟨payload, found', read⟩
    cases found.symm.trans found'
    exact read
  · exact fun read => ⟨tx.payload, found, read⟩

end

/-! ## Who holds what after an act -/

section

variable {rules} {log later : Log} {player next : Player γ} {front back : List (Player γ)}
  {a : Address} {keys : KeyPair}

/-- No pair is given up for another, and a pair that is new has not been announced before. -/
theorem keys_of_act [RandomSource γ] (told : rules.Told player)
    (act : Act .unreliable ⟨player, log⟩ ⟨next, later⟩) :
    next.keys = player.keys ∨
      player.keys = none ∧ player.address ∉ log.senders (rules.category .publicKey) := by
  cases act with
  | keepsKeys h => exact .inr ⟨h.none, told.unfiled h.unfiled⟩
  | _ => exact .inl rfl

/-- Whoever has a pair keeps it. -/
theorem held_of_act [RandomSource γ] (told : rules.Told player)
    (act : Act .unreliable ⟨player, log⟩ ⟨next, later⟩) (held : player.keys = some keys) :
    next.keys = some keys := by
  rcases keys_of_act told act with unchanged | ⟨none, -⟩
  · rw [unchanged, held]
  · rw [none] at held
    cases held

theorem holds_act [RandomSource γ] (told : rules.Told player)
    (act : Act .unreliable ⟨player, log⟩ ⟨next, later⟩)
    (holds : Holds (front ++ player :: back) a keys) : Holds (front ++ next :: back) a keys := by
  obtain ⟨p, member, same, held⟩ := holds
  rcases mem_replaced next member with rfl | ⟨-, other⟩
  · exact ⟨next, by simp, act.same.address.trans same, held_of_act told act held⟩
  · exact ⟨p, other, same, held⟩

/-- Whoever holds a pair after an act held it before, or has just announced its first. -/
theorem holds_of_act [RandomSource γ] (told : rules.Told player)
    (act : Act .unreliable ⟨player, log⟩ ⟨next, later⟩)
    (holds : Holds (front ++ next :: back) a keys) : Holds (front ++ player :: back) a keys ∨
      a = player.address ∧ next.keys = some keys ∧ a ∉ log.senders (rules.category .publicKey) := by
  obtain ⟨p, member, same, held⟩ := holds
  rcases mem_replaced player member with rfl | ⟨-, other⟩
  · rw [act.same.address] at same
    rcases keys_of_act told act with unchanged | ⟨-, new⟩
    · exact .inl ⟨player, by simp, same, unchanged ▸ held⟩
    · exact .inr ⟨same.symm, held, same ▸ new⟩
  · exact .inl ⟨p, other, same, held⟩

/-- Two processes of one player never get a pair each, as long as whoever holds one has announced it. -/
theorem OnePair.act [RandomSource γ] (pairs : OnePair (front ++ player :: back)) (told : rules.Told player)
    (announced : ∀ a keys, Holds (front ++ player :: back) a keys →
      a ∈ log.senders (rules.category .publicKey))
    (act : Act .unreliable ⟨player, log⟩ ⟨next, later⟩) : OnePair (front ++ next :: back) := by
  intro a keys keys' holds holds'
  rcases holds_of_act told act holds with old | ⟨-, held, new⟩ <;>
    rcases holds_of_act told act holds' with old' | ⟨-, held', new'⟩
  · exact pairs a keys keys' old old'
  · exact absurd (announced a keys old) new'
  · exact absurd (announced a keys' old') new
  · exact Option.some.inj (held.symm.trans held')

/-- Whoever arrives holds no pair yet. -/
theorem Fresh.holds {players : List (Player γ)} (fresh : rules.Fresh player)
    (holds : Holds (players ++ [player]) a keys) : Holds players a keys := by
  obtain ⟨p, member, same, held⟩ := holds
  rcases List.mem_append.1 member with old | new
  · exact ⟨p, old, same, held⟩
  · obtain ⟨-, -, -, none, -⟩ := fresh.blank
    rw [List.mem_singleton.1 new, none] at held
    cases held

end

/-! ## The next deck -/

section

variable {rules} {log : Log} {players : List (Player γ)} {player : Player γ} {order : List Address}
  {layers : List Deck.Layer} {factors : List Scalar} {k : Nat}

/-- Before the first deck there is nothing to tell. -/
theorem Decks.start (order : List Address) (ordered : rules.Ordered log)
    (none : log.senders (rules.category .shuffle) = []) : rules.Decks players log order [] [] := by
  have shuffles : log.filed (rules.category .shuffle) = [] := List.map_eq_nil_iff.1 none
  have decrypts : log.filed (rules.category .decrypt) = [] := by
    by_contra some
    obtain ⟨order, rotation⟩ := rules.exists_rotation log
    obtain ⟨all, second, place, -⟩ :=
      ordered.closed (fun h => some (List.map_eq_nil_iff.1 h)) order rotation
    rw [← all, none] at place
    cases place
  refine ⟨by rw [shuffles]; rfl, .nil, fun k layer place => ?_, ?_, ?_⟩
  · cases place
  · simp [shuffles]
  · simp [decrypts]

/-- Until the chain is complete there is no decryption. -/
theorem Ordered.undecrypted (ordered : rules.Ordered log) (rotation : rules.rotation? log = some order)
    (chain : log.senders (rules.category .shuffle) = order.take k) (inside : k < order.length) :
    log.senders (rules.category .decrypt) = [] := by
  by_contra some
  obtain ⟨complete, -⟩ := ordered.closed some order rotation
  have short := congrArg List.length (chain.symm.trans complete)
  rw [List.length_take] at short
  omega

/-- The deck that a player is to shuffle is the plain one under the layers of those before it. -/
theorem Decks.input (valid : rules.config.Valid) (knows : rules.Knows log player)
    (ordered : rules.Ordered log) (decks : rules.Decks players log order layers factors)
    (rotation : rules.rotation? log = some order) (place : order[k]? = some player.address)
    (chain : log.senders (rules.category .shuffle) = order.take k) {keys : KeyPair}
    (held : player.keys = some keys) {input : Deck Scalar}
    (h : (Scene.mk player log).Input .unreliable input) :
    input.entries.Perm (Deck.plain.encode.times (factors.take k).prod).entries := by
  obtain ⟨seats, dealer, -⟩ := knows.whole valid held
  have nodup := Circle.rotation_nodup (seats_nodup log) rotation
  have head := Circle.rotation_head rotation
  rw [← dealer] at head
  cases h with
  | opens deals complete =>
    rw [show player.session.dealer = player.address from deals.symm] at head
    obtain rfl := Circle.place_unique nodup head place
    rw [List.take_zero, List.prod_nil, Deck.times_one]
  | @follows predecessor _ _ follows before found read =>
    cases k with
    | zero => exact absurd (Option.some.inj (place.symm.trans head)) follows
    | succ k =>
      have previous := Circle.previous?_succ (seats_nodup log) rotation place
      rw [seats, previous] at before
      -- the predecessor's deck is the last of the chain
      have last : (log.senders (rules.category .shuffle))[k]? = some predecessor := by
        rw [chain, List.getElem?_take, if_pos (Nat.lt_succ_self k)]
        exact before
      obtain ⟨tx, there, -, payload⟩ := Log.filed_of_senders (ordered.once .shuffle) last
      cases (knows.told.found found).symm.trans payload
      obtain ⟨deck, read', perm⟩ := decks.shuffled k tx there
      cases read.symm.trans read'
      exact perm

/-- The next deck is under one layer more. -/
theorem Decks.append_shuffle (valid : rules.config.Valid) (knows : rules.Knows log player)
    (member : player ∈ players) (ordered : rules.Ordered log)
    (decks : rules.Decks players log order layers factors) (rotation : rules.rotation? log = some order)
    {signer : Signer} {deck : Deck Scalar} (h : (Scene.mk player log).Shuffles .unreliable signer deck)
    {tx : Transaction} (category : tx.category = rules.category .shuffle)
    (payload : tx.payload = (DeckMessage.ofDeck deck).toBytes)
    (grows : rules.Grows log (log ++ [tx])) :
    ∃ layer factor, rules.Decks players (log ++ [tx]) order (layers ++ [layer]) (factors ++ [factor]) := by
  obtain ⟨-, -, turn⟩ := knows.shuffles valid ordered h
  obtain ⟨k, place, chain⟩ := turn order rotation
  obtain ⟨keys, input, successor, key, shuffled, held, inputs, perm, next, found, layered⟩ := h.layered
  replace held : player.keys = some keys := held
  obtain ⟨seats, -⟩ := knows.whole valid held
  obtain ⟨factor, has, rfl⟩ := Deck.factor_of_encrypt layered
  have inside := (List.getElem?_eq_some_iff.1 place).1
  have count : layers.length = k := by
    rw [decks.count, ← List.length_map (·.sender), ← Log.senders, chain, List.length_take]
    omega
  have count' : factors.length = k := decks.has.length_eq.symm.trans count
  have all : List.Forall₂ Deck.Layer.Has (layers ++ [⟨key, keys.secretKey⟩]) (factors ++ [factor]) :=
    List.rel_append decks.has (.cons has .nil)
  have under : (shuffled.times factor).entries.Perm
      (Deck.plain.encode.times (factors ++ [factor]).prod).entries := by
    have input := decks.input valid knows ordered rotation place chain held inputs
    rw [List.take_of_length_le count'.le] at input
    rw [List.prod_append, List.prod_singleton, ← Deck.times_times]
    exact (perm.trans input).map _
  have full := (Deck.plain_full.times (Deck.prod_ne_zero all)).of_perm under
  have more : (log ++ [tx]).filed (rules.category .shuffle) =
      log.filed (rules.category .shuffle) ++ [tx] := Log.filed_append_of_eq category
  refine ⟨⟨key, keys.secretKey⟩, factor, ?_, all, fun j layer at_ => ?_, fun j other at_ => ?_,
    fun other at_ => ?_⟩
  · rw [more, List.length_append, List.length_append, decks.count]
    rfl
  · rcases getElem?_append_singleton_eq_some_iff.1 at_ with before | ⟨last, rfl⟩
    · obtain ⟨a, b, ha, hb, between⟩ := decks.between j layer before
      exact ⟨a, b, ha, hb, between.mono (fun _ _ h => h) grows⟩
    · obtain rfl : j = k := last.trans count
      rw [seats, Circle.next?_rotation (seats_nodup log) rotation place] at next
      exact ⟨_, successor, place, next, ⟨keys, ⟨player, member, rfl, held⟩, rfl⟩,
        (knows.announced_of_get? found).grows grows⟩
  · rw [more] at at_
    rcases getElem?_append_singleton_eq_some_iff.1 at_ with before | ⟨last, rfl⟩
    · have early : j < factors.length := by
        rw [← decks.has.length_eq, decks.count]
        exact (List.getElem?_eq_some_iff.1 before).1
      rw [List.take_append_of_le_length early]
      exact decks.shuffled j other before
    · rw [payload, List.take_of_length_le (by simp [last, ← decks.count, decks.has.length_eq])]
      exact ⟨_, Payload.deck_ofDeck full, under⟩
  · have others : (log ++ [tx]).senders (rules.category .decrypt) = [] := by
      rw [senders_append_other valid category (by decide)]
      exact ordered.undecrypted rotation chain inside
    rw [List.map_eq_nil_iff.1 others] at at_
    cases at_

/-- At the end of the chain, whoever has a pair and a finished deck has the last deck of the chain. -/
theorem Knows.finished_last (valid : rules.config.Valid) (knows : rules.Knows log player)
    (ordered : rules.Ordered log) (rotation : rules.rotation? log = some order)
    (chain : log.senders (rules.category .shuffle) = order) {keys : KeyPair} (held : player.keys = some keys)
    {finished : Deck Scalar} (holds : player.finishedDeck = some finished) :
    ∃ last, (log.filed (rules.category .shuffle))[order.length - 1]? = some last ∧
      Payload.deck last.payload = .ok finished := by
  obtain ⟨seats, dealer, -⟩ := knows.whole valid held
  obtain ⟨-, right⟩ := knows.finished finished holds
  obtain ⟨a, finishes, handed⟩ := right (by rw [held]; rfl)
  rw [Session.finalShuffler?, seats, dealer, Circle.previous?_dealer (seats_nodup log) rotation,
    ← chain] at finishes
  obtain ⟨last, there, sender, -⟩ := Log.filed_of_senders (ordered.once .shuffle) finishes
  rw [chain] at there
  exact ⟨last, there, (handed_iff (ordered.once .shuffle) there sender).1 handed⟩

/-- The factor of a player's layer is the one that it shares with the player after it. -/
theorem Decks.factor_of_place (valid : rules.config.Valid) (knows : rules.Knows log player)
    (member : player ∈ players) (pairs : OnePair players)
    (decks : rules.Decks players log order layers factors) (rotation : rules.rotation? log = some order)
    (place : order[k]? = some player.address) (inside : k < layers.length) {keys : KeyPair}
    (held : player.keys = some keys) {successor : Address} {key : Point} {factor : Scalar}
    (next : Circle.next? player.session.players player.address = some successor)
    (found : player.ring.get? successor = some key)
    (has : Cipher.sharedFactor key keys.secretKey = .ok factor) : factors[k]? = some factor := by
  obtain ⟨seats, -⟩ := knows.whole valid held
  obtain ⟨a, b, ha, hb, ⟨pair, holder, secret⟩, announced⟩ :=
    decks.between k _ (List.getElem?_eq_getElem inside)
  cases place.symm.trans ha
  rw [seats, Circle.next?_rotation (seats_nodup log) rotation place, hb] at next
  cases next
  -- it has one pair, and the other one has announced one key
  obtain rfl := pairs _ _ _ holder ⟨player, member, rfl, held⟩
  have inside' : k < factors.length := decks.has.length_eq ▸ inside
  have had := decks.has.get inside inside'
  rw [Deck.Layer.Has, List.get_eq_getElem, announced.unique (knows.announced_of_get? found), secret, has] at had
  rw [List.getElem?_eq_getElem inside']
  exact congrArg some (Except.ok.inj had).symm

/-- The decrypted deck lacks the layer of its sender. -/
theorem Decks.append_decrypt (valid : rules.config.Valid) (knows : rules.Knows log player)
    (member : player ∈ players) (pairs : OnePair players) (ordered : rules.Ordered log)
    (decks : rules.Decks players log order layers factors) (rotation : rules.rotation? log = some order)
    {signer : Signer} {deck : Deck Scalar} (h : (Scene.mk player log).Decrypts .unreliable signer deck)
    {tx : Transaction} (category : tx.category = rules.category .decrypt)
    (payload : tx.payload = (DeckMessage.ofDeck deck).toBytes)
    (grows : rules.Grows log (log ++ [tx])) : rules.Decks players (log ++ [tx]) order layers factors := by
  obtain ⟨-, first, turn⟩ := knows.decrypts valid ordered h
  obtain ⟨second, chain⟩ := turn order rotation
  obtain ⟨keys, finished, successor, key, held, holds, next, found, bared⟩ := h.bared
  replace held : player.keys = some keys := held
  obtain ⟨factor, has, rfl⟩ := Deck.factor_of_decrypt bared
  have shuffles : (log ++ [tx]).filed (rules.category .shuffle) =
      log.filed (rules.category .shuffle) :=
    Log.filed_append_of_ne (valid.category_ne category (by decide))
  obtain ⟨last, there, handed⟩ := knows.finished_last valid ordered rotation chain held holds
  -- the layer that is removed is the one that the player has added
  have same : factors[1]? = some factor := by
    refine decks.factor_of_place valid knows member pairs rotation second ?_ held next found has
    rw [decks.count, ← List.length_map (·.sender), ← Log.senders, chain]
    exact (List.getElem?_eq_some_iff.1 second).1
  have nonzero : Residue.inverse factor ≠ 0 := Residue.inverse_ne_zero (Cipher.sharedFactor_ne_zero has)
  refine ⟨by rw [shuffles]; exact decks.count, decks.has, fun j layer at_ => ?_, ?_, fun other at_ => ?_⟩
  · obtain ⟨a, b, ha, hb, between⟩ := decks.between j layer at_
    exact ⟨a, b, ha, hb, between.mono (fun _ _ h => h) grows⟩
  · rw [shuffles]
    exact decks.shuffled
  · rw [Log.filed_append_of_eq category, List.map_eq_nil_iff.1 first, List.nil_append,
      List.mem_singleton] at at_
    subst at_
    rw [shuffles, payload]
    exact ⟨_, last, finished, factor, Payload.deck_ofDeck ((Payload.full_of_deck handed).times nonzero),
      there, handed, same, rfl⟩

end

/-! ## Every act keeps the decks -/

section

variable {rules} {log later : Log} {player next : Player γ} {front back players others : List (Player γ)}
  {order : List Address} {layers : List Deck.Layer} {factors : List Scalar}

/-- The ledger has the decks it should have. -/
def Sound (rules : Rules) (players : List (Player γ)) (log : Log) : Prop :=
  ∃ order layers factors, rules.rotation? log = some order ∧
    rules.Decks players log order layers factors

/-- While the chain stays as it is, so do the decks; before it starts the table may still grow. -/
theorem Sound.of_same (valid : rules.config.Valid) (ordered : rules.Ordered log)
    (sound : rules.Sound players log)
    (more : ∀ a keys, Holds players a keys → Holds others a keys) (grows : rules.Grows log later)
    (ordered' : rules.Ordered later)
    (shuffles : later.filed (rules.category .shuffle) = log.filed (rules.category .shuffle))
    (decrypts : later.filed (rules.category .decrypt) = log.filed (rules.category .decrypt)) :
    rules.Sound others later := by
  by_cases none : log.senders (rules.category .shuffle) = []
  · obtain ⟨order, rotation⟩ := rules.exists_rotation later
    have still : later.senders (rules.category .shuffle) = [] := by
      rw [Log.senders, shuffles]
      exact none
    exact ⟨order, [], [], rotation, .start order ordered' still⟩
  · obtain ⟨order, layers, factors, rotation, decks⟩ := sound
    have rotates := grows.rotation valid (ordered.opened none).1
    exact ⟨order, layers, factors, rotates.trans rotation, decks.mono more grows shuffles decrypts⟩

theorem Sound.append (valid : rules.config.Valid) (ordered : rules.Ordered log)
    (sound : rules.Sound players log)
    (more : ∀ a keys, Holds players a keys → Holds others a keys) {tx : Transaction}
    (grows : rules.Grows log (log ++ [tx])) (ordered' : rules.Ordered (log ++ [tx]))
    (noShuffle : tx.category ≠ rules.category .shuffle)
    (noDecrypt : tx.category ≠ rules.category .decrypt) : rules.Sound others (log ++ [tx]) :=
  sound.of_same valid ordered more grows ordered' (Log.filed_append_of_ne noShuffle)
    (Log.filed_append_of_ne noDecrypt)

theorem Sound.act [RandomSource γ] (valid : rules.config.Valid)
    (knows : ∀ p ∈ front ++ player :: back, rules.Knows log p) (ordered : rules.Ordered log)
    (pairs : OnePair (front ++ player :: back)) (sound : rules.Sound (front ++ player :: back) log)
    (act : Act .unreliable ⟨player, log⟩ ⟨next, later⟩) :
    rules.Sound (front ++ next :: back) later := by
  have knew := knows player (by simp)
  have grows := knew.told.grows act
  have ordered' := ordered.act valid knew act
  have more : ∀ a keys, Holds (front ++ player :: back) a keys → Holds (front ++ next :: back) a keys :=
    fun a keys => holds_act knew.told act
  have apart {step : Step} (other : Step) (differ : step ≠ other) :
      player.category step ≠ rules.category other := valid.category_ne (knew.told.category step) differ
  cases act with
  | others h =>
    cases h
    exact sound
  | draws | seats | learns | finishes | deals | observes =>
    exact sound.of_same valid ordered more grows ordered' rfl rfl
  | joins | losesKeys | keepsKeys =>
    exact sound.append valid ordered more grows ordered' (apart .shuffle (by decide))
      (apart .decrypt (by decide))
  | shuffles h =>
    obtain ⟨order, layers, factors, rotation, decks⟩ := sound
    obtain ⟨layer, factor, decks⟩ := decks.append_shuffle valid knew (by simp) ordered rotation h
      (knew.told.category .shuffle) rfl grows
    have rotates := grows.rotation valid (knew.shuffles valid ordered h).1
    exact ⟨order, _, _, rotates.trans rotation, decks⟩
  | decrypts h =>
    obtain ⟨order, layers, factors, rotation, decks⟩ := sound
    have decks := decks.append_decrypt valid knew (by simp) pairs ordered rotation h
      (knew.told.category .decrypt) rfl grows
    have rotates := grows.rotation valid (knew.decrypts valid ordered h).1
    exact ⟨order, layers, factors, rotates.trans rotation, decks⟩

end

/-- The invariant of a run, with what the decks are. -/
theorem kept_decks [RandomSource γ] {rules : Rules} (valid : rules.config.Valid) :
    rules.Kept (γ := γ) fun players log =>
      (rules.History log ∧ ∀ player ∈ players, rules.Knows log player) ∧
        OnePair players ∧ rules.Sound players log where
  start log empty := by
    have ordered : rules.Ordered log := .start empty
    obtain ⟨order, rotation⟩ := rules.exists_rotation log
    refine ⟨(kept_history_and_knowledge valid).start log empty, ?_, order, [], [], rotation,
      .start order ordered (by rw [Log.senders, empty, List.map_nil])⟩
    rintro a keys _ ⟨p, member, -⟩
    cases member
  arrival players log player fresh := by
    rintro ⟨known, pairs, sound⟩
    refine ⟨(kept_history_and_knowledge valid).arrival players log player fresh known,
      fun a keys keys' h h' => pairs a keys keys' (fresh.holds h) (fresh.holds h'), ?_⟩
    refine sound.of_same valid known.1.ordered ?_ (.refl log) known.1.ordered rfl rfl
    rintro a keys ⟨p, member, h⟩
    exact ⟨p, List.mem_append_left _ member, h⟩
  act front back player next log later := by
    rintro ⟨known, pairs, sound⟩ act
    have knew := known.2 player (by simp)
    refine ⟨(kept_history_and_knowledge valid).act _ _ _ _ _ _ known act, ?_,
      sound.act valid known.2 known.1.ordered pairs act⟩
    refine pairs.act knew.told ?_ act
    rintro a keys ⟨p, member, rfl, held⟩
    exact (known.2 p member).announces held
  foreign players log tx outside := by
    rintro ⟨known, pairs, sound⟩
    have grows : rules.Grows log (log ++ [tx]) := grows_foreign outside
    have known' := (kept_history_and_knowledge valid).foreign players log tx outside known
    exact ⟨known', pairs, sound.append valid known.1.ordered (fun _ _ h => h) grows known'.1.ordered
      (outside .shuffle) (outside .decrypt)⟩

/-! ## What the published decks mean -/

/-- The decrypted deck gives the cards back once the other layers have been removed. -/
theorem Decks.bare {rules : Rules} {players : List (Player γ)} {log : Log} {order : List Address}
    {layers : List Deck.Layer} {factors : List Scalar} (ordered : rules.Ordered log)
    (rotation : rules.rotation? log = some order)
    (decks : rules.Decks players log order layers factors) {tx : Transaction}
    (member : tx ∈ log.filed (rules.category .decrypt)) :
    layers.length = order.length ∧ ∃ deck, Payload.deck tx.payload = .ok deck ∧
      ∀ rest, rest.Perm (layers.eraseIdx 1) → ∃ bare cards, deck.removeAll rest = .ok bare ∧
        bare.decode = .ok cards ∧ cards.entries.Perm Deck.plain.entries := by
  obtain ⟨deck, last, finished, second, read, there, readLast, at_, rfl⟩ := decks.decrypted tx member
  obtain ⟨chain, -⟩ := ordered.closed
    (List.ne_nil_of_mem (List.mem_map_of_mem member)) order rotation
  have count : layers.length = order.length := by
    rw [decks.count, ← List.length_map (·.sender), ← Log.senders, chain]
  have count' := decks.has.length_eq
  refine ⟨count, _, read, fun rest perm => ?_⟩
  obtain ⟨finished', readLast', under⟩ := decks.shuffled _ last there
  cases readLast.symm.trans readLast'
  have inside := (List.getElem?_eq_some_iff.1 at_).1
  rw [List.take_of_length_le (by omega)] at under
  have has := decks.has
  rcases has with _ | @⟨_, first, _, _, hf, _ | @⟨_, _, _, others, hg, has⟩⟩
  · cases at_
  · cases at_
  · cases at_
    have nonzero := Cipher.sharedFactor_ne_zero hg
    have left : (first :: second :: others).prod * Residue.inverse second = (first :: others).prod := by
      rw [List.prod_cons, List.prod_cons, List.prod_cons, mul_comm second, ← mul_assoc,
        mul_assoc (first * others.prod), Residue.mul_inverse nonzero, mul_one]
    refine Deck.removeAll_of_perm (.cons hf has) perm ?_
    rw [← left, ← Deck.times_times]
    exact under.map (· * Residue.inverse second)

end Rules

end MentalPoker
