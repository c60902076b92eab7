/-
What every reachable state of a table shows, whatever has failed and whoever has moved: the chain follows
the rotation, its decks are the plain deck under the layers they should be under, and hands and finished decks
come from views of the table.
-/
import MentalPoker.Proofs.Play.Played

namespace MentalPoker

namespace Rules

variable {γ : Type}

/-! ## The chain -/

/-- In every reachable state the chain follows the rotation of the table, and the one decryption
follows the chain. -/
theorem shuffle_chain_safe [RandomSource γ] {rules : Rules} (valid : rules.config.Valid)
    {table : Table γ} (reached : rules.Reachable table) :
    ∃ order, rules.rotation? table.log = some order ∧ rules.Safe table.log order := by
  obtain ⟨⟨history, -⟩, -⟩ := (kept_history_and_knowledge valid).reachable reached
  obtain ⟨order, rotation⟩ := rules.exists_rotation table.log
  exact ⟨order, rotation, history.safe valid rotation⟩

theorem shuffle_chain_safe_played : forTwo.config.Valid ∧ forTwo.Reachable twoPlayed ∧
    twoPlayed.log.senders (forTwo.category .shuffle) = [⟨"alice"⟩, ⟨"bob"⟩] ∧
    twoPlayed.log.senders (forTwo.category .decrypt) = [⟨"bob"⟩] ∧
    ∃ order, forTwo.rotation? twoPlayed.log = some order ∧ forTwo.Safe twoPlayed.log order :=
  ⟨forTwo_valid, renewed_two.reachable, filed_two.1, filed_two.2,
    shuffle_chain_safe forTwo_valid renewed_two.reachable⟩

/-! ## The decks -/

/-- In every reachable state a deck of the chain is the plain deck in some order under the layers of
the first neighbours of the rotation, and the decrypted deck is the last of the chain without the
second layer; without the other layers it is the plain deck in some order. -/
theorem published_decks [RandomSource γ] {rules : Rules} (valid : rules.config.Valid)
    {table : Table γ} (reached : rules.Reachable table) :
    ∃ order layers factors, rules.rotation? table.log = some order ∧ OnePair table.players ∧
      (∀ a keys, Holds table.players a keys → rules.Announced table.log a keys.publicKey) ∧
      rules.Decks table.players table.log order layers factors ∧
      (∀ k tx, (table.log.filed (rules.category .shuffle))[k]? = some tx → ∃ deck,
        Payload.deck tx.payload = .ok deck ∧ deck.entries.Perm ((List.range 52).map fun i =>
          Fin.ofNat _ (i + 1) * (factors.take (k + 1)).prod)) ∧
      ∀ tx ∈ table.log.filed (rules.category .decrypt), layers.length = order.length ∧ ∃ deck,
        Payload.deck tx.payload = .ok deck ∧ ∀ rest, rest.Perm (layers.eraseIdx 1) → ∃ bare cards,
          deck.removeAll rest = .ok bare ∧ bare.decode = .ok cards ∧
            cards.entries.Perm Deck.plain.entries := by
  obtain ⟨⟨⟨history, knows⟩, pairs, order, layers, factors, rotation, decks⟩, -⟩ :=
    (kept_decks valid).reachable reached
  refine ⟨order, layers, factors, rotation, pairs, ?_, decks, fun k tx at_ => ?_,
    fun tx member => decks.bare history.ordered rotation member⟩
  · rintro a keys ⟨player, member, rfl, held⟩
    exact ((knows player member).keys keys held).2.2.2
  · obtain ⟨deck, read, under⟩ := decks.shuffled k tx at_
    refine ⟨deck, read, ?_⟩
    rwa [Deck.times, Deck.plain_scalars, List.map_map] at under

/-- The second deck of two is under both layers, and the decrypted one is bare without the layer of the first pair. -/
theorem published_decks_played : forTwo.config.Valid ∧ forTwo.Reachable twoPlayed ∧
    ∃ (first second last : Transaction) (layer : Deck.Layer) (factors : List Scalar),
      twoPlayed.log.filed (forTwo.category .shuffle) = [first, second] ∧
      twoPlayed.log.filed (forTwo.category .decrypt) = [last] ∧ factors.length = 2 ∧
      (∃ deck, Payload.deck second.payload = .ok deck ∧
        deck.entries.Perm ((List.range 52).map fun i => Fin.ofNat _ (i + 1) * factors.prod)) ∧
      ∃ deck bare cards, Payload.deck last.payload = .ok deck ∧ deck.removeAll [layer] = .ok bare ∧
        bare.decode = .ok cards ∧ cards.entries.Perm Deck.plain.entries := by
  have reached := renewed_two.reachable
  obtain ⟨order, layers, factors, rotation, -, -, decks, shuffled, decrypted⟩ := published_decks forTwo_valid reached
  obtain rfl : [⟨"alice"⟩, ⟨"bob"⟩] = order := Option.some.inj (rotation_two.symm.trans rotation)
  obtain ⟨chain, closed⟩ := filed_two
  obtain ⟨first, second, filed⟩ := List.length_eq_two.1 ((List.length_map _).symm.trans (congrArg List.length chain))
  obtain ⟨last, filed'⟩ := List.length_eq_one_iff.1 ((List.length_map _).symm.trans (congrArg List.length closed))
  rw [filed] at shuffled
  rw [filed'] at decrypted
  obtain ⟨deck, read, under⟩ := shuffled 1 second rfl
  obtain ⟨count, deck', read', bare⟩ := decrypted last List.mem_cons_self
  obtain ⟨layer, layer', rfl⟩ := List.length_eq_two.1 count
  have two : factors.length = 2 := decks.has.length_eq.symm
  rw [List.take_of_length_le two.le] at under
  obtain ⟨bare, cards, removed, decoded, all⟩ := bare [layer] List.Perm.rfl
  exact ⟨forTwo_valid, reached, first, second, last, layer, factors, filed, filed', two, ⟨deck, read, under⟩,
    deck', bare, cards, read', removed, decoded, all⟩

/-! ## The hands -/

/-- In every reachable state hands and finished decks come from views of the table, which are the whole of
it for a player with a pair and for the only process of an address. -/
theorem hands_from_views [RandomSource γ] {rules : Rules} (valid : rules.config.Valid) {table : Table γ}
    (reached : rules.Reachable table) : rules.Trustworthy table.players table.log := by
  obtain ⟨⟨⟨-, knows⟩, traced⟩, -⟩ := (kept_views valid).reachable reached
  refine ⟨fun p member some => ?_, fun p member some sure => ?_, fun p member deck held => ?_,
    fun p member deck held seated sure => ?_, fun a b hand hand' mine yours => mine.disjoint valid yours⟩
  · obtain ⟨view, part, drawn, -⟩ := (traced.viewed p member).hand some
    exact ⟨view, part, drawn⟩
  · exact (traced.viewed p member).dealt valid (knows p member) some sure
  · obtain ⟨view, part, ends, -⟩ := (traced.viewed p member).deck deck held
    exact ⟨view, part, ends⟩
  · obtain ⟨view, part, ends, whole⟩ := (traced.viewed p member).deck deck held
    rwa [eq_seats valid (part.trans (knows p member).view) (whole sure seated)] at ends

/-- Both have their pair, the finished deck and a hand, and no card is in both hands. -/
theorem hands_from_views_played : forTwo.config.Valid ∧ forTwo.Reachable twoPlayed ∧
    ∃ alice bob, twoPlayed.players = [alice, bob] ∧ alice.address = ⟨"alice"⟩ ∧ bob.address = ⟨"bob"⟩ ∧
      (∀ p ∈ twoPlayed.players, p.Over ∧ forTwo.Dealt twoPlayed.log p.address p.session.hand ∧
        ∀ deck, p.finishedDeck = some deck → forTwo.Ends twoPlayed.log (forTwo.seats twoPlayed.log) deck) ∧
      alice.session.hand.Disjoint bob.session.hand := by
  have reached := renewed_two.reachable
  have trustworthy := hands_from_views forTwo_valid reached
  obtain ⟨alice, bob, players, first, second, has⟩ := players_two
  have dealt (p : Player (Seeded id)) (member : p ∈ twoPlayed.players) :
      forTwo.Dealt twoPlayed.log p.address p.session.hand := by
    obtain ⟨ended, held, -⟩ := has p member
    exact trustworthy.dealt p member ended.hand (.inl held)
  refine ⟨forTwo_valid, reached, alice, bob, players, first, second, fun p member => ?_, ?_⟩
  · obtain ⟨ended, held, seated, -⟩ := has p member
    exact ⟨ended, dealt p member, fun deck found => trustworthy.finished p member deck found seated (.inl held)⟩
  · have apart : alice.address ≠ bob.address := by
      rw [first, second]
      decide
    exact trustworthy.disjoint _ _ _ _ (dealt alice (by simp [players])) (dealt bob (by simp [players])) apart

end Rules

end MentalPoker
