/-
Where hands and finished decks come from. A player takes its hand, and the deck that ends the chain,
by the seats it has seen. Those may be fewer than there are at the table: who announces a key has seen
them all, but who looks on under the address of a player has not. So a hand is cut out of the right
deck, but by a view of the table; it is the player's own if the player has a pair, or is the only
process of its address.
-/
import MentalPoker.Proofs.Play.Gathering

namespace MentalPoker

namespace Rules

variable {γ : Type} (rules : Rules)

/-! ## Views of the table -/

/-- Who deals in a view of the table. -/
def dealerIn (view : List Address) : Address := Session.dealerOf rules.dealer rules.creator view

/-- The deck that the player after the dealer has decrypted. -/
def Decrypted (log : Log) (deck : Deck Scalar) : Prop :=
  ∃ decryptor, Circle.next? (rules.seats log) (rules.dealerAt log) = some decryptor ∧
    rules.Handed log .decrypt decryptor deck

/-- The hand that a view of the table gives an address out of the decrypted deck. -/
def Drawn (log : Log) (view : List Address) (a : Address) (hand : List Scalar) : Prop :=
  ∃ deck, rules.Decrypted log deck ∧
    deck.hand? view (rules.dealerIn view) a rules.config.cardsPerPlayer = some hand

/-- The deck that ends the chain in a view of the table. -/
def Ends (log : Log) (view : List Address) (deck : Deck Scalar) : Prop :=
  ∃ last, Circle.previous? view (rules.dealerIn view) = some last ∧ rules.Handed log .shuffle last deck

/-- One process plays or looks on for the address, and no other. -/
def Alone (players : List (Player γ)) (a : Address) : Prop := (players.map (·.address)).count a = 1

section

variable {rules} {log later : Log} {view : List Address} {a : Address} {hand : List Scalar}
  {deck : Deck Scalar}

/-- The table is a view of itself. -/
theorem Drawn.dealt (drawn : rules.Drawn log (rules.seats log) a hand) : rules.Dealt log a hand := by
  obtain ⟨deck, ⟨decryptor, next, handed⟩, hand⟩ := drawn
  exact ⟨decryptor, deck, next, handed, hand⟩

theorem Decrypted.closed (decrypted : rules.Decrypted log deck) :
    log.senders (rules.category .decrypt) ≠ [] := by
  obtain ⟨decryptor, -, payload, found, -⟩ := decrypted
  exact List.ne_nil_of_mem (Log.mem_senders_of_payload? found)

/-- Only one deck is decrypted, so whoever has handed it on is the player after the dealer. -/
theorem Ordered.decrypted (valid : rules.config.Valid) (ordered : rules.Ordered log)
    (handed : rules.Handed log .decrypt a deck) : rules.Decrypted log deck := by
  obtain ⟨payload, found, read⟩ := handed
  have member := Log.mem_senders_of_payload? found
  have closed := List.ne_nil_of_mem member
  obtain ⟨order, rotation⟩ := rules.exists_rotation log
  obtain ⟨-, second, place, only⟩ := ordered.closed closed order rotation
  obtain rfl : a = second := by simpa [only] using member
  have two : 2 ≤ (rules.seats log).length := (ordered.full_of_closed closed).symm ▸ valid.two_le
  exact ⟨a, (Circle.next?_dealer (seats_nodup log) rotation two).trans place, payload, found, read⟩

theorem Decrypted.grows (valid : rules.config.Valid) (ordered : rules.Ordered log)
    (decrypted : rules.Decrypted log deck) (grows : rules.Grows log later) : rules.Decrypted later deck := by
  have seats := grows.seats_of_full valid (ordered.full_of_closed decrypted.closed)
  obtain ⟨decryptor, next, handed⟩ := decrypted
  refine ⟨decryptor, ?_, handed.grows grows⟩
  rw [dealerAt, seats]
  exact next

theorem Ends.opened (ends : rules.Ends log view deck) : log.senders (rules.category .shuffle) ≠ [] := by
  obtain ⟨last, -, payload, found, -⟩ := ends
  exact List.ne_nil_of_mem (Log.mem_senders_of_payload? found)

/-- A view with as many seats as there are players is the table. -/
theorem eq_seats (valid : rules.config.Valid) (part : view <+: rules.seats log)
    (full : rules.config.minPlayers ≤ view.length) : view = rules.seats log :=
  part.eq_of_length_le ((seats_length_le valid log).trans full)

end

/-! ## Each player's view -/

/-- The hand and the finished deck of a player come from views of the table, which are the whole of it
if the player is to be sure of them. -/
structure Viewed (log : Log) (sure : Prop) (player : Player γ) : Prop where
  hand : player.session.hand ≠ [] → ∃ view, view <+: player.session.players ∧
    rules.Drawn log view player.address player.session.hand ∧
    (sure → rules.config.minPlayers ≤ view.length)
  deck : ∀ deck, player.finishedDeck = some deck → ∃ view, view <+: player.session.players ∧
    rules.Ends log view deck ∧
    (sure → player.address ∈ rules.seats log → rules.config.minPlayers ≤ view.length)

section

variable {rules} {log later : Log} {sure still : Prop} {player next : Player γ}

theorem Viewed.grows (valid : rules.config.Valid) (ordered : rules.Ordered log)
    (viewed : rules.Viewed log sure player) (fewer : still → sure) (grows : rules.Grows log later) :
    rules.Viewed later still player where
  hand some := by
    obtain ⟨view, part, ⟨deck, decrypted, drawn⟩, whole⟩ := viewed.hand some
    exact ⟨view, part, ⟨deck, decrypted.grows valid ordered grows, drawn⟩, whole ∘ fewer⟩
  deck deck held := by
    obtain ⟨view, part, ends, whole⟩ := viewed.deck deck held
    have seats := grows.seats_of_full valid (ordered.opened ends.opened).1
    obtain ⟨last, before, handed⟩ := ends
    refine ⟨view, part, ⟨last, before, handed.grows grows⟩, fun is seated => whole (fewer is) ?_⟩
    rwa [seats] at seated

/-- Nobody announces a key that has taken a hand or the last deck. -/
theorem Viewed.keeps [RandomSource γ] (knows : rules.Knows log player) (ordered : rules.Ordered log)
    (viewed : rules.Viewed log sure player) {signer : Signer} {keys : KeyPair} {source : γ}
    {message : KeyMessage} (h : (Scene.mk player log).Announces .unreliable signer keys source message) :
    player.session.hand = [] ∧ player.finishedDeck = none := by
  have unfiled := knows.told.unfiled h.unfiled
  have seated := knows.view.subset h.seated
  constructor
  · by_contra some
    obtain ⟨view, -, ⟨deck, decrypted, -⟩, -⟩ := viewed.hand some
    exact unfiled (ordered.keyed_of_closed decrypted.closed _ seated)
  · by_contra some
    obtain ⟨deck, held⟩ := Option.ne_none_iff_exists'.1 some
    obtain ⟨view, -, ends, -⟩ := viewed.deck deck held
    exact unfiled ((ordered.opened ends.opened).2 _ seated)

/-- Whoever has a pair has seen the whole table, and whoever is alone has if its key is announced, unless it
has not looked yet. -/
theorem Viewed.act [RandomSource γ] (valid : rules.config.Valid) {alone : Prop} (knows : rules.Knows log player)
    (ordered : rules.Ordered log) (viewed : rules.Viewed log (player.keys.isSome ∨ alone) player)
    (sees : alone → player.address ∈ log.senders (rules.category .publicKey) →
      rules.config.minPlayers ≤ player.session.players.length ∨ player.session.players = [rules.creator])
    (act : Act .unreliable ⟨player, log⟩ ⟨next, later⟩) :
    rules.Viewed later (next.keys.isSome ∨ alone) next := by
  have grown := viewed.grows valid ordered id (knows.told.grows act)
  have whole (sure : player.keys.isSome ∨ alone)
      (keyed : player.address ∈ log.senders (rules.category .publicKey)) :
      rules.config.minPlayers ≤ player.session.players.length ∨ player.session.players = [rules.creator] := by
    rcases sure with some | alone
    · obtain ⟨keys, held⟩ := Option.isSome_iff_exists.1 some
      exact .inl (knows.keys keys held).1
    · exact sees alone keyed
  cases act with
  | seats =>
    rw [knows.seated]
    refine ⟨fun some => ?_, fun deck held => ?_⟩
    · obtain ⟨view, part, rest⟩ := viewed.hand some
      exact ⟨view, part.trans knows.view, rest⟩
    · obtain ⟨view, part, rest⟩ := viewed.deck deck held
      exact ⟨view, part.trans knows.view, rest⟩
  | keepsKeys h =>
    obtain ⟨empty, none⟩ := viewed.keeps knows ordered h
    refine ⟨fun some => absurd empty some, fun deck held => ?_⟩
    cases held.symm.trans none
  | @finishes _ _ last payload deck none finishes found read several =>
    rw [knows.told.category] at found
    rw [Session.finalShuffler?, knows.dealer] at finishes
    refine ⟨grown.hand, ?_⟩
    rintro _ ⟨⟩
    refine ⟨_, List.prefix_rfl, ⟨last, finishes, payload, found, read⟩, fun sure seated => ?_⟩
    refine (whole sure ?_).resolve_right fun single => ?_
    · exact (ordered.opened (List.ne_nil_of_mem (Log.mem_senders_of_payload? found))).2 _ seated
    · simp [single] at several
  | @deals _ _ decryptor payload deck hand decrypts found read dealt apart =>
    -- whoever has not looked yet takes the creator to be alone
    have looked : player.session.players ≠ [rules.creator] := by
      intro single
      have member := (Circle.mem_of_next? decrypts).2
      rw [single, List.mem_singleton] at member
      rw [knows.dealer, single, dealerOf_singleton] at apart
      exact apart member
    rw [knows.told.category] at found
    have decrypted := ordered.decrypted valid ⟨payload, found, read⟩
    have drawn := Session.hand?_of_dealtHand? dealt
    rw [knows.dealer, knows.told.config] at drawn
    have keyed := ordered.keyed_of_closed decrypted.closed player.address
      (knows.view.subset (Deck.seated_of_hand? drawn).2)
    unfold Session.setHand
    split
    · exact grown
    · exact ⟨fun _ => ⟨_, List.prefix_rfl, ⟨deck, decrypted, drawn⟩,
        fun sure => (whole sure keyed).resolve_right looked⟩, grown.deck⟩
  | _ => exact ⟨grown.hand, grown.deck⟩

/-- A player sees no fewer seats than before. -/
theorem Knows.sees_more [RandomSource γ] (knows : rules.Knows log player)
    (act : Act .unreliable ⟨player, log⟩ ⟨next, later⟩) : player.session.players <+: next.session.players := by
  cases act with
  | seats =>
    rw [knows.seated]
    exact knows.view
  | deals =>
    unfold Session.setHand
    split <;> exact List.prefix_rfl
  | _ => exact List.prefix_rfl

/-- A player announces no key but its own. -/
theorem Told.keyed_of_act [RandomSource γ] (told : rules.Told player)
    (act : Act .unreliable ⟨player, log⟩ ⟨next, later⟩) {a : Address}
    (member : a ∈ later.senders (rules.category .publicKey)) :
    a ∈ log.senders (rules.category .publicKey) ∨ a = player.address := by
  rcases files_of_act act with rfl | ⟨signer, step, recipients, payload, signs, -, rfl⟩
  · exact .inl member
  by_cases category : player.category step = rules.category .publicKey
  · rw [Log.senders_append_of_eq (by exact category), List.mem_append, List.mem_singleton] at member
    exact member.imp_right fun same => same.trans (told.signs signer signs)
  · rw [Log.senders_append_of_ne (by exact category)] at member
    exact .inl member

/-- Whoever announces its key has seen the whole table. -/
theorem Knows.sees_act [RandomSource γ] (valid : rules.config.Valid) (knows : rules.Knows log player)
    (act : Act .unreliable ⟨player, log⟩ ⟨next, later⟩)
    (keyed : player.address ∈ later.senders (rules.category .publicKey)) :
    player.address ∈ log.senders (rules.category .publicKey) ∨
      rules.config.minPlayers ≤ player.session.players.length := by
  have other {step : Step} (differ : step ≠ .publicKey) {signer : Signer} {recipients : List Address}
      {payload : Bytes} (filed : player.address ∈
        (log ++ [Log.filing log signer (player.category step) recipients payload]).senders
          (rules.category .publicKey)) : player.address ∈ log.senders (rules.category .publicKey) := by
    rwa [senders_append_other valid (knows.told.category step) differ] at filed
  cases act with
  | others h => exact .inl (h ▸ keyed)
  | draws | seats | learns | finishes | deals | observes => exact .inl keyed
  | losesKeys h => exact .inr (knows.full_of_announces h)
  | keepsKeys h => exact .inr (knows.full_of_announces h)
  | joins => exact .inl (other (by decide) keyed)
  | shuffles => exact .inl (other (by decide) keyed)
  | decrypts => exact .inl (other (by decide) keyed)

end

/-! ## The table -/

/-- Whoever is alone with its address is not who else is at the table. -/
theorem Alone.apart {front back : List (Player γ)} {player p : Player γ}
    (alone : Alone (front ++ player :: back) p.address) (member : p ∈ front ++ back) :
    p.address ≠ player.address := by
  intro same
  have more : 0 < ((front ++ back).map (·.address)).count p.address :=
    List.count_pos_iff.2 (List.mem_map_of_mem member)
  simp only [Alone, List.map_append, List.map_cons, List.count_append, List.count_cons, same, beq_self_eq_true,
    if_true] at alone more
  omega

/-- Hands and finished decks come from views of the table, and only those who are there announce keys. -/
structure Traced (players : List (Player γ)) (log : Log) : Prop where
  filers : ∀ a ∈ log.senders (rules.category .publicKey), a ∈ players.map (·.address)
  /-- Who is alone with its address has seen the whole table by the time that its key is announced. -/
  sees : ∀ p ∈ players, Alone players p.address → p.address ∈ log.senders (rules.category .publicKey) →
    rules.config.minPlayers ≤ p.session.players.length
  viewed : ∀ p ∈ players, rules.Viewed log (p.keys.isSome ∨ Alone players p.address) p

section

variable {rules} {log later : Log} {players front back : List (Player γ)} {player next : Player γ}

theorem Fresh.viewed (fresh : rules.Fresh player) (log : Log) (sure : Prop) : rules.Viewed log sure player := by
  obtain ⟨-, -, hand, -, -, none⟩ := fresh.blank
  refine ⟨fun some => absurd hand some, fun deck held => ?_⟩
  rw [none] at held
  cases held

theorem Traced.arrival (traced : rules.Traced players log) (valid : rules.config.Valid)
    (ordered : rules.Ordered log) (fresh : rules.Fresh player) : rules.Traced (players ++ [player]) log := by
  -- an address that is still alone was so before, and a newcomer's is new
  have before (p : Player γ) (member : p ∈ players) (alone : Alone (players ++ [player]) p.address) :
      Alone players p.address := by
    have one : 0 < (players.map (·.address)).count p.address :=
      List.count_pos_iff.2 (List.mem_map_of_mem member)
    unfold Alone at alone ⊢
    rw [List.map_append, List.count_append] at alone
    omega
  refine ⟨fun a member => ?_, fun p member alone keyed => ?_, fun p member => ?_⟩
  · rw [List.map_append]
    exact List.mem_append_left _ (traced.filers a member)
  · rcases List.mem_append.1 member with old | new
    · exact traced.sees p old (before p old alone) keyed
    · obtain rfl := List.mem_singleton.1 new
      have there := List.count_pos_iff.2 (traced.filers _ keyed)
      simp only [Alone, List.map_append, List.count_append, List.map_cons, List.map_nil,
        List.count_singleton_self] at alone
      omega
  · rcases List.mem_append.1 member with old | new
    · exact (traced.viewed p old).grows valid ordered (Or.imp_right (before p old)) (.refl log)
    · obtain rfl := List.mem_singleton.1 new
      exact fresh.viewed log _

theorem Traced.act [RandomSource γ] (valid : rules.config.Valid)
    (knows : ∀ p ∈ front ++ player :: back, rules.Knows log p) (ordered : rules.Ordered log)
    (traced : rules.Traced (front ++ player :: back) log)
    (act : Act .unreliable ⟨player, log⟩ ⟨next, later⟩) : rules.Traced (front ++ next :: back) later := by
  have knew := knows player (by simp)
  have grows := knew.told.grows act
  have addresses : (front ++ next :: back).map (·.address) = (front ++ player :: back).map (·.address) := by
    simp [act.same.address]
  have filed (a : Address) : a ∈ later.senders (rules.category .publicKey) →
      a ∈ log.senders (rules.category .publicKey) ∨ a = player.address := knew.told.keyed_of_act act
  have alone_iff (a : Address) : Alone (front ++ next :: back) a ↔ Alone (front ++ player :: back) a := by
    rw [Alone, Alone, addresses]
  refine ⟨fun a member => ?_, fun p member alone keyed => ?_, fun p member => ?_⟩
  · rw [addresses]
    rcases filed a member with old | rfl
    · exact traced.filers a old
    · exact List.mem_map_of_mem (by simp)
  · rw [alone_iff] at alone
    rcases mem_replaced player member with rfl | ⟨elsewhere, old⟩
    · rw [act.same.address] at alone keyed
      have more := (knew.sees_more act).length_le
      rcases knew.sees_act valid act keyed with old | full
      · exact (traced.sees player (by simp) alone old).trans more
      · exact full.trans more
    · exact traced.sees p old alone ((filed _ keyed).resolve_right (alone.apart elsewhere))
  · rw [alone_iff]
    rcases mem_replaced player member with rfl | ⟨-, old⟩
    · rw [act.same.address]
      exact (traced.viewed player (by simp)).act valid knew ordered
        (fun alone keyed => .inl (traced.sees player (by simp) alone keyed)) act
    · exact (traced.viewed p old).grows valid ordered id grows

end

/-- The invariant of a run, with the views that hands and finished decks come from. -/
theorem kept_views [RandomSource γ] {rules : Rules} (valid : rules.config.Valid) :
    rules.Kept (γ := γ) fun players log =>
      (rules.History log ∧ ∀ player ∈ players, rules.Knows log player) ∧ rules.Traced players log where
  start log empty := by
    refine ⟨(kept_history_and_knowledge (γ := γ) valid).start log empty, fun a member => ?_, by simp, by simp⟩
    rw [Log.senders, empty] at member
    cases member
  arrival players log player fresh := by
    rintro ⟨held, traced⟩
    exact ⟨(kept_history_and_knowledge valid).arrival players log player fresh held,
      traced.arrival valid held.1.ordered fresh⟩
  act front back player next log later := by
    rintro ⟨held, traced⟩ act
    exact ⟨(kept_history_and_knowledge valid).act front back player next log later held act,
      traced.act valid held.2 held.1.ordered act⟩
  foreign players log tx outside := by
    rintro ⟨held, traced⟩
    have grows : rules.Grows log (log ++ [tx]) := grows_foreign outside
    have same : (log ++ [tx]).senders (rules.category .publicKey) = log.senders (rules.category .publicKey) :=
      Log.senders_append_of_ne (outside .publicKey)
    refine ⟨(kept_history_and_knowledge valid).foreign players log tx outside held, ?_, ?_, fun p member =>
      (traced.viewed p member).grows valid held.1.ordered id grows⟩
    · rw [same]
      exact traced.filers
    · rw [same]
      exact traced.sees

/-! ## Whose hand is whose -/

/-- What can be said of the hands and finished decks of a table. -/
structure Trustworthy (players : List (Player γ)) (log : Log) : Prop where
  /-- A hand is cut out of the decrypted deck by a view of the table. -/
  drawn : ∀ p ∈ players, p.session.hand ≠ [] →
    ∃ view, view <+: p.session.players ∧ rules.Drawn log view p.address p.session.hand
  /-- The hand of a player with a pair, or of the only process of an address, is the one that the whole
  table gives it. -/
  dealt : ∀ p ∈ players, p.session.hand ≠ [] → p.keys.isSome ∨ Alone players p.address →
    rules.Dealt log p.address p.session.hand
  /-- A finished deck ends the chain in a view of the table. -/
  ends : ∀ p ∈ players, ∀ deck, p.finishedDeck = some deck →
    ∃ view, view <+: p.session.players ∧ rules.Ends log view deck
  /-- The finished deck of a player with a pair, or of the only process of a seated address, is that of the
  player before the dealer. -/
  finished : ∀ p ∈ players, ∀ deck, p.finishedDeck = some deck → p.address ∈ rules.seats log →
    p.keys.isSome ∨ Alone players p.address → rules.Ends log (rules.seats log) deck
  /-- The whole table gives no card to two of its players. -/
  disjoint : ∀ a b hand hand', rules.Dealt log a hand → rules.Dealt log b hand' → a ≠ b → hand.Disjoint hand'

theorem Dealt.disjoint {rules : Rules} (valid : rules.config.Valid) {log : Log} {a b : Address}
    {hand hand' : List Scalar} (mine : rules.Dealt log a hand) (yours : rules.Dealt log b hand') (apart : a ≠ b) :
    hand.Disjoint hand' := by
  obtain ⟨decryptor, deck, next, handed, hand⟩ := mine
  obtain ⟨decryptor', deck', next', handed', hand'⟩ := yours
  obtain rfl : decryptor = decryptor' := Option.some.inj (next.symm.trans next')
  obtain rfl := handed.unique handed'
  obtain ⟨payload, -, read⟩ := handed
  exact Deck.hand?_disjoint (valid.counted (seats_length_le valid log)) (seats_nodup log)
    (Payload.full_of_deck read).2 hand hand' apart

/-- A hand that was taken by sure eyes is what the whole table gives the player. -/
theorem Viewed.dealt {rules : Rules} (valid : rules.config.Valid) {log : Log} {sure : Prop} {player : Player γ}
    (viewed : rules.Viewed log sure player) (knows : rules.Knows log player) (some : player.session.hand ≠ [])
    (is : sure) : rules.Dealt log player.address player.session.hand := by
  obtain ⟨view, part, drawn, whole⟩ := viewed.hand some
  rw [eq_seats valid (part.trans knows.view) (whole is)] at drawn
  exact drawn.dealt

end Rules

end MentalPoker
