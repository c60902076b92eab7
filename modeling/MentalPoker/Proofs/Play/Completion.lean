/-
Failures only delay the deal. Whatever has failed before, once nothing fails any more every deal is
over after a few rounds: all have joined after the first, have a pair after the second, and then the
chain goes on by one deck in each round, until the deck is decrypted and everybody has its hand.
-/
import MentalPoker.Proofs.Play.Settled

namespace MentalPoker

namespace Rules

variable {γ : Type} {rules : Rules} {names : List Address} {plan : Plan}

/-! ## Joining -/

/-- The player has joined the game, or has created it. -/
def Joined (rules : Rules) (a : Address) (log : Log) : Prop :=
  a = rules.creator ∨ a ∈ log.senders (rules.category .join)

section

variable {players front back : List (Player γ)} {player : Player γ} {log later : Log}

theorem Joined.grows {a : Address} (more : log <+: later) (joined : rules.Joined a log) :
    rules.Joined a later := by
  obtain ⟨rest, rfl⟩ := more
  exact joined.imp_right (Log.senders_subset_append rest)

theorem joined_of_seated {a : Address} (seated : a ∈ rules.seats log) : rules.Joined a log := by
  rw [seats, Session.seating] at seated
  rcases List.mem_cons.1 (List.mem_of_mem_take seated) with rfl | member
  · exact .inl rfl
  · exact .inr (Log.mem_senders_of_mem_sendersTo (List.mem_of_mem_filter member))

/-- A turn at everything gets a player to join. -/
theorem Whole.join_turn [RandomSource γ] (whole : rules.Whole names (front ++ player :: back) log) :
    Turn.everything.Ensures .calm (fun _ (next : Player γ) later => rules.Joined next.address later)
      player log := by
  let S (player : Player γ) (log : Log) : Prop := rules.Joined player.address log
  have stable : Turn.Stable .calm S := by
    intro player next log later act joined
    change rules.Joined next.address later
    rw [act.same.address]
    exact joined.grows (more_act act)
  have told := (whole.knows player (by simp)).told
  obtain ⟨signer, signs⟩ := Option.isSome_iff_exists.1 (whole.gathered.signs player (by simp))
  refine Turn.everything_ensures S S S S S S S ?_ (stable.ensures Turn.updateSession_runs)
    (stable.ensures Turn.exchangeKeys_runs) (stable.ensures Turn.shuffle_runs)
    (stable.ensures Turn.decrypt_runs) (stable.ensures Turn.deal_runs)
    (stable.ensures Turn.updateSession_runs)
  refine (Turn.join_calm signs (told.signs signer signs)).mono ?_
  rintro _ _ later ⟨rfl, joined⟩
  rwa [told.creator, told.category] at joined

/-- Once all have joined, the creator and those who joined are all there are. -/
theorem Whole.joiners_perm (whole : rules.Whole names players log) (distinct : names.Nodup)
    (creator : rules.creator ∈ names) (joined : ∀ a ∈ names, rules.Joined a log) :
    (rules.creator :: log.senders (rules.category .join)).Perm names := by
  have filed := whole.history.ordered.toFiled
  have notCreator : rules.creator ∉ log.senders (rules.category .join) := by
    intro member
    obtain ⟨tx, inside, same⟩ := List.mem_map.1 member
    exact (filed.newcomers tx inside).2 same
  refine (List.perm_ext_iff_of_nodup (List.nodup_cons.2 ⟨notCreator, filed.once .join⟩) distinct).2
    fun a => ?_
  rw [List.mem_cons]
  constructor
  · rintro (rfl | member)
    · exact creator
    · exact whole.gathered.filers .join a member
  · exact joined a

/-- Once all have joined they are the table. -/
theorem Whole.seats_perm (whole : rules.Whole names players log) (distinct : names.Nodup)
    (all : names.length = rules.config.minPlayers) (creator : rules.creator ∈ names)
    (joined : ∀ a ∈ names, rules.Joined a log) : (rules.seats log).Perm names := by
  have filed := whole.history.ordered.toFiled
  have same := whole.joiners_perm distinct creator joined
  have everyone : log.sendersTo (rules.category .join) rules.creator =
      log.senders (rules.category .join) := by
    rw [Log.sendersTo, List.filter_eq_self.2 (by simpa using fun tx inside => (filed.newcomers tx inside).1),
      ← Log.senders, Log.distinct_of_nodup (filed.once .join)]
  have others : ∀ a ∈ log.senders (rules.category .join), a ≠ rules.creator := by
    intro a member
    obtain ⟨tx, inside, rfl⟩ := List.mem_map.1 member
    exact (filed.newcomers tx inside).2
  rw [seats, Session.seating, everyone, List.filter_eq_self.2 (by simpa using others),
    List.take_of_length_le (by rw [same.length_eq]; omega)]
  exact same

end

/-! ## Plans -/

section

variable {players front back : List (Player γ)} {player next : Player γ} {log later : Log}

/-- Players with different addresses all find their pair in one plan. -/
theorem exists_paired [RandomSource γ] (distinct : (players.map (·.address)).Nodup) :
    ∃ pair, Paired pair players := by
  refine ⟨fun a => ((players.find? (·.address = a)).map (·.pair)).getD ⟨0, .infinity⟩, fun p member => ?_⟩
  show p.pair = ((players.find? (·.address = p.address)).map (·.pair)).getD ⟨0, .infinity⟩
  rw [(find?_eq_some_iff_of_nodup distinct member).2 rfl]
  rfl

/-- Once the table is full its seats stay as they are. -/
theorem keeps_seats [RandomSource γ] (valid : rules.config.Valid) (distinct : names.Nodup)
    {seats : List Address} (full : seats.length = rules.config.minPlayers) :
    Table.Keeps fun (players : List (Player γ)) log => rules.Whole names players log ∧ rules.seats log = seats := by
  apply Table.keeps_of_acts
  rintro front back player next log later ⟨whole, same⟩ act
  have grows := (whole.knows player (by simp)).told.grows (act.mono (rules.calm_le.trans rules.acknowledged_le))
  refine ⟨(steady_whole valid distinct).act _ _ _ _ _ _ whole (act.mono rules.calm_le), ?_⟩
  rw [grows.seats_of_full valid (by rw [Full, same, full]), same]

end

/-! ## Rounds -/

section

variable [RandomSource γ] {table : Table γ} {ids : List String}

/-- After a round everybody has joined. -/
theorem join_round (valid : rules.config.Valid) (distinct : names.Nodup) {called : List String}
    (everybody : called ⊆ ids) (stands : table.Stands called (rules.Whole names)) :
    (table.ticks ids).Stands called fun players log =>
      rules.Whole names players log ∧ ∀ p ∈ players, rules.Joined p.address log := by
  refine stands.round ?_ ?_ everybody
  · exact Table.keeps_of_acts fun whole act =>
      (steady_whole valid distinct).act _ _ _ _ _ _ whole (act.mono rules.calm_le)
  · exact Table.brings_of_grows (fun more joined => joined.grows more) fun whole => whole.join_turn

variable {called : List String}

/-- After a further round everybody has a pair. -/
theorem keys_round (valid : rules.config.Valid) (fits : plan.Fits rules) (distinct : names.Nodup)
    (everybody : called ⊆ ids) (stands : table.Stands called (rules.Settled names plan)) :
    (table.ticks ids).Stands called (rules.Equipped names plan) := by
  refine (stands.round (P := fun p _ => p.keys.isSome) ?_ ?_ everybody).mono
    fun ⟨settled, held⟩ => ⟨settled, held⟩
  · exact Table.keeps_of_acts fun settled act => settled.act valid fits distinct act
  · exact Table.brings_of_grows (fun _ held => held) fun settled => settled.keys_turn valid fits distinct

/-- What the player at a place of the rotation does to the ledger in its turn is done after a round. -/
theorem place_round (valid : rules.config.Valid) (fits : plan.Fits rules) (distinct : names.Nodup)
    (everybody : called ⊆ ids) {k : Nat} (inside : k < rules.config.minPlayers) {Q R : Log → Prop}
    (still : ∀ {log later}, log <+: later → Q log → Q later)
    (grows : ∀ {log later}, log <+: later → R log → R later)
    (turn : ∀ {front back : List (Player γ)} {player log},
      rules.Equipped names plan (front ++ player :: back) log → Q log →
      plan.order[k]? = some player.address →
      Turn.everything.Ensures .calm (fun _ (_ : Player γ) later => R later) player log)
    (stands : table.Stands called fun players log => rules.Equipped names plan players log ∧ Q log) :
    (table.ticks ids).Stands called fun players log => rules.Equipped names plan players log ∧ R log := by
  have acts : Table.Keeps fun (players : List (Player γ)) log => rules.Equipped names plan players log :=
    Table.keeps_of_acts fun equipped act => equipped.act valid fits distinct act
  let I (players : List (Player γ)) (log : Log) : Prop := rules.Equipped names plan players log ∧ Q log
  let P (player : Player γ) (log : Log) : Prop := plan.order[k]? = some player.address → R log
  have brings : Table.Brings I P := by
    refine Table.brings_of_grows (P := P) (fun more had place => grows more (had place)) ?_
    rintro front player back log ⟨equipped, done⟩
    by_cases place : plan.order[k]? = some player.address
    · refine (turn equipped done place).mono ?_
      exact fun _ _ _ acted _ => acted
    · -- a player of another place stays one of another place
      have apart : Turn.Stable .calm fun (next : Player γ) _ => next.address = player.address :=
        fun act same => act.same.address.trans same
      refine (apart.ensures Turn.everything_runs rfl).mono ?_
      exact fun _ _ _ same here => absurd (same ▸ here) place
  refine (stands.round (acts.and_log still) brings everybody).mono ?_
  rintro players log ⟨⟨equipped, -⟩, all⟩
  have there := List.getElem?_eq_getElem (show k < plan.order.length by rw [fits.order_length]; exact inside)
  obtain ⟨player, member, same⟩ := equipped.exists_player
    ((Circle.rotation_perm fits.rotation).mem_iff.1 (List.mem_of_getElem? there))
  exact ⟨equipped, all player member (same ▸ there)⟩

/-- In each of the following rounds the chain goes on by a deck. -/
theorem chain_rounds (valid : rules.config.Valid) (fits : plan.Fits rules) (distinct : names.Nodup)
    (rounds : List (List String)) (everybody : ∀ ids ∈ rounds, called ⊆ ids) : ∀ {k : Nat} {table : Table γ},
    k + rounds.length ≤ rules.config.minPlayers →
    (table.Stands called fun players log => rules.Equipped names plan players log ∧
      k ≤ (log.senders (rules.category .shuffle)).length) →
    (rounds.foldl Table.ticks table).Stands called fun players log => rules.Equipped names plan players log ∧
      k + rounds.length ≤ (log.senders (rules.category .shuffle)).length := by
  induction rounds with
  | nil => exact fun _ stands => stands
  | cons ids rounds ih =>
    intro k table enough stands
    rw [List.length_cons] at enough
    have longer {n : Nat} {log later : Log} (more : log <+: later)
        (long : n ≤ (log.senders (rules.category .shuffle)).length) :
        n ≤ (later.senders (rules.category .shuffle)).length :=
      long.trans (Log.senders_length_le _ more)
    have next := place_round valid fits distinct (everybody ids List.mem_cons_self)
      (k := k) (by omega) longer longer
      (fun equipped reached place => equipped.shuffle_turn valid fits distinct reached place) stands
    refine (ih (fun ids member => everybody ids (List.mem_cons_of_mem _ member)) (by omega) next).mono ?_
    rintro players log ⟨equipped, long⟩
    refine ⟨equipped, ?_⟩
    rw [List.length_cons]
    omega

/-- After a first round the table is full. -/
theorem full_round (valid : rules.config.Valid) (distinct : names.Nodup)
    (all : names.length = rules.config.minPlayers) (creator : rules.creator ∈ names)
    (everybody : called ⊆ ids) (stands : table.Stands called (rules.Whole names)) :
    (table.ticks ids).Stands called fun players log =>
      rules.Whole names players log ∧ (rules.seats log).Perm names := by
  refine (join_round valid distinct everybody stands).mono ?_
  rintro players log ⟨whole, joined⟩
  refine ⟨whole, whole.seats_perm distinct all creator fun a member => ?_⟩
  rw [← whole.gathered.addresses] at member
  obtain ⟨p, inside, rfl⟩ := List.mem_map.1 member
  exact joined p inside

/-- After a first round there is a plan for the table. -/
theorem settled_round (valid : rules.config.Valid) (distinct : names.Nodup)
    (all : names.length = rules.config.minPlayers) (creator : rules.creator ∈ names)
    (everybody : called ⊆ ids) (stands : table.Stands called (rules.Whole names))
    (layers : ∀ p ∈ table.players, ∀ q ∈ table.players,
      Circle.next? (rules.seats (table.ticks ids).log) p.address = some q.address →
        ∃ factor, Cipher.sharedFactor q.pair.publicKey p.pair.secretKey = .ok factor) :
    ∃ plan : Plan, plan.Fits rules ∧ (table.ticks ids).Stands called (rules.Settled names plan) := by
  have full := full_round valid distinct all creator everybody stands
  obtain ⟨whole, perm⟩ := full.holds
  obtain ⟨order, rotation⟩ := rules.exists_rotation (table.ticks ids).log
  have addresses := stands.holds.gathered.addresses
  obtain ⟨pair, paired⟩ := exists_paired (addresses ▸ distinct)
  let plan : Plan := ⟨rules.seats (table.ticks ids).log, order, pair⟩
  have player {a : Address} (seated : a ∈ plan.seats) : ∃ p ∈ table.players, p.address = a := by
    have member := perm.mem_iff.1 seated
    rw [← addresses] at member
    exact List.mem_map.1 member
  have fits : plan.Fits rules := by
    refine ⟨perm.length_eq.trans all, rules.seats_nodup _, rotation, fun a b next => ?_⟩
    obtain ⟨here, there⟩ := Circle.mem_of_next? next
    obtain ⟨p, first, rfl⟩ := player here
    obtain ⟨q, second, rfl⟩ := player there
    obtain ⟨factor, has⟩ := layers p first q second next
    rw [paired p first, paired q second] at has
    exact ⟨factor, has⟩
  refine ⟨plan, fits, ?_⟩
  -- nobody gets another pair in the meantime
  have keeps : Table.Keeps fun (players : List (Player γ)) log =>
      rules.Whole names players log ∧ Paired pair players := by
    apply Table.keeps_of_acts
    rintro front back player next log later ⟨whole, paired⟩ act
    refine ⟨(steady_whole valid distinct).act _ _ _ _ _ _ whole (act.mono rules.calm_le), ?_⟩
    refine paired.act (fits.affine (perm.mem_iff.2 ?_)) act
    rw [← whole.gathered.addresses]
    exact List.mem_map_of_mem (by simp)
  have start : table.Stands called fun players log => rules.Whole names players log ∧ Paired pair players :=
    ⟨stands.toOrderly, stands.called, stands.holds, paired⟩
  obtain ⟨-, paired⟩ := (start.ticks keeps ids).holds
  exact ⟨full.toOrderly, full.called, ⟨whole, paired, rfl, fun a => perm.mem_iff⟩⟩

/-- Once the chain is complete, the deck is decrypted after a round. -/
theorem decrypt_round (valid : rules.config.Valid) (fits : plan.Fits rules) (distinct : names.Nodup)
    (everybody : called ⊆ ids) (stands : table.Stands called fun players log =>
      rules.Equipped names plan players log ∧
        rules.config.minPlayers ≤ (log.senders (rules.category .shuffle)).length) :
    (table.ticks ids).Stands called fun players log => rules.Equipped names plan players log ∧
      log.senders (rules.category .decrypt) ≠ [] :=
  place_round valid fits distinct everybody (k := 1) valid.two_le
    (fun more all => all.trans (Log.senders_length_le _ more)) Log.senders_ne_nil_of_prefix
    (fun equipped all place => equipped.decrypt_turn valid fits distinct all place) stands

/-- Once the deck is decrypted, the deal is over for everybody after a round. -/
theorem over_round (valid : rules.config.Valid) (fits : plan.Fits rules) (distinct : names.Nodup)
    (everybody : called ⊆ ids) (stands : table.Stands called fun players log =>
      rules.Equipped names plan players log ∧ log.senders (rules.category .decrypt) ≠ []) :
    (table.ticks ids).Stands called fun players log => (rules.Equipped names plan players log ∧
      log.senders (rules.category .decrypt) ≠ []) ∧ ∀ p ∈ players, p.Over := by
  have acts : Table.Keeps fun (players : List (Player γ)) log => rules.Equipped names plan players log :=
    Table.keeps_of_acts fun equipped act => equipped.act valid fits distinct act
  let I (players : List (Player γ)) (log : Log) : Prop :=
    rules.Equipped names plan players log ∧ log.senders (rules.category .decrypt) ≠ []
  let P (player : Player γ) (_ : Log) : Prop := player.Over
  have brings : Table.Brings I P := by
    refine Table.brings_of_grows (P := P) (fun _ ended => ended) ?_
    rintro front player back log ⟨equipped, decrypted⟩
    exact equipped.over_turn valid fits distinct decrypted
  exact stands.round (acts.and_log Log.senders_ne_nil_of_prefix) brings everybody

end

/-! ## The completed deal -/

/-- Everybody is ready and has its cards, everything is on the ledger once, and the hands from the player after
the dealer on are the beginning of the decrypted deck. -/
structure Completed (rules : Rules) (players : List (Player γ)) (log : Log) : Prop where
  ready : ∀ p ∈ players, p.session.phase = .ready ∧
    p.session.hand.length = rules.config.cardsPerPlayer
  joins : (log.filed (rules.category .join)).length = rules.config.minPlayers - 1
  keys : (log.filed (rules.category .publicKey)).length = rules.config.minPlayers
  shuffles : (log.filed (rules.category .shuffle)).length = rules.config.minPlayers
  hands : ∃ order tx deck hand, rules.rotation? log = some order ∧ order.Perm (players.map (·.address)) ∧
    log.filed (rules.category .decrypt) = [tx] ∧ Payload.deck tx.payload = .ok deck ∧
    (∀ p ∈ players, p.session.hand = hand p.address) ∧
    (order.rotate 1).flatMap hand =
      deck.entries.take (rules.config.minPlayers * rules.config.cardsPerPlayer)

section

variable [RandomSource γ] {players : List (Player γ)} {log : Log}

/-- The hands of players who have one are dealt from the decrypted deck. -/
theorem Equipped.hands (valid : rules.config.Valid) (fits : plan.Fits rules)
    (equipped : rules.Equipped names plan players log)
    (decrypted : log.senders (rules.category .decrypt) ≠ [])
    (handed : ∀ p ∈ players, p.session.hand ≠ []) :
    (∀ p ∈ players, p.session.hand.length = rules.config.cardsPerPlayer) ∧
      ∃ tx deck hand, log.filed (rules.category .decrypt) = [tx] ∧ Payload.deck tx.payload = .ok deck ∧
        (∀ p ∈ players, p.session.hand = hand p.address) ∧
        (plan.order.rotate 1).flatMap hand =
          deck.entries.take (rules.config.minPlayers * rules.config.cardsPerPlayer) := by
  obtain ⟨decryptor, tx, deck, place, single, found, read, enough⟩ := equipped.dealt valid fits decrypted
  let dealt (a : Address) := deck.hand? plan.seats (Session.dealerOf rules.dealer rules.creator plan.seats) a
    rules.config.cardsPerPlayer
  -- the hand of a player is what the ledger has for it, and there is only one such deck
  have mine : ∀ p ∈ players, dealt p.address = some p.session.hand := by
    intro p member
    obtain ⟨decryptor', deck', next, ⟨payload, found', read'⟩, hand⟩ :=
      equipped.gathered.hands p member (handed p member)
    rw [dealerAt, equipped.seats] at next hand
    rw [Circle.next?_dealer fits.nodup fits.rotation (fits.full ▸ valid.two_le), place] at next
    cases next
    rw [found] at found'
    cases found'
    rw [read] at read'
    cases read'
    exact hand
  have all {a : Address} (seated : a ∈ plan.order) : ∃ hand, dealt a = some hand ∧
      hand.length = rules.config.cardsPerPlayer :=
    Deck.exists_hand (valid.counted fits.full.le) fits.rotation enough seated
  refine ⟨fun p member => ?_, tx, deck, fun a => (dealt a).getD [], single, read, fun p member => ?_, ?_⟩
  · obtain ⟨hand, has, length⟩ := all
      ((Circle.rotation_perm fits.rotation).mem_iff.2 (equipped.seated member))
    rw [mine p member] at has
    cases has
    exact length
  · show p.session.hand = (dealt p.address).getD []
    rw [mine p member, Option.getD_some]
  · rw [← fits.order_length]
    refine Deck.hands_rotation (valid.counted fits.full.le) fits.nodup fits.rotation fun a seated => ?_
    obtain ⟨hand, has, -⟩ := all seated
    change dealt a = _
    rw [has, Option.getD_some]

/-- When the deal is over for everybody it is complete. -/
theorem Equipped.completed (valid : rules.config.Valid) (fits : plan.Fits rules) (distinct : names.Nodup)
    (creator : rules.creator ∈ names) (equipped : rules.Equipped names plan players log)
    (decrypted : log.senders (rules.category .decrypt) ≠ [])
    (ended : ∀ p ∈ players, p.Over) : rules.Completed players log := by
  have ordered := equipped.history.ordered
  have rotation := equipped.rotation fits
  have table : plan.seats.Perm names := (List.perm_ext_iff_of_nodup fits.nodup distinct).2 equipped.everybody
  have all : names.length = rules.config.minPlayers := table.length_eq.symm.trans fits.full
  obtain ⟨lengths, tx, deck, hand, single, read, hands, together⟩ :=
    equipped.hands valid fits decrypted fun p member => (ended p member).hand
  refine ⟨fun p member => ⟨(ended p member).ready, lengths p member⟩, ?_, ?_, ?_,
    plan.order, tx, deck, hand, rotation, ?_, single, read, hands, together⟩
  · have joined := equipped.joiners_perm distinct creator fun a member =>
      joined_of_seated (equipped.seats ▸ (equipped.everybody a).2 member)
    have count := joined.length_eq
    rw [List.length_cons, Log.senders, List.length_map] at count
    omega
  · have keyed : (log.senders (rules.category .publicKey)).Perm names := by
      refine (List.perm_ext_iff_of_nodup (ordered.once .publicKey) distinct).2 fun a => ?_
      refine ⟨equipped.gathered.filers .publicKey a, fun member => ?_⟩
      obtain ⟨payload, found, -⟩ := equipped.announced ((equipped.everybody a).2 member)
      exact Log.mem_senders_of_payload? found
    rw [← all, ← keyed.length_eq, Log.senders, List.length_map]
  · obtain ⟨chain, -⟩ := ordered.closed decrypted plan.order rotation
    rw [← fits.order_length, ← chain, Log.senders, List.length_map]
  · rw [equipped.gathered.addresses]
    exact (Circle.rotation_perm fits.rotation).trans table

/-- A round for joining, one for the keys, those for the chain, and two for the decryption and the hands. -/
theorem exists_rounds {rounds : List (List String)} {n : Nat} (enough : rounds.length = n + 4) :
    ∃ first second chain closing last, rounds = first :: second :: (chain ++ [closing, last]) ∧
      chain.length = n := by
  obtain ⟨first, rounds, rfl⟩ := List.exists_cons_of_length_eq_add_one enough
  obtain ⟨second, rounds, rfl⟩ := List.exists_cons_of_length_eq_add_one (Nat.succ.inj enough)
  simp only [List.length_cons] at enough
  have two : (rounds.drop n).length = 2 := by
    rw [List.length_drop]
    omega
  obtain ⟨closing, last, ends⟩ := List.length_eq_two.1 two
  refine ⟨first, second, rounds.take n, closing, last, ?_, ?_⟩
  · rw [← ends, List.take_append_drop]
  · rw [List.length_take]
    omega

/-- Where all players are at a calm table, the deal is over for them after a few rounds in each of which everybody
takes a turn at everything. -/
theorem over_rounds {rules : Rules} (valid : rules.config.Valid) {names : List Address} (distinct : names.Nodup)
    (all : names.length = rules.config.minPlayers) (creator : rules.creator ∈ names) {called : List String}
    {table after : Table γ} (stands : table.Stands called (rules.Whole names)) {rounds : List (List String)}
    (enough : rounds.length = rules.config.minPlayers + 4) (everybody : ∀ ids ∈ rounds, called ⊆ ids)
    (played : rounds.foldl Table.ticks table = after)
    (layers : ∀ p ∈ table.players, ∀ q ∈ table.players,
      Circle.next? (rules.seats after.log) p.address = some q.address →
        ∃ factor, Cipher.sharedFactor q.pair.publicKey p.pair.secretKey = .ok factor) :
    ∃ plan : Plan, plan.Fits rules ∧ after.Stands called fun players log =>
      (rules.Equipped names plan players log ∧ log.senders (rules.category .decrypt) ≠ []) ∧
        ∀ p ∈ players, p.Over := by
  obtain ⟨first, second, chain, closing, last, rfl, length⟩ := exists_rounds enough
  simp only [List.forall_mem_cons, List.forall_mem_append] at everybody
  obtain ⟨inFirst, inSecond, inChain, inClosing, inLast, -⟩ := everybody
  simp only [List.foldl_cons, List.foldl_append, List.foldl_nil] at played
  -- the seats are those after the first round
  have seats : rules.seats after.log = rules.seats (table.ticks first).log := by
    have full := full_round valid distinct all creator inFirst stands
    have sits := full.holds.2.length_eq.trans all
    have keeps := keeps_seats (γ := γ) valid distinct sits
    have kept := Table.Stands.rounds keeps (second :: (chain ++ [closing, last]))
      ⟨full.toOrderly, full.called, full.holds.1, rfl⟩
    simp only [List.foldl_cons, List.foldl_append, List.foldl_nil, played] at kept
    exact kept.holds.2
  obtain ⟨plan, fits, settled⟩ := settled_round valid distinct all creator inFirst stands (seats ▸ layers)
  have equipped := keys_round valid fits distinct inSecond settled
  have chained := chain_rounds valid fits distinct chain inChain (k := 0) (by omega)
    (equipped.mono fun equipped => ⟨equipped, Nat.zero_le _⟩)
  rw [Nat.zero_add, length] at chained
  have decrypted := decrypt_round valid fits distinct inClosing chained
  have ended := over_round valid fits distinct inLast decrypted
  rw [played] at ended
  exact ⟨plan, fits, ended⟩

/-- Failures only delay the deal: whatever state a gathered table has reached, once nothing fails any
more the deal is complete after a few rounds in each of which everybody takes a turn at everything. The players may
have any sources, for a draw comes to its end by `RandomSource.maxAttempts` at the latest; without that limit the
deal would come to a halt at a source all whose words are rejected. -/
theorem failures_only_delay {rules : Rules} (valid : rules.config.Valid) {start reached : Table γ}
    (gathering : rules.Gathering start) (delayed : Relation.ReflTransGen rules.Delays start reached)
    {rounds : List (List String)} (enough : rounds.length = rules.config.minPlayers + 4)
    (everybody : ∀ ids ∈ rounds, ∀ p ∈ start.participants, p.id ∈ ids) {after : Table γ}
    (played : rounds.foldl Table.ticks reached.calmed = after)
    (layers : ∀ p ∈ reached.players, ∀ q ∈ reached.players,
      Circle.next? (rules.seats after.log) p.address = some q.address →
        ∃ factor, Cipher.sharedFactor q.pair.publicKey p.pair.secretKey = .ok factor) :
    rules.Completed after.players after.log := by
  have distinct := gathering.distinct
  obtain ⟨whole, ids⟩ := Whole.delayed valid distinct delayed gathering.named (gathering.whole valid)
  generalize same : start.players.map (·.address) = names at whole distinct
  have all : names.length = rules.config.minPlayers := by
    rw [← same, List.length_map, gathering.all]
  have creator : rules.creator ∈ names := same ▸ gathering.creator
  replace everybody : ∀ ids ∈ rounds, start.participants.map (·.id) ⊆ ids := by
    intro ids member id inside
    obtain ⟨p, seated, rfl⟩ := List.mem_map.1 inside
    exact everybody ids member p seated
  have stands : reached.calmed.Stands (start.participants.map (·.id)) (rules.Whole names) := by
    refine ⟨⟨?_, rfl, rfl, rfl⟩, ids, whole⟩
    show (reached.participants.map (·.id)).Nodup
    rw [ids]
    exact gathering.named
  obtain ⟨plan, fits, ended⟩ := over_rounds valid distinct all creator stands enough everybody played layers
  obtain ⟨⟨equipped, decrypted⟩, ended⟩ := ended.holds
  exact equipped.completed valid fits distinct creator decrypted ended

end

/-- The rules of a game for two. -/
def forTwo : Rules := ⟨{ Config.default with minPlayers := 2 }, ⟨"tx0"⟩, ⟨"alice"⟩, none⟩

theorem forTwo_valid : forTwo.config.Valid := rfl

/-- Somebody who plays a game for two, with a wish for the dealer. -/
def playerOfTwo (name : String) (wish : Option Address) : Player (Seeded id) :=
  told { forTwo with dealer := wish }
    (.new forTwo.config ⟨⟨name⟩, []⟩ forTwo.game forTwo.creator ⟨name.toList.map (·.toNat.toUInt8), 0⟩)

/-- The two players of the game, before anything has happened. -/
def twoPlayers : Table (Seeded id) := ⟨.fresh, [⟨"a", playerOfTwo "alice" none⟩, ⟨"b", playerOfTwo "bob" none⟩]⟩

theorem gathering_two : forTwo.Gathering twoPlayers where
  named := show ["a", "b"].Nodup by decide
  plays := by
    rintro p member
    rcases List.mem_pair.1 member with rfl | rfl
    · exact ⟨_, _, rfl⟩
    · exact ⟨_, _, rfl⟩
  distinct := by decide
  all := rfl
  creator := by decide
  unfiled _ := rfl

/-- In each of six rounds the two take a turn at everything. -/
def sixRounds : List (List String) := List.replicate 6 ["b", "a"]

theorem everybody_sixRounds : ∀ ids ∈ sixRounds, ["a", "b"] ⊆ ids := by
  intro ids member
  rw [List.eq_of_mem_replicate member]
  decide

/-- A line to a log on which something befalls the next requests. -/
def lineOver (log : Log) (script : List Fate) : Line := ⟨⟨log, 0, 0⟩, script, []⟩

/-- Bob joins without being told so, and Alice gets no answer when it looks who has joined. Then nothing fails any
more, and the deal is complete after six rounds. -/
theorem failures_only_delay_two : ∃ (joined looked : Table (Seeded id)) (lost failed : DealError),
    Table.move? ⟨lineOver twoPlayers.log [.passes, .losesReply], twoPlayers.participants⟩ "b" .join =
      some (.error lost, joined) ∧
    Table.move? ⟨lineOver joined.log [.fails (.unavailable "down")], joined.participants⟩ "a" .refreshPlayers =
      some (.error failed, looked) ∧
    sixRounds.length = forTwo.config.minPlayers + 4 ∧
    forTwo.Completed (sixRounds.foldl Table.ticks looked.calmed).players
      (sixRounds.foldl Table.ticks looked.calmed).log := by
  -- what Bob publishes is appended, but the reply is lost
  have bob : twoPlayers.player? "b" = some (playerOfTwo "bob" none) := rfl
  have joins := Table.move?_of_player? bob .join (lineOver twoPlayers.log [.passes, .losesReply])
  generalize joined_eq : Table.place _ _ = joined at joins
  have first : forTwo.Delays twoPlayers joined := by
    refine .moves (lineOver twoPlayers.log [.passes, .losesReply]) rfl (fun player found => ?_) joins
    obtain rfl := Option.some.inj (bob.symm.trans found)
    have other : (playerOfTwo "bob" none).category .join ≠ forTwo.category .publicKey := by decide
    exact ⟨⟨_, rfl, rfl, .inl rfl⟩, ⟨_, rfl, .inl ⟨rfl, .inr ⟨other, _, rfl⟩⟩⟩, trivial⟩
  -- what Alice asks does not reach the ledger
  have alice : joined.player? "a" = some (playerOfTwo "alice" none) := joined_eq ▸ rfl
  have looks := Table.move?_of_player? alice .refreshPlayers (lineOver joined.log [.fails (.unavailable "down")])
  generalize looked_eq : Table.place _ _ = looked at looks
  have second : forTwo.Delays joined looked := by
    refine .moves (lineOver joined.log [.fails (.unavailable "down")]) rfl (fun player found => ?_) looks
    obtain rfl := Option.some.inj (alice.symm.trans found)
    exact ⟨⟨_, rfl, rfl, .inr ⟨trivial, _, rfl⟩⟩, trivial⟩
  have shared : ∀ p ∈ looked.players, ∀ q ∈ looked.players,
      (Cipher.sharedFactor q.pair.publicKey p.pair.secretKey).isOk = true := by
    subst looked_eq joined_eq
    decide +kernel
  exact ⟨joined, looked, _, _, joins, looks, rfl,
    failures_only_delay forTwo_valid gathering_two ((Relation.ReflTransGen.single first).tail second) rfl
      (fun ids member p seated => everybody_sixRounds ids member (List.mem_map_of_mem seated)) rfl
      fun p first q second _ => Cipher.exists_factor_of_isOk (shared p first q second)⟩

end Rules

end MentalPoker
