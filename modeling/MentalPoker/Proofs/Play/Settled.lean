/-
A full table on a calm line. Everybody keeps the pair it has or would draw next, the seats and the
rotation are known, and the neighbours have layers: from then on every turn at everything does the
next thing that is to be done.
-/
import MentalPoker.Proofs.Card.Hand
import MentalPoker.Proofs.Play.Gathering
import MentalPoker.Proofs.Play.Rounds

namespace MentalPoker

/-! ## Pairs -/

/-- The pair a player has, or draws next. -/
def Player.pair {γ : Type} [RandomSource γ] (player : Player γ) : KeyPair :=
  match player.keys with
  | some keys => keys
  | none => (KeyPair.generate player.source).1

section

variable {γ : Type} [RandomSource γ] {player next : Player γ} {log later : Log}

theorem Player.pair_of_some {keys : KeyPair} (held : player.keys = some keys) : player.pair = keys := by
  unfold pair
  rw [held]

theorem Player.pair_of_none (none : player.keys = none) :
    player.pair = (KeyPair.generate player.source).1 := by
  unfold pair
  rw [none]

/-- A pair that is drawn can be announced, unless its key is the point at infinity. -/
theorem Player.fit (affine : player.pair.publicKey ≠ .infinity) (none : player.keys = none)
    {keys : KeyPair} {source : γ} (drew : KeyPair.generate player.source = (keys, source)) :
    ∃ message, KeyMessage.ofPoint keys.publicKey = .ok message := by
  rw [pair_of_none none, drew] at affine
  obtain ⟨secret, same⟩ := KeyPair.generate_eq_ofSecret player.source
  rw [drew] at same
  replace same : keys = KeyPair.ofSecret secret := same
  subst same
  exact KeyPair.announces affine

/-- When nothing goes wrong, a player without a pair gets the one it would have drawn before. -/
theorem pair_act (affine : player.pair.publicKey ≠ .infinity)
    (act : Act .calm ⟨player, log⟩ ⟨next, later⟩) : next.pair = player.pair := by
  cases act with
  | draws source draws =>
    cases held : player.keys with
    | some keys =>
      rw [Player.pair_of_some held]
      exact Player.pair_of_some rfl
    | none =>
      rw [held] at draws
      rcases draws with some | fails | ⟨e, unfit⟩
      · cases some
      · exact fails.elim
      · obtain ⟨message, made⟩ := Player.fit affine held (Prod.eta _).symm
        rw [unfit] at made
        cases made
  | losesKeys h loses => exact loses.elim
  | keepsKeys h =>
    rw [Player.pair_of_none h.none, h.drawn]
    exact Player.pair_of_some rfl
  | _ => rfl

/-- Keys on a ring stay there. -/
theorem names_act {c : Conditions} (act : Act c ⟨player, log⟩ ⟨next, later⟩) :
    player.ring.names ⊆ next.ring.names := by
  cases act with
  | learns =>
    intro a known
    rw [KeyRing.names_record]
    split
    · exact known
    · exact List.mem_append_left _ known
  | _ => exact List.Subset.refl _

/-- When nothing goes wrong, the ledger only grows. -/
theorem more_act (act : Act .calm ⟨player, log⟩ ⟨next, later⟩) : log <+: later := by
  rcases act.files with same | rfl | ⟨_, _, _, _, -, -, -, rfl⟩
  · exact (Conditions.calm_others.1 same) ▸ List.prefix_rfl
  · exact List.prefix_rfl
  · exact List.prefix_append _ _

end

namespace Table

variable {γ : Type} [RandomSource γ] {I : List (Player γ) → Log → Prop} {P : Player γ → Log → Prop}

/-- What every act keeps every turn keeps. -/
theorem keeps_of_acts (acts : ∀ {front back : List (Player γ)} {player next log later},
    I (front ++ player :: back) log → Act .calm ⟨player, log⟩ ⟨next, later⟩ →
      I (front ++ next :: back) later) : Keeps I := by
  intro front player back log holds
  have stable : Turn.Stable .calm fun player log => I (front ++ player :: back) log :=
    fun act holds => acts holds act
  exact stable.ensures Turn.everything_runs holds

/-- What stays so while the ledger grows nobody loses by the turns of others. -/
theorem brings_of_grows (grows : ∀ {player log later}, log <+: later → P player log → P player later)
    (brings : ∀ {front player back log}, I (front ++ player :: back) log →
      Turn.everything.Ensures .calm (fun _ => P) player log) : Brings I P := by
  intro front player back log holds
  have more : Turn.Stable .calm fun (_ : Player γ) later => log <+: later :=
    fun act before => before.trans (more_act act)
  refine ((brings holds).and (more.ensures Turn.everything_runs List.prefix_rfl)).mono ?_
  exact fun _ _ _ ⟨mine, later⟩ => ⟨mine, fun _ _ => grows later⟩

/-- What the ledger says and goes on saying is kept along with the rest. -/
theorem Keeps.and_log {Q : Log → Prop} (keeps : Keeps I)
    (grows : ∀ {log later}, log <+: later → Q log → Q later) :
    Keeps fun players log => I players log ∧ Q log := by
  rintro front player back log ⟨holds, known⟩
  have more : Turn.Stable .calm fun (_ : Player γ) later => log <+: later :=
    fun act before => before.trans (more_act act)
  refine ((keeps holds).and (more.ensures Turn.everything_runs List.prefix_rfl)).mono ?_
  exact fun _ _ _ ⟨kept, later⟩ => ⟨kept, grows later known⟩

end Table

namespace Rules

variable {γ : Type} [RandomSource γ]

/-! ## Settled tables -/

/-- Who will sit at the table, in which order from the dealer on, and with which pairs. -/
structure Plan where
  seats : List Address
  order : List Address
  pair : Address → KeyPair

/-- The table of the plan is one for the rules, and all neighbours at it have a layer. -/
structure Plan.Fits (rules : Rules) (plan : Plan) : Prop where
  full : plan.seats.length = rules.config.minPlayers
  nodup : plan.seats.Nodup
  rotation : Circle.rotation? plan.seats
    (Session.dealerOf rules.dealer rules.creator plan.seats) = some plan.order
  layers : ∀ a b, Circle.next? plan.seats a = some b →
    ∃ factor, Cipher.sharedFactor (plan.pair b).publicKey (plan.pair a).secretKey = .ok factor

/-- Everybody has the pair of the plan, or draws it next. -/
def Paired (pair : Address → KeyPair) (players : List (Player γ)) : Prop :=
  ∀ p ∈ players, p.pair = pair p.address

/-- The table is the one of the plan. -/
structure Settled (rules : Rules) (names : List Address) (plan : Plan) (players : List (Player γ))
    (log : Log) : Prop extends Whole rules names players log where
  paired : Paired plan.pair players
  seats : rules.seats log = plan.seats
  everybody : ∀ a, a ∈ plan.seats ↔ a ∈ names

section

variable {rules : Rules} {names : List Address} {plan : Plan} {players front back : List (Player γ)}
  {player next : Player γ} {log later : Log}

theorem Plan.Fits.order_nodup (fits : plan.Fits rules) : plan.order.Nodup :=
  Circle.rotation_nodup fits.nodup fits.rotation

theorem Plan.Fits.order_length (fits : plan.Fits rules) : plan.order.length = rules.config.minPlayers :=
  (Circle.rotation_length fits.rotation).trans fits.full

omit [RandomSource γ] in
/-- Whoever sees the table of the plan sees a full one. -/
theorem Plan.Fits.sees_full (valid : rules.config.Valid) (fits : plan.Fits rules) (told : rules.Told player)
    (sees : player.session.players = plan.seats) (log : Log) : (Scene.mk player log).Full := by
  have two := valid.two_le
  change max player.config.minPlayers 2 ≤ player.session.players.length
  rw [told.config, sees, fits.full]
  omega

/-- No player of the plan has the point at infinity for its key. -/
theorem Plan.Fits.affine (fits : plan.Fits rules) {a : Address} (seated : a ∈ plan.seats) :
    (plan.pair a).publicKey ≠ .infinity := by
  obtain ⟨b, before⟩ := Circle.exists_next fits.nodup seated
  obtain ⟨factor, has⟩ := fits.layers b a before
  exact Cipher.ne_infinity_of_sharedFactor has

theorem Paired.act {pair : Address → KeyPair} (paired : Paired pair (front ++ player :: back))
    (affine : (pair player.address).publicKey ≠ .infinity)
    (act : Act .calm ⟨player, log⟩ ⟨next, later⟩) : Paired pair (front ++ next :: back) := by
  intro p member
  rcases mem_replaced player member with rfl | ⟨-, old⟩
  · have mine := paired player (by simp)
    rw [act.same.address, ← mine]
    exact pair_act (mine ▸ affine) act
  · exact paired p old

theorem Settled.full (settled : rules.Settled names plan players log) (fits : plan.Fits rules) :
    rules.Full log := by
  rw [Full, settled.seats, fits.full]

theorem Settled.rotation (settled : rules.Settled names plan players log) (fits : plan.Fits rules) :
    rules.rotation? log = some plan.order := by
  rw [rotation?, dealerAt, settled.seats]
  exact fits.rotation

theorem Settled.seated (settled : rules.Settled names plan players log) (member : player ∈ players) :
    player.address ∈ plan.seats := by
  rw [settled.everybody, ← settled.gathered.addresses]
  exact List.mem_map_of_mem member

/-- Whoever sits at the table is one of the players. -/
theorem Settled.exists_player (settled : rules.Settled names plan players log) {a : Address}
    (seated : a ∈ plan.seats) : ∃ player ∈ players, player.address = a := by
  rw [settled.everybody, ← settled.gathered.addresses] at seated
  exact List.mem_map.1 seated

/-- A player with its pair sees the table of the plan. -/
theorem Settled.view (valid : rules.config.Valid) (settled : rules.Settled names plan players log)
    (member : player ∈ players) (held : player.keys.isSome) : player.session.players = plan.seats ∧
      player.session.dealer = Session.dealerOf rules.dealer rules.creator plan.seats := by
  obtain ⟨keys, held⟩ := Option.isSome_iff_exists.1 held
  obtain ⟨players, dealer, -⟩ := (settled.knows player member).whole valid held
  rw [dealerAt, settled.seats] at dealer
  exact ⟨players.trans settled.seats, dealer⟩

theorem Settled.act (valid : rules.config.Valid) (fits : plan.Fits rules) (distinct : names.Nodup)
    (settled : rules.Settled names plan (front ++ player :: back) log)
    (act : Act .calm ⟨player, log⟩ ⟨next, later⟩) :
    rules.Settled names plan (front ++ next :: back) later := by
  have whole := (steady_whole valid distinct).act _ _ _ _ _ _ settled.toWhole (act.mono rules.calm_le)
  have grows := (settled.knows player (by simp)).told.grows
    (act.mono (rules.calm_le.trans rules.acknowledged_le))
  refine { whole with
    paired := settled.paired.act (fits.affine (settled.seated (by simp))) act
    seats := ?_
    everybody := settled.everybody }
  rw [grows.seats_of_full valid (settled.full fits), settled.seats]

/-- Whoever has a pair at a settled table keeps it. -/
theorem Settled.keeps_pair (settled : rules.Settled names plan players log) (member : player ∈ players)
    (act : Act .calm ⟨player, log⟩ ⟨next, later⟩) (held : player.keys.isSome) : next.keys.isSome := by
  obtain ⟨keys, held⟩ := Option.isSome_iff_exists.1 held
  rw [held_of_act (settled.knows player member).told (act.mono (rules.calm_le.trans rules.acknowledged_le)) held]
  rfl

/-! ## Pairs for everybody -/

/-- At a full table a turn at everything gets a player its pair. -/
theorem Settled.keys_turn (valid : rules.config.Valid) (fits : plan.Fits rules) (distinct : names.Nodup)
    (settled : rules.Settled names plan (front ++ player :: back) log) :
    Turn.everything.Ensures .calm (fun _ (next : Player γ) _ => next.keys.isSome) player log := by
  have stable : Turn.Stable .calm fun player log =>
      rules.Settled names plan (front ++ player :: back) log :=
    fun act settled => settled.act valid fits distinct act
  have keeps : Turn.Stable .calm fun (player : Player γ) log =>
      rules.Settled names plan (front ++ player :: back) log ∧ player.keys.isSome := by
    rintro player next log later act ⟨settled, held⟩
    exact ⟨stable act settled, settled.keeps_pair (by simp) act held⟩
  refine (Turn.everything_ensures
    (fun player log => rules.Settled names plan (front ++ player :: back) log)
    (fun player log => rules.Settled names plan (front ++ player :: back) log ∧
      player.session.players = plan.seats)
    (fun player log => rules.Settled names plan (front ++ player :: back) log ∧ player.keys.isSome)
    _ _ _ _ (stable.ensures Turn.join_runs settled) ?_ ?_
    (keeps.ensures Turn.shuffle_runs) (keeps.ensures Turn.decrypt_runs) (keeps.ensures Turn.deal_runs)
    (keeps.ensures Turn.updateSession_runs)).mono fun _ _ _ h => h.2
  · -- the table is full, and the player sees it
    intro player log settled
    refine ((stable.ensures Turn.updateSession_runs settled).and Turn.updateSession_sees).mono ?_
    rintro _ next later ⟨after, sees⟩
    rw [(settled.knows player (by simp)).seated, settled.seats] at sees
    exact ⟨after, sees⟩
  · rintro player log ⟨settled, sees⟩
    have told := (settled.knows player (by simp)).told
    obtain ⟨signer, signs⟩ := Option.isSome_iff_exists.1 (settled.gathered.signs player (by simp))
    have exchanged := Turn.exchangeKeys_calm signs (fits.sees_full valid told sees log) (sees ▸ settled.seated (by simp))
      (fun none => by
        rw [told.category]
        exact settled.gathered.unkeyed player (by simp) none)
      (fun none keys source drew => by
        have seated : player.address ∈ plan.seats := settled.seated (by simp)
        have affine := fits.affine seated
        rw [← settled.paired player (by simp)] at affine
        exact Player.fit affine none drew)
    refine ((stable.ensures Turn.exchangeKeys_runs settled).and exchanged).mono ?_
    exact fun _ _ _ ⟨after, held, _⟩ => ⟨after, held⟩

/-! ## Keys for everybody -/

/-- The table is settled, and everybody has a pair. -/
structure Equipped (rules : Rules) (names : List Address) (plan : Plan) (players : List (Player γ))
    (log : Log) : Prop extends Settled rules names plan players log where
  held : ∀ p ∈ players, p.keys.isSome

theorem Equipped.act (valid : rules.config.Valid) (fits : plan.Fits rules) (distinct : names.Nodup)
    (equipped : rules.Equipped names plan (front ++ player :: back) log)
    (act : Act .calm ⟨player, log⟩ ⟨next, later⟩) :
    rules.Equipped names plan (front ++ next :: back) later := by
  refine ⟨equipped.toSettled.act valid fits distinct act, fun p member => ?_⟩
  rcases mem_replaced player member with rfl | ⟨-, old⟩
  · exact equipped.keeps_pair (by simp) act (equipped.held player (by simp))
  · exact equipped.held p old

/-- The key of everybody is on the ledger. -/
theorem Equipped.announced (equipped : rules.Equipped names plan players log) {a : Address}
    (seated : a ∈ plan.seats) : rules.Announced log a (plan.pair a).publicKey := by
  obtain ⟨p, member, rfl⟩ := equipped.exists_player seated
  obtain ⟨keys, held⟩ := Option.isSome_iff_exists.1 (equipped.held p member)
  obtain ⟨-, -, -, announced⟩ := (equipped.knows p member).keys keys held
  rwa [← equipped.paired p member, Player.pair_of_some held]

/-- The player has the keys of all others. -/
def Plan.Complete (plan : Plan) (player : Player γ) : Prop :=
  ∀ other ∈ plan.seats, other ≠ player.address → other ∈ player.ring.names

theorem Plan.Complete.act {c : Conditions} (complete : plan.Complete player)
    (act : Act c ⟨player, log⟩ ⟨next, later⟩) : plan.Complete next := by
  intro other seated apart
  rw [act.same.address] at apart
  exact names_act act (complete other seated apart)

/-- Once everybody has announced a key, exchanging keys gets a player all of them. -/
theorem Equipped.complete (valid : rules.config.Valid) (fits : plan.Fits rules) (distinct : names.Nodup)
    (equipped : rules.Equipped names plan (front ++ player :: back) log) :
    Turn.exchangeKeys.Ensures .calm (fun _ next later =>
      rules.Equipped names plan (front ++ next :: back) later ∧ plan.Complete next) player log := by
  have stable : Turn.Stable .calm fun player log =>
      rules.Equipped names plan (front ++ player :: back) log :=
    fun act equipped => equipped.act valid fits distinct act
  have same : Turn.Stable .calm fun (next : Player γ) _ => next.address = player.address :=
    fun act before => act.same.address.trans before
  have told := (equipped.knows player (by simp)).told
  obtain ⟨signer, signs⟩ := Option.isSome_iff_exists.1 (equipped.gathered.signs player (by simp))
  have held := equipped.held player (by simp)
  obtain ⟨sees, -⟩ := equipped.view valid (by simp) held
  have missing : player.keys ≠ none := Option.isSome_iff_ne_none.1 held
  have exchanged := Turn.exchangeKeys_calm signs (fits.sees_full valid told sees log)
    (sees ▸ equipped.seated (by simp)) (fun none => absurd none missing) (fun none => absurd none missing)
  refine (((stable.ensures Turn.exchangeKeys_runs equipped).and
    (same.ensures Turn.exchangeKeys_runs rfl)).and exchanged).mono ?_
  rintro _ next later ⟨⟨after, address⟩, -, finds⟩
  refine ⟨after, fun other seated apart => finds other (sees ▸ seated) (address ▸ apart) ?_⟩
  obtain ⟨payload, found, read⟩ := after.announced seated
  rw [told.category]
  exact ⟨payload, _, found, read⟩

/-- A player with the keys of all others has the layer with the next one. -/
theorem Equipped.layer (valid : rules.config.Valid) (fits : plan.Fits rules)
    (equipped : rules.Equipped names plan players log) (member : player ∈ players)
    (complete : plan.Complete player) {keys : KeyPair} (held : player.keys = some keys) {k : Nat}
    (place : plan.order[k]? = some player.address) : ∃ successor key factor,
      Circle.next? plan.seats player.address = some successor ∧ successor ≠ player.address ∧
      player.ring.get? successor = some key ∧ Cipher.sharedFactor key keys.secretKey = .ok factor := by
  have two : 2 ≤ plan.seats.length := fits.full ▸ valid.two_le
  have sits := (Circle.rotation_perm fits.rotation).mem_iff.1 (List.mem_of_getElem? place)
  obtain ⟨successor, next⟩ := Circle.exists_next?_of_mem sits
  have apart := Circle.ne_of_next? fits.nodup two next
  have seated := (Circle.mem_of_next? next).2
  obtain ⟨key, found⟩ := KeyRing.exists_key (complete successor seated apart)
  obtain ⟨factor, has⟩ := fits.layers player.address successor next
  refine ⟨successor, key, factor, next, apart, found, ?_⟩
  rw [((equipped.knows player member).announced_of_get? found).unique (equipped.announced seated)]
  rwa [← equipped.paired player member, Player.pair_of_some held] at has

/-- The decks of the chain can be read. -/
theorem Equipped.deck (fits : plan.Fits rules) (equipped : rules.Equipped names plan players log) {k : Nat}
    {a : Address} (place : plan.order[k]? = some a)
    (reached : k < (log.senders (rules.category .shuffle)).length) :
    ∃ payload deck, log.payload? (rules.category .shuffle) a = some payload ∧
      Payload.deck payload = .ok deck := by
  have ordered := equipped.history.ordered
  obtain ⟨rest, split⟩ := ordered.chain plan.order (equipped.rotation fits)
  rw [← split, List.getElem?_append_left reached] at place
  obtain ⟨tx, there, -, found⟩ := Log.filed_of_senders (ordered.once .shuffle) place
  obtain ⟨order, layers, factors, rotation, decks⟩ := equipped.sound
  obtain ⟨deck, read, -⟩ := decks.shuffled k tx there
  exact ⟨tx.payload, deck, found, read⟩

/-- A player whose turn in the chain has come has what to shuffle. -/
theorem Equipped.input (valid : rules.config.Valid) (fits : plan.Fits rules)
    (equipped : rules.Equipped names plan players log) (member : player ∈ players)
    (complete : plan.Complete player) {k : Nat} (place : plan.order[k]? = some player.address)
    (reached : k ≤ (log.senders (rules.category .shuffle)).length) :
    (player.address = player.session.dealer ∧ player.session.keysComplete player.ring = true) ∨
      (player.address ≠ player.session.dealer ∧ ∃ predecessor payload deck,
        Circle.previous? player.session.players player.address = some predecessor ∧
        log.payload? (player.category .shuffle) predecessor = some payload ∧
        Payload.deck payload = .ok deck) := by
  have knows := equipped.knows player member
  obtain ⟨sees, deals⟩ := equipped.view valid member (equipped.held player member)
  have head := Circle.rotation_head fits.rotation
  rw [← deals] at head
  cases k with
  | zero =>
    refine .inl ⟨Option.some.inj (place.symm.trans head), ?_⟩
    exact Session.keysComplete_of_mem (sees ▸ fits.nodup) knows.once
      (fun _ known => ⟨(knows.known known).1, (knows.known known).2.1⟩)
      (sees ▸ equipped.seated member) (sees ▸ complete)
  | succ k =>
    have inside := (List.getElem?_eq_some_iff.1 place).1
    have before := Circle.previous?_succ fits.nodup fits.rotation place
    have there := List.getElem?_eq_getElem (Nat.lt_of_succ_lt inside)
    obtain ⟨payload, deck, found, read⟩ := equipped.deck fits there reached
    rw [← sees, there] at before
    refine .inr ⟨fun same => ?_, _, payload, deck, before, knows.told.category .shuffle ▸ found, read⟩
    exact absurd (Circle.place_unique fits.order_nodup place (same ▸ head)) (by omega)

/-! ## The chain -/

/-- Once the chain has reached a player, a turn at everything takes it further. -/
theorem Equipped.shuffle_turn (valid : rules.config.Valid) (fits : plan.Fits rules) (distinct : names.Nodup)
    {k : Nat} (equipped : rules.Equipped names plan (front ++ player :: back) log)
    (reached : k ≤ (log.senders (rules.category .shuffle)).length)
    (place : plan.order[k]? = some player.address) :
    Turn.everything.Ensures .calm (fun _ (_ : Player γ) later =>
      k + 1 ≤ (later.senders (rules.category .shuffle)).length) player log := by
  have stable : Turn.Stable .calm fun player log =>
      rules.Equipped names plan (front ++ player :: back) log ∧
        k ≤ (log.senders (rules.category .shuffle)).length ∧ plan.order[k]? = some player.address :=
    fun act ⟨equipped, reached, place⟩ => ⟨equipped.act valid fits distinct act,
      reached.trans (Log.senders_length_le _ (more_act act)), act.same.address ▸ place⟩
  have further : Turn.Stable .calm fun (_ : Player γ) log =>
      k + 1 ≤ (log.senders (rules.category .shuffle)).length :=
    fun act far => far.trans (Log.senders_length_le _ (more_act act))
  refine Turn.everything_ensures
    (fun player log => rules.Equipped names plan (front ++ player :: back) log ∧
      k ≤ (log.senders (rules.category .shuffle)).length ∧ plan.order[k]? = some player.address)
    _ (fun player log => (rules.Equipped names plan (front ++ player :: back) log ∧
      k ≤ (log.senders (rules.category .shuffle)).length ∧ plan.order[k]? = some player.address) ∧
        plan.Complete player)
    _ _ _ _ (stable.ensures Turn.join_runs ⟨equipped, reached, place⟩)
    (stable.ensures Turn.updateSession_runs) ?_ ?_ (further.ensures Turn.decrypt_runs)
    (further.ensures Turn.deal_runs) (further.ensures Turn.updateSession_runs)
  · intro player log holds
    refine ((stable.ensures Turn.exchangeKeys_runs holds).and
      (holds.1.complete valid fits distinct)).mono ?_
    exact fun _ _ _ ⟨after, _, complete⟩ => ⟨after, complete⟩
  rintro player log ⟨⟨equipped, reached, place⟩, complete⟩
  have member : player ∈ front ++ player :: back := by simp
  have told := (equipped.knows player member).told
  obtain ⟨keys, held⟩ := Option.isSome_iff_exists.1 (equipped.held player member)
  obtain ⟨sees, -⟩ := equipped.view valid member (equipped.held player member)
  obtain ⟨signer, signs⟩ := Option.isSome_iff_exists.1 (equipped.gathered.signs player member)
  obtain ⟨successor, key, factor, next, apart, shared, has⟩ :=
    equipped.layer valid fits member complete held place
  have shuffled := Turn.shuffle_calm signs (told.signs signer signs) held
    (sees ▸ equipped.seated member) (sees ▸ next) apart shared has
    (equipped.input valid fits member complete place reached)
  refine ((stable.ensures Turn.shuffle_runs ⟨equipped, reached, place⟩).and shuffled).mono ?_
  rintro _ next later ⟨⟨after, -, -⟩, filed⟩
  rw [told.category] at filed
  have chain := after.history.ordered.chain plan.order (after.rotation fits)
  exact (acted_iff fits.order_nodup chain place).1 filed

/-! ## The decryption -/

/-- The player before the dealer has the last place of the rotation, and its deck can be read once the
chain is complete. -/
theorem Equipped.finished (valid : rules.config.Valid) (fits : plan.Fits rules)
    (equipped : rules.Equipped names plan players log) (member : player ∈ players)
    (all : rules.config.minPlayers ≤ (log.senders (rules.category .shuffle)).length) :
    ∃ last payload deck, player.session.finalShuffler? = some last ∧
      log.payload? (player.category .shuffle) last = some payload ∧ Payload.deck payload = .ok deck := by
  obtain ⟨sees, deals⟩ := equipped.view valid member (equipped.held player member)
  have two := valid.two_le
  have length := fits.order_length
  have there := List.getElem?_eq_getElem (show plan.order.length - 1 < plan.order.length by omega)
  obtain ⟨payload, deck, found, read⟩ := equipped.deck fits there (by omega)
  refine ⟨_, payload, deck, ?_, (equipped.knows player member).told.category .shuffle ▸ found, read⟩
  rw [Session.finalShuffler?, sees, deals, Circle.previous?_dealer fits.nodup fits.rotation, there]

/-- The player after the dealer has the second place of the rotation. -/
theorem Equipped.decryptor (valid : rules.config.Valid) (fits : plan.Fits rules)
    (equipped : rules.Equipped names plan players log) (member : player ∈ players) :
    player.session.decryptor? = plan.order[1]? := by
  obtain ⟨sees, deals⟩ := equipped.view valid member (equipped.held player member)
  rw [Session.decryptor?, sees, deals,
    Circle.next?_dealer fits.nodup fits.rotation (fits.full ▸ valid.two_le)]

/-- Once the chain is complete, a turn at everything of the player after the dealer decrypts. -/
theorem Equipped.decrypt_turn (valid : rules.config.Valid) (fits : plan.Fits rules) (distinct : names.Nodup)
    (equipped : rules.Equipped names plan (front ++ player :: back) log)
    (all : rules.config.minPlayers ≤ (log.senders (rules.category .shuffle)).length)
    (place : plan.order[1]? = some player.address) :
    Turn.everything.Ensures .calm (fun _ (_ : Player γ) later =>
      later.senders (rules.category .decrypt) ≠ []) player log := by
  let S (player : Player γ) (log : Log) : Prop :=
    rules.Equipped names plan (front ++ player :: back) log ∧
      rules.config.minPlayers ≤ (log.senders (rules.category .shuffle)).length ∧
      plan.order[1]? = some player.address
  let R (player : Player γ) (log : Log) : Prop := S player log ∧ plan.Complete player
  let T (_ : Player γ) (log : Log) : Prop := log.senders (rules.category .decrypt) ≠ []
  have stable : Turn.Stable .calm S :=
    fun act ⟨equipped, all, place⟩ => ⟨equipped.act valid fits distinct act,
      all.trans (Log.senders_length_le _ (more_act act)), act.same.address ▸ place⟩
  have both : Turn.Stable .calm R :=
    fun act ⟨holds, complete⟩ => ⟨stable act holds, complete.act act⟩
  have further : Turn.Stable .calm T :=
    fun act filed => Log.senders_ne_nil_of_prefix (more_act act) filed
  refine Turn.everything_ensures S S R R T T T (stable.ensures Turn.join_runs ⟨equipped, all, place⟩)
    (stable.ensures Turn.updateSession_runs) ?_ (both.ensures Turn.shuffle_runs) ?_
    (further.ensures Turn.deal_runs) (further.ensures Turn.updateSession_runs)
  · intro player log holds
    refine ((stable.ensures Turn.exchangeKeys_runs holds).and
      (holds.1.complete valid fits distinct)).mono ?_
    exact fun _ _ _ ⟨after, _, complete⟩ => ⟨after, complete⟩
  rintro player log ⟨⟨equipped, all, place⟩, complete⟩
  have member : player ∈ front ++ player :: back := by simp
  have told := (equipped.knows player member).told
  obtain ⟨keys, held⟩ := Option.isSome_iff_exists.1 (equipped.held player member)
  obtain ⟨sees, -⟩ := equipped.view valid member (equipped.held player member)
  obtain ⟨signer, signs⟩ := Option.isSome_iff_exists.1 (equipped.gathered.signs player member)
  obtain ⟨successor, key, factor, next, apart, shared, has⟩ :=
    equipped.layer valid fits member complete held place
  obtain ⟨last, payload, deck, finishes, found, read⟩ := equipped.finished valid fits member all
  refine (Turn.decrypt_calm signs (told.signs signer signs) held
    ((equipped.decryptor valid fits member).trans place) (sees ▸ fits.full ▸ valid.two_le) finishes found read
    (sees ▸ next) apart shared has).mono ?_
  intro _ _ later filed
  exact List.ne_nil_of_mem (told.category .decrypt ▸ filed)

/-! ## Hands -/

/-- Once the deck is decrypted, the ledger has a hand for everybody. -/
theorem Equipped.dealt (valid : rules.config.Valid) (fits : plan.Fits rules)
    (equipped : rules.Equipped names plan players log)
    (decrypted : log.senders (rules.category .decrypt) ≠ []) : ∃ decryptor tx deck,
      plan.order[1]? = some decryptor ∧ log.filed (rules.category .decrypt) = [tx] ∧
      log.payload? (rules.category .decrypt) decryptor = some tx.payload ∧
      Payload.deck tx.payload = .ok deck ∧ plan.order.length * rules.config.cardsPerPlayer ≤ deck.size := by
  have ordered := equipped.history.ordered
  obtain ⟨-, second, place, only⟩ := ordered.closed decrypted plan.order (equipped.rotation fits)
  obtain ⟨tx, single⟩ : ∃ tx, log.filed (rules.category .decrypt) = [tx] := by
    rw [Log.senders, List.map_eq_singleton_iff] at only
    obtain ⟨tx, single, -⟩ := only
    exact ⟨tx, single⟩
  have sender : tx.sender = second := by
    rw [Log.senders, single] at only
    simpa using only
  have inside : tx ∈ log.filed (rules.category .decrypt) := single ▸ List.mem_singleton_self tx
  obtain ⟨order, layers, factors, rotation, decks⟩ := equipped.sound
  obtain ⟨deck, -, -, -, read, -⟩ := decks.decrypted tx inside
  have found := Log.payload?_of_mem_filed (ordered.once .decrypt) inside
  refine ⟨second, tx, deck, place, single, sender ▸ found, read, ?_⟩
  rw [fits.order_length, (Payload.full_of_deck read).1]
  exact valid.cards_fit

/-- Once the deck is decrypted, a player can take its hand from it. -/
theorem Equipped.exists_hand (valid : rules.config.Valid) (fits : plan.Fits rules)
    (equipped : rules.Equipped names plan players log) (member : player ∈ players)
    (decrypted : log.senders (rules.category .decrypt) ≠ []) : ∃ decryptor payload deck hand,
      player.session.decryptor? = some decryptor ∧ decryptor ≠ player.session.dealer ∧
      log.payload? (player.category .decrypt) decryptor = some payload ∧ Payload.deck payload = .ok deck ∧
      player.session.dealtHand? player.address deck player.config.cardsPerPlayer = some hand ∧ hand ≠ [] := by
  have told := (equipped.knows player member).told
  obtain ⟨sees, deals⟩ := equipped.view valid member (equipped.held player member)
  obtain ⟨decryptor, tx, deck, place, -, found, read, enough⟩ := equipped.dealt valid fits decrypted
  obtain ⟨hand, dealt, size⟩ := Deck.exists_hand (valid.counted fits.full.le) fits.rotation enough
    ((Circle.rotation_perm fits.rotation).mem_iff.2 (equipped.seated member))
  have cards := valid.cards_pos
  refine ⟨decryptor, tx.payload, deck, hand, (equipped.decryptor valid fits member).trans place, ?_,
    told.category .decrypt ▸ found, read, ?_, fun empty => ?_⟩
  · -- the dealer has the first place
    rintro rfl
    have head := Circle.rotation_head fits.rotation
    rw [← deals] at head
    exact absurd (Circle.place_unique fits.order_nodup place head) (by decide)
  · rw [Session.dealtHand?, told.config, if_neg (by omega), sees, deals, dealt]
  · rw [empty, List.length_nil] at size
    omega

/-- Once the deck is decrypted, the deal is over for a player after a turn at everything. -/
theorem Equipped.over_turn (valid : rules.config.Valid) (fits : plan.Fits rules) (distinct : names.Nodup)
    (equipped : rules.Equipped names plan (front ++ player :: back) log)
    (decrypted : log.senders (rules.category .decrypt) ≠ []) :
    Turn.everything.Ensures .calm (fun _ (next : Player γ) _ => next.Over) player log := by
  let S (player : Player γ) (log : Log) : Prop :=
    rules.Equipped names plan (front ++ player :: back) log ∧ log.senders (rules.category .decrypt) ≠ []
  let R (player : Player γ) (log : Log) : Prop := S player log ∧ player.session.hand ≠ []
  have stable : Turn.Stable .calm S :=
    fun act ⟨equipped, filed⟩ => ⟨equipped.act valid fits distinct act,
      Log.senders_ne_nil_of_prefix (more_act act) filed⟩
  refine Turn.everything_ensures S S S S S R _ (stable.ensures Turn.join_runs ⟨equipped, decrypted⟩)
    (stable.ensures Turn.updateSession_runs) (stable.ensures Turn.exchangeKeys_runs)
    (stable.ensures Turn.shuffle_runs) (stable.ensures Turn.decrypt_runs) ?_ ?_
  · rintro player log ⟨equipped, decrypted⟩
    have member : player ∈ front ++ player :: back := by simp
    obtain ⟨sees, -⟩ := equipped.view valid member (equipped.held player member)
    obtain ⟨decryptor, payload, deck, hand, decrypts, apart, found, read, dealt, some⟩ :=
      equipped.exists_hand valid fits member decrypted
    exact (stable.ensures Turn.deal_runs ⟨equipped, decrypted⟩).and
      (Turn.deal_calm (sees ▸ equipped.seated member) decrypts apart found read dealt some)
  · rintro player log ⟨⟨equipped, decrypted⟩, hand⟩
    have member : player ∈ front ++ player :: back := by simp
    have knows := equipped.knows player member
    obtain ⟨sees, deals⟩ := equipped.view valid member (equipped.held player member)
    obtain ⟨chain, -⟩ := equipped.history.ordered.closed decrypted plan.order (equipped.rotation fits)
    obtain ⟨last, payload, deck, finishes, found, read⟩ := equipped.finished valid fits member (by
      rw [chain, fits.order_length])
    have same : player.seated (log.sendersTo (player.category .join) player.session.creator) = player := by
      rw [knows.seated, dealerAt, equipped.seats, ← deals, ← sees]
    exact Turn.updateSession_over same (sees ▸ equipped.seated member) (sees ▸ fits.full ▸ valid.two_le)
      (by rw [sees, fits.full, knows.told.config]) finishes found read hand

end

end Rules

end MentalPoker
