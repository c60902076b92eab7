/-
The shuffle chain of a table. Whatever players do, and in whatever order, the decks of the chain are
filed in the order of the rotation, the first one only after every key; and at most one decryption
is filed, by the player after the dealer, after the whole chain.
-/
import MentalPoker.Proofs.Play.Knowledge

namespace MentalPoker

namespace Rules

variable {γ : Type} (rules : Rules)

/-! ## The order of transactions -/

/-- The ledger has the transactions of a step once for each sender, and from players who may file
them. -/
structure Filed (log : Log) : Prop where
  once : ∀ step, (log.senders (rules.category step)).Nodup
  newcomers : ∀ tx ∈ log.filed (rules.category .join),
    rules.creator ∈ tx.recipients ∧ tx.sender ≠ rules.creator
  keys : ∀ a ∈ log.senders (rules.category .publicKey), rules.Full log ∧ a ∈ rules.seats log

/-- The ledger has the chain in order. -/
structure Ordered (log : Log) : Prop extends Filed rules log where
  /-- No deck is filed before all keys. -/
  opened : log.senders (rules.category .shuffle) ≠ [] →
    rules.Full log ∧ ∀ a ∈ rules.seats log, a ∈ log.senders (rules.category .publicKey)
  chain : ∀ order, rules.rotation? log = some order →
    log.senders (rules.category .shuffle) <+: order
  closed : log.senders (rules.category .decrypt) ≠ [] → ∀ order, rules.rotation? log = some order →
    log.senders (rules.category .shuffle) = order ∧
      ∃ second, order[1]? = some second ∧ log.senders (rules.category .decrypt) = [second]

section

variable {rules} {log : Log} {tx : Transaction}

/-- The transactions of a step are unchanged by one of another step. -/
theorem senders_append_other (valid : rules.config.Valid) {step other : Step}
    (filed : tx.category = rules.category step) (apart : step ≠ other) :
    (log ++ [tx]).senders (rules.category other) = log.senders (rules.category other) :=
  Log.senders_append_of_ne (valid.category_ne filed apart)

theorem Ordered.start (empty : ∀ step, log.filed (rules.category step) = []) : rules.Ordered log := by
  have none (step : Step) : log.senders (rules.category step) = [] := by
    rw [Log.senders, empty, List.map_nil]
  refine ⟨⟨fun step => ?_, ?_, ?_⟩, ?_, ?_, ?_⟩
  · rw [none]
    exact List.nodup_nil
  all_goals simp [empty, none]

theorem Filed.append (valid : rules.config.Valid) (filed : rules.Filed log)
    (grows : rules.Grows log (log ++ [tx]))
    (first : ∀ step, tx.category = rules.category step → tx.sender ∉ log.senders (rules.category step))
    (newcomer : tx.category = rules.category .join →
      rules.creator ∈ tx.recipients ∧ tx.sender ≠ rules.creator)
    (seated : tx.category = rules.category .publicKey →
      rules.Full log ∧ tx.sender ∈ rules.seats log) : rules.Filed (log ++ [tx]) := by
  refine ⟨fun step => ?_, fun t member => ?_, fun a member => ?_⟩
  · by_cases same : tx.category = rules.category step
    · rw [Log.senders_append_of_eq same]
      exact (filed.once step).append (List.nodup_singleton _)
        (List.disjoint_singleton.2 (first step same))
    · rw [Log.senders_append_of_ne same]
      exact filed.once step
  · by_cases same : tx.category = rules.category .join
    · rw [Log.filed_append_of_eq same] at member
      rcases List.mem_append.1 member with old | new
      · exact filed.newcomers t old
      · rw [List.mem_singleton.1 new]
        exact newcomer same
    · rw [Log.filed_append_of_ne same] at member
      exact filed.newcomers t member
  · have kept (h : rules.Full log ∧ a ∈ rules.seats log) :
        rules.Full (log ++ [tx]) ∧ a ∈ rules.seats (log ++ [tx]) :=
      ⟨grows.full valid h.1, grows.seats.subset h.2⟩
    by_cases same : tx.category = rules.category .publicKey
    · rw [Log.senders_append_of_eq same] at member
      rcases List.mem_append.1 member with old | new
      · exact kept (filed.keys a old)
      · rw [List.mem_singleton.1 new] at kept ⊢
        exact kept (seated same)
    · rw [Log.senders_append_of_ne same] at member
      exact kept (filed.keys a member)

/-- Where decryptions are, the chain is complete, and so is the table. -/
theorem Ordered.full_of_closed (ordered : rules.Ordered log)
    (some : log.senders (rules.category .decrypt) ≠ []) : rules.Full log := by
  obtain ⟨order, rotation⟩ := rules.exists_rotation log
  obtain ⟨all, second, place, -⟩ := ordered.closed some order rotation
  refine (ordered.opened ?_).1
  rw [all]
  rintro rfl
  cases place

/-- Neither a wish to join nor a key, it only has to be the first of its step. -/
theorem Filed.append_deck (valid : rules.config.Valid) (filed : rules.Filed log)
    (grows : rules.Grows log (log ++ [tx])) {step : Step} (category : tx.category = rules.category step)
    (first : ∀ step, tx.category = rules.category step → tx.sender ∉ log.senders (rules.category step))
    (apart : step ≠ .join ∧ step ≠ .publicKey) : rules.Filed (log ++ [tx]) :=
  filed.append valid grows first (fun same => absurd same (valid.category_ne category apart.1))
    fun same => absurd same (valid.category_ne category apart.2)

/-- What is neither a deck nor a decryption leaves the chain as it is. -/
theorem Ordered.append (valid : rules.config.Valid) (ordered : rules.Ordered log)
    (grows : rules.Grows log (log ++ [tx])) (filed : rules.Filed (log ++ [tx]))
    (noShuffle : tx.category ≠ rules.category .shuffle)
    (noDecrypt : tx.category ≠ rules.category .decrypt) : rules.Ordered (log ++ [tx]) := by
  have shuffles : (log ++ [tx]).senders (rules.category .shuffle) =
      log.senders (rules.category .shuffle) := Log.senders_append_of_ne noShuffle
  have decrypts : (log ++ [tx]).senders (rules.category .decrypt) =
      log.senders (rules.category .decrypt) := Log.senders_append_of_ne noDecrypt
  refine ⟨filed, fun some => ?_, fun order rotation => ?_, fun some order rotation => ?_⟩
  · rw [shuffles] at some
    obtain ⟨full, all⟩ := ordered.opened some
    rw [grows.seats_of_full valid full]
    exact ⟨grows.full valid full, fun a member => grows.senders (all a member)⟩
  · rw [shuffles]
    by_cases empty : log.senders (rules.category .shuffle) = []
    · rw [empty]
      exact List.nil_prefix
    · rw [grows.rotation valid (ordered.opened empty).1] at rotation
      exact ordered.chain order rotation
  · rw [decrypts] at some
    rw [grows.rotation valid (ordered.full_of_closed some)] at rotation
    rw [shuffles, decrypts]
    exact ordered.closed some order rotation

/-- The next deck makes the chain one longer. -/
theorem Ordered.append_shuffle (valid : rules.config.Valid) (ordered : rules.Ordered log)
    (grows : rules.Grows log (log ++ [tx])) (filed : rules.Filed (log ++ [tx]))
    (category : tx.category = rules.category .shuffle)
    (new : tx.sender ∉ log.senders (rules.category .shuffle)) (full : rules.Full log)
    (keyed : ∀ a ∈ rules.seats log, a ∈ log.senders (rules.category .publicKey))
    (turn : ∀ order, rules.rotation? log = some order → ∃ k, order[k]? = some tx.sender ∧
      log.senders (rules.category .shuffle) = order.take k) : rules.Ordered (log ++ [tx]) := by
  have rotates := grows.rotation valid full
  refine ⟨filed, fun _ => ⟨grows.full valid full, ?_⟩, fun order rotation => ?_,
    fun some order rotation => ?_⟩
  · rw [grows.seats_of_full valid full]
    exact fun a member => grows.senders (keyed a member)
  · obtain ⟨k, place, taken⟩ := turn order (rotates ▸ rotation)
    have more : order.take (k + 1) = order.take k ++ [tx.sender] := by
      rw [List.take_add_one, place]
      rfl
    rw [Log.senders_append_of_eq category, taken, ← more]
    exact List.take_prefix _ _
  · -- the chain was not complete, since the sender had not filed its deck
    rw [senders_append_other valid category (by decide)] at some
    obtain ⟨k, place, -⟩ := turn order (rotates ▸ rotation)
    obtain ⟨all, -⟩ := ordered.closed some order (rotates ▸ rotation)
    exact absurd (all ▸ List.mem_of_getElem? place) new

/-- The decryption follows the whole chain. -/
theorem Ordered.append_decrypt (valid : rules.config.Valid) (ordered : rules.Ordered log)
    (grows : rules.Grows log (log ++ [tx])) (filed : rules.Filed (log ++ [tx]))
    (category : tx.category = rules.category .decrypt) (full : rules.Full log)
    (none : log.senders (rules.category .decrypt) = [])
    (turn : ∀ order, rules.rotation? log = some order → order[1]? = some tx.sender ∧
      log.senders (rules.category .shuffle) = order) : rules.Ordered (log ++ [tx]) := by
  have rotates := grows.rotation valid full
  have shuffles : (log ++ [tx]).senders (rules.category .shuffle) =
      log.senders (rules.category .shuffle) := senders_append_other valid category (by decide)
  refine ⟨filed, fun some => ?_, fun order rotation => ?_, fun some order rotation => ?_⟩
  · rw [shuffles] at some
    rw [grows.seats_of_full valid full]
    exact ⟨grows.full valid full, fun a member => grows.senders ((ordered.opened some).2 a member)⟩
  · rw [shuffles]
    exact ordered.chain order (rotates ▸ rotation)
  · obtain ⟨second, all⟩ := turn order (rotates ▸ rotation)
    rw [shuffles, Log.senders_append_of_eq category, none]
    exact ⟨all, tx.sender, second, rfl⟩

end

/-! ## Turns in the chain -/

section

variable {order acted : List Address} {a : Address} {k : Nat}

/-- Those who have acted are those with the first places. -/
theorem acted_iff (nodup : order.Nodup) (chain : acted <+: order) (place : order[k]? = some a) :
    a ∈ acted ↔ k < acted.length := by
  obtain ⟨inside, rfl⟩ := List.getElem?_eq_some_iff.1 place
  constructor
  · intro member
    obtain ⟨i, small, same⟩ := List.getElem_of_mem member
    have := chain.length_le
    rw [chain.getElem small] at same
    have := nodup.getElem_inj_iff.1 same
    omega
  · intro small
    rw [← chain.getElem small]
    exact List.getElem_mem small

/-- Whoever has not acted although its predecessor has is next. -/
theorem acted_eq_take (nodup : order.Nodup) (chain : acted <+: order) (place : order[k]? = some a)
    (new : a ∉ acted) (before : ∀ j, k = j + 1 → ∃ b, order[j]? = some b ∧ b ∈ acted) :
    acted = order.take k := by
  have late : acted.length ≤ k :=
    Nat.le_of_not_lt fun early => new ((acted_iff nodup chain place).2 early)
  have early : k ≤ acted.length := by
    cases k with
    | zero => exact Nat.zero_le _
    | succ j =>
      obtain ⟨b, seat, member⟩ := before j rfl
      exact (acted_iff nodup chain seat).1 member
  calc acted = order.take acted.length := List.prefix_iff_eq_take.1 chain
    _ = order.take k := by rw [Nat.le_antisymm late early]

end

section

variable {rules} {log : Log} {player : Player γ}

/-- A player with a pair sees the table as it is. -/
theorem Knows.whole (valid : rules.config.Valid) (knows : rules.Knows log player) {keys : KeyPair}
    (held : player.keys = some keys) :
    player.session.players = rules.seats log ∧ player.session.dealer = rules.dealerAt log ∧
      rules.Full log ∧ player.address ∈ rules.seats log := by
  obtain ⟨full, seated, -⟩ := knows.keys keys held
  have same := knows.players_eq valid full
  exact ⟨same.1, knows.dealer_eq valid full, same.2, same.1 ▸ seated⟩

/-- The keys of the neighbours are the announced ones. -/
theorem Knows.announced_of_get? (knows : rules.Knows log player) {other : Address} {key : Point}
    (h : player.ring.get? other = some key) : rules.Announced log other key :=
  (knows.ring other key (KeyRing.mem_of_get? h)).2.2

/-- A player that files a deck has the next place in the rotation, and everybody has a key. -/
theorem Knows.shuffles (valid : rules.config.Valid) (knows : rules.Knows log player)
    (ordered : rules.Ordered log) {signer : Signer} {deck : Deck Scalar}
    (h : (Scene.mk player log).Shuffles .unreliable signer deck) :
    rules.Full log ∧ (∀ a ∈ rules.seats log, a ∈ log.senders (rules.category .publicKey)) ∧
      ∀ order, rules.rotation? log = some order → ∃ k, order[k]? = some player.address ∧
        log.senders (rules.category .shuffle) = order.take k := by
  obtain ⟨keys, input, successor, key, shuffled, held, inputs, perm, next, shared, layered⟩ := h.layered
  replace held : player.keys = some keys := held
  obtain ⟨players, dealer, full, seated⟩ := knows.whole valid held
  refine ⟨full, ?_, fun order rotation => ?_⟩
  · cases inputs with
    | opens deals complete =>
      intro a member
      by_cases own : a = player.address
      · obtain ⟨-, -, -, payload, found, -⟩ := knows.keys keys held
        exact own ▸ Log.mem_senders_of_payload? found
      · have known : a ∈ player.ring.names :=
          Session.mem_names_of_keysComplete complete knows.once
            (fun _ named => ⟨(knows.known named).1, (knows.known named).2.1⟩)
            (players ▸ seated) (players ▸ member) own
        exact (knows.known known).2.2
    | follows _ _ found =>
      exact (ordered.opened (List.ne_nil_of_mem (Log.mem_senders_of_payload? (knows.told.found found)))).2
  · have nodup := Circle.rotation_nodup (seats_nodup log) rotation
    have member := (Circle.rotation_perm rotation).mem_iff.2 seated
    obtain ⟨k, inside, place⟩ := List.getElem_of_mem member
    replace place : order[k]? = some player.address := by
      rw [List.getElem?_eq_getElem inside, place]
    refine ⟨k, place, acted_eq_take nodup (ordered.chain order rotation) place
      (knows.told.unfiled h.unfiled) ?_⟩
    rintro j rfl
    have previous := Circle.previous?_succ (seats_nodup log) rotation place
    cases inputs with
    | opens deals complete =>
      -- the dealer has the first place
      have head := Circle.rotation_head rotation
      rw [← dealer, ← deals] at head
      exact absurd (Circle.place_unique nodup head place) (by omega)
    | follows _ before found =>
      rw [players, previous] at before
      exact ⟨_, before, Log.mem_senders_of_payload? (knows.told.found found)⟩

/-- A player that files the decryption comes after the dealer, and the chain is complete. -/
theorem Knows.decrypts (valid : rules.config.Valid) (knows : rules.Knows log player)
    (ordered : rules.Ordered log) {signer : Signer} {deck : Deck Scalar}
    (h : (Scene.mk player log).Decrypts .unreliable signer deck) :
    rules.Full log ∧ log.senders (rules.category .decrypt) = [] ∧
      ∀ order, rules.rotation? log = some order → order[1]? = some player.address ∧
        log.senders (rules.category .shuffle) = order := by
  obtain ⟨keys, finished, successor, key, held, holds, next, shared, bared⟩ := h.bared
  replace held : player.keys = some keys := held
  obtain ⟨players, dealer, full, seated⟩ := knows.whole valid held
  have second (order : List Address) (rotation : rules.rotation? log = some order) :
      order[1]? = some player.address := by
    have decryptor : Circle.next? player.session.players player.session.dealer =
      some player.address := h.decryptor
    have two : 2 ≤ (rules.seats log).length := full.symm ▸ valid.two_le
    rwa [players, dealer, Circle.next?_dealer (seats_nodup log) rotation two] at decryptor
  refine ⟨full, ?_, fun order rotation => ⟨second order rotation, ?_⟩⟩
  · by_contra some
    obtain ⟨order, rotation⟩ := rules.exists_rotation log
    obtain ⟨-, b, place, only⟩ := ordered.closed some order rotation
    rw [second order rotation] at place
    cases place
    exact knows.told.unfiled h.unfiled (only ▸ List.mem_singleton.2 rfl)
  · -- the finished deck comes from the last of the rotation
    obtain ⟨-, right⟩ := knows.finished finished holds
    obtain ⟨last, finishes, payload, found, -⟩ := right (Option.isSome_iff_exists.2 ⟨keys, held⟩)
    rw [Session.finalShuffler?, players, dealer, Circle.previous?_dealer (seats_nodup log) rotation]
      at finishes
    have nodup := Circle.rotation_nodup (seats_nodup log) rotation
    have chain := ordered.chain order rotation
    have all := (acted_iff nodup chain finishes).1 (Log.mem_senders_of_payload? found)
    exact chain.eq_of_length_le (by omega)

/-! ## Every act keeps the order -/

theorem Ordered.foreign (valid : rules.config.Valid) (ordered : rules.Ordered log) {tx : Transaction}
    (outside : ∀ step, tx.category ≠ rules.category step) : rules.Ordered (log ++ [tx]) := by
  have grows : rules.Grows log (log ++ [tx]) := grows_foreign outside
  refine ordered.append valid grows ?_ (outside .shuffle) (outside .decrypt)
  exact ordered.toFiled.append valid grows (fun step same => absurd same (outside step))
    (fun same => absurd same (outside .join)) fun same => absurd same (outside .publicKey)

/-- The transaction a player files is its own, in the category of the step, and the first there. -/
theorem Knows.files (valid : rules.config.Valid) (knows : rules.Knows log player) {signer : Signer}
    {step : Step} (signs : player.signer = some signer)
    (unfiled : (Scene.mk player log).Unfiled .unreliable step) (recipients : List Address)
    (payload : Bytes) :
    let tx := Log.filing log signer (player.category step) recipients payload
    tx.category = rules.category step ∧ tx.sender = player.address ∧
      player.address ∉ log.senders (rules.category step) ∧
      ∀ other, tx.category = rules.category other → tx.sender ∉ log.senders (rules.category other) := by
  have new := knows.told.unfiled unfiled
  have own : signer.address = player.address := knows.told.signs signer signs
  refine ⟨knows.told.category step, own, new, fun other same => ?_⟩
  obtain rfl : step = other := valid.category_inj ((knows.told.category step).symm.trans same)
  rw [Log.filing, own]
  exact new

/-- A key is announced by somebody at a full table, and leaves the chain as it is. -/
theorem Ordered.announces [RandomSource γ] (valid : rules.config.Valid) (knows : rules.Knows log player)
    (ordered : rules.Ordered log) {signer : Signer} {keys : KeyPair} {source : γ} {message : KeyMessage}
    (h : (Scene.mk player log).Announces .unreliable signer keys source message)
    (grows : rules.Grows log (log ++ [Log.filing log signer (player.category .publicKey)
      player.session.players message.toBytes])) :
    rules.Ordered (log ++ [Log.filing log signer (player.category .publicKey)
      player.session.players message.toBytes]) := by
  obtain ⟨category, own, -, first⟩ :=
    knows.files valid h.signs h.unfiled player.session.players message.toBytes
  obtain ⟨players, full⟩ := knows.players_eq valid (knows.full_of_announces h)
  have filed := ordered.toFiled.append valid grows first
    (fun same => absurd same (valid.category_ne category (by decide)))
    fun _ => ⟨full, by rw [own, ← players]; exact h.seated⟩
  exact ordered.append valid grows filed (valid.category_ne category (by decide)) (valid.category_ne category (by decide))

/-- Every act keeps the chain in order. -/
theorem Ordered.act [RandomSource γ] (valid : rules.config.Valid) {next : Player γ} {later : Log}
    (knows : rules.Knows log player) (ordered : rules.Ordered log)
    (act : Act .unreliable ⟨player, log⟩ ⟨next, later⟩) : rules.Ordered later := by
  have grows := knows.told.grows act
  cases act with
  | others h => exact h ▸ ordered
  | draws | seats | learns | finishes | deals | observes => exact ordered
  | joins signs newcomer unfiled =>
    obtain ⟨category, own, -, first⟩ := knows.files valid signs unfiled [player.session.creator] []
    have filed := ordered.toFiled.append valid grows first
      (fun _ => by
        rw [own, ← knows.told.creator]
        exact ⟨List.mem_singleton_self _, newcomer⟩)
      fun same => absurd same (valid.category_ne category (by decide))
    exact ordered.append valid grows filed (valid.category_ne category (by decide)) (valid.category_ne category (by decide))
  | losesKeys h => exact ordered.announces valid knows h grows
  | keepsKeys h => exact ordered.announces valid knows h grows
  | @shuffles _ _ deck h =>
    obtain ⟨category, own, new, first⟩ :=
      knows.files valid h.signs h.unfiled player.session.players (DeckMessage.ofDeck deck).toBytes
    obtain ⟨full, keyed, turn⟩ := knows.shuffles valid ordered h
    have filed := ordered.toFiled.append_deck valid grows category first (by decide)
    rw [← own] at new turn
    exact ordered.append_shuffle valid grows filed category new full keyed turn
  | @decrypts _ _ deck h =>
    obtain ⟨category, own, -, first⟩ :=
      knows.files valid h.signs h.unfiled player.session.players (DeckMessage.ofDeck deck).toBytes
    obtain ⟨full, none, turn⟩ := knows.decrypts valid ordered h
    have filed := ordered.toFiled.append_deck valid grows category first (by decide)
    rw [← own] at turn
    exact ordered.append_decrypt valid grows filed category full none turn

/-! ## The whole history -/

/-- At every time the ledger was in order, and nothing it said then has changed. -/
def History (rules : Rules) (log : Log) : Prop :=
  ∀ earlier, earlier <+: log → rules.Ordered earlier ∧ rules.Grows earlier log

theorem History.ordered (history : rules.History log) : rules.Ordered log :=
  (history log List.prefix_rfl).1

theorem Grows.trans {later last : Log} (first : rules.Grows log later)
    (second : rules.Grows later last) : rules.Grows log last :=
  ⟨first.more.trans second.more, fun found => second.keeps (first.keeps found)⟩

theorem History.start (empty : ∀ step, log.filed (rules.category step) = []) : rules.History log := by
  intro earlier before
  have none (step : Step) : Log.filed (rules.category step) earlier = [] := by
    obtain ⟨more, rfl⟩ := before
    have := Log.filed_prefix_append (rules.category step) earlier more
    rwa [empty, List.prefix_nil] at this
  refine ⟨.start none, before, fun {step a payload} found => ?_⟩
  have member := Log.mem_senders_of_payload? found
  rw [Log.senders, none] at member
  cases member

theorem History.append (history : rules.History log) {tx : Transaction}
    (grows : rules.Grows log (log ++ [tx])) (ordered : rules.Ordered (log ++ [tx])) :
    rules.History (log ++ [tx]) := by
  intro earlier before
  rcases List.prefix_concat_iff.1 before with rfl | before
  · exact ⟨ordered, .refl _⟩
  · obtain ⟨was, grew⟩ := history earlier before
    exact ⟨was, grew.trans grows⟩

theorem History.act [RandomSource γ] (valid : rules.config.Valid) {next : Player γ} {later : Log}
    (knows : rules.Knows log player) (history : rules.History log)
    (act : Act .unreliable ⟨player, log⟩ ⟨next, later⟩) : rules.History later := by
  have grows := knows.told.grows act
  have ordered := history.ordered.act valid knows act
  rcases files_of_act act with rfl | ⟨_, _, _, _, _, _, rfl⟩
  · exact history
  · exact history.append grows ordered

end

/-- The invariant of a run: the history is in order, and all players know what they need to. -/
theorem kept_history_and_knowledge [RandomSource γ] {rules : Rules} (valid : rules.config.Valid) :
    rules.Kept (γ := γ) fun players log =>
      rules.History log ∧ ∀ player ∈ players, rules.Knows log player where
  start log empty := ⟨.start empty, by simp⟩
  arrival players log player fresh := by
    rintro ⟨history, knows⟩
    refine ⟨history, fun p member => ?_⟩
    rcases List.mem_append.1 member with old | new
    · exact knows p old
    · rw [List.mem_singleton.1 new]
      exact fresh.knows log
  act front back player next log later := by
    rintro ⟨history, knows⟩ act
    have knew := knows player (by simp)
    have grows := knew.told.grows act
    refine ⟨history.act valid knew act, fun p member => ?_⟩
    rcases mem_replaced player member with rfl | ⟨-, old⟩
    · exact knew.act valid (fun some => (history.ordered.opened some).2) act
    · exact (knows p old).grows grows
  foreign players log tx outside := by
    rintro ⟨history, knows⟩
    have grows : rules.Grows log (log ++ [tx]) := grows_foreign outside
    exact ⟨history.append grows (history.ordered.foreign valid outside),
      fun p member => (knows p member).grows grows⟩

/-! ## Safety -/

/-- What a ledger with the given rotation shows of the chain. -/
structure Safe (rules : Rules) (log : Log) (order : List Address) : Prop where
  /-- The decks are filed in the order of the rotation. -/
  chain : log.senders (rules.category .shuffle) <+: order
  /-- Every deck comes after the keys of the whole table. -/
  keysFirst : ∀ (before : Log) tx after, log = before ++ tx :: after →
    tx.category = rules.category .shuffle →
      rules.Full log ∧ ∀ a ∈ rules.seats log, a ∈ before.senders (rules.category .publicKey)
  /-- At most one decryption is filed, by the player after the dealer. -/
  decryption : log.senders (rules.category .decrypt) = [] ∨
    ∃ second, order[1]? = some second ∧ log.senders (rules.category .decrypt) = [second]
  /-- Every decryption comes after the whole chain. -/
  chainFirst : ∀ (before : Log) tx after, log = before ++ tx :: after →
    tx.category = rules.category .decrypt → before.senders (rules.category .shuffle) = order

theorem History.safe {rules : Rules} (valid : rules.config.Valid) {log : Log}
    (history : rules.History log) {order : List Address} (rotation : rules.rotation? log = some order) :
    rules.Safe log order := by
  have ordered := history.ordered
  -- the ledger right after a transaction of the step, which is still the first of its step there
  have at_ {before after : Log} {tx : Transaction} {step : Step} (split : log = before ++ tx :: after)
      (category : tx.category = rules.category step) :
      rules.Ordered (before ++ [tx]) ∧ rules.Grows (before ++ [tx]) log ∧
        (before ++ [tx]).senders (rules.category step) ≠ [] := by
    obtain ⟨was, grew⟩ := history (before ++ [tx]) ⟨after, by simp [split]⟩
    refine ⟨was, grew, ?_⟩
    rw [Log.senders_append_of_eq category]
    simp
  refine ⟨ordered.chain order rotation, fun before tx after split category => ?_, ?_,
    fun before tx after split category => ?_⟩
  · obtain ⟨was, grew, some⟩ := at_ split category
    obtain ⟨full, all⟩ := was.opened some
    rw [grew.seats_of_full valid full]
    refine ⟨grew.full valid full, fun a member => ?_⟩
    have keyed := all a member
    rwa [senders_append_other valid category (by decide)] at keyed
  · by_cases none : log.senders (rules.category .decrypt) = []
    · exact .inl none
    · exact .inr (ordered.closed none order rotation).2
  · obtain ⟨was, grew, some⟩ := at_ split category
    rw [grew.rotation valid (was.full_of_closed some)] at rotation
    have all := (was.closed some order rotation).1
    rwa [senders_append_other valid category (by decide)] at all

end Rules

end MentalPoker
