/-
Who holds which keys. Whatever fails or is lost, however many processes play for an address, and
whomever each of them would like to deal: an address announces one key, a pair that is held is the
one that was announced, and a key that is recorded is the announced one. So two players that have
recorded each other's key share their layers.
-/
import MentalPoker.Proofs.Play.Completion

namespace MentalPoker

namespace Rules

variable {γ : Type} (rules : Rules)

/-! ## Runs in which wishes differ -/

/-- A step of a run in which whoever arrives may have a wish of its own for the dealer. -/
def Mixes [RandomSource γ] (before after : Table γ) : Prop :=
  ∃ dealer, Next { rules with dealer } before after

/-- The states of such runs that start with an untouched ledger. -/
def Mingled [RandomSource γ] (table : Table γ) : Prop :=
  ∃ start, rules.Untouched start ∧ Relation.ReflTransGen rules.Mixes start table

/-- What is kept by the runs for each dealer is kept when they mingle. -/
theorem Mingled.kept [RandomSource γ] {rules : Rules} {I : List (Player γ) → Log → Prop}
    (kept : ∀ dealer, Kept { rules with dealer } I) {table : Table γ} (mingled : rules.Mingled table) :
    I table.players table.log := by
  obtain ⟨start, untouched, steps⟩ := mingled
  suffices holds : I table.players table.log ∧ table.Named from holds.1
  induction steps with
  | refl => exact (kept rules.dealer).untouched untouched
  | tail _ step ih =>
    obtain ⟨dealer, step⟩ := step
    exact (kept dealer).next step ih.1 ih.2

/-! ## The keys of a player -/

/-- A player has kept what it was told, its pair is the announced one, and so are the keys it has
recorded. -/
structure Keyed (log : Log) (player : Player γ) : Prop where
  told : Told { rules with dealer := player.preferredDealer } player
  keys : ∀ keys, player.keys = some keys →
    (∃ secret, keys = KeyPair.ofSecret secret) ∧ rules.Announced log player.address keys.publicKey
  ring : ∀ a key, (a, key) ∈ player.ring.entries → rules.Announced log a key

section

variable {rules} {log later : Log} {player next : Player γ}

theorem Keyed.grows (keyed : rules.Keyed log player) (grows : rules.Grows log later) :
    rules.Keyed later player where
  told := keyed.told
  keys keys held := by
    obtain ⟨secret, announced⟩ := keyed.keys keys held
    exact ⟨secret, announced.grows grows⟩
  ring a key member := (keyed.ring a key member).grows grows

theorem Keyed.announces (keyed : rules.Keyed log player) {keys : KeyPair}
    (held : player.keys = some keys) : player.address ∈ log.senders (rules.category .publicKey) := by
  obtain ⟨-, payload, found, -⟩ := keyed.keys keys held
  exact Log.mem_senders_of_payload? found

theorem Fresh.keyed {dealer : Option Address} (fresh : Fresh { rules with dealer } player) (log : Log) :
    rules.Keyed log player := by
  obtain ⟨-, -, -, keys, ring, -⟩ := fresh.blank
  refine ⟨?_, ?_, ?_⟩
  · rw [fresh.told.dealer]
    exact fresh.told
  · simp [keys]
  · simp [ring, KeyRing.empty]

/-- What is announced is in a transaction of the sender. -/
theorem Announced.filed {a : Address} {key : Point} (announced : rules.Announced log a key) :
    ∃ tx ∈ log.filed (rules.category .publicKey), tx.sender = a ∧ Payload.key tx.payload = .ok key := by
  obtain ⟨payload, found, read⟩ := announced
  obtain ⟨tx, member, sender, rfl⟩ := Log.exists_of_payload? found
  exact ⟨tx, member, sender, read⟩

variable [RandomSource γ]

theorem Keyed.grown (keyed : rules.Keyed log player)
    (act : Act .unreliable ⟨player, log⟩ ⟨next, later⟩) : rules.Grows log later := by
  obtain ⟨more, keeps⟩ := keyed.told.grows act
  exact ⟨more, keeps⟩

/-- A pair is kept once its key is on the ledger, and a key is recorded as it is found there. -/
theorem Keyed.act (keyed : rules.Keyed log player)
    (act : Act .unreliable ⟨player, log⟩ ⟨next, later⟩) : rules.Keyed later next := by
  have grown := keyed.grows (keyed.grown act)
  have same := act.same
  have told : Told { rules with dealer := next.preferredDealer } next := by
    rw [same.dealer]
    exact keyed.told.of_same same
  have category : player.category .publicKey = rules.category .publicKey := keyed.told.category _
  cases act with
  | keepsKeys h =>
    refine ⟨told, ?_, grown.ring⟩
    rintro _ ⟨⟩
    exact keyed.told.announced h player.session.players
  | @learns _ _ other payload key full seated notSelf found read =>
    refine ⟨told, grown.keys, fun a k member => ?_⟩
    rcases KeyRing.mem_record member with old | new
    · exact grown.ring a k old
    · cases new
      rw [category] at found
      exact ⟨payload, found, read⟩
  | _ => exact ⟨told, grown.keys, grown.ring⟩

/-- A second announcement of an address is not filed. -/
theorem Keyed.announces_once (keyed : rules.Keyed log player)
    (once : (log.senders (rules.category .publicKey)).Nodup)
    (act : Act .unreliable ⟨player, log⟩ ⟨next, later⟩) :
    (later.senders (rules.category .publicKey)).Nodup := by
  rcases files_of_act act with rfl | ⟨signer, step, recipients, payload, signs, unfiled, rfl⟩
  · exact once
  by_cases same : player.category step = rules.category .publicKey
  · rw [Log.senders_append_of_eq (by exact same)]
    refine once.append (List.nodup_singleton _) (List.disjoint_singleton.2 ?_)
    rw [Log.filing, keyed.told.signs signer signs, ← same]
    exact unfiled
  · rw [Log.senders_append_of_ne (by exact same)]
    exact once

end

/-! ## The keys of a table -/

/-- The keys of all players, held against the ledger. -/
structure OneKey (players : List (Player γ)) (log : Log) : Prop where
  once : (log.senders (rules.category .publicKey)).Nodup
  pairs : OnePair players
  keyed : ∀ p ∈ players, rules.Keyed log p

theorem kept_keys [RandomSource γ] {rules : Rules} (dealer : Option Address) :
    Kept { rules with dealer } (rules.OneKey (γ := γ)) where
  start log empty := by
    refine ⟨?_, fun a keys keys' h => ?_, by simp⟩
    · rw [Log.senders, show log.filed (rules.category .publicKey) = [] from empty _, List.map_nil]
      exact List.nodup_nil
    · obtain ⟨p, member, -⟩ := h
      cases member
  arrival players log player fresh keys := by
    refine ⟨keys.once, fun a pair pair' holds holds' =>
      keys.pairs a pair pair' (fresh.holds holds) (fresh.holds holds'), fun p member => ?_⟩
    rcases List.mem_append.1 member with old | new
    · exact keys.keyed p old
    · rw [List.mem_singleton.1 new]
      exact fresh.keyed log
  act front back player next log later keys act := by
    have keyed := keys.keyed player (by simp)
    have grows := keyed.grown act
    refine ⟨keyed.announces_once keys.once act, keys.pairs.act keyed.told ?_ act, fun p member => ?_⟩
    · rintro a pair ⟨p, member, rfl, held⟩
      exact (keys.keyed p member).announces held
    · rcases mem_replaced player member with rfl | ⟨-, old⟩
      · exact keyed.act act
      · exact (keys.keyed p old).grows grows
  foreign players log tx outside keys := by
    have grows : rules.Grows log (log ++ [tx]) := grows_foreign outside
    refine ⟨?_, keys.pairs, fun p member => (keys.keyed p member).grows grows⟩
    have same : (log ++ [tx]).senders (rules.category .publicKey) = log.senders (rules.category .publicKey) :=
      Log.senders_append_of_ne (outside .publicKey)
    rw [same]
    exact keys.once

/-- What the players of a table can rely on about their keys. -/
structure KeysAgree (players : List (Player γ)) (log : Log) : Prop where
  /-- An address announces at most one key. -/
  once : ∀ a, (log.senders (rules.category .publicKey)).count a ≤ 1
  /-- A pair that is held is the announced one. -/
  held : ∀ p ∈ players, ∀ keys, p.keys = some keys →
    ∃ tx ∈ log.filed (rules.category .publicKey), tx.sender = p.address ∧
      Payload.key tx.payload = .ok keys.publicKey
  /-- All processes of an address that hold a pair hold the same one. -/
  pairs : OnePair players
  /-- A key that is recorded is the announced one. -/
  recorded : ∀ p ∈ players, ∀ a key, p.ring.get? a = some key →
    ∃ tx ∈ log.filed (rules.category .publicKey), tx.sender = a ∧ Payload.key tx.payload = .ok key
  /-- Two players that have recorded each other's key share a factor, or both have none. -/
  shared : ∀ p ∈ players, ∀ q ∈ players, ∀ mine yours, p.keys = some mine → q.keys = some yours →
    ∀ yourKey myKey, p.ring.get? q.address = some yourKey → q.ring.get? p.address = some myKey →
      Cipher.sharedFactor yourKey mine.secretKey = Cipher.sharedFactor myKey yours.secretKey

theorem Keyed.shared {rules : Rules} {log : Log} {p q : Player γ} (first : rules.Keyed log p)
    (second : rules.Keyed log q) {mine yours : KeyPair} (held : p.keys = some mine)
    (held' : q.keys = some yours) {yourKey myKey : Point} (recorded : p.ring.get? q.address = some yourKey)
    (recorded' : q.ring.get? p.address = some myKey) :
    Cipher.sharedFactor yourKey mine.secretKey = Cipher.sharedFactor myKey yours.secretKey := by
  obtain ⟨⟨a, rfl⟩, announced⟩ := first.keys mine held
  obtain ⟨⟨b, rfl⟩, announced'⟩ := second.keys yours held'
  obtain rfl := announced'.unique (first.ring _ _ (KeyRing.mem_of_get? recorded))
  obtain rfl := announced.unique (second.ring _ _ (KeyRing.mem_of_get? recorded'))
  exact Cipher.sharedFactor_comm b a

/-- In every reachable state the keys agree, even when the players differ about the dealer. -/
theorem keys_agree [RandomSource γ] {rules : Rules} {table : Table γ} (mingled : rules.Mingled table) :
    rules.KeysAgree table.players table.log := by
  have keys := mingled.kept (kept_keys (γ := γ))
  refine ⟨List.nodup_iff_count_le_one.1 keys.once, fun p member pair held => ?_, keys.pairs,
    fun p member a key recorded => ?_, fun p first q second mine yours held held' yourKey myKey => ?_⟩
  · exact ((keys.keyed p member).keys pair held).2.filed
  · exact ((keys.keyed p member).ring a key (KeyRing.mem_of_get? recorded)).filed
  · exact (keys.keyed p first).shared (keys.keyed q second) held held'

/-! ## A run in which keys are exchanged -/

section

variable [RandomSource γ] {rules} {table : Table γ}

theorem Mingled.arrives (mingled : rules.Mingled table) (id : String) {player : Player γ}
    {dealer : Option Address} (fresh : Fresh { rules with dealer } player)
    (unused : table.player? id = none) : rules.Mingled (table.place ⟨id, player⟩) := by
  obtain ⟨start, untouched, steps⟩ := mingled
  exact ⟨start, untouched, steps.tail ⟨dealer, .arrives unused fresh⟩⟩

theorem Mingled.plays (mingled : rules.Mingled table) (moves : List (String × Move)) :
    rules.Mingled (table.plays moves) := by
  have mixes : ∀ before after : Table γ, rules.Next before after → rules.Mixes before after :=
    fun _ _ step => ⟨rules.dealer, step⟩
  obtain ⟨start, untouched, steps⟩ := mingled
  exact ⟨start, untouched, steps.trans (Relation.ReflTransGen.mono mixes _ _ (rules.steps_plays moves table))⟩

end

theorem fresh_playerOfTwo (name : String) (wish : Option Address) :
    Fresh { forTwo with dealer := wish } (playerOfTwo name wish) := .plays _ _

/-- Two players, of whom the second would like to deal, have announced their keys and recorded each
other's. -/
def twoKeyed : Table (Seeded id) :=
  ((Table.empty.place ⟨"a", playerOfTwo "alice" none⟩).place ⟨"b", playerOfTwo "bob" (some ⟨"bob"⟩)⟩).plays
    [("b", .join), ("b", .refreshPlayers), ("b", .exchangeKeys), ("a", .refreshPlayers), ("a", .exchangeKeys),
      ("b", .exchangeKeys)]

theorem mingled_two : forTwo.Mingled twoKeyed := by
  have start : forTwo.Mingled (.empty : Table (Seeded id)) := ⟨.empty, ⟨rfl, fun _ => rfl⟩, .refl⟩
  have alone := start.arrives "a" (fresh_playerOfTwo "alice" none) rfl
  exact (alone.arrives "b" (fresh_playerOfTwo "bob" (some ⟨"bob"⟩)) (by decide +kernel)).plays _

theorem keys_agree_two : forTwo.Mingled twoKeyed ∧
    (twoKeyed.players.map fun p => (p.keys.isSome, p.ring.names)) =
      [(true, [⟨"bob"⟩]), (true, [⟨"alice"⟩])] ∧
    forTwo.KeysAgree twoKeyed.players twoKeyed.log :=
  ⟨mingled_two, by decide +kernel, keys_agree mingled_two⟩

end Rules

end MentalPoker
