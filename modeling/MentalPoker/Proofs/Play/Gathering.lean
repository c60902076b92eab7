/-
A table that has all its players from the start, each with one process and an address of its own.
Requests may fail and replies may be lost, except those to the announcement of a key: what a player
has not got by then it can still get, since it has lost nothing that it cannot make again.
-/
import MentalPoker.Proofs.Card.Hand
import MentalPoker.Proofs.Play.Decks

namespace MentalPoker

namespace Rules

variable {γ : Type} (rules : Rules)

/-- Nobody else writes; requests fail and replies are lost, except those to the announcement of a key. -/
def acknowledged : Conditions := ⟨(· = ·), Eq.trans, True, (· ≠ rules.category .publicKey)⟩

theorem acknowledged_le : rules.acknowledged.Le .unreliable := ⟨id, id, fun _ => trivial⟩

theorem calm_le : Conditions.calm.Le rules.acknowledged := ⟨id, False.elim, False.elim⟩

/-- The hand that the ledger has for a player. -/
def Dealt (log : Log) (a : Address) (hand : List Scalar) : Prop :=
  ∃ decryptor deck, Circle.next? (rules.seats log) (rules.dealerAt log) = some decryptor ∧
    rules.Handed log .decrypt decryptor deck ∧
    deck.hand? (rules.seats log) (rules.dealerAt log) a rules.config.cardsPerPlayer = some hand

/-- The players of the given names, each of which signs, has its pair if its key is on the ledger, and
has its hand from the ledger if it has one. -/
structure Gathered (names : List Address) (players : List (Player γ)) (log : Log) : Prop where
  addresses : players.map (·.address) = names
  signs : ∀ p ∈ players, p.signer.isSome
  filers : ∀ step, ∀ a ∈ log.senders (rules.category step), a ∈ names
  unkeyed : ∀ p ∈ players, p.keys = none → p.address ∉ log.senders (rules.category .publicKey)
  hands : ∀ p ∈ players, p.session.hand ≠ [] → rules.Dealt log p.address p.session.hand

section

variable {rules} {names : List Address} {players : List (Player γ)} {player next : Player γ}
  {front back : List (Player γ)} {log later : Log}

theorem Dealt.grows (valid : rules.config.Valid) (ordered : rules.Ordered log) {a : Address}
    {hand : List Scalar} (dealt : rules.Dealt log a hand) (grows : rules.Grows log later) :
    rules.Dealt later a hand := by
  obtain ⟨decryptor, deck, next, ⟨payload, found, read⟩, hand⟩ := dealt
  have full := ordered.full_of_closed (List.ne_nil_of_mem (Log.mem_senders_of_payload? found))
  have seats := grows.seats_of_full valid full
  refine ⟨decryptor, deck, ?_, ⟨payload, grows.keeps found, read⟩, ?_⟩
  · rw [dealerAt, seats]
    exact next
  · rw [dealerAt, seats]
    exact hand

/-- All keys are on the ledger once there is a decryption. -/
theorem Ordered.keyed_of_closed (ordered : rules.Ordered log)
    (some : log.senders (rules.category .decrypt) ≠ []) :
    ∀ a ∈ rules.seats log, a ∈ log.senders (rules.category .publicKey) := by
  obtain ⟨order, rotation⟩ := rules.exists_rotation log
  obtain ⟨all, second, place, -⟩ := ordered.closed some order rotation
  refine (ordered.opened ?_).2
  rw [all]
  rintro rfl
  cases place

/-- A hand that a player takes is the one the ledger has for it, because the player sees the whole table
by the time that there is a decrypted deck. -/
theorem Gathered.dealt (valid : rules.config.Valid) (gathered : rules.Gathered names players log)
    (member : player ∈ players) (knows : rules.Knows log player) (ordered : rules.Ordered log)
    {decryptor : Address} {payload : Bytes} {deck : Deck Scalar} {hand : List Scalar}
    (decrypts : player.session.decryptor? = some decryptor)
    (found : log.payload? (rules.category .decrypt) decryptor = some payload)
    (read : Payload.deck payload = .ok deck)
    (dealt : player.session.dealtHand? player.address deck player.config.cardsPerPlayer = some hand) :
    rules.Dealt log player.address hand := by
  have hand := Session.hand?_of_dealtHand? dealt
  have seated := (Deck.seated_of_hand? hand).2
  have keyed := ordered.keyed_of_closed (List.ne_nil_of_mem (Log.mem_senders_of_payload? found))
    player.address (knows.view.subset seated)
  obtain ⟨keys, held⟩ : ∃ keys, player.keys = some keys := by
    cases held : player.keys with
    | none => exact absurd keyed (gathered.unkeyed player member held)
    | some keys => exact ⟨keys, rfl⟩
  obtain ⟨players, dealer, -⟩ := knows.whole valid held
  rw [players, dealer, knows.told.config] at hand
  rw [Session.decryptor?, players, dealer] at decrypts
  exact ⟨decryptor, deck, decrypts, ⟨payload, found, read⟩, hand⟩

theorem Gathered.foreign (valid : rules.config.Valid) (gathered : rules.Gathered names players log)
    (ordered : rules.Ordered log) {tx : Transaction} (outside : ∀ step, tx.category ≠ rules.category step) :
    rules.Gathered names players (log ++ [tx]) := by
  have same (step : Step) : (log ++ [tx]).senders (rules.category step) =
      log.senders (rules.category step) := Log.senders_append_of_ne (outside step)
  refine ⟨gathered.addresses, gathered.signs, fun step a member => ?_, fun p member none => ?_,
    fun p member some => (gathered.hands p member some).grows valid ordered (grows_foreign outside)⟩
  · exact gathered.filers step a (same step ▸ member)
  · rw [same]
    exact gathered.unkeyed p member none

/-! ## Acts -/

variable [RandomSource γ]

/-- A player whose key is on the ledger has its pair, as long as replies to announcements arrive. -/
theorem unkeyed_act (valid : rules.config.Valid) (told : rules.Told player)
    (unkeyed : player.keys = none → player.address ∉ log.senders (rules.category .publicKey))
    (act : Act rules.acknowledged ⟨player, log⟩ ⟨next, later⟩) :
    next.keys = none → next.address ∉ later.senders (rules.category .publicKey) := by
  -- what is filed of another step leaves the announced keys as they are
  have other {step : Step} (differ : step ≠ .publicKey) {signer : Signer} {recipients : List Address}
      {payload : Bytes} (none : player.keys = none) : player.address ∉
        (log ++ [Log.filing log signer (player.category step) recipients payload]).senders
          (rules.category .publicKey) := by
    rw [senders_append_other valid (told.category step) differ]
    exact unkeyed none
  cases act with
  | others h => exact h ▸ unkeyed
  | draws | seats | learns | finishes | deals | observes => exact unkeyed
  | joins => exact other (by decide)
  | losesKeys h loses => exact absurd (told.category .publicKey) loses
  | keepsKeys h => exact fun none => by cases none
  | shuffles => exact other (by decide)
  | decrypts => exact other (by decide)

/-- A player keeps its hand, or takes the one that the ledger has for it. -/
theorem Gathered.hands_act (valid : rules.config.Valid) (gathered : rules.Gathered names players log)
    (member : player ∈ players) (knows : rules.Knows log player) (ordered : rules.Ordered log)
    (act : Act rules.acknowledged ⟨player, log⟩ ⟨next, later⟩) :
    next.session.hand ≠ [] → rules.Dealt later next.address next.session.hand := by
  have dealt : player.session.hand ≠ [] → rules.Dealt later player.address player.session.hand :=
    fun some => (gathered.hands player member some).grows valid ordered
      (knows.told.grows (act.mono rules.acknowledged_le))
  cases act with
  | seats =>
    rw [knows.seated]
    exact dealt
  | deals decrypts found read hand =>
    rw [knows.told.category] at found
    unfold Session.setHand
    split
    · exact dealt
    · exact fun _ => gathered.dealt valid member knows ordered decrypts found read hand
  | _ => exact dealt

/-- Nothing that any of the players does under these conditions takes its chances away. -/
theorem Gathered.act (valid : rules.config.Valid) (distinct : names.Nodup)
    (gathered : rules.Gathered names (front ++ player :: back) log)
    (knows : ∀ p ∈ front ++ player :: back, rules.Knows log p) (ordered : rules.Ordered log)
    (act : Act rules.acknowledged ⟨player, log⟩ ⟨next, later⟩) :
    rules.Gathered names (front ++ next :: back) later := by
  have knew := knows player (by simp)
  have same := act.same
  have grows := knew.told.grows (act.mono rules.acknowledged_le)
  have all := gathered.addresses
  have mine : player.address ∈ names := all ▸ List.mem_map_of_mem (by simp)
  -- what is appended is the player's own
  have filed : later = log ∨ ∃ tx : Transaction, later = log ++ [tx] ∧ tx.sender = player.address := by
    rcases act.files with unchanged | unchanged | ⟨signer, step, recipients, payload, signs, -, -, filed⟩
    · exact .inl unchanged.symm
    · exact .inl unchanged
    · exact .inr ⟨_, filed, knew.told.signs signer signs⟩
  refine ⟨?_, fun p member => ?_, fun step a member => ?_, fun p member => ?_, fun p member => ?_⟩
  · rw [← all, List.map_append, List.map_append, List.map_cons, List.map_cons, same.address]
  · rcases mem_replaced player member with rfl | ⟨-, old⟩
    · rw [same.signer]
      exact gathered.signs player (by simp)
    · exact gathered.signs p old
  · rcases filed with rfl | ⟨tx, rfl, sender⟩
    · exact gathered.filers step a member
    · by_cases category : tx.category = rules.category step
      · rw [Log.senders_append_of_eq category] at member
        rcases List.mem_append.1 member with old | new
        · exact gathered.filers step a old
        · rw [List.mem_singleton.1 new, sender]
          exact mine
      · rw [Log.senders_append_of_ne category] at member
        exact gathered.filers step a member
  · rcases mem_replaced player member with rfl | ⟨elsewhere, old⟩
    · exact unkeyed_act valid knew.told (gathered.unkeyed player (by simp)) act
    · intro none
      rcases filed with rfl | ⟨tx, rfl, sender⟩
      · exact gathered.unkeyed p old none
      · by_cases category : tx.category = rules.category .publicKey
        · rw [Log.senders_append_of_eq category, List.mem_append, List.mem_singleton, sender, not_or]
          exact ⟨gathered.unkeyed p old none, name_ne_of_mem_others (all ▸ distinct) elsewhere⟩
        · rw [Log.senders_append_of_ne category]
          exact gathered.unkeyed p old none
  · rcases mem_replaced player member with rfl | ⟨-, old⟩
    · exact gathered.hands_act valid (by simp) knew ordered act
    · exact fun some => (gathered.hands p old some).grows valid ordered grows

end

/-! ## Runs in which failures delay -/

/-- What holds of a table that has all its players, whatever fails. -/
structure Whole (rules : Rules) (names : List Address) (players : List (Player γ)) (log : Log) : Prop where
  history : rules.History log
  knows : ∀ player ∈ players, rules.Knows log player
  pairs : OnePair players
  sound : rules.Sound players log
  gathered : rules.Gathered names players log

theorem steady_whole [RandomSource γ] {rules : Rules} (valid : rules.config.Valid) {names : List Address}
    (distinct : names.Nodup) : rules.Steady (γ := γ) rules.acknowledged (rules.Whole names) where
  act front back player next log later whole act := by
    obtain ⟨⟨history, knows⟩, pairs, sound⟩ := (kept_decks valid).act front back player next log later
      ⟨⟨whole.history, whole.knows⟩, whole.pairs, whole.sound⟩ (act.mono rules.acknowledged_le)
    exact ⟨history, knows, pairs, sound,
      whole.gathered.act valid distinct whole.knows whole.history.ordered act⟩
  foreign players log tx outside whole := by
    obtain ⟨⟨history, knows⟩, pairs, sound⟩ := (kept_decks valid).foreign players log tx outside
      ⟨⟨whole.history, whole.knows⟩, whole.pairs, whole.sound⟩
    exact ⟨history, knows, pairs, sound, whole.gathered.foreign valid whole.history.ordered outside⟩

/-- All players of a game are there, none has done anything, and each has a name and an address of its
own. -/
structure Gathering (rules : Rules) (table : Table γ) : Prop where
  named : table.Named
  plays : ∀ p ∈ table.players, ∃ signer source,
    p = rules.told (.new rules.config signer rules.game rules.creator source)
  distinct : (table.players.map (·.address)).Nodup
  all : table.players.length = rules.config.minPlayers
  creator : rules.creator ∈ table.players.map (·.address)
  unfiled : ∀ step, Log.filed (rules.category step) table.log = []

/-- A step in which failures delay: a move on a line on which no announcement of a key loses its reply, or
a transaction outside the game. -/
inductive Delays [RandomSource γ] (rules : Rules) : Table γ → Table γ → Prop
  | moves {table after : Table γ} {id : String} {move : Move} {result : Except DealError Report}
      (line : Line) (same : line.transactions = table.log)
      (acknowledged : ∀ player, table.player? id = some player →
        (move.turn.run.run player).Meets rules.acknowledged Line.answer Line.transactions line)
      (moved : Table.move? ⟨line, table.participants⟩ id move = some (result, after)) : Delays rules table after
  | foreign {table after : Table γ} {tx : Transaction} (outside : ∀ step, tx.category ≠ rules.category step)
      (same : after.participants = table.participants) (appended : after.log = table.log ++ [tx]) :
      Delays rules table after

/-- Who has come one after another has come all the same. -/
theorem Kept.gathered [RandomSource γ] {rules : Rules} {I : List (Player γ) → Log → Prop}
    (kept : rules.Kept I) {log : Log} (unfiled : ∀ step, Log.filed (rules.category step) log = [])
    (players : List (Player γ)) (fresh : ∀ p ∈ players, rules.Fresh p) : I players log := by
  induction players using List.reverseRecOn with
  | nil => exact kept.start log unfiled
  | append_singleton players player ih =>
    exact kept.arrival players log player (fresh player (by simp))
      (ih fun p member => fresh p (List.mem_append_left _ member))

theorem Gathering.whole [RandomSource γ] {rules : Rules} (valid : rules.config.Valid) {table : Table γ}
    (gathering : rules.Gathering table) :
    rules.Whole (table.players.map (·.address)) table.players table.log := by
  have fresh : ∀ p ∈ table.players, rules.Fresh p := by
    intro p member
    obtain ⟨signer, source, rfl⟩ := gathering.plays p member
    exact .plays signer source
  obtain ⟨⟨history, knows⟩, pairs, sound⟩ :=
    (kept_decks valid).gathered gathering.unfiled table.players fresh
  have nobody (step : Step) (a : Address) : a ∉ table.log.senders (rules.category step) := by
    rw [Log.senders, gathering.unfiled, List.map_nil]
    exact List.not_mem_nil
  refine ⟨history, knows, pairs, sound, rfl, fun p member => ?_, fun step a member => ?_, fun p _ _ => nobody _ _,
    fun p member some => ?_⟩
  · obtain ⟨signer, source, rfl⟩ := gathering.plays p member
    unfold told
    cases rules.dealer <;> rfl
  · exact absurd member (nobody step a)
  · exact absurd (fresh p member).blank.2.2.1 some

/-- A run in which failures delay keeps what holds of the table, and who is at it. -/
theorem Whole.delayed [RandomSource γ] {rules : Rules} (valid : rules.config.Valid) {names : List Address}
    (distinct : names.Nodup) {start reached : Table γ}
    (delayed : Relation.ReflTransGen rules.Delays start reached) (named : start.Named)
    (whole : rules.Whole names start.players start.log) :
    rules.Whole names reached.players reached.log ∧
      reached.participants.map (·.id) = start.participants.map (·.id) := by
  have steady := steady_whole (γ := γ) valid distinct
  induction delayed with
  | refl => exact ⟨whole, rfl⟩
  | @tail before _ _ step ih =>
    obtain ⟨whole, ids⟩ := ih
    cases step with
    | @moves id move result line same acknowledged moved =>
      have named' : Table.Named ⟨line, before.participants⟩ := by
        rw [Table.Named, ids]
        exact named
      obtain ⟨front, back, player, next, split, split', course⟩ :=
        Table.move?_course named' moved acknowledged
      replace split : before.participants = front ++ ⟨id, player⟩ :: back := split
      rw [Table.players, split, List.map_append, List.map_cons, ← same] at whole
      refine ⟨?_, ?_⟩
      · rw [Table.players, split', List.map_append, List.map_cons]
        exact steady.course course whole
      · rw [← ids, split, split']
        simp
    | foreign outside same appended =>
      rw [Table.players, same, appended]
      exact ⟨steady.foreign _ _ _ outside whole, ids⟩

end Rules

end MentalPoker
