/-
What a turn comes to when publications arrive. Reads may fail and replies may be lost, but whatever is
published is appended. Then a turn does one of a few things to the pair and the source of its player and
to the ledger, and from what it draws them is known exactly: a pair is drawn only by whoever has found no
key of its own, and a shuffle only by whoever has its pair and has found no deck of its own.
-/
import MentalPoker.Proofs.Player.Frame

namespace MentalPoker

/-- Reads may fail and replies may be lost, but publications are appended. -/
def Manner.delivered : Manner Log := fun log request answer after =>
  match request, answer with
  | .publish signer category recipients payload, _ =>
    after = log ++ [Log.filing log signer category recipients payload]
  | .latestBySender category sender, answer =>
    after = log ∧ ∀ found, answer = .ok found → found = Log.payload? category sender log
  | .sendersTo category recipient, answer =>
    after = log ∧ ∀ found, answer = .ok found → found = Log.sendersTo category recipient log

/-- The deck that the player shuffles in its turn in the chain, as it is on the ledger. -/
inductive Player.Feeds {γ : Type} (player : Player γ) (log : Log) : ShuffleInput → Prop
  /-- The dealer opens the chain. -/
  | opens (deals : player.address = player.session.dealer) : Feeds player log .plain
  /-- Everybody else goes on with the deck of its predecessor. -/
  | follows {predecessor : Address} {payload : Bytes} {deck : Deck Scalar}
      (follows : player.address ≠ player.session.dealer)
      (before : Circle.previous? player.session.players player.address = some predecessor)
      (found : log.payload? (player.category .shuffle) predecessor = some payload)
      (read : Payload.deck payload = .ok deck) : Feeds player log (.published deck)

/-- The player has the pair, and the key of the one after it, with whom it shares a layer. -/
structure Player.Shares {γ : Type} (player : Player γ) (pair : KeyPair) (successor : Address) (key : Point) :
    Prop where
  held : player.keys = some pair
  next : Circle.next? player.session.players player.address = some successor
  found : player.ring.get? successor = some key

/-- What a turn does to the pair and the source of its player, and to the ledger. -/
inductive Deed {γ : Type} [RandomSource γ] (player : Player γ) (log : Log) (next : Player γ) (later : Log) :
    Prop
  /-- Nothing, unless the player joins. -/
  | rests (keys : next.keys = player.keys) (source : next.source = player.source)
      (joins : ∃ more, later = log ++ more ∧ ∀ tx ∈ more, tx.category = player.category .join)
  /-- A pair is drawn whose key cannot be announced. -/
  | misses {pair : KeyPair} {e : DealError} (keys : next.keys = none)
      (drew : KeyPair.generate player.source = (pair, next.source))
      (unfit : KeyMessage.ofPoint pair.publicKey = .error e) (same : later = log)
  /-- A pair is drawn and its key announced; it is kept if the reply arrives. -/
  | announces {signer : Signer} {pair : KeyPair} {message : KeyMessage} (recipients : List Address)
      (signs : player.signer = some signer)
      (unfiled : player.address ∉ log.senders (player.category .publicKey))
      (drew : KeyPair.generate player.source = (pair, next.source))
      (made : KeyMessage.ofPoint pair.publicKey = .ok message)
      (keys : ∀ other, next.keys = some other → other = pair)
      (filed : later = log ++ [Log.filing log signer (player.category .publicKey) recipients message.toBytes])
  /-- A shuffle is drawn, but the layer cannot be added. -/
  | jams {pair : KeyPair} {successor : Address} {key : Point} {input : ShuffleInput} {e : DealError}
      (shares : player.Shares pair successor key) (keys : next.keys = some pair)
      (fails : (input.apply key pair.secretKey player.source).1 = .error e) (same : later = log)
  /-- The player's deck of the chain is drawn and filed. -/
  | shuffles {signer : Signer} {pair : KeyPair} {successor : Address} {key : Point} {input : ShuffleInput}
      {deck : Deck Scalar} (recipients : List Address) (signs : player.signer = some signer)
      (shares : player.Shares pair successor key) (keys : next.keys = some pair)
      (unfiled : player.address ∉ log.senders (player.category .shuffle)) (feeds : player.Feeds log input)
      (layered : (input.apply key pair.secretKey player.source).1 = .ok deck)
      (filed : later = log ++
        [Log.filing log signer (player.category .shuffle) recipients (DeckMessage.ofDeck deck).toBytes])
  /-- The finished deck is filed without a layer. -/
  | decrypts {signer : Signer} {pair : KeyPair} {successor : Address} {key : Point}
      {finished deck : Deck Scalar} (recipients : List Address) (signs : player.signer = some signer)
      (shares : player.Shares pair successor key) (keys : next.keys = some pair)
      (source : next.source = player.source) (ends : next.finishedDeck = some finished)
      (bared : finished.decrypt key pair.secretKey = .ok deck)
      (filed : later = log ++
        [Log.filing log signer (player.category .decrypt) recipients (DeckMessage.ofDeck deck).toBytes])

namespace Deed

variable {γ : Type} [RandomSource γ] {player next : Player γ} {log later : Log}

theorem idle (player : Player γ) (log : Log) : Deed player log player log :=
  .rests rfl rfl ⟨[], by simp, nofun⟩

/-- A deed only adds to the ledger. -/
theorem more (deed : Deed player log next later) : log <+: later := by
  cases deed with
  | rests _ _ joins =>
    obtain ⟨more, rfl, -⟩ := joins
    exact List.prefix_append _ _
  | misses _ _ _ same => exact same ▸ List.prefix_rfl
  | jams _ _ _ same => exact same ▸ List.prefix_rfl
  | announces _ _ _ _ _ _ filed => exact filed ▸ List.prefix_append _ _
  | shuffles _ _ _ _ _ _ _ filed => exact filed ▸ List.prefix_append _ _
  | decrypts _ _ _ _ _ _ _ filed => exact filed ▸ List.prefix_append _ _

/-- The keys of others have no say in what was done. -/
theorem learns (deed : Deed player log next later) (ring : KeyRing) :
    Deed player log { next with ring } later := by
  cases deed with
  | rests keys source joins => exact .rests keys source joins
  | misses keys drew unfit same => exact .misses keys drew unfit same
  | announces recipients signs unfiled drew made keys filed =>
    exact .announces recipients signs unfiled drew made keys filed
  | jams shares keys fails same => exact .jams shares keys fails same
  | shuffles recipients signs shares keys unfiled feeds layered filed =>
    exact .shuffles recipients signs shares keys unfiled feeds layered filed
  | decrypts recipients signs shares keys source ends bared filed =>
    exact .decrypts recipients signs shares keys source ends bared filed

end Deed

namespace Turn

variable {γ α : Type} {player : Player γ} {log : Log}

/-! ## The parts of turns -/

/-- What is looked up is there, or the question has failed. -/
theorem forall_told_iff {β : Type} {truth : β} {Q : Except LedgerError β → Log → Prop} :
    (∀ answer after, (after = log ∧ ∀ found, answer = .ok found → found = truth) → Q answer after) ↔
      Q (.ok truth) log ∧ ∀ e, Q (.error e) log := by
  constructor
  · exact fun h => ⟨h (.ok _) log ⟨rfl, by rintro _ ⟨⟩; rfl⟩, fun e => h (.error e) log ⟨rfl, nofun⟩⟩
  · rintro ⟨reads, fails⟩ (e | found) after ⟨rfl, told⟩
    · exact fails e
    · exact told found rfl ▸ reads

theorem delivered_hasPublished (Q : Except DealError Bool → Player γ → Log → Prop) (step : Step) :
    (hasPublished step).Yields .delivered Q player log ↔
      Q (.ok (decide (player.address ∈ log.senders (player.category step)))) player log ∧
        ∀ e, Q (.error (.ledger e)) player log := by
  have same : decide (player.address ∈ log.senders (player.category step)) =
      (log.payload? (player.category step) player.address).isSome := by
    simp [← Log.payload?_isSome]
  rw [yields_hasPublished, same]
  exact forall_told_iff

theorem delivered_latestDeck? (Q : Except DealError (Option (Deck Scalar)) → Player γ → Log → Prop)
    (step : Step) (sender : Address) :
    (latestDeck? step sender).Yields .delivered Q player log ↔
      Q (deckOf (log.payload? (player.category step) sender)) player log ∧
        ∀ e, Q (.error (.ledger e)) player log := by
  rw [yields_latestDeck?]
  exact forall_told_iff

theorem delivered_publish {Q : Except DealError Outcome → Player γ → Log → Prop} {signer : Signer} {step : Step}
    {recipients : List Address} {payload : Bytes}
    (h : ∀ result, Q result player
      (log ++ [Log.filing log signer (player.category step) recipients payload])) :
    (publish signer step recipients payload).Yields .delivered Q player log := by
  rw [yields_publish]
  rintro answer _ rfl
  exact h _

/-- A turn that only looks things up leaves the ledger as it is. -/
theorem Within.delivered {C : Player γ → Prop} {turn : Turn γ α}
    (within : turn.Within Request.Reads C player) (log : Log) :
    turn.Yields .delivered (fun _ next later => C next ∧ later = log) player log := by
  refine within.yields (S := fun log later => later = log) (fun _ => rfl) (fun h h' => h'.trans h) ?_ log
  intro log request answer after reads answered
  cases request with
  | latestBySender => exact answered.1
  | publish => exact reads.elim
  | sendersTo => exact reads.elim

/-! ## Turns that rest -/

variable [RandomSource γ]

/-- Wherever the turn ends, its player has done one of these things. -/
def Deeds (turn : Turn γ α) : Prop :=
  ∀ player log, turn.Yields .delivered (fun _ next later => Deed player log next later) player log

/-- A turn that files nothing but a joining, and changes neither pair nor source, rests. -/
theorem deeds_of_within {turn : Turn γ α} {R : Player γ → Request → Prop} {C : Player γ → Player γ → Prop}
    (within : ∀ player, turn.Within (R player) (C player) player)
    (kinds : ∀ player request, R player request → request.Asks ∨ player.Files .join request)
    (changes : ∀ {player next}, C player next → next.keys = player.keys ∧ next.source = player.source) :
    turn.Deeds := by
  intro player log
  refine ((within player).yields (S := fun log later => ∃ more, later = log ++ more ∧
    ∀ tx ∈ more, tx.category = player.category .join) (fun log => ⟨[], by simp, nofun⟩) ?_ ?_ log).mono ?_
  · rintro log _ _ ⟨more, rfl, joins⟩ ⟨more', rfl, joins'⟩
    exact ⟨more ++ more', List.append_assoc .., List.forall_mem_append.2 ⟨joins, joins'⟩⟩
  · intro log request answer after kind answered
    cases request with
    | latestBySender => exact ⟨[], by simpa using answered.1, nofun⟩
    | sendersTo => exact ⟨[], by simpa using answered.1, nofun⟩
    | publish =>
      obtain ⟨-, rfl⟩ := (kinds player _ kind).resolve_left id
      exact ⟨_, answered, by simp [Log.filing]⟩
  · rintro _ next later ⟨change, joins⟩
    obtain ⟨keys, source⟩ := changes change
    exact .rests keys source joins

theorem join_deeds : (join : Turn γ Outcome).Deeds :=
  deeds_of_within join_within (fun _ _ => .inr) (by rintro player _ rfl; exact ⟨rfl, rfl⟩)

theorem refreshPlayers_deeds : (refreshPlayers : Turn γ Outcome).Deeds := by
  refine deeds_of_within refreshPlayers_within (fun _ _ => .inl) ?_
  rintro player _ (rfl | ⟨joined, rfl⟩) <;> exact ⟨rfl, rfl⟩

theorem refreshEncryption_deeds : (refreshEncryption : Turn γ Outcome).Deeds := by
  refine deeds_of_within refreshEncryption_within (fun _ _ h => .inl (asks_of_reads _ h)) ?_
  rintro player _ ⟨finishedDeck, rfl⟩
  exact ⟨rfl, rfl⟩

theorem deal_deeds : (deal : Turn γ Outcome).Deeds := by
  refine deeds_of_within deal_within (fun _ _ h => .inl (asks_of_reads _ h)) ?_
  rintro player _ ⟨hand, rfl⟩
  exact ⟨rfl, rfl⟩

theorem updateSession_deeds : (updateSession : Turn γ Outcome).Deeds := by
  refine deeds_of_within updateSession_within (fun _ _ => .inl) ?_
  rintro player _ ⟨session, finishedDeck, announced, rfl⟩
  exact ⟨rfl, rfl⟩

/-! ## Turns that draw -/

theorem announceKey_deeds {player : Player γ} {log : Log} (recipients : List Address)
    (none : player.keys = none) :
    (announceKey recipients).Yields .delivered (fun _ next later => Deed player log next later) player log := by
  have rests := Deed.idle player log
  simp only [announceKey, yields_bind, yields_get]
  split
  case h_2 => exact (yields_pure ..).2 rests
  rename_i signer signs
  simp only [yields_bind, delivered_hasPublished]
  refine ⟨?_, fun _ => rests⟩
  split
  · exact (yields_pure ..).2 rests
  rename_i unfiled
  have unfiled : player.address ∉ log.senders (player.category .publicKey) :=
    fun filed => unfiled (decide_eq_true filed)
  rw [yields_bind]
  refine yields_draw fun pair source drew => ?_
  simp only [yields_bind, yields_ofExcept]
  cases made : KeyMessage.ofPoint pair.publicKey with
  | error e => exact .misses none drew made rfl
  | ok announcement =>
    refine delivered_publish fun result => ?_
    cases result with
    | error e => exact .announces recipients signs unfiled drew made (by simp [none]) rfl
    | ok outcome =>
      simp only [yields_modify, yields_pure]
      exact .announces recipients signs unfiled drew made (by simp [eq_comm]) rfl

/-- After a deed only the keys of others are collected. -/
theorem collectMissing_deeds (outcome : Outcome) {player next : Player γ} {log later : Log}
    (deed : Deed player log next later) : (collectMissing outcome : Turn γ Outcome).Yields .delivered
      (fun _ next later => Deed player log next later) next later := by
  unfold collectMissing
  split
  · exact (yields_pure ..).2 deed
  simp only [yields_bind, yields_get, yields_pure]
  refine ((collectKeys_within _ next).delivered later).mono ?_
  rintro (_ | _) _ _ ⟨⟨ring, rfl⟩, rfl⟩
  · exact deed.learns ring
  · exact deed.learns ring

theorem exchangeKeys_deeds : (exchangeKeys : Turn γ Outcome).Deeds := by
  intro player log
  simp only [exchangeKeys, yields_bind, yields_get]
  split
  · exact (yields_pure ..).2 (.idle player log)
  split
  · exact collectMissing_deeds .idle (.idle player log)
  · rename_i recipients asked
    have none : player.keys = none := by simpa using (Session.keyRecipients?_eq_some asked).1
    exact (announceKey_deeds recipients none).bind (fun _ _ _ deed => deed)
      fun outcome _ _ deed => collectMissing_deeds outcome deed

theorem addLayer_deeds {player : Player γ} {log : Log} {signer : Signer} {pair : KeyPair}
    {previous : Option (Deck Scalar)} (signs : player.signer = some signer) (held : player.keys = some pair)
    (unfiled : player.address ∉ log.senders (player.category .shuffle)) (looked : player.Looked log previous) :
    (addLayer player signer pair previous).Yields .delivered
      (fun _ next later => Deed player log next later) player log := by
  unfold addLayer
  split
  case h_2 => exact (yields_pure ..).2 (.idle player log)
  rename_i step turn
  split
  case h_2 => exact (yields_pure ..).2 (.idle player log)
  rename_i key found
  obtain ⟨-, next, -, how⟩ := Session.shuffleStep?_eq_some_iff.1 turn
  have shares : player.Shares pair step.sharedWith key := ⟨held, next, found⟩
  have feeds : player.Feeds log step.input := by
    rcases how with ⟨deals, -, plain⟩ | ⟨follows, deck, some, published⟩
    · rw [plain]
      exact .opens deals
    · obtain ⟨predecessor, payload, before, found, read⟩ := looked deck some
      rw [Session.chainPredecessor?, if_neg follows] at before
      rw [published]
      exact .follows follows before found read
  rw [yields_bind]
  refine yields_draw fun applied source drew => ?_
  simp only [yields_bind, yields_ofExcept]
  cases applied with
  | error e => exact .jams shares held (congrArg Prod.fst drew) rfl
  | ok deck =>
    exact delivered_publish fun result =>
      .shuffles _ signs shares held unfiled feeds (congrArg Prod.fst drew) rfl

theorem shuffle_deeds : (shuffle : Turn γ Outcome).Deeds := by
  intro player log
  have rests := Deed.idle player log
  simp only [shuffle, yields_bind, yields_get]
  split
  · exact (yields_pure ..).2 rests
  split
  case h_2 => exact (yields_pure ..).2 rests
  rename_i signer signs
  split
  case h_2 => exact (yields_pure ..).2 rests
  rename_i pair held
  simp only [yields_bind, delivered_hasPublished]
  refine ⟨?_, fun _ => rests⟩
  split
  · exact (yields_pure ..).2 rests
  rename_i unfiled
  have unfiled : player.address ∉ log.senders (player.category .shuffle) :=
    fun filed => unfiled (decide_eq_true filed)
  split
  · exact addLayer_deeds signs held unfiled (player.looked_none log)
  · rename_i predecessor before
    simp only [yields_bind, delivered_latestDeck?]
    refine ⟨?_, fun _ => rests⟩
    cases read : deckOf (log.payload? (player.category .shuffle) predecessor) with
    | error e => exact rests
    | ok previous => exact addLayer_deeds signs held unfiled (Player.looked_of_deckOf before read)

/-! ## The decryption -/

theorem decrypt_deeds : (decrypt : Turn γ Outcome).Deeds := by
  intro player log
  have rests (finishedDeck : Option (Deck Scalar)) : Deed player log { player with finishedDeck } log :=
    .rests rfl rfl ⟨[], by simp, nofun⟩
  simp only [decrypt, yields_bind, yields_get]
  split
  · exact (yields_pure ..).2 (rests _)
  split
  case h_2 => exact (yields_pure ..).2 (rests _)
  rename_i signer signs
  split
  case h_2 => exact (yields_pure ..).2 (rests _)
  rename_i pair held
  refine ((refreshEncryption_within player).delivered log).bind ?_ ?_
  · rintro _ _ _ ⟨⟨finishedDeck, rfl⟩, rfl⟩
    exact rests _
  rintro _ _ _ ⟨⟨finishedDeck, rfl⟩, rfl⟩
  simp only [yields_bind, yields_get]
  split
  · exact (yields_pure ..).2 (rests _)
  simp only [yields_bind, delivered_hasPublished]
  refine ⟨?_, fun _ => rests _⟩
  split
  · exact (yields_pure ..).2 (rests _)
  split
  case h_2 => exact (yields_pure ..).2 (rests _)
  rename_i step turn
  split
  case h_2 => exact (yields_pure ..).2 (rests _)
  rename_i key found
  obtain ⟨-, -, next, -, finished⟩ := Session.decryptionStep?_eq_some_iff.1 turn
  simp only [yields_bind, yields_ofExcept]
  cases bared : step.source.decrypt key pair.secretKey with
  | error e => exact rests _
  | ok deck =>
    exact delivered_publish fun result =>
      .decrypts _ signs ⟨held, next, found⟩ held rfl finished bared rfl

end Turn

end MentalPoker
