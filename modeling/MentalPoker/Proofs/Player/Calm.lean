/-
What turns achieve when nothing goes wrong: each one does what is to be done by then. A turn whose
time has come files its transaction or finds that it has, a player that looks for something on the
ledger has it afterwards, and what one part of a turn at everything achieves the later ones keep.
-/
import MentalPoker.Proofs.Card.Layer
import MentalPoker.Proofs.Game.KeyRing
import MentalPoker.Proofs.Player.Course

namespace MentalPoker

variable {γ : Type} {player : Player γ} {log : Log}

theorem Scene.mem_senders_file {signer : Signer} (own : signer.address = player.address) (step : Step)
    (recipients : List Address) (payload : Bytes) : player.address ∈
      ((Scene.mk player log).file signer step recipients payload).log.senders (player.category step) := by
  change player.address ∈ Log.senders _ (log ++ [Log.filing log signer _ recipients payload])
  rw [Log.senders_append_of_eq (by rfl)]
  exact List.mem_append_right _ (List.mem_singleton.2 own.symm)

theorem Session.observe_eq_self {session : Session} {progress : Progress} {minPlayers : Nat}
    (h : (session.observe progress minPlayers).phase = session.phase) :
    session.observe progress minPlayers = session := by
  rw [observe] at h ⊢
  dsimp only at h
  rw [h]

/-- For the player the deal is over: it has the finished deck and its hand, and is ready. -/
structure Player.Over (player : Player γ) : Prop where
  ready : player.session.phase = .ready
  hand : player.session.hand ≠ []
  finished : player.finishedDeck.isSome = true

namespace Turn

/-! ## Seats -/

theorem join_calm {signer : Signer} (signs : player.signer = some signer)
    (own : signer.address = player.address) :
    (join : Turn γ Outcome).Ensures .calm (fun _ next later => next = player ∧
      (player.address = player.session.creator ∨
        player.address ∈ later.senders (player.category .join))) player log := by
  simp only [join, ensures_bind, ensures_get]
  split
  · rename_i creates
    exact (ensures_pure ..).2 ⟨rfl, .inl creates⟩
  simp only [ensures_bind, ensures_hasPublished, Conditions.calm_others, Conditions.calm_fails, forall_eq',
    false_implies, and_true, true_and]
  split
  · rename_i filed
    exact (ensures_pure ..).2 ⟨rfl, .inr (of_decide_eq_true filed)⟩
  simp only [signs, ensures_publish, Conditions.calm_others, Conditions.calm_fails, Conditions.calm_loses,
    forall_eq', false_implies, and_true, true_and]
  exact fun id => .inr (Scene.mem_senders_file own .join _ _)

theorem refreshPlayers_calm :
    (refreshPlayers : Turn γ Outcome).Ensures .calm (fun result next later =>
      (∃ outcome, result = .ok outcome) ∧ later = log ∧
        next = player.seated (log.sendersTo (player.category .join) player.session.creator))
      player log := by
  simp only [refreshPlayers, ensures_bind, ensures_get, ensures_askSenders, ensures_set, ensures_pure,
    Conditions.calm_others, Conditions.calm_fails, forall_eq', false_implies, and_true, true_and]
  exact ⟨⟨_, rfl⟩, rfl⟩

/-- After bringing the session up to date a player sees all who have joined. -/
theorem updateSession_sees [RandomSource γ] :
    (updateSession : Turn γ Outcome).Ensures .calm (fun _ next _ => next.session.players =
      (player.seated (log.sendersTo (player.category .join) player.session.creator)).session.players)
      player log := by
  refine refreshPlayers_calm.bind ?_ ?_
  · rintro e next later ⟨⟨_, fails⟩, -⟩
    cases fails
  rintro _ next later ⟨-, rfl, rfl⟩
  simp only [ensures_bind, ensures_get]
  split
  · exact (ensures_pure ..).2 rfl
  refine refreshEncryption_ensures.bind ?_ ?_
  · rintro e next later ⟨-, finishedDeck, rfl⟩
    rfl
  rintro _ next later ⟨-, finishedDeck, rfl⟩
  simp only [ensures_bind, ensures_get]
  split
  · exact (ensures_pure ..).2 rfl
  · simp only [ensures_bind, ensures_set, ensures_pure]
    rfl

/-! ## Keys -/

/-- The ledger has a readable key of the player. -/
def Keyed (category : Category) (log : Log) (a : Address) : Prop :=
  ∃ payload key, log.payload? category a = some payload ∧ Payload.key payload = .ok key

theorem announceKey_calm [RandomSource γ] {signer : Signer} {recipients : List Address}
    (signs : player.signer = some signer)
    (unfiled : player.address ∉ log.senders (player.category .publicKey))
    (fit : ∀ keys source, KeyPair.generate player.source = (keys, source) →
      ∃ message, KeyMessage.ofPoint keys.publicKey = .ok message) :
    (announceKey recipients).Ensures .calm (fun result next _ =>
      (∃ id, result = .ok (.published id)) ∧ next.keys.isSome ∧ next.ring = player.ring ∧
        SameSeat player next) player log := by
  simp only [announceKey, ensures_bind, ensures_get, signs, ensures_hasPublished, Conditions.calm_others,
    Conditions.calm_fails, forall_eq', false_implies, and_true, true_and]
  rw [if_neg (by simpa using unfiled), ensures_bind]
  refine ensures_draw fun keys source drew => ?_
  obtain ⟨message, made⟩ := fit keys source drew
  simp only [ensures_bind, ensures_ofExcept, made, ensures_publish, ensures_modify, ensures_pure,
    Conditions.calm_others, Conditions.calm_fails, Conditions.calm_loses, forall_eq', false_implies, and_true, true_and]
  exact fun id => ⟨⟨id, rfl⟩, rfl, rfl, rfl, rfl⟩

theorem collectKey_calm (other : Address) :
    (collectKey other : Turn γ Bool).Ensures .calm (fun result next later =>
      (∃ new, result = .ok new) ∧ later = log ∧ ∃ ring, next = { player with ring } ∧
        player.ring.names ⊆ ring.names ∧
        (Keyed (player.category .publicKey) log other → other ∈ ring.names)) player log := by
  simp only [collectKey, ensures_bind, ensures_get, ensures_askLatest, Conditions.calm_others,
    Conditions.calm_fails, forall_eq', false_implies, and_true]
  cases found : log.payload? (player.category .publicKey) other with
  | none =>
    refine (ensures_pure ..).2 ⟨⟨_, rfl⟩, rfl, player.ring, rfl, List.Subset.refl _, ?_⟩
    rintro ⟨payload, key, filed, -⟩
    rw [found] at filed
    cases filed
  | some payload =>
    cases read : (KeyMessage.ofBytes payload).bind KeyMessage.point with
    | error e =>
      simp only [read]
      refine (ensures_pure ..).2 ⟨⟨_, rfl⟩, rfl, player.ring, rfl, List.Subset.refl _, ?_⟩
      rintro ⟨payload', key, filed, read'⟩
      cases found.symm.trans filed
      cases read.symm.trans read'
    | ok key =>
      simp only [read, ensures_bind, ensures_get, ensures_set, ensures_pure]
      refine ⟨⟨_, rfl⟩, trivial, _, rfl, fun a known => ?_, fun _ => ?_⟩
      · rw [KeyRing.names_record]
        split
        · exact known
        · exact List.mem_append_left _ known
      · rw [KeyRing.names_record]
        split
        · assumption
        · exact List.mem_append_right _ (List.mem_singleton_self other)

/-- Polling several players finds the keys of all who have announced one. -/
theorem collectKeys_calm (wanted : List Address) : ∀ {player : Player γ} {log : Log},
    (collectKeys wanted : Turn γ Bool).Ensures .calm (fun result next later =>
      (∃ new, result = .ok new) ∧ later = log ∧ ∃ ring, next = { player with ring } ∧
        player.ring.names ⊆ ring.names ∧
        ∀ other ∈ wanted, Keyed (player.category .publicKey) log other → other ∈ ring.names)
      player log := by
  induction wanted with
  | nil =>
    intro player log
    exact (ensures_pure ..).2 ⟨⟨_, rfl⟩, rfl, player.ring, rfl, List.Subset.refl _, by simp⟩
  | cons other others ih =>
    intro player log
    refine (collectKey_calm other).bind ?_ ?_
    · rintro e next later ⟨⟨_, fails⟩, -⟩
      cases fails
    rintro new _ _ ⟨-, rfl, ring, rfl, kept, found⟩
    simp only [ensures_bind, ensures_pure]
    refine ih.mono ?_
    rintro result _ _ ⟨⟨more, rfl⟩, rfl, ring', rfl, kept', found'⟩
    refine ⟨⟨_, rfl⟩, rfl, ring', rfl, List.Subset.trans kept kept', fun a member keyed => ?_⟩
    rcases List.mem_cons.1 member with rfl | member
    · exact kept' (found keyed)
    · exact found' a member keyed

/-- A player with a pair collects the keys of all who have announced one. -/
theorem collectMissing_calm {outcome : Outcome} (goesOn : outcome ≠ .skipped) (held : player.keys.isSome) :
    (collectMissing outcome : Turn γ Outcome).Ensures .calm (fun _ next later => next.keys.isSome ∧
      ∀ other ∈ player.session.players, other ≠ player.address →
        Keyed (player.category .publicKey) later other → other ∈ next.ring.names) player log := by
  rw [collectMissing, if_neg goesOn]
  simp only [ensures_bind, ensures_get]
  refine (collectKeys_calm _).mono ?_
  rintro _ _ _ ⟨⟨new, rfl⟩, rfl, found, rfl, kept, finds⟩
  refine (ensures_pure ..).2 ⟨held, fun other member apart keyed => ?_⟩
  by_cases known : other ∈ player.ring.names
  · exact kept known
  · refine finds other (List.mem_filter.2 ⟨member, ?_⟩) keyed
    rw [← KeyRing.contains_iff, Bool.not_eq_true] at known
    simp [apart, known]

/-- With the table full and seated at it, a player gets its pair and the keys of all who have announced
one. -/
theorem exchangeKeys_calm [RandomSource γ] {signer : Signer} (signs : player.signer = some signer)
    (full : (Scene.mk player log).Full) (seated : player.address ∈ player.session.players)
    (unfiled : player.keys = none → player.address ∉ log.senders (player.category .publicKey))
    (fit : player.keys = none → ∀ keys source, KeyPair.generate player.source = (keys, source) →
      ∃ message, KeyMessage.ofPoint keys.publicKey = .ok message) :
    (exchangeKeys : Turn γ Outcome).Ensures .calm (fun _ next later => next.keys.isSome ∧
      ∀ other ∈ player.session.players, other ≠ player.address →
        Keyed (player.category .publicKey) later other → other ∈ next.ring.names) player log := by
  simp only [exchangeKeys, ensures_bind, ensures_get]
  rw [if_neg (Nat.not_lt.2 full)]
  cases held : player.keys with
  | some keys =>
    have none : player.session.keyRecipients? player.address (some keys).isSome = none := by
      simp [Session.keyRecipients?]
    simp only [none]
    exact collectMissing_calm (show Outcome.idle ≠ .skipped by decide) (by rw [held]; rfl)
  | none =>
    have all : player.session.keyRecipients? player.address (Option.isSome (none : Option KeyPair)) =
        some player.session.players := by
      simp [Session.keyRecipients?, Session.isSeated, seated]
    simp only [all]
    refine (announceKey_calm signs (unfiled held) (fit held)).bind ?_ ?_
    · rintro e next later ⟨⟨_, fails⟩, -⟩
      cases fails
    · rintro _ next later ⟨⟨id, same⟩, held, -, config, address, session⟩
      cases same
      have category : next.category .publicKey = player.category .publicKey := by
        rw [Player.category, config, session, Player.category]
      rw [← session, ← address, ← category]
      exact collectMissing_calm (by simp) held

/-! ## Decks -/

/-- A turn in the chain comes to a deck if the layer has a factor. -/
theorem exists_apply [RandomSource γ] {key : Point} {own factor : Scalar}
    (has : Cipher.sharedFactor key own = .ok factor) (input : ShuffleInput) (source : γ) :
    ∃ deck, (input.apply key own source).1 = .ok deck := by
  rw [ShuffleInput.apply_deck]
  exact ⟨_, Deck.encrypt_eq has⟩

/-- Whoever has what it takes for its turn in the chain has a deck on the ledger afterwards. -/
theorem shuffle_calm [RandomSource γ] {signer : Signer} {keys : KeyPair} {successor : Address}
    {key : Point} {factor : Scalar} (signs : player.signer = some signer)
    (own : signer.address = player.address) (held : player.keys = some keys)
    (seated : player.address ∈ player.session.players)
    (next : Circle.next? player.session.players player.address = some successor)
    (apart : successor ≠ player.address) (shared : player.ring.get? successor = some key)
    (has : Cipher.sharedFactor key keys.secretKey = .ok factor)
    (input : (player.address = player.session.dealer ∧ player.session.keysComplete player.ring = true) ∨
      (player.address ≠ player.session.dealer ∧ ∃ predecessor payload deck,
        Circle.previous? player.session.players player.address = some predecessor ∧
        log.payload? (player.category .shuffle) predecessor = some payload ∧
        Payload.deck payload = .ok deck)) :
    (shuffle : Turn γ Outcome).Ensures .calm (fun _ _ later =>
      player.address ∈ later.senders (player.category .shuffle)) player log := by
  simp only [shuffle, ensures_bind, ensures_get]
  rw [if_neg (by simp [Player.isSeated_iff, seated])]
  simp only [signs, held, ensures_bind, ensures_hasPublished, Conditions.calm_others, Conditions.calm_fails,
    forall_eq', false_implies, and_true]
  split
  · rename_i filed
    exact (ensures_pure ..).2 (of_decide_eq_true filed)
  -- the rest of the turn, with the input that is known by then
  have files (input : ShuffleInput) : (do
      let deck ← ofExcept (← draw (input.apply key keys.secretKey))
      publish signer .shuffle player.session.players (DeckMessage.ofDeck deck).toBytes
        : Turn γ Outcome).Ensures .calm (fun _ _ later =>
      player.address ∈ later.senders (player.category .shuffle)) player log := by
    rw [ensures_bind]
    refine ensures_draw fun applied source drew => ?_
    obtain ⟨deck, made⟩ := exists_apply has input player.source
    rw [drew] at made
    replace made : applied = .ok deck := made
    simp only [made, ensures_bind, ensures_ofExcept, ensures_publish, Conditions.calm_others,
      Conditions.calm_fails, Conditions.calm_loses, forall_eq', false_implies, and_true]
    exact fun _ => Scene.mem_senders_file own .shuffle _ _
  rcases input with ⟨deals, complete⟩ | ⟨follows, predecessor, payload, deck, before, found, read⟩
  · have step : player.session.shuffleStep? player.address false none
        (player.session.keysComplete player.ring) = some ⟨.plain, successor⟩ := by
      simp [Session.shuffleStep?, next, apart, ← deals, complete]
    have first : player.session.chainPredecessor? player.address = none := if_pos deals
    simp only [first, ensures_bind, ensures_pure, step, shared]
    simpa only [ensures_bind] using files .plain
  · have step : player.session.shuffleStep? player.address false (some deck)
        (player.session.keysComplete player.ring) = some ⟨.published deck, successor⟩ := by
      simp [Session.shuffleStep?, next, apart, follows]
    have later : player.session.chainPredecessor? player.address = some predecessor :=
      (if_neg follows).trans before
    simp only [later, ensures_bind, ensures_latestDeck?, Conditions.calm_others, Conditions.calm_fails, forall_eq',
      false_implies, and_true, found, deckOf, read, Except.map, step, shared]
    simpa only [ensures_bind] using files (.published deck)

/-- Whoever has the finished deck keeps it. -/
theorem refreshEncryption_finished (finished : player.finishedDeck.isSome = true) :
    (refreshEncryption : Turn γ Outcome).Ensures .calm (fun result next later =>
      (∃ outcome, result = .ok outcome) ∧ later = log ∧
        ∃ deck, next = { player with finishedDeck := some deck }) player log := by
  obtain ⟨deck, held⟩ := Option.isSome_iff_exists.1 finished
  simp only [refreshEncryption, ensures_bind, ensures_get]
  rw [if_pos (.inl finished)]
  refine (ensures_pure ..).2 ⟨⟨_, rfl⟩, rfl, deck, ?_⟩
  rw [← held]

/-- Once the last deck of the chain can be read, a player has it. -/
theorem refreshEncryption_calm {last : Address} {payload : Bytes} {deck : Deck Scalar}
    (two : 2 ≤ player.session.players.length) (finishes : player.session.finalShuffler? = some last)
    (found : log.payload? (player.category .shuffle) last = some payload)
    (read : Payload.deck payload = .ok deck) :
    (refreshEncryption : Turn γ Outcome).Ensures .calm (fun result next later =>
      (∃ outcome, result = .ok outcome) ∧ later = log ∧
        ∃ deck, next = { player with finishedDeck := some deck }) player log := by
  by_cases finished : player.finishedDeck.isSome = true
  · exact refreshEncryption_finished finished
  simp only [refreshEncryption, ensures_bind, ensures_get]
  rw [if_neg (not_or.2 ⟨finished, by omega⟩)]
  simp only [finishes, ensures_bind, ensures_latestDeck?, Conditions.calm_others, Conditions.calm_fails,
    forall_eq', false_implies, and_true, found, deckOf, read, Except.map, ensures_modify, ensures_pure]
  exact ⟨⟨_, rfl⟩, trivial, deck, rfl⟩

/-- Once the chain is complete, the player after the dealer has the decryption on the ledger. -/
theorem decrypt_calm [RandomSource γ] {signer : Signer} {keys : KeyPair} {successor last : Address}
    {key : Point} {factor : Scalar} {payload : Bytes} {deck : Deck Scalar}
    (signs : player.signer = some signer) (own : signer.address = player.address)
    (held : player.keys = some keys) (decryptor : player.session.decryptor? = some player.address)
    (two : 2 ≤ player.session.players.length) (finishes : player.session.finalShuffler? = some last)
    (found : log.payload? (player.category .shuffle) last = some payload)
    (read : Payload.deck payload = .ok deck)
    (next : Circle.next? player.session.players player.address = some successor)
    (apart : successor ≠ player.address) (shared : player.ring.get? successor = some key)
    (has : Cipher.sharedFactor key keys.secretKey = .ok factor) :
    (decrypt : Turn γ Outcome).Ensures .calm (fun _ _ later =>
      player.address ∈ later.senders (player.category .decrypt)) player log := by
  simp only [decrypt, ensures_bind, ensures_get]
  rw [if_neg (not_not.2 decryptor)]
  simp only [signs, held, ensures_bind]
  refine (refreshEncryption_calm two finishes found read).mono ?_
  rintro _ _ _ ⟨⟨outcome, rfl⟩, rfl, finished, rfl⟩
  simp only [ensures_bind, ensures_get, ensures_hasPublished, Option.isNone_some, Bool.false_eq_true,
    if_false, Conditions.calm_others, Conditions.calm_fails, forall_eq', false_implies, and_true]
  split
  · rename_i filed
    exact (ensures_pure ..).2 (of_decide_eq_true filed)
  have step : player.session.decryptionStep? player.address false (some finished) =
      some ⟨finished, successor⟩ := by
    simp [Session.decryptionStep?, decryptor, next, apart]
  simp only [step, shared, ensures_bind, ensures_ofExcept, Deck.decrypt_eq has, ensures_publish,
    Conditions.calm_others, Conditions.calm_fails, Conditions.calm_loses, forall_eq', false_implies, and_true]
  exact fun _ => Scene.mem_senders_file own .decrypt _ _

/-! ## Hands -/

/-- Once the decrypted deck can be read, a player has its hand. -/
theorem deal_calm {decryptor : Address} {payload : Bytes} {deck : Deck Scalar} {hand : List Scalar}
    (seated : player.address ∈ player.session.players)
    (decrypts : player.session.decryptor? = some decryptor) (apart : decryptor ≠ player.session.dealer)
    (found : log.payload? (player.category .decrypt) decryptor = some payload)
    (read : Payload.deck payload = .ok deck)
    (dealt : player.session.dealtHand? player.address deck player.config.cardsPerPlayer = some hand)
    (some : hand ≠ []) :
    (deal : Turn γ Outcome).Ensures .calm (fun _ next _ => next.session.hand ≠ []) player log := by
  simp only [deal, ensures_bind, ensures_get]
  split
  · rename_i held
    exact (ensures_pure ..).2 held
  rename_i empty
  rw [not_not] at empty
  rw [if_neg (by simp [Player.isSeated_iff, seated])]
  simp only [decrypts]
  rw [if_neg apart]
  simp only [ensures_bind, ensures_latestDeck?, Conditions.calm_others, Conditions.calm_fails, forall_eq',
    false_implies, and_true, found, deckOf, read, Except.map, dealt, ensures_set, ensures_pure]
  rw [Session.setHand, if_neg (by simp [empty, some])]
  exact some

/-- A phase that is ready stays so, and none is later. -/
theorem later_ready (phase : Phase) : phase.later .ready = .ready := by
  cases phase <;> decide

/-- If the player sits with all who have joined, and comes to the finished deck, its phase is what the facts
speak for. -/
theorem updateSession_calm {seen : Player γ}
    (same : player.seated (log.sendersTo (player.category .join) player.session.creator) = seen)
    (sits : seen.address ∈ seen.session.players)
    (finds : (refreshEncryption : Turn γ Outcome).Ensures .calm (fun result next later =>
      (∃ outcome, result = .ok outcome) ∧ later = log ∧ ∃ deck, next = { seen with finishedDeck := some deck })
      seen log) :
    (updateSession : Turn γ Outcome).Ensures .calm (fun _ next _ => ∃ deck announced progress,
      progress.shuffleFinished = true ∧ next = { seen with
        finishedDeck := some deck
        announced
        session := seen.session.observe progress seen.config.minPlayers }) player log := by
  refine refreshPlayers_calm.bind ?_ ?_
  · rintro e next later ⟨⟨_, fails⟩, -⟩
    cases fails
  rintro _ _ later ⟨-, rfl, rfl⟩
  rw [same]
  simp only [ensures_bind, ensures_get]
  rw [if_neg (by simp [Player.isSeated_iff, sits])]
  refine finds.bind ?_ ?_
  · rintro e next later ⟨⟨_, fails⟩, -⟩
    cases fails
  rintro _ _ _ ⟨-, rfl, deck, rfl⟩
  simp only [ensures_bind, ensures_get]
  split
  · rename_i unchanged
    refine (ensures_pure ..).2 ⟨deck, seen.announced, Player.progress { seen with finishedDeck := some deck }, rfl, ?_⟩
    rw [Session.observe_eq_self unchanged]
  · simp only [ensures_bind, ensures_set, ensures_pure]
    exact ⟨deck, _, _, rfl, rfl⟩

/-- A player with a hand, that sees the table as it is and can read the last deck of the chain, is ready
once it has brought its session up to date. -/
theorem updateSession_over {last : Address} {payload : Bytes} {deck : Deck Scalar}
    (same : player.seated (log.sendersTo (player.category .join) player.session.creator) = player)
    (seated : player.address ∈ player.session.players) (two : 2 ≤ player.session.players.length)
    (full : player.config.minPlayers ≤ player.session.players.length)
    (finishes : player.session.finalShuffler? = some last)
    (found : log.payload? (player.category .shuffle) last = some payload)
    (read : Payload.deck payload = .ok deck) (hand : player.session.hand ≠ []) :
    (updateSession : Turn γ Outcome).Ensures .calm (fun _ next _ => next.Over) player log := by
  refine (updateSession_calm same seated (refreshEncryption_calm two finishes found read)).mono ?_
  rintro _ _ _ ⟨finished, announced, progress, -, rfl⟩
  refine ⟨?_, hand, rfl⟩
  dsimp only
  rw [Session.observe, Session.observedPhase, if_neg (by omega), if_pos hand, later_ready]

/-! ## A turn at everything -/

/-- What holds of a player and a log is kept by every act. -/
def Stable [RandomSource γ] (c : Conditions) (P : Player γ → Log → Prop) : Prop :=
  ∀ {player next log later}, Act c ⟨player, log⟩ ⟨next, later⟩ → P player log → P next later

theorem Stable.course [RandomSource γ] {c : Conditions} {P : Player γ → Log → Prop} (stable : Stable c P)
    {scene after : Scene γ} (course : Course c scene after) (h : P scene.player scene.log) :
    P after.player after.log := by
  induction course with
  | refl => exact h
  | tail _ act ih => exact stable act ih

theorem Stable.ensures [RandomSource γ] {α : Type} {c : Conditions} {P : Player γ → Log → Prop}
    (stable : Stable c P) {turn : Turn γ α} (runs : turn.Runs c) (h : P player log) :
    turn.Ensures c (fun _ next later => P next later) player log :=
  (runs player log).mono fun _ _ _ course => stable.course course h

/-- The parts of a turn at everything, one after another, each from where the one before has ended. -/
theorem everything_ensures [RandomSource γ] {c : Conditions} (P₁ P₂ P₃ P₄ P₅ P₆ P₇ : Player γ → Log → Prop)
    (joins : join.Ensures c (fun _ => P₁) player log)
    (sees : ∀ {player log}, P₁ player log → updateSession.Ensures c (fun _ => P₂) player log)
    (exchanges : ∀ {player log}, P₂ player log → exchangeKeys.Ensures c (fun _ => P₃) player log)
    (shuffles : ∀ {player log}, P₃ player log → shuffle.Ensures c (fun _ => P₄) player log)
    (decrypts : ∀ {player log}, P₄ player log → decrypt.Ensures c (fun _ => P₅) player log)
    (deals : ∀ {player log}, P₅ player log → deal.Ensures c (fun _ => P₆) player log)
    (ends : ∀ {player log}, P₆ player log → updateSession.Ensures c (fun _ => P₇) player log) :
    (everything : Turn γ Phase).Ensures c (fun _ => P₇) player log := by
  simp only [everything, ensures_bind, ensures_attempt, ensures_get, ensures_pure]
  exact joins.mono fun _ _ _ h => (sees h).mono fun _ _ _ h => (exchanges h).mono fun _ _ _ h =>
    (shuffles h).mono fun _ _ _ h => (decrypts h).mono fun _ _ _ h => (deals h).mono fun _ _ _ h =>
    (ends h).mono fun _ _ _ h => h

end Turn

end MentalPoker
