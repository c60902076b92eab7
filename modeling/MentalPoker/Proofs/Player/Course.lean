/-
Every turn is a chain of acts, wherever it ends, so that whatever all acts keep is kept by every
turn. The parts of the turns come first, each with what it ensures; the turns themselves follow the
order in which a player takes them.
-/
import MentalPoker.Player.Move
import MentalPoker.Proofs.Card.Places
import MentalPoker.Proofs.Game.KeyRing
import MentalPoker.Proofs.Game.Role
import MentalPoker.Proofs.Player.Act

namespace MentalPoker

/-- A key is announced to all who are seated, by one of them that has no pair. -/
theorem Session.keyRecipients?_eq_some {session : Session} {me : Address} {hasKey : Bool}
    {recipients : List Address} (h : session.keyRecipients? me hasKey = some recipients) :
    hasKey = false ∧ me ∈ session.players ∧ recipients = session.players := by
  unfold keyRecipients? at h
  split at h
  · cases h
  · rename_i free
    cases h
    simpa [isSeated] using free

namespace Turn

variable {γ α : Type} {c : Conditions}

/-! ## The parts of turns -/

section

variable {player : Player γ} {log : Log}

theorem ensures_hasPublished (Q : Except DealError Bool → Player γ → Log → Prop) (step : Step) :
    (hasPublished step).Ensures c Q player log ↔ ∀ seen, c.others log seen →
      Q (.ok (decide (player.address ∈ seen.senders (player.category step)))) player seen ∧
        (c.fails → ∀ e, Q (.error (.ledger e)) player seen) := by
  simp only [hasPublished, ensures_bind, ensures_get, ensures_askLatest, ensures_pure]
  have same (seen : Log) : decide (player.address ∈ seen.senders (player.category step)) =
      (seen.payload? (player.category step) player.address).isSome := by
    simp [← Log.payload?_isSome]
  simp only [same]

/-- The deck of a payload that has been looked up. -/
def deckOf : Option Bytes → Except DealError (Option (Deck Scalar))
  | none => .ok none
  | some payload => (Payload.deck payload).map some

theorem deck_of_deckOf {latest : Option Bytes} {deck : Deck Scalar} (h : deckOf latest = .ok (some deck)) :
    ∃ payload, latest = some payload ∧ Payload.deck payload = .ok deck := by
  cases latest with
  | none => cases h
  | some payload =>
    rw [deckOf] at h
    cases read : Payload.deck payload with
    | error e =>
      rw [read] at h
      cases h
    | ok deck' =>
      rw [read] at h
      cases h
      exact ⟨payload, rfl, read⟩

theorem none_of_deckOf {latest : Option Bytes} (read : deckOf latest = .ok none) : latest = none := by
  cases latest with
  | none => rfl
  | some payload =>
    rw [deckOf] at read
    cases found : Payload.deck payload <;> rw [found] at read <;> cases read

theorem ensures_latestDeck? (Q : Except DealError (Option (Deck Scalar)) → Player γ → Log → Prop)
    (step : Step) (sender : Address) :
    (latestDeck? step sender).Ensures c Q player log ↔ ∀ seen, c.others log seen →
      Q (deckOf (seen.payload? (player.category step) sender)) player seen ∧
        (c.fails → ∀ e, Q (.error (.ledger e)) player seen) := by
  simp only [latestDeck?, ensures_bind, ensures_get, ensures_askLatest]
  refine forall₂_congr fun seen _ => and_congr_left' ?_
  cases seen.payload? (player.category step) sender with
  | none => exact ensures_pure Q player seen none
  | some payload =>
    simp only [ensures_bind, ensures_ofExcept, ensures_pure, deckOf, Payload.deck]
    cases DeckMessage.ofBytes payload with
    | error e => exact Iff.rfl
    | ok message => cases h : message.deck <;> simp [Except.bind, Except.map, h]

theorem ensures_publish (Q : Except DealError Outcome → Player γ → Log → Prop) (signer : Signer)
    (step : Step) (recipients : List Address) (payload : Bytes) :
    (publish signer step recipients payload).Ensures c Q player log ↔
      ∀ seen, c.others log seen →
        let filed := ((Scene.mk player seen).file signer step recipients payload).log
        (∀ id, Q (.ok (.published id)) player filed) ∧
        (c.loses (player.category step) → ∀ e, Q (.error (.ledger e)) player filed) ∧
        (c.fails → ∀ e, Q (.error (.ledger e)) player seen) := by
  simp only [publish, ensures_bind, ensures_get, ensures_askPublish, ensures_pure]
  exact Iff.rfl

end

/-! ## Turns as acts -/

variable [RandomSource γ]

/-- Wherever the turn ends, the player has got there by acts. -/
def Runs (c : Conditions) (turn : Turn γ α) : Prop :=
  ∀ player log, turn.Ensures c (fun _ player' log' => Course c ⟨player, log⟩ ⟨player', log'⟩) player log

theorem Runs.attempt {turn : Turn γ α} (h : turn.Runs c) : (attempt turn).Runs c := by
  intro player log
  rw [ensures_attempt]
  exact h player log

theorem Runs.bind {β : Type} {turn : Turn γ α} {next : α → Turn γ β} (first : turn.Runs c)
    (second : ∀ a, (next a).Runs c) : (turn >>= next).Runs c := by
  intro player log
  refine Ensures.bind (first player log) (fun e player' log' h => h) fun a player' log' h => ?_
  exact (second a player' log').mono fun _ _ _ h' => h.trans h'

theorem join_runs : (join : Turn γ Outcome).Runs c := by
  intro player log
  simp only [join, ensures_bind, ensures_get]
  split
  · exact (ensures_pure ..).2 .refl
  rename_i newcomer
  simp only [ensures_bind, ensures_hasPublished]
  intro seen others
  have looked : Course c ⟨player, log⟩ ⟨player, seen⟩ := .single (.others others)
  refine ⟨?_, fun _ _ => looked⟩
  split
  · exact (ensures_pure ..).2 looked
  rename_i unfiled
  split
  · rename_i signer signs
    rw [ensures_publish]
    intro later others'
    have waited := looked.tail (.others others')
    have filed := waited.tail (.joins signs newcomer ⟨seen, others', by simpa using unfiled⟩)
    exact ⟨fun _ => filed, fun _ _ => filed, fun _ _ => waited⟩
  · exact (ensures_pure ..).2 looked

theorem refreshPlayers_runs : (refreshPlayers : Turn γ Outcome).Runs c := by
  intro player log
  simp only [refreshPlayers, ensures_bind, ensures_get, ensures_askSenders, ensures_set, ensures_pure]
  intro seen others
  have looked : Course c ⟨player, log⟩ ⟨player, seen⟩ := .single (.others others)
  exact ⟨looked.tail .seats, fun _ _ => looked⟩

/-- The facts about a player that neither its keys nor its ring belong to. -/
def SameSeat (player next : Player γ) : Prop :=
  next.config = player.config ∧ next.address = player.address ∧ next.session = player.session

theorem announceKey_runs {player : Player γ} {log : Log}
    (full : (Scene.mk player log).Full) (seated : player.address ∈ player.session.players)
    (none : player.keys = none) :
    (announceKey player.session.players).Ensures c (fun _ player' log' =>
      Course c ⟨player, log⟩ ⟨player', log'⟩ ∧ SameSeat player player') player log := by
  have same : SameSeat player player := ⟨rfl, rfl, rfl⟩
  simp only [announceKey, ensures_bind, ensures_get]
  split
  case h_2 => exact (ensures_pure ..).2 ⟨.refl, same⟩
  rename_i signer signs
  simp only [ensures_bind, ensures_hasPublished]
  intro seen others
  have looked : Course c ⟨player, log⟩ ⟨player, seen⟩ := .single (.others others)
  refine ⟨?_, fun _ _ => ⟨looked, same⟩⟩
  split
  · exact (ensures_pure ..).2 ⟨looked, same⟩
  rename_i unfiled
  rw [ensures_bind]
  refine ensures_draw fun keys source drew => ?_
  simp only [ensures_bind, ensures_ofExcept]
  cases message : KeyMessage.ofPoint keys.publicKey with
  | error e => exact ⟨looked.tail (.draws source (.inr (.inr ⟨e, by rw [drew, message]⟩))), same⟩
  | ok message =>
    simp only [ensures_publish, ensures_modify, ensures_pure]
    intro later others'
    have waited := looked.tail (.others others')
    have announces : (Scene.mk player later).Announces c signer keys source _ :=
      ⟨signs, none, full, seated, ⟨seen, others', fun filed => unfiled (decide_eq_true filed)⟩, drew,
        message⟩
    exact ⟨fun _ => ⟨waited.tail (.keepsKeys announces), same⟩,
      fun loses _ => ⟨waited.tail (.losesKeys announces loses), same⟩,
      fun fails _ => ⟨waited.tail (.draws source (.inr (.inl fails))), same⟩⟩

theorem collectKey_runs {player : Player γ} {log : Log} {other : Address}
    (full : (Scene.mk player log).Full) (seated : other ∈ player.session.players)
    (notSelf : other ≠ player.address) :
    (collectKey other : Turn γ Bool).Ensures c (fun _ player' log' =>
      Course c ⟨player, log⟩ ⟨player', log'⟩ ∧ SameSeat player player') player log := by
  have same : SameSeat player player := ⟨rfl, rfl, rfl⟩
  simp only [collectKey, ensures_bind, ensures_get, ensures_askLatest]
  intro seen others
  have looked : Course c ⟨player, log⟩ ⟨player, seen⟩ := .single (.others others)
  refine ⟨?_, fun _ _ => ⟨looked, same⟩⟩
  cases found : seen.payload? (player.category .publicKey) other with
  | none => exact ⟨looked, same⟩
  | some payload =>
    cases read : Payload.key payload with
    | error e =>
      rw [Payload.key] at read
      simp only [read]
      exact ⟨looked, same⟩
    | ok key =>
      have learnt := looked.tail (.learns full seated notSelf found read)
      rw [Payload.key] at read
      simp only [read]
      exact ⟨learnt, same⟩

theorem collectKeys_runs (wanted : List Address) {player : Player γ} {log : Log}
    (full : (Scene.mk player log).Full)
    (each : ∀ other ∈ wanted, other ∈ player.session.players ∧ other ≠ player.address) :
    (collectKeys wanted : Turn γ Bool).Ensures c
      (fun _ player' log' => Course c ⟨player, log⟩ ⟨player', log'⟩) player log := by
  induction wanted generalizing player log with
  | nil => exact (ensures_pure ..).2 .refl
  | cons other wanted ih =>
    have first := each other List.mem_cons_self
    rw [collectKeys]
    refine Ensures.bind (collectKey_runs full first.1 first.2) (fun e player' log' h => h.1) ?_
    rintro new player' log' ⟨learnt, same⟩
    have full' : (Scene.mk player' log').Full := by
      unfold Scene.Full at full ⊢
      dsimp only at full ⊢
      rwa [same.1, same.2.2]
    have each' : ∀ other ∈ wanted, other ∈ player'.session.players ∧ other ≠ player'.address := by
      intro other member
      rw [same.2.1, same.2.2]
      exact each other (List.mem_cons_of_mem _ member)
    simp only [ensures_bind, ensures_pure]
    refine (ih full' each').mono fun result player'' log'' more => ?_
    cases result <;> exact learnt.trans more

omit [RandomSource γ] in
/-- The rest of a turn at the keys, once the player's own is announced or need not be. -/
def collectMissing (outcome : Outcome) : Turn γ Outcome := do
  if outcome = .skipped then return .skipped
  let player ← get
  let new ← collectKeys (player.session.missingKeys player.address player.ring)
  return if outcome = .idle ∧ new then .observed else outcome

theorem collectMissing_runs (outcome : Outcome) {player : Player γ} {log : Log} (full : (Scene.mk player log).Full) :
    (collectMissing outcome : Turn γ Outcome).Ensures c
      (fun _ next later => Course c ⟨player, log⟩ ⟨next, later⟩) player log := by
  unfold collectMissing
  split
  · exact (ensures_pure ..).2 .refl
  simp only [ensures_bind, ensures_get, ensures_pure]
  refine (collectKeys_runs _ full fun _ => Session.mem_players_of_missingKeys).mono fun result next later more => ?_
  cases result <;> exact more

theorem exchangeKeys_runs : (exchangeKeys : Turn γ Outcome).Runs c := by
  intro player log
  simp only [exchangeKeys, ensures_bind, ensures_get]
  split
  · exact (ensures_pure ..).2 .refl
  rename_i full
  have full : (Scene.mk player log).Full := Nat.le_of_not_lt full
  split
  · exact collectMissing_runs .idle full
  · rename_i recipients asked
    obtain ⟨none, seated, rfl⟩ := Session.keyRecipients?_eq_some asked
    refine (announceKey_runs full seated (by simpa using none)).bind (fun e next later h => h.1) ?_
    rintro outcome next later ⟨announced, same⟩
    -- the announcement leaves the seats as they are
    have full' : (Scene.mk next later).Full := by
      unfold Scene.Full at full ⊢
      dsimp only at full ⊢
      rwa [same.1, same.2.2]
    exact (collectMissing_runs outcome full').mono fun _ _ _ more => announced.trans more

theorem refreshEncryption_ensures {player : Player γ} {log : Log} :
    (refreshEncryption : Turn γ Outcome).Ensures c (fun _ player' log' =>
      Course c ⟨player, log⟩ ⟨player', log'⟩ ∧
        ∃ finishedDeck, player' = { player with finishedDeck }) player log := by
  simp only [refreshEncryption, ensures_bind, ensures_get]
  split
  · exact (ensures_pure ..).2 ⟨.refl, _, rfl⟩
  rename_i unfinished
  rw [not_or, Option.not_isSome_iff_eq_none] at unfinished
  split
  case h_2 => exact (ensures_pure ..).2 ⟨.refl, _, rfl⟩
  rename_i last finishes
  simp only [ensures_bind, ensures_latestDeck?]
  intro seen others
  have looked : Course c ⟨player, log⟩ ⟨player, seen⟩ := .single (.others others)
  refine ⟨?_, fun _ _ => ⟨looked, _, rfl⟩⟩
  cases found : seen.payload? (player.category .shuffle) last with
  | none => exact (ensures_pure ..).2 ⟨looked, _, rfl⟩
  | some payload =>
    cases read : Payload.deck payload with
    | error e =>
      simp only [deckOf, read, Except.map]
      exact ⟨looked, _, rfl⟩
    | ok deck =>
      simp only [deckOf, read, Except.map, ensures_bind, ensures_modify, ensures_pure]
      exact ⟨looked.tail (.finishes unfinished.1 finishes found read (Nat.le_of_not_lt unfinished.2)), _, rfl⟩

/-! ## Decks -/

end Turn

/-- A turn in the chain adds its layer to the input in some order. -/
theorem ShuffleInput.apply_eq {γ : Type} [RandomSource γ] (input : ShuffleInput) (key : Point) (own : Scalar)
    (source : γ) : ∃ shuffled : Deck Scalar, shuffled.entries.Perm input.deck.entries ∧
      (input.apply key own source).1 = shuffled.encrypt key own := by
  rw [ShuffleInput.apply_deck]
  exact ⟨_, input.deck.shuffle_perm source, rfl⟩

/-- The deck that has been looked up is the one that the player's predecessor has handed on. -/
def Player.Looked {γ : Type} (player : Player γ) (log : Log) (previous : Option (Deck Scalar)) : Prop :=
  ∀ deck, previous = some deck → ∃ predecessor payload,
    player.session.chainPredecessor? player.address = some predecessor ∧
    log.payload? (player.category .shuffle) predecessor = some payload ∧ Payload.deck payload = .ok deck

theorem Player.looked_none {γ : Type} (player : Player γ) (log : Log) : player.Looked log none := by
  intro deck some
  cases some

theorem Player.looked_of_deckOf {γ : Type} {player : Player γ} {log : Log} {predecessor : Address}
    {previous : Option (Deck Scalar)} (before : player.session.chainPredecessor? player.address = some predecessor)
    (read : Turn.deckOf (log.payload? (player.category .shuffle) predecessor) = .ok previous) :
    player.Looked log previous := by
  rintro deck rfl
  obtain ⟨payload, found, read⟩ := Turn.deck_of_deckOf read
  exact ⟨predecessor, payload, before, found, read⟩

namespace Turn

variable {γ α : Type} [RandomSource γ] {c : Conditions}

/-- The rest of a turn in the chain, once the predecessor's deck has been looked up. -/
def addLayer (player : Player γ) (signer : Signer) (keys : KeyPair)
    (previous : Option (Deck Scalar)) : Turn γ Outcome := do
  let some step := player.session.shuffleStep? player.address false previous
      (player.session.keysComplete player.ring)
    | return .idle
  let some counterparty := player.ring.get? step.sharedWith | return .skipped
  let deck ← ofExcept (← draw (step.input.apply counterparty keys.secretKey))
  publish signer .shuffle player.session.players (DeckMessage.ofDeck deck).toBytes

theorem addLayer_runs {player : Player γ} {log : Log} {signer : Signer} {keys : KeyPair}
    {previous : Option (Deck Scalar)} (seated : player.address ∈ player.session.players)
    (signs : player.signer = some signer) (held : player.keys = some keys) (looked : player.Looked log previous)
    (unfiled : ∀ later, c.others log later → (Scene.mk player later).Unfiled c .shuffle) :
    (addLayer player signer keys previous).Ensures c
      (fun _ player' log' => Course c ⟨player, log⟩ ⟨player', log'⟩) player log := by
  unfold addLayer
  split
  case h_2 => exact (ensures_pure ..).2 .refl
  rename_i step turn
  split
  case h_2 => exact (ensures_pure ..).2 .refl
  rename_i key shared
  obtain ⟨-, next, -, how⟩ := Session.shuffleStep?_eq_some_iff.1 turn
  rw [ensures_bind]
  refine ensures_draw fun applied source drew => ?_
  simp only [ensures_bind, ensures_ofExcept]
  have drawn : Course c ⟨player, log⟩ ⟨{ player with source }, log⟩ := .single (.draws source (.inl (held ▸ rfl)))
  cases applied with
  | error e => exact drawn
  | ok deck =>
    obtain ⟨shuffled, perm, applied⟩ := step.input.apply_eq key keys.secretKey player.source
    have layered : shuffled.encrypt key keys.secretKey = .ok deck := by rw [← applied, drew]
    simp only [ensures_publish]
    intro later others
    have asked := drawn.tail (.others others)
    have input : (Scene.mk { player with source } later).Input c step.input.deck := by
      rcases how with ⟨deals, complete, plain⟩ | ⟨follows, deck, some, published⟩
      · rw [plain]
        exact .opens deals complete
      · obtain ⟨predecessor, payload, before, found, read⟩ := looked deck some
        rw [published]
        rw [Session.chainPredecessor?, if_neg follows] at before
        exact .follows follows before ⟨log, others, found⟩ read
    have filed := asked.tail (.shuffles ⟨signs, seated, unfiled later others, keys, _, _, key, shuffled, held,
      input, perm, next, shared, layered⟩)
    exact ⟨fun _ => filed, fun _ _ => filed, fun _ _ => asked⟩

theorem shuffle_runs : (shuffle : Turn γ Outcome).Runs c := by
  intro player log
  simp only [shuffle, ensures_bind, ensures_get]
  split
  · exact (ensures_pure ..).2 .refl
  rename_i seated
  have seated : player.address ∈ player.session.players := by
    simpa [Player.isSeated_iff] using seated
  split
  case h_2 => exact (ensures_pure ..).2 .refl
  rename_i signer signs
  split
  case h_2 => exact (ensures_pure ..).2 .refl
  rename_i keys held
  simp only [ensures_bind, ensures_hasPublished]
  intro seen others
  have looked : Course c ⟨player, log⟩ ⟨player, seen⟩ := .single (.others others)
  refine ⟨?_, fun _ _ => looked⟩
  split
  · exact (ensures_pure ..).2 looked
  rename_i unfiled
  have unfiled (later : Log) (others : c.others seen later) : (Scene.mk player later).Unfiled c .shuffle :=
    ⟨seen, others, fun filed => unfiled (decide_eq_true filed)⟩
  split
  · exact (addLayer_runs seated signs held (player.looked_none seen) unfiled).mono fun _ _ _ more =>
      looked.trans more
  · rename_i predecessor before
    simp only [ensures_bind, ensures_latestDeck?]
    intro now others'
    have asked := looked.tail (.others others')
    have unfiled (later : Log) (others : c.others now later) := unfiled later (c.others_trans others' others)
    refine ⟨?_, fun _ _ => asked⟩
    cases read : deckOf (now.payload? (player.category .shuffle) predecessor) with
    | error e => exact asked
    | ok previous =>
      exact (addLayer_runs seated signs held (Player.looked_of_deckOf before read) unfiled).mono fun _ _ _ more =>
        asked.trans more

theorem decrypt_runs : (decrypt : Turn γ Outcome).Runs c := by
  intro player log
  simp only [decrypt, ensures_bind, ensures_get]
  split
  · exact (ensures_pure ..).2 .refl
  rename_i decryptor
  split
  case h_2 => exact (ensures_pure ..).2 .refl
  rename_i signer signs
  split
  case h_2 => exact (ensures_pure ..).2 .refl
  rename_i keys held
  refine refreshEncryption_ensures.bind (fun e player' log' h => h.1) ?_
  rintro _ _ log' ⟨refreshed, finishedDeck, rfl⟩
  simp only [ensures_bind, ensures_get]
  split
  · exact (ensures_pure ..).2 refreshed
  simp only [ensures_bind, ensures_hasPublished]
  intro seen others
  have looked := refreshed.tail (.others others)
  refine ⟨?_, fun _ _ => looked⟩
  split
  · exact (ensures_pure ..).2 looked
  rename_i unfiled
  split
  case h_2 => exact (ensures_pure ..).2 looked
  rename_i step turn
  split
  case h_2 => exact (ensures_pure ..).2 looked
  rename_i key shared
  obtain ⟨-, -, next, -, finished⟩ := Session.decryptionStep?_eq_some_iff.1 turn
  simp only [ensures_bind, ensures_ofExcept]
  cases bared : step.source.decrypt key keys.secretKey with
  | error e => exact looked
  | ok deck =>
    simp only [ensures_publish]
    intro later others'
    have asked := looked.tail (.others others')
    have filed := asked.tail (.decrypts ⟨signs, not_not.1 decryptor,
      ⟨seen, others', fun filed => unfiled (decide_eq_true filed)⟩, keys, step.source, _, key, held,
      finished, next, shared, bared⟩)
    exact ⟨fun _ => filed, fun _ _ => filed, fun _ _ => asked⟩

theorem deal_runs : (deal : Turn γ Outcome).Runs c := by
  intro player log
  simp only [deal, ensures_bind, ensures_get]
  split
  · exact (ensures_pure ..).2 .refl
  split
  · exact (ensures_pure ..).2 .refl
  split
  case h_2 => exact (ensures_pure ..).2 .refl
  rename_i decryptor decrypts
  split
  · exact (ensures_pure ..).2 .refl
  rename_i apart
  simp only [ensures_bind, ensures_latestDeck?]
  intro seen others
  have looked : Course c ⟨player, log⟩ ⟨player, seen⟩ := .single (.others others)
  refine ⟨?_, fun _ _ => looked⟩
  cases found : seen.payload? (player.category .decrypt) decryptor with
  | none => exact (ensures_pure ..).2 looked
  | some payload =>
    cases read : Payload.deck payload with
    | error e =>
      simp only [deckOf, read, Except.map]
      exact looked
    | ok deck =>
      simp only [deckOf, read, Except.map]
      split
      case h_2 => exact (ensures_throw ..).2 looked
      rename_i hand dealt
      simp only [ensures_bind, ensures_set, ensures_pure]
      exact looked.tail (.deals decrypts found read dealt apart)

theorem updateSession_runs : (updateSession : Turn γ Outcome).Runs c := by
  refine refreshPlayers_runs.bind fun _ player log => ?_
  simp only [ensures_bind, ensures_get]
  split
  · exact (ensures_pure ..).2 .refl
  refine refreshEncryption_ensures.bind (fun e player' log' h => h.1) ?_
  rintro _ player' log' ⟨refreshed, -⟩
  simp only [ensures_bind, ensures_get]
  split
  · exact (ensures_pure ..).2 refreshed
  · simp only [ensures_bind, ensures_set, ensures_pure]
    exact refreshed.tail (.observes _ _ rfl)

theorem everything_runs : (everything : Turn γ Phase).Runs c := by
  refine join_runs.attempt.bind fun _ => updateSession_runs.attempt.bind fun _ =>
    exchangeKeys_runs.attempt.bind fun _ => shuffle_runs.attempt.bind fun _ =>
    decrypt_runs.attempt.bind fun _ => deal_runs.attempt.bind fun _ =>
    updateSession_runs.attempt.bind fun _ player log => ?_
  simp only [ensures_bind, ensures_get, ensures_pure]
  exact .refl

end Turn

/-- Whatever a player is told to do, it does by acts. -/
theorem Move.turn_runs {γ : Type} [RandomSource γ] {c : Conditions} (move : Move) :
    (move.turn (γ := γ)).Runs c := by
  have outcome {turn : Turn γ Outcome} (h : turn.Runs c) : (Report.outcome <$> turn).Runs c := by
    intro player log
    rw [Turn.ensures_map]
    exact h player log
  cases move with
  | join => exact outcome Turn.join_runs
  | refreshPlayers => exact outcome Turn.refreshPlayers_runs
  | exchangeKeys => exact outcome Turn.exchangeKeys_runs
  | shuffle => exact outcome Turn.shuffle_runs
  | refreshEncryption =>
    exact outcome fun player log => Turn.refreshEncryption_ensures.mono fun _ _ _ h => h.1
  | decrypt => exact outcome Turn.decrypt_runs
  | deal => exact outcome Turn.deal_runs
  | updateSession => exact outcome Turn.updateSession_runs
  | everything =>
    intro player log
    rw [Move.turn, Turn.ensures_map]
    exact Turn.everything_runs player log

end MentalPoker
