/-
What turns leave alone. Whatever a turn is answered, it makes requests of a few kinds only and changes
a few fields of the player; so whatever those requests and fields do not bear on stays as it is. Only a
turn that refreshes the seats asks who has joined, and no other touches them.
-/
import MentalPoker.Proofs.Player.Course

namespace MentalPoker

/-! ## Requests that are made -/

/-- Any answer will do, and the requests are noted. -/
def Manner.any : Manner (List Request) := fun made request _ after => after = made ++ [request]

/-- The request looks up a transaction. -/
def Request.Reads : Request → Prop
  | latestBySender .. => True
  | _ => False

/-- The request files nothing. -/
def Request.Asks : Request → Prop
  | publish .. => False
  | _ => True

/-- A question leaves the log as it is. -/
theorem Conditions.Exchange.same_of_asks {c : Conditions} {log after : Log} {request : Request}
    {answer : request.Answer} (exchange : c.Exchange log request answer after) (asks : request.Asks) :
    after = log := by
  cases request with
  | publish => exact asks.elim
  | latestBySender => exact exchange.1
  | sendersTo => exact exchange.1

/-- The request looks up a transaction, or files one of the player's for the step. -/
def Player.Files {γ : Type} (player : Player γ) (step : Step) : Request → Prop
  | .latestBySender .. => True
  | .publish signer category _ _ => player.signer = some signer ∧ category = player.category step
  | .sendersTo .. => False

namespace Turn

variable {γ α β σ : Type} {m : Manner σ}

/-- Whatever it is answered, the turn makes requests of one kind only and changes the player in one way
only. -/
def Within (R : Request → Prop) (C : Player γ → Prop) (turn : Turn γ α) (player : Player γ) : Prop :=
  turn.Yields .any (fun _ next made => C next ∧ ∀ request ∈ made, R request) player []

/-- What no request of the kind takes away, the turn leaves. -/
theorem Within.yields {R : Request → Prop} {C : Player γ → Prop} {S : σ → σ → Prop}
    (refl : ∀ s, S s s) (trans : ∀ {a b c}, S a b → S b c → S a c)
    (keeps : ∀ {s request answer after}, R request → m s request answer after → S s after)
    {turn : Turn γ α} {player : Player γ} (within : turn.Within R C player) (s : σ) :
    turn.Yields m (fun _ next after => C next ∧ S s after) player s := by
  have related {made : List Request} {t : σ} (sofar : (∀ request ∈ made, R request) → S s t)
      (request : Request) (answer : request.Answer) (t' : σ) (answered : m t request answer t') :
      ∃ made', made' = made ++ [request] ∧ ((∀ request ∈ made', R request) → S s t') := by
    refine ⟨_, rfl, fun all => ?_⟩
    rw [List.forall_mem_append, List.forall_mem_singleton] at all
    exact trans (sofar all.1) (keeps all.2 answered)
  refine ⟨(Dialogue.Yields.transfer related within.run fun _ => refl s).mono ?_⟩
  rintro ⟨result, next⟩ t ⟨made, ⟨changed, all⟩, sofar⟩
  exact ⟨changed, sofar all⟩

/-- However its requests are answered, the turn changes the player in this way only. -/
theorem Within.take {R : Request → Prop} {C : Player γ → Prop} {turn : Turn γ α} {player : Player γ}
    (within : turn.Within R C player) (answer : (request : Request) → σ → request.Answer × σ) (s : σ) :
    C (turn.take answer player s).2.1 := by
  have yields : turn.Yields (fun _ _ _ _ => True) (fun _ next _ => C next ∧ True) player s :=
    within.yields (S := fun _ _ => True) (fun _ => trivial) (fun _ _ => trivial) (fun _ _ => trivial) s
  exact (yields.take_any answer).1

/-- One turn after another makes the requests of both. -/
theorem Within.bind {R : Request → Prop} {C D : Player γ → Prop} {turn : Turn γ α} {next : α → Turn γ β}
    {player : Player γ} (first : turn.Within R C player) (fails : ∀ player, C player → D player)
    (second : ∀ a player, C player → (next a).Within R D player) : (turn >>= next).Within R D player := by
  refine Yields.bind first (fun _ player made h => ⟨fails player h.1, h.2⟩) ?_
  rintro a player made ⟨changed, all⟩
  refine ((second a player changed).yields
    (S := fun made after => (∀ request ∈ made, R request) → ∀ request ∈ after, R request) (fun _ h => h)
    (fun h h' sofar => h' (h sofar)) ?_ made).mono ?_
  · rintro made request answer _ kind rfl sofar
    exact List.forall_mem_append.2 ⟨sofar, List.forall_mem_singleton.2 kind⟩
  · exact fun _ player after h => ⟨h.1, h.2 all⟩

theorem Within.mono {R S : Request → Prop} {C D : Player γ → Prop} {turn : Turn γ α} {player : Player γ}
    (within : turn.Within R C player) (kinds : ∀ request, R request → S request)
    (changes : ∀ player, C player → D player) : turn.Within S D player :=
  Yields.mono (fun _ player _ h => ⟨changes player h.1, fun request made => kinds request (h.2 request made)⟩)
    within

theorem within_pure {R : Request → Prop} {C : Player γ → Prop} {player : Player γ} {a : α} (h : C player) :
    (pure a : Turn γ α).Within R C player :=
  (yields_pure ..).2 ⟨h, by simp⟩

theorem within_throw {R : Request → Prop} {C : Player γ → Prop} {player : Player γ} {e : DealError}
    (h : C player) : (throw e : Turn γ α).Within R C player :=
  (yields_throw ..).2 ⟨h, by simp⟩

theorem within_get {R : Request → Prop} {C : Player γ → Prop} {player : Player γ} {next : Player γ → Turn γ α}
    (h : (next player).Within R C player) : (get >>= next).Within R C player := by
  rw [Within, yields_bind, yields_get]
  exact h

/-! ## The parts of turns -/

section

variable {player : Player γ} {s : σ}

theorem yields_hasPublished (Q : Except DealError Bool → Player γ → σ → Prop) (step : Step) :
    (hasPublished step).Yields m Q player s ↔ ∀ answer after,
      m s (.latestBySender (player.category step) player.address) answer after →
        Q ((answer.mapError .ledger).map (·.isSome)) player after := by
  simp only [hasPublished, yields_bind, yields_get, yields_askLatest, yields_pure]
  refine forall₃_congr fun answer after _ => ?_
  cases answer <;> exact Iff.rfl

theorem yields_latestDeck? (Q : Except DealError (Option (Deck Scalar)) → Player γ → σ → Prop) (step : Step)
    (sender : Address) :
    (latestDeck? step sender).Yields m Q player s ↔ ∀ answer after,
      m s (.latestBySender (player.category step) sender) answer after →
        Q ((answer.mapError .ledger).bind deckOf) player after := by
  simp only [latestDeck?, yields_bind, yields_get, yields_askLatest]
  refine forall₃_congr fun answer after _ => ?_
  rcases answer with e | _ | payload
  · exact Iff.rfl
  · exact yields_pure Q player after none
  · simp only [Except.mapError, Except.bind, yields_bind, yields_ofExcept, yields_pure, deckOf, Payload.deck]
    cases DeckMessage.ofBytes payload with
    | error e => exact Iff.rfl
    | ok message => cases h : message.deck <;> simp [Except.map, h]

theorem yields_publish (Q : Except DealError Outcome → Player γ → σ → Prop) (signer : Signer) (step : Step)
    (recipients : List Address) (payload : Bytes) :
    (publish signer step recipients payload).Yields m Q player s ↔ ∀ answer after,
      m s (.publish signer (player.category step) recipients payload) answer after →
        Q ((answer.mapError .ledger).map .published) player after := by
  simp only [publish, yields_bind, yields_get, yields_askPublish, yields_pure]
  refine forall₃_congr fun answer after _ => ?_
  cases answer <;> exact Iff.rfl

theorem take_hasPublished (answer : (request : Request) → σ → request.Answer × σ) (step : Step) :
    (hasPublished step).take answer player s =
      (((answer (.latestBySender (player.category step) player.address) s).1.mapError .ledger).map (·.isSome), player,
        (answer (.latestBySender (player.category step) player.address) s).2) := by
  simp only [hasPublished, take_bind, take_get, take_askLatest]
  cases (answer (.latestBySender (player.category step) player.address) s).1 <;> rfl

theorem take_latestDeck? (answer : (request : Request) → σ → request.Answer × σ) (step : Step) (sender : Address) :
    (latestDeck? step sender).take answer player s =
      (((answer (.latestBySender (player.category step) sender) s).1.mapError .ledger).bind deckOf, player,
        (answer (.latestBySender (player.category step) sender) s).2) := by
  simp only [latestDeck?, take_bind, take_get, take_askLatest]
  rcases (answer (.latestBySender (player.category step) sender) s).1 with e | _ | payload
  · rfl
  · rfl
  · simp only [Except.mapError, take_bind, take_ofExcept, take_pure, Except.bind, deckOf, Payload.deck]
    cases DeckMessage.ofBytes payload with
    | error e => rfl
    | ok message => cases h : message.deck <;> simp [Except.map, h]

theorem hasPublished_within {R : Request → Prop} (step : Step) (reads : ∀ request, request.Reads → R request) :
    (hasPublished step).Within R (· = player) player := by
  rw [Within, yields_hasPublished]
  rintro answer _ rfl
  exact ⟨rfl, by simpa using reads (.latestBySender _ _) trivial⟩

theorem latestDeck?_within {R : Request → Prop} (step : Step) (sender : Address)
    (reads : ∀ request, request.Reads → R request) : (latestDeck? step sender).Within R (· = player) player := by
  rw [Within, yields_latestDeck?]
  rintro answer _ rfl
  exact ⟨rfl, by simpa using reads (.latestBySender _ _) trivial⟩

theorem publish_within {signer : Signer} (signs : player.signer = some signer) (step : Step)
    (recipients : List Address) (payload : Bytes) :
    (publish signer step recipients payload).Within (player.Files step) (· = player) player := by
  rw [Within, yields_publish]
  rintro answer _ rfl
  exact ⟨rfl, by simp [Player.Files, signs]⟩

end

theorem asks_of_reads (request : Request) (reads : request.Reads) : request.Asks := by
  cases request with
  | latestBySender => trivial
  | publish => exact reads.elim
  | sendersTo => exact reads.elim

/-- Looking up is allowed whatever is filed. -/
theorem files_of_reads {player : Player γ} {step : Step} (request : Request) (reads : request.Reads) :
    player.Files step request := by
  cases request with
  | latestBySender => trivial
  | publish => exact reads.elim
  | sendersTo => exact reads.elim

/-! ## Turns -/

theorem join_within (player : Player γ) :
    (join : Turn γ Outcome).Within (player.Files .join) (· = player) player := by
  refine within_get ?_
  split
  · exact within_pure rfl
  refine (hasPublished_within .join files_of_reads).bind (fun _ h => h) ?_
  rintro published _ rfl
  split
  · exact within_pure rfl
  split
  · exact publish_within ‹_› ..
  · exact within_pure rfl

theorem refreshPlayers_within (player : Player γ) :
    (refreshPlayers : Turn γ Outcome).Within Request.Asks
      (fun next => next = player ∨ ∃ joined, next = player.seated joined) player := by
  simp only [Within, refreshPlayers, yields_bind, yields_get, yields_askSenders, yields_set, yields_pure]
  rintro (e | joined) _ rfl
  · simp [Except.mapError, Request.Asks]
  · exact ⟨.inr ⟨joined, rfl⟩, by simp [Request.Asks]⟩

theorem announceKey_within [RandomSource γ] (player : Player γ) (recipients : List Address) :
    (announceKey recipients).Within (player.Files .publicKey)
      (fun next => ∃ keys source, next = { player with keys, source }) player := by
  refine within_get ?_
  split
  case h_2 => exact within_pure ⟨_, _, rfl⟩
  rename_i signer signs
  refine (hasPublished_within .publicKey files_of_reads).bind (by rintro _ rfl; exact ⟨_, _, rfl⟩) ?_
  rintro published _ rfl
  split
  · exact within_pure ⟨_, _, rfl⟩
  rw [Within, yields_bind]
  refine yields_draw fun keys source drew => ?_
  simp only [yields_bind, yields_ofExcept]
  cases KeyMessage.ofPoint keys.publicKey with
  | error e => exact ⟨⟨_, _, rfl⟩, by simp⟩
  | ok message =>
    simp only [yields_publish, yields_modify, yields_pure]
    rintro (e | id) _ rfl
    · exact ⟨⟨_, _, rfl⟩, by simp [Player.Files, Player.category, signs]⟩
    · exact ⟨⟨_, _, rfl⟩, by simp [Player.Files, Player.category, signs]⟩

theorem collectKey_within (player : Player γ) (other : Address) :
    (collectKey other).Within Request.Reads (fun next => ∃ ring, next = { player with ring }) player := by
  simp only [Within, collectKey, yields_bind, yields_get, yields_askLatest]
  rintro (e | latest) _ rfl
  · exact ⟨⟨_, rfl⟩, by simp [Request.Reads]⟩
  cases latest with
  | none => exact (yields_pure ..).2 ⟨⟨_, rfl⟩, by simp [Request.Reads]⟩
  | some payload =>
    simp only [Except.mapError]
    cases (KeyMessage.ofBytes payload).bind KeyMessage.point with
    | error e => exact (yields_pure ..).2 ⟨⟨_, rfl⟩, by simp [Request.Reads]⟩
    | ok key =>
      simp only [yields_bind, yields_get, yields_set, yields_pure]
      exact ⟨⟨_, rfl⟩, by simp [Request.Reads]⟩

theorem collectKeys_within (wanted : List Address) : ∀ player : Player γ,
    (collectKeys wanted).Within Request.Reads (fun next => ∃ ring, next = { player with ring }) player := by
  induction wanted with
  | nil => exact fun player => within_pure ⟨_, rfl⟩
  | cons other wanted ih =>
    intro player
    refine (collectKey_within player other).bind (fun _ h => h) ?_
    rintro _ _ ⟨ring, rfl⟩
    refine (ih _).bind (fun _ h => h) ?_
    rintro _ _ ⟨ring, rfl⟩
    exact within_pure ⟨_, rfl⟩

theorem collectMissing_within (player : Player γ) (outcome : Outcome) :
    (collectMissing outcome).Within Request.Reads (fun next => ∃ ring, next = { player with ring }) player := by
  unfold collectMissing
  split
  · exact within_pure ⟨_, rfl⟩
  refine within_get ((collectKeys_within _ _).bind (fun _ h => h) ?_)
  rintro _ _ ⟨ring, rfl⟩
  exact within_pure ⟨_, rfl⟩

theorem exchangeKeys_within [RandomSource γ] (player : Player γ) :
    (exchangeKeys : Turn γ Outcome).Within (player.Files .publicKey)
      (fun next => ∃ keys ring source, next = { player with keys, ring, source }) player := by
  -- whatever became of the announcement, the keys of the others are collected
  have collects (outcome : Outcome) (keys : Option KeyPair) (source : γ) : (collectMissing outcome).Within
      (player.Files .publicKey) (fun next => ∃ keys ring source, next = { player with keys, ring, source })
      { player with keys, source } := by
    refine (collectMissing_within _ outcome).mono files_of_reads ?_
    rintro _ ⟨ring, rfl⟩
    exact ⟨_, _, _, rfl⟩
  refine within_get ?_
  split
  · exact within_pure ⟨_, _, _, rfl⟩
  split
  · exact collects .idle player.keys player.source
  · refine (announceKey_within player _).bind ?_ ?_
    · rintro _ ⟨keys, source, rfl⟩
      exact ⟨_, _, _, rfl⟩
    · rintro outcome _ ⟨keys, source, rfl⟩
      exact collects outcome keys source

theorem addLayer_within [RandomSource γ] {player : Player γ} {signer : Signer} (signs : player.signer = some signer)
    (keys : KeyPair) (previous : Option (Deck Scalar)) :
    (addLayer player signer keys previous).Within (player.Files .shuffle)
      (fun next => ∃ source, next = { player with source }) player := by
  unfold addLayer
  split
  case h_2 => exact within_pure ⟨_, rfl⟩
  split
  case h_2 => exact within_pure ⟨_, rfl⟩
  rw [Within, yields_bind]
  refine yields_draw fun applied source drew => ?_
  simp only [yields_bind, yields_ofExcept]
  cases applied with
  | error e => exact ⟨⟨source, rfl⟩, by simp⟩
  | ok deck =>
    simp only [yields_publish]
    rintro answer _ rfl
    exact ⟨⟨source, rfl⟩, by simp [Player.Files, Player.category, signs]⟩

theorem shuffle_within [RandomSource γ] (player : Player γ) :
    (shuffle : Turn γ Outcome).Within (player.Files .shuffle) (fun next => ∃ source, next = { player with source })
      player := by
  have same : ∃ source, player = { player with source } := ⟨_, rfl⟩
  refine within_get ?_
  split
  · exact within_pure same
  split
  case h_2 => exact within_pure same
  rename_i signer signs
  split
  case h_2 => exact within_pure same
  rename_i keys held
  refine (hasPublished_within .shuffle files_of_reads).bind (by rintro _ rfl; exact same) ?_
  rintro published _ rfl
  split
  · exact within_pure same
  split
  · exact addLayer_within signs keys none
  · refine (latestDeck?_within .shuffle _ files_of_reads).bind (by rintro _ rfl; exact same) ?_
    rintro previous _ rfl
    exact addLayer_within signs keys previous

theorem refreshEncryption_within (player : Player γ) :
    (refreshEncryption : Turn γ Outcome).Within Request.Reads
      (fun next => ∃ finishedDeck, next = { player with finishedDeck }) player := by
  refine within_get ?_
  split
  · exact within_pure ⟨_, rfl⟩
  split
  case h_2 => exact within_pure ⟨_, rfl⟩
  refine (latestDeck?_within .shuffle _ fun _ h => h).bind (by rintro _ rfl; exact ⟨_, rfl⟩) ?_
  rintro (_ | deck) _ rfl
  · exact within_pure ⟨_, rfl⟩
  · rw [Within, yields_bind, yields_modify, yields_pure]
    exact ⟨⟨_, rfl⟩, by simp⟩

/-- Bringing the session up to date bears on the session, the finished deck and the phase. -/
theorem updateSession_within (player : Player γ) :
    (updateSession : Turn γ Outcome).Within Request.Asks
      (fun next => ∃ session finishedDeck announced, next = { player with session, finishedDeck, announced })
      player := by
  have refreshed : (refreshPlayers : Turn γ Outcome).Within Request.Asks
      (fun next => ∃ session, next = { player with session }) player := by
    refine (refreshPlayers_within player).mono (fun _ h => h) ?_
    rintro _ (rfl | ⟨joined, rfl⟩)
    · exact ⟨_, rfl⟩
    · exact ⟨_, rfl⟩
  refine refreshed.bind ?_ ?_
  · rintro _ ⟨session, rfl⟩
    exact ⟨_, _, _, rfl⟩
  rintro _ _ ⟨session, rfl⟩
  refine within_get ?_
  split
  · exact within_pure ⟨_, _, _, rfl⟩
  refine ((refreshEncryption_within _).mono asks_of_reads fun _ h => h).bind ?_ ?_
  · rintro _ ⟨finishedDeck, rfl⟩
    exact ⟨_, _, _, rfl⟩
  rintro _ _ ⟨finishedDeck, rfl⟩
  refine within_get ?_
  dsimp only
  split
  · exact within_pure ⟨_, _, _, rfl⟩
  · rw [Within, yields_bind, yields_set, yields_pure]
    exact ⟨⟨_, _, _, rfl⟩, by simp⟩

theorem decrypt_within (player : Player γ) :
    (decrypt : Turn γ Outcome).Within (player.Files .decrypt)
      (fun next => ∃ finishedDeck, next = { player with finishedDeck }) player := by
  refine within_get ?_
  split
  · exact within_pure ⟨_, rfl⟩
  split
  case h_2 => exact within_pure ⟨_, rfl⟩
  rename_i signer signs
  split
  case h_2 => exact within_pure ⟨_, rfl⟩
  rename_i keys held
  refine ((refreshEncryption_within player).mono files_of_reads fun _ h => h).bind (fun _ h => h) ?_
  rintro _ _ ⟨finishedDeck, rfl⟩
  refine within_get ?_
  split
  · exact within_pure ⟨_, rfl⟩
  refine (hasPublished_within .decrypt files_of_reads).bind (by rintro _ rfl; exact ⟨_, rfl⟩) ?_
  rintro published _ rfl
  split
  · exact within_pure ⟨_, rfl⟩
  split
  case h_2 => exact within_pure ⟨_, rfl⟩
  split
  case h_2 => exact within_pure ⟨_, rfl⟩
  rw [Within, yields_bind, yields_ofExcept]
  split
  · rw [yields_publish]
    rintro answer _ rfl
    exact ⟨⟨_, rfl⟩, by simp [Player.Files, Player.category, signs]⟩
  · exact ⟨⟨_, rfl⟩, by simp⟩

theorem deal_within (player : Player γ) :
    (deal : Turn γ Outcome).Within Request.Reads
      (fun next => ∃ hand, next = { player with session := { player.session with hand } }) player := by
  refine within_get ?_
  dsimp only
  split
  · exact within_pure ⟨_, rfl⟩
  split
  · exact within_pure ⟨_, rfl⟩
  split
  case h_2 => exact within_pure ⟨_, rfl⟩
  split
  · exact within_pure ⟨_, rfl⟩
  refine (latestDeck?_within .decrypt _ fun _ h => h).bind (by rintro _ rfl; exact ⟨_, rfl⟩) ?_
  rintro (_ | deck) _ rfl
  · exact within_pure ⟨_, rfl⟩
  dsimp only
  split
  case h_2 => exact within_throw ⟨_, rfl⟩
  rw [Within, yields_bind, yields_set, yields_pure]
  refine ⟨?_, by simp⟩
  unfold Session.setHand
  split
  · exact ⟨_, rfl⟩
  · exact ⟨_, rfl⟩

/-! ## Moves -/

/-- Every turn that a player can be told to take on its own keeps the property. -/
structure AllKeep [RandomSource γ] (m : Manner σ) (I : Player γ → σ → Prop) : Prop where
  join : (join : Turn γ Outcome).Keeps m I
  refreshPlayers : (refreshPlayers : Turn γ Outcome).Keeps m I
  exchangeKeys : (exchangeKeys : Turn γ Outcome).Keeps m I
  shuffle : (shuffle : Turn γ Outcome).Keeps m I
  refreshEncryption : (refreshEncryption : Turn γ Outcome).Keeps m I
  decrypt : (decrypt : Turn γ Outcome).Keeps m I
  deal : (deal : Turn γ Outcome).Keeps m I
  updateSession : (updateSession : Turn γ Outcome).Keeps m I

end Turn

/-- What every turn on its own keeps, every move keeps, a turn at everything included. -/
theorem Move.turn_keeps {γ σ : Type} [RandomSource γ] {m : Manner σ} {I : Player γ → σ → Prop}
    (keep : Turn.AllKeep m I) (move : Move) : (move.turn (γ := γ)).Keeps m I := by
  have phase : (do return (← get).session.phase : Turn γ Phase).Keeps m I := by
    intro player s holds
    simp only [Turn.yields_bind, Turn.yields_get, Turn.yields_pure]
    exact holds
  cases move with
  | join => exact keep.join.map _
  | refreshPlayers => exact keep.refreshPlayers.map _
  | exchangeKeys => exact keep.exchangeKeys.map _
  | shuffle => exact keep.shuffle.map _
  | refreshEncryption => exact keep.refreshEncryption.map _
  | decrypt => exact keep.decrypt.map _
  | deal => exact keep.deal.map _
  | updateSession => exact keep.updateSession.map _
  | everything =>
    exact (keep.join.attempt.bind fun _ => keep.updateSession.attempt.bind fun _ =>
      keep.exchangeKeys.attempt.bind fun _ => keep.shuffle.attempt.bind fun _ =>
      keep.decrypt.attempt.bind fun _ => keep.deal.attempt.bind fun _ =>
      keep.updateSession.attempt.bind fun _ => phase).map _

end MentalPoker
