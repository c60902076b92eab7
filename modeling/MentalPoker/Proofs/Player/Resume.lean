/-
Turns that settle and resume. A turn that has gone through changes nothing when it is taken again, and one
that breaks off at a question comes, when it is taken again, to where it would have come at once: what it
has done until then is done, and it asks the same. Here are the turns at the seats, the decks, the hand and
the session, each with what it comes to on a ledger that nothing happens to.
-/
import MentalPoker.Proofs.Game.Seating
import MentalPoker.Proofs.Player.Hitch

namespace MentalPoker

variable {γ α β : Type}

/-- What the facts speak for is reached at once. -/
theorem Phase.later_later (a b : Phase) : (a.later b).later b = a.later b := by
  cases a <;> cases b <;> rfl

/-! ## Seats -/

namespace Player

/-- Nobody who has joined is to be seated, and the dealer is the one who is wished for, if that one sits. -/
structure Placed (player : Player γ) (joined : List Address) : Prop where
  all : player.session.isFull = true ∨ ∀ a ∈ joined, a ∈ player.session.players
  dealer : ∀ wished, player.preferredDealer = some wished → wished ∈ player.session.players →
    player.session.dealer = wished

/-- Seating people leaves the dealer, or lets the one who is wished for deal. -/
theorem seated_eq (player : Player γ) (joined : List Address) : ∃ dealer,
    player.seated joined = { player with session := { player.session.seatAll joined with dealer } } ∧
      (dealer = (player.session.seatAll joined).dealer ∨
        player.preferredDealer = some dealer ∧ dealer ∈ (player.session.seatAll joined).players) ∧
      ∀ wished, player.preferredDealer = some wished → wished ∈ (player.session.seatAll joined).players →
        dealer = wished := by
  unfold seated
  split
  · rename_i none
    refine ⟨_, rfl, .inl rfl, fun wished wish => ?_⟩
    rw [none] at wish
    cases wish
  · rename_i wished wish
    by_cases sits : wished ∈ (player.session.seatAll joined).players
    · refine ⟨wished, ?_, .inr ⟨wish, sits⟩, fun _ wish' _ => Option.some.inj (wish.symm.trans wish')⟩
      simp [Session.setDealer, Session.isSeated, sits, Except.toOption]
    · refine ⟨_, ?_, .inl rfl, fun _ wish' sits' => absurd (Option.some.inj (wish.symm.trans wish') ▸ sits') sits⟩
      simp [Session.setDealer, Session.isSeated, sits, Except.toOption]

theorem Placed.seated {player : Player γ} {joined : List Address} (placed : player.Placed joined) :
    player.seated joined = player := by
  obtain ⟨dealer, same, how, -⟩ := player.seated_eq joined
  rw [Session.seatAll_of_settled placed.all] at same how
  have unchanged : dealer = player.session.dealer := by
    rcases how with kept | ⟨wish, sits⟩
    · exact kept
    · exact (placed.dealer dealer wish sits).symm
  rw [same, unchanged]

theorem seated_placed (player : Player γ) (joined : List Address) : (player.seated joined).Placed joined := by
  obtain ⟨dealer, same, -, wish⟩ := player.seated_eq joined
  rw [same]
  exact ⟨Session.seatAll_settled player.session joined, wish⟩

end Player

namespace Turn

/-! ## Turns that settle and resume -/

/-- If the turn goes through, it does so again and changes nothing. -/
def Settles (turn : Turn γ α) (player : Player γ) (log : Log) : Prop :=
  ∀ a next later, turn.take Log.answer player log = (.ok a, next, later) →
    ∃ b, turn.take Log.answer next later = (.ok b, next, later)

/-- Taken from where it stands, the turn comes to where it comes from the start. -/
def Resumes (turn : Turn γ α) (player : Player γ) (log : Log) (next : Player γ) (later : Log) : Prop :=
  (turn.take Log.answer next later).2 = (turn.take Log.answer player log).2

/-- What is left behind when a transaction is not filed. -/
def Unfiled (finds : Prop) (player : Player γ) (log : Log) (next : Player γ) (later : Log) : Prop :=
  later = log ∧ ∃ source finishedDeck, next = { player with source, finishedDeck } ∧
    (¬ finds → finishedDeck = player.finishedDeck)

/-- The turn can be tried again, wherever it has broken off. -/
structure Retriable (finds : Prop) (turn : Turn γ α) (player : Player γ) (log : Log) : Prop where
  settles : turn.Settles player log
  breaks : turn.Breaks (turn.Resumes player log) (Unfiled finds player log) player log

section

variable {finds : Prop} {player : Player γ} {log : Log}

theorem resumes_refl (turn : Turn γ α) (player : Player γ) (log : Log) : turn.Resumes player log player log := rfl

theorem unfiled_source (source : γ) : Unfiled finds player log { player with source } log :=
  ⟨rfl, source, player.finishedDeck, rfl, fun _ => rfl⟩

/-- A turn settles that has changed nothing, or is idle from then on. -/
theorem settles_of_comes {turn : Turn γ α} (comes : turn.Comes (fun _ next later => (next, later) = (player, log) ∨
    ∃ b, turn.take Log.answer next later = (.ok b, next, later)) player log) : turn.Settles player log := by
  intro a next later taken
  rcases comes a next later taken with same | again
  · cases same
    exact ⟨a, taken⟩
  · exact again

theorem Retriable.map {turn : Turn γ α} (h : turn.Retriable finds player log) (f : α → β) :
    (f <$> turn).Retriable finds player log := by
  have resumes (next : Player γ) (later : Log) (h : turn.Resumes player log next later) :
      (f <$> turn).Resumes player log next later := by
    rw [Resumes, take_map, take_map]
    exact h
  refine ⟨?_, ?_⟩
  · intro a next later taken
    rw [take_map] at taken
    generalize went : turn.take Log.answer player log = run at taken
    obtain ⟨_ | b, next', later'⟩ := run
    · cases taken
    · cases taken
      obtain ⟨c, again⟩ := h.settles b next later went
      exact ⟨f c, by rw [take_map, again]; rfl⟩
  · rw [map_eq_pure_bind]
    refine Breaks.bind (h.breaks.mono ?_ fun _ _ h => h) fun a _ _ _ => breaks_pure (f a)
    intro next later stands
    rw [← map_eq_pure_bind]
    exact resumes next later stands

/-! ## Turns on their own -/

/-- A transaction of the player's own is found when it is asked for again. -/
theorem published_of_filed (player : Player γ) (log : Log) {signer : Signer}
    (own : signer.address = player.address) (step : Step) (recipients : List Address) (payload : Bytes) :
    ((log ++ [Log.filing log signer (player.category step) recipients payload]).payload? (player.category step)
      player.address).isSome = true := by
  rw [Log.payload?_append_of_eq (by rfl) (by exact own)]
  rfl

theorem join_retriable (own : ∀ signer, player.signer = some signer → signer.address = player.address) :
    (join : Turn γ Outcome).Retriable finds player log := by
  refine ⟨settles_of_comes (comes_get ?_), breaks_get ?_⟩
  · split
    · exact comes_pure (.inl rfl)
    rename_i newcomer
    refine comes_hasPublished ?_
    split
    · exact comes_pure (.inl rfl)
    split
    · rename_i signer signs
      refine comes_publish (.inr ⟨.idle, ?_⟩)
      simp [join, newcomer, published_of_filed player log (own signer signs)]
    · exact comes_pure (.inl rfl)
  · split
    · exact breaks_pure _
    refine breaks_hasPublished (resumes_refl ..) ?_
    split
    · exact breaks_pure _
    split
    · exact breaks_publish (unfiled_source player.source)
    · exact breaks_pure _

theorem refreshPlayers_take (player : Player γ) (log : Log) : ∃ outcome,
    (refreshPlayers : Turn γ Outcome).take Log.answer player log =
      (.ok outcome, player.seated (log.sendersTo (player.category .join) player.session.creator), log) :=
  ⟨_, rfl⟩

theorem refreshPlayers_of_placed (player : Player γ) (log : Log)
    (placed : player.Placed (log.sendersTo (player.category .join) player.session.creator)) :
    ∃ outcome, (refreshPlayers : Turn γ Outcome).take Log.answer player log = (.ok outcome, player, log) := by
  obtain ⟨outcome, taken⟩ := refreshPlayers_take player log
  rw [placed.seated] at taken
  exact ⟨outcome, taken⟩

theorem refreshPlayers_settles : (refreshPlayers : Turn γ Outcome).Settles player log := by
  intro a next later taken
  obtain ⟨outcome, took⟩ := refreshPlayers_take player log
  cases took.symm.trans taken
  have same := player.seated_same (log.sendersTo (player.category .join) player.session.creator)
  refine refreshPlayers_of_placed _ _ ?_
  rw [same.category, same.creator]
  exact player.seated_placed _

theorem refreshPlayers_breaks {asked unfiled : Player γ → Log → Prop} (asking : asked player log) :
    (refreshPlayers : Turn γ Outcome).Breaks asked unfiled player log := by
  refine breaks_get (Breaks.bind (breaks_ask (fun _ => asking) fun files => absurd trivial files) ?_)
  intro joined _ _ _
  exact (breaks_set _).bind fun _ _ _ _ => breaks_pure _

theorem refreshPlayers_retriable : (refreshPlayers : Turn γ Outcome).Retriable finds player log :=
  ⟨refreshPlayers_settles, refreshPlayers_breaks (resumes_refl ..)⟩

theorem addLayer_breaks [RandomSource γ] {asked : Player γ → Log → Prop} {signer : Signer} {keys : KeyPair}
    {previous : Option (Deck Scalar)} :
    (addLayer player signer keys previous).Breaks asked (Unfiled finds player log) player log := by
  unfold addLayer
  split
  case h_2 => exact breaks_pure _
  split
  case h_2 => exact breaks_pure _
  refine (breaks_draw _).bind ?_
  rintro applied _ _ ⟨⟩
  refine (breaks_ofExcept _).bind ?_
  intro deck next later taken
  rw [take_ofExcept, Prod.mk.injEq, Prod.mk.injEq] at taken
  obtain ⟨-, rfl, rfl⟩ := taken
  exact breaks_publish (unfiled_source _)

/-- Whoever adds a layer has filed it or has changed nothing. -/
theorem addLayer_comes [RandomSource γ] {signer : Signer} {keys : KeyPair} {previous : Option (Deck Scalar)} :
    (addLayer player signer keys previous).Comes (fun _ next later => (next, later) = (player, log) ∨
      ∃ source recipients payload, next = { player with source } ∧
        later = log ++ [Log.filing log signer (player.category .shuffle) recipients payload]) player log := by
  unfold addLayer
  split
  case h_2 => exact comes_pure (.inl rfl)
  split
  case h_2 => exact comes_pure (.inl rfl)
  refine comes_draw fun applied source => comes_ofExcept fun deck _ => ?_
  exact comes_publish (.inr ⟨source, _, _, rfl, rfl⟩)

theorem shuffle_of_published [RandomSource γ] {signer : Signer} {keys : KeyPair} (seated : player.isSeated = true)
    (signs : player.signer = some signer) (held : player.keys = some keys)
    (filed : (log.payload? (player.category .shuffle) player.address).isSome = true) :
    (shuffle : Turn γ Outcome).take Log.answer player log = (.ok .idle, player, log) := by
  simp [shuffle, seated, signs, held, filed]

theorem shuffle_retriable [RandomSource γ]
    (own : ∀ signer, player.signer = some signer → signer.address = player.address) :
    (shuffle : Turn γ Outcome).Retriable finds player log := by
  refine ⟨settles_of_comes (comes_get ?_), breaks_get ?_⟩
  · split
    · exact comes_pure (.inl rfl)
    rename_i sits
    split
    case h_2 => exact comes_pure (.inl rfl)
    rename_i signer signs
    split
    case h_2 => exact comes_pure (.inl rfl)
    rename_i keys held
    refine comes_hasPublished ?_
    split
    · exact comes_pure (.inl rfl)
    -- with the predecessor's deck or without one, the layer is added, and found from then on
    have adds (previous : Option (Deck Scalar)) : (addLayer player signer keys previous).Comes (fun _ next later =>
        (next, later) = (player, log) ∨
          ∃ b, (shuffle : Turn γ Outcome).take Log.answer next later = (.ok b, next, later)) player log := by
      refine addLayer_comes.mono fun _ next later added => added.imp_right ?_
      rintro ⟨source, recipients, payload, rfl, rfl⟩
      have filed := published_of_filed player log (own signer signs) .shuffle recipients payload
      have seated : player.isSeated = true := by simpa using sits
      exact ⟨.idle, shuffle_of_published seated signs held filed⟩
    split
    · exact adds none
    · exact comes_latestDeck? fun previous _ => adds previous
  · split
    · exact breaks_pure _
    split
    case h_2 => exact breaks_pure _
    split
    case h_2 => exact breaks_pure _
    refine breaks_hasPublished (resumes_refl ..) ?_
    split
    · exact breaks_pure _
    split
    · exact addLayer_breaks
    · exact breaks_latestDeck? (resumes_refl ..) fun previous _ => addLayer_breaks

/-- The player has seen the finished deck, or there is none to be seen. -/
def Abides (player : Player γ) (log : Log) : Prop :=
  player.finishedDeck.isSome = true ∨ ∀ last, 2 ≤ player.session.players.length →
    player.session.finalShuffler? = some last → log.payload? (player.category .shuffle) last = none

theorem refreshEncryption_of_abides (abides : Abides player log) :
    (refreshEncryption : Turn γ Outcome).take Log.answer player log = (.ok .idle, player, log) := by
  simp only [refreshEncryption, take_bind, take_get]
  split
  · rfl
  rename_i looks
  rw [not_or, Nat.not_lt] at looks
  split
  case h_2 => rfl
  rename_i last finishes
  have none := abides.resolve_left looks.1 last looks.2 finishes
  rw [take_bind, take_latestDeck?_answer, none]
  rfl

/-- Whoever looks for the finished deck has it, or has changed nothing, and abides by that. -/
theorem refreshEncryption_comes : (refreshEncryption : Turn γ Outcome).Comes (fun _ next later => later = log ∧
    (∃ finishedDeck, next = { player with finishedDeck }) ∧ Abides next log) player log := by
  refine comes_get ?_
  split
  · rename_i done
    exact comes_pure ⟨rfl, ⟨_, rfl⟩, done.imp_right fun few last two => absurd few (Nat.not_lt.2 two)⟩
  split
  case h_2 =>
    rename_i nobody
    exact comes_pure ⟨rfl, ⟨_, rfl⟩, .inr fun last _ finishes => absurd finishes (nobody last)⟩
  rename_i last finishes
  refine comes_latestDeck? fun deck read => ?_
  cases deck with
  | none =>
    refine comes_pure ⟨rfl, ⟨_, rfl⟩, .inr fun last' _ finishes' => ?_⟩
    cases finishes.symm.trans finishes'
    exact none_of_deckOf read
  | some deck => exact comes_modify (comes_pure ⟨rfl, ⟨_, rfl⟩, .inl rfl⟩)

theorem refreshEncryption_settles : (refreshEncryption : Turn γ Outcome).Settles player log := by
  intro a next later taken
  obtain ⟨rfl, -, abides⟩ := refreshEncryption_comes a next later taken
  exact ⟨.idle, refreshEncryption_of_abides abides⟩

theorem refreshEncryption_breaks {asked unfiled : Player γ → Log → Prop} (asking : asked player log) :
    (refreshEncryption : Turn γ Outcome).Breaks asked unfiled player log := by
  refine breaks_get ?_
  split
  · exact breaks_pure _
  split
  case h_2 => exact breaks_pure _
  refine breaks_latestDeck? asking fun deck _ => ?_
  cases deck with
  | none => exact breaks_pure _
  | some deck => exact (breaks_modify _).bind fun _ _ _ _ => breaks_pure _

theorem refreshEncryption_retriable : (refreshEncryption : Turn γ Outcome).Retriable finds player log :=
  ⟨refreshEncryption_settles, refreshEncryption_breaks (resumes_refl ..)⟩

theorem deal_of_dealt (dealt : player.session.hand ≠ []) :
    (deal : Turn γ Outcome).take Log.answer player log = (.ok .idle, player, log) := by
  simp [deal, dealt]

theorem deal_retriable : (deal : Turn γ Outcome).Retriable finds player log := by
  refine ⟨settles_of_comes (comes_get ?_), breaks_get ?_⟩
  · dsimp only
    split
    · exact comes_pure (.inl rfl)
    split
    · exact comes_pure (.inl rfl)
    split
    case h_2 => exact comes_pure (.inl rfl)
    split
    · exact comes_pure (.inl rfl)
    refine comes_latestDeck? fun deck _ => ?_
    cases deck with
    | none => exact comes_pure (.inl rfl)
    | some deck =>
      dsimp only
      split
      case h_2 => exact comes_throw _
      rename_i hand dealt
      refine comes_set (comes_pure ?_)
      by_cases stays : player.session.hand ≠ [] ∨ hand = []
      · exact .inl (by rw [Session.setHand, if_pos stays])
      · refine .inr ⟨.idle, deal_of_dealt ?_⟩
        rw [Session.setHand, if_neg stays]
        exact fun none => stays (.inr none)
  · dsimp only
    split
    · exact breaks_pure _
    split
    · exact breaks_pure _
    split
    case h_2 => exact breaks_pure _
    split
    · exact breaks_pure _
    refine breaks_latestDeck? (resumes_refl ..) fun deck _ => ?_
    cases deck with
    | none => exact breaks_pure _
    | some deck =>
      dsimp only
      split
      · exact (breaks_set _).bind fun _ _ _ _ => breaks_pure _
      · exact breaks_throw _

/-! ## Turns after turns -/

/-- Where the first of two turns is settled, both go on as from before it. -/
theorem take_after {first : Turn γ α} (rest : Turn γ β) (settles : first.Settles player log) {a : α}
    {next : Player γ} {later : Log} (taken : first.take Log.answer player log = (.ok a, next, later)) :
    (first >>= fun _ => rest).take Log.answer next later =
      (first >>= fun _ => rest).take Log.answer player log := by
  obtain ⟨b, again⟩ := settles a next later taken
  rw [take_bind, take_bind, taken, again]

/-- The rest of the decryptor's turn, once it has looked for the finished deck. -/
def removeLayer (signer : Signer) (keys : KeyPair) : Turn γ Outcome := do
  let player ← get
  if player.finishedDeck.isNone then return .idle
  if ← hasPublished .decrypt then return .idle
  let some step := player.session.decryptionStep? player.address false player.finishedDeck
    | return .idle
  let some counterparty := player.ring.get? step.sharedWith | return .skipped
  let deck ← ofExcept (step.source.decrypt counterparty keys.secretKey)
  publish signer .decrypt player.session.players (DeckMessage.ofDeck deck).toBytes

theorem removeLayer_breaks {asked unfiled : Player γ → Log → Prop} (signer : Signer) (keys : KeyPair)
    (asking : asked player log) (filing : unfiled player log) :
    (removeLayer signer keys).Breaks asked unfiled player log := by
  refine breaks_get ?_
  split
  · exact breaks_pure _
  refine breaks_hasPublished asking ?_
  split
  · exact breaks_pure _
  split
  case h_2 => exact breaks_pure _
  split
  case h_2 => exact breaks_pure _
  refine (breaks_ofExcept _).bind ?_
  intro deck next later taken
  rw [take_ofExcept, Prod.mk.injEq, Prod.mk.injEq] at taken
  obtain ⟨-, rfl, rfl⟩ := taken
  exact breaks_publish filing

/-- Whoever removes a layer has the finished deck and has filed the other, or has changed nothing. -/
theorem removeLayer_comes {signer : Signer} {keys : KeyPair} :
    (removeLayer signer keys).Comes (fun _ next later => (next, later) = (player, log) ∨
      next = player ∧ player.finishedDeck.isSome = true ∧ ∃ recipients payload,
        later = log ++ [Log.filing log signer (player.category .decrypt) recipients payload]) player log := by
  refine comes_get ?_
  split
  · exact comes_pure (.inl rfl)
  rename_i finished
  refine comes_hasPublished ?_
  split
  · exact comes_pure (.inl rfl)
  split
  case h_2 => exact comes_pure (.inl rfl)
  split
  case h_2 => exact comes_pure (.inl rfl)
  refine comes_ofExcept fun deck _ => comes_publish (.inr ⟨rfl, ?_, _, _, rfl⟩)
  exact Option.isSome_iff_ne_none.2 (by simpa using finished)

theorem removeLayer_of_published {signer : Signer} {keys : KeyPair}
    (filed : (log.payload? (player.category .decrypt) player.address).isSome = true) :
    (removeLayer signer keys).take Log.answer player log = (.ok .idle, player, log) := by
  rw [removeLayer, take_bind, take_get]
  dsimp only
  split
  · rfl
  · rw [take_bind, take_hasPublished_answer]
    simp only [filed, if_true, take_pure]

theorem decrypt_take (player : Player γ) {σ : Type} {answer : (request : Request) → σ → request.Answer × σ} {s : σ}
    {signer : Signer} {keys : KeyPair} (decrypts : player.session.decryptor? = some player.address)
    (signs : player.signer = some signer) (held : player.keys = some keys) :
    (decrypt : Turn γ Outcome).take answer player s =
      (refreshEncryption >>= fun _ => removeLayer signer keys).take answer player s := by
  rw [decrypt, take_bind, take_get]
  dsimp only
  rw [if_neg (not_not.2 decrypts)]
  simp only [signs, held]
  rfl

theorem decrypt_retriable (own : ∀ signer, player.signer = some signer → signer.address = player.address)
    (may : finds) : (decrypt : Turn γ Outcome).Retriable finds player log := by
  -- with the deck that has been found or without one, the player goes on as before
  have goesOn {finishedDeck : Option (Deck Scalar)} (log : Log) {signer : Signer} {keys : KeyPair}
      (decrypts : player.session.decryptor? = some player.address) (signs : player.signer = some signer)
      (held : player.keys = some keys) (abides : Abides { player with finishedDeck } log) :
      (decrypt : Turn γ Outcome).take Log.answer { player with finishedDeck } log =
        (removeLayer signer keys).take Log.answer { player with finishedDeck } log := by
    rw [decrypt_take { player with finishedDeck } decrypts signs held, take_bind,
      refreshEncryption_of_abides abides]
  refine ⟨settles_of_comes (comes_get ?_), breaks_get ?_⟩
  · split
    · exact comes_pure (.inl rfl)
    rename_i decrypts
    split
    case h_2 => exact comes_pure (.inl rfl)
    rename_i signer signs
    split
    case h_2 => exact comes_pure (.inl rfl)
    rename_i keys held
    have decrypts := not_not.1 decrypts
    refine Comes.bind (refreshEncryption_comes.mono ?_)
    rintro outcome _ _ ⟨rfl, ⟨finishedDeck, rfl⟩, abides⟩ a next later taken
    rcases removeLayer_comes a next later taken with same | ⟨rfl, finished, recipients, payload, rfl⟩
    · cases same
      exact .inr ⟨a, (goesOn _ decrypts signs held abides).trans taken⟩
    · refine .inr ⟨.idle, (goesOn _ decrypts signs held (.inl finished)).trans (removeLayer_of_published ?_)⟩
      exact published_of_filed { player with finishedDeck } _ (own signer signs) .decrypt recipients payload
  · split
    · exact breaks_pure _
    rename_i decrypts
    split
    case h_2 => exact breaks_pure _
    rename_i signer signs
    split
    case h_2 => exact breaks_pure _
    rename_i keys held
    have decrypts := not_not.1 decrypts
    refine (refreshEncryption_breaks (resumes_refl ..)).bind fun outcome next later looked => ?_
    obtain ⟨rfl, ⟨finishedDeck, rfl⟩, abides⟩ := refreshEncryption_comes _ _ _ looked
    refine removeLayer_breaks signer keys ?_ ?_
    · rw [Resumes, goesOn later decrypts signs held abides, decrypt_take player decrypts signs held, take_bind, looked]
    · exact ⟨rfl, player.source, finishedDeck, rfl, fun others => absurd may others⟩

/-- What is left to do once the seats are up to date. -/
def advance : Turn γ Outcome := do
  if !(← get).isSeated then return .idle
  let _ ← refreshEncryption
  let player ← get
  let session := player.session.observe player.progress player.config.minPlayers
  if session.phase = player.session.phase then return .idle
  set { player with session, announced := session.phase }
  return .observed

theorem advance_breaks {asked unfiled : Player γ → Log → Prop} (asking : asked player log) :
    (advance : Turn γ Outcome).Breaks asked unfiled player log := by
  refine breaks_get ?_
  split
  · exact breaks_pure _
  refine (refreshEncryption_breaks asking).bind fun outcome next later _ => breaks_get ?_
  dsimp only
  split
  · exact breaks_pure _
  · exact (breaks_set _).bind fun _ _ _ _ => breaks_pure _

/-- The phase that is announced is the one that the facts speak for, if the player sits. -/
structure Advanced (player : Player γ) (log : Log) : Prop where
  abides : player.isSeated = true → Abides player log
  phase : player.isSeated = true →
    (player.session.observe player.progress player.config.minPlayers).phase = player.session.phase

theorem advance_of_advanced (advanced : Advanced player log) :
    (advance : Turn γ Outcome).take Log.answer player log = (.ok .idle, player, log) := by
  rw [advance, take_bind, take_get]
  dsimp only
  split
  · rfl
  rename_i sits
  have sits : player.isSeated = true := by simpa using sits
  simp only [take_bind, refreshEncryption_of_abides (advanced.abides sits), take_get, advanced.phase sits, if_true,
    take_pure]

theorem advance_comes : (advance : Turn γ Outcome).Comes (fun _ next later => later = log ∧ Advanced next log ∧
    ∃ finishedDeck phase announced,
      next = { player with finishedDeck, announced, session := { player.session with phase } }) player log := by
  refine comes_get ?_
  split
  · rename_i stands
    have never (P : Prop) (sits : player.isSeated = true) : P := by simp [sits] at stands
    exact comes_pure ⟨rfl, ⟨never _, never _⟩, _, _, _, rfl⟩
  refine Comes.bind (refreshEncryption_comes.mono ?_)
  rintro _ _ _ ⟨rfl, ⟨finishedDeck, rfl⟩, abides⟩
  refine comes_get ?_
  dsimp only
  split
  · rename_i stays
    exact comes_pure ⟨rfl, ⟨fun _ => abides, fun _ => stays⟩, _, _, _, rfl⟩
  · exact comes_set (comes_pure ⟨rfl, ⟨fun _ => abides, fun _ => Phase.later_later _ _⟩, _, _, _, rfl⟩)

theorem updateSession_take {σ : Type} {answer : (request : Request) → σ → request.Answer × σ} {s : σ} :
    (updateSession : Turn γ Outcome).take answer player s =
      (refreshPlayers >>= fun _ => advance).take answer player s := rfl

theorem updateSession_retriable : (updateSession : Turn γ Outcome).Retriable finds player log := by
  -- the seats are up to date after the first part, and the second part leaves them alone
  obtain ⟨outcome, refreshed⟩ := refreshPlayers_take player log
  have same := player.seated_same (log.sendersTo (player.category .join) player.session.creator)
  have placed := player.seated_placed (log.sendersTo (player.category .join) player.session.creator)
  generalize player.seated (log.sendersTo (player.category .join) player.session.creator) = middle
    at refreshed same placed
  refine ⟨?_, ?_⟩
  · intro a next later taken
    rw [updateSession_take, take_bind, refreshed] at taken
    obtain ⟨rfl, advanced, finishedDeck, phase, announced, rfl⟩ := advance_comes _ _ _ taken
    rw [← same.category, ← same.creator] at placed
    obtain ⟨outcome', again⟩ := refreshPlayers_of_placed
      { middle with finishedDeck, announced, session := { middle.session with phase } } later
      ⟨placed.all, placed.dealer⟩
    exact ⟨.idle, by rw [updateSession_take, take_bind, again]; exact advance_of_advanced advanced⟩
  · refine (refreshPlayers_breaks (resumes_refl ..)).bind fun outcome' next later taken => ?_
    refine advance_breaks ?_
    exact congrArg Prod.snd (take_after advance refreshPlayers_settles taken)

end

end Turn

end MentalPoker
