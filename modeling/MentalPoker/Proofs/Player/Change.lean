/-
What becomes of a player, whatever it is answered. Every turn is a chain of changes wherever it ends, and a
change names what the player has checked before: so whatever every change keeps, no ledger can take away,
however it answers.
-/
import MentalPoker.Proofs.Player.Resume

namespace MentalPoker

namespace Player

variable {γ : Type}

/-- So many have sat down that the player takes the table to be known. -/
def SeesTable (player : Player γ) : Prop :=
  max player.config.minPlayers 2 ≤ player.session.players.length

end Player

/-- One change of a player within a turn. -/
inductive Change {γ : Type} (player : Player γ) : Player γ → Prop
  | seats (joined : List Address) : Change player (player.seated joined)
  /-- A source is drawn from for a pair, once the table is known, or by whoever has its pair. -/
  | draws (seated : player.address ∈ player.session.players) (ready : player.keys.isSome ∨ player.SeesTable)
      (source : γ) : Change player { player with source }
  | keepsKeys (seated : player.address ∈ player.session.players) (sees : player.SeesTable)
      (signs : player.signer.isSome) (none : player.keys = none) (keys : KeyPair) :
      Change player { player with keys := some keys }
  | learns {other : Address} {payload : Bytes} {key : Point} (sees : player.SeesTable)
      (seated : other ∈ player.session.players) (notSelf : other ≠ player.address)
      (read : Payload.key payload = .ok key) :
      Change player { player with ring := (player.ring.record other key).2 }
  | finishes (none : player.finishedDeck = none) (deck : Deck Scalar) :
      Change player { player with finishedDeck := some deck }
  | deals (seated : player.address ∈ player.session.players) (empty : player.session.hand = [])
      (hand : List Scalar) : Change player { player with session := { player.session with hand } }
  /-- The player moves on to the phase that the facts speak for, and announces it. -/
  | observes (seated : player.address ∈ player.session.players) {session : Session}
      (observed : session = player.session.observe player.progress player.config.minPlayers) :
      Change player { player with session, announced := session.phase }

/-- A player gets by changes from one state to another. -/
abbrev Player.Becomes {γ : Type} : Player γ → Player γ → Prop := Relation.ReflTransGen Change

namespace Turn

variable {γ α β : Type} {player : Player γ}

/-- Whatever it is answered, the turn changes the player by changes only. -/
def Changes (turn : Turn γ α) (player : Player γ) : Prop :=
  turn.Within (fun _ => True) player.Becomes player

/-! ## The ways to make a turn -/

theorem Changes.bind {turn : Turn γ α} {next : α → Turn γ β} (first : turn.Changes player)
    (second : ∀ a after, player.Becomes after → (next a).Changes after) :
    (turn >>= next).Changes player :=
  Within.bind first (fun _ becomes => becomes) fun a after becomes =>
    (second a after becomes).mono (fun _ _ => trivial) fun _ more => becomes.trans more

theorem changes_pure (a : α) : (pure a : Turn γ α).Changes player := within_pure .refl

theorem changes_ofExcept (r : Except DealError α) : (ofExcept r : Turn γ α).Changes player :=
  (yields_ofExcept ..).2 ⟨.refl, by simp⟩

theorem changes_get {next : Player γ → Turn γ α} (h : (next player).Changes player) :
    (get >>= next).Changes player :=
  within_get h

theorem Within.changes {R : Request → Prop} {C : Player γ → Prop} {turn : Turn γ α}
    (within : turn.Within R C player) (becomes : ∀ next, C next → player.Becomes next) :
    turn.Changes player :=
  within.mono (fun _ _ => trivial) becomes

/-- What follows a turn may be said of what the turn leaves. -/
theorem Changes.bind_within {R : Request → Prop} {C : Player γ → Prop} {turn : Turn γ α} {next : α → Turn γ β}
    (first : turn.Changes player) (within : turn.Within R C player)
    (second : ∀ a after, C after → (next a).Changes after) : (turn >>= next).Changes player := by
  have both : turn.Within (fun _ => True) (fun after => player.Becomes after ∧ C after) player :=
    (Yields.and first within).mono fun _ _ _ h => ⟨⟨h.1.1, h.2.1⟩, h.1.2⟩
  refine both.bind (fun _ h => h.1) fun a after ⟨becomes, left⟩ => ?_
  exact (second a after left).mono (fun _ _ => trivial) fun _ more => becomes.trans more

/-- A turn that leaves the player as it is changes nothing. -/
theorem Within.unchanged {R : Request → Prop} {turn : Turn γ α} (within : turn.Within R (· = player) player) :
    turn.Changes player :=
  within.changes fun _ same => same ▸ .refl

theorem publish_changes (signer : Signer) (step : Step) (recipients : List Address) (payload : Bytes) :
    (publish signer step recipients payload : Turn γ Outcome).Changes player := by
  rw [Changes, Within, yields_publish]
  rintro answer _ rfl
  exact ⟨.refl, by simp⟩

/-! ## Keys -/

theorem announceKey_changes [RandomSource γ] (recipients : List Address)
    (seated : player.address ∈ player.session.players) (sees : player.SeesTable) (none : player.keys = none) :
    (announceKey recipients : Turn γ Outcome).Changes player := by
  cases signs : player.signer with
  | none =>
    refine changes_get ?_
    rw [signs]
    exact changes_pure _
  | some signer =>
    refine (announceKey_within player recipients).changes ?_
    rintro _ ⟨keys, source, rfl⟩
    have drawn : player.Becomes { player with source } := .single (.draws seated (.inr sees) source)
    cases keys with
    | none => exact none ▸ drawn
    | some keys =>
      exact drawn.tail (@Change.keepsKeys γ { player with source } seated sees
        (Option.isSome_iff_exists.2 ⟨signer, signs⟩) none keys)

theorem collectKey_changes {other : Address} (sees : player.SeesTable)
    (seated : other ∈ player.session.players) (notSelf : other ≠ player.address) :
    (collectKey other : Turn γ Bool).Changes player := by
  refine changes_get ?_
  simp only [Changes, Within, yields_bind, yields_askLatest]
  rintro (e | latest) made rfl
  · exact ⟨.refl, by simp⟩
  cases latest with
  | none => exact (yields_pure ..).2 ⟨.refl, by simp⟩
  | some payload =>
    simp only [Except.mapError]
    cases read : (KeyMessage.ofBytes payload).bind KeyMessage.point with
    | error e => exact (yields_pure ..).2 ⟨.refl, by simp⟩
    | ok key =>
      simp only [yields_bind, yields_get, yields_set, yields_pure]
      exact ⟨.single (.learns sees seated notSelf read), by simp⟩

theorem collectKeys_changes (wanted : List Address) : ∀ player : Player γ, player.SeesTable →
    (∀ other ∈ wanted, other ∈ player.session.players ∧ other ≠ player.address) →
    (collectKeys wanted : Turn γ Bool).Changes player := by
  induction wanted with
  | nil => exact fun _ _ _ => changes_pure _
  | cons other wanted ih =>
    intro player sees each
    obtain ⟨seated, notSelf⟩ := each other List.mem_cons_self
    -- looking for a key leaves the seats and the name as they are
    refine (collectKey_changes sees seated notSelf).bind_within (collectKey_within player other) ?_
    rintro new _ ⟨ring, rfl⟩
    have rest := ih { player with ring } sees fun a later => each a (List.mem_cons_of_mem _ later)
    exact rest.bind fun _ _ _ => changes_pure _

theorem collectMissing_changes (outcome : Outcome) (sees : player.SeesTable) :
    (collectMissing outcome : Turn γ Outcome).Changes player := by
  unfold collectMissing
  split
  · exact changes_pure _
  have collected := collectKeys_changes (player.session.missingKeys player.address player.ring) player sees
    fun _ => Session.mem_players_of_missingKeys
  exact changes_get (collected.bind fun _ _ _ => changes_pure _)

theorem exchangeKeys_changes [RandomSource γ] (player : Player γ) :
    (exchangeKeys : Turn γ Outcome).Changes player := by
  refine changes_get ?_
  split
  · exact changes_pure _
  rename_i sees
  have sees : player.SeesTable := Nat.le_of_not_lt sees
  split
  · exact collectMissing_changes .idle sees
  · rename_i recipients asked
    obtain ⟨none, seated, -⟩ := Session.keyRecipients?_eq_some asked
    refine (announceKey_changes recipients seated sees (by simpa using none)).bind_within
      (announceKey_within player recipients) ?_
    rintro outcome _ ⟨keys, source, rfl⟩
    exact collectMissing_changes outcome sees

/-! ## Decks and hands -/

theorem shuffle_changes [RandomSource γ] (player : Player γ) : (shuffle : Turn γ Outcome).Changes player := by
  by_cases takes : player.address ∈ player.session.players ∧ player.keys.isSome
  · refine (shuffle_within player).changes ?_
    rintro _ ⟨source, rfl⟩
    exact .single (.draws takes.1 (.inl takes.2) source)
  · refine changes_get ?_
    split
    · exact changes_pure _
    rename_i seated
    split
    case h_2 => exact changes_pure _
    split
    case h_2 => exact changes_pure _
    rename_i keys held
    exact absurd ⟨by simpa [Player.isSeated_iff] using seated, by simp [held]⟩ takes

theorem refreshEncryption_changes (player : Player γ) : (refreshEncryption : Turn γ Outcome).Changes player := by
  cases held : player.finishedDeck with
  | none =>
    refine (refreshEncryption_within player).changes ?_
    rintro _ ⟨_ | deck, rfl⟩
    · exact held ▸ .refl
    · exact .single (.finishes held deck)
  | some deck =>
    refine changes_get ?_
    rw [if_pos (.inl (by rw [held]; rfl))]
    exact changes_pure _

theorem removeLayer_changes (signer : Signer) (keys : KeyPair) :
    (removeLayer signer keys : Turn γ Outcome).Changes player := by
  refine changes_get ?_
  split
  · exact changes_pure _
  refine (hasPublished_within .decrypt fun _ h => h).unchanged.bind fun published after _ => ?_
  split
  · exact changes_pure _
  split
  case h_2 => exact changes_pure _
  split
  case h_2 => exact changes_pure _
  exact (changes_ofExcept _).bind fun deck next _ => publish_changes ..

theorem decrypt_changes (player : Player γ) : (decrypt : Turn γ Outcome).Changes player := by
  refine changes_get ?_
  split
  · exact changes_pure _
  split
  case h_2 => exact changes_pure _
  rename_i signer signs
  split
  case h_2 => exact changes_pure _
  rename_i keys held
  exact (refreshEncryption_changes player).bind fun _ _ _ => removeLayer_changes signer keys

theorem deal_changes (player : Player γ) : (deal : Turn γ Outcome).Changes player := by
  by_cases unserved : player.address ∈ player.session.players ∧ player.session.hand = []
  · refine (deal_within player).changes ?_
    rintro _ ⟨hand, rfl⟩
    exact .single (.deals unserved.1 unserved.2 hand)
  · refine changes_get ?_
    dsimp only
    split
    · exact changes_pure _
    rename_i empty
    split
    · exact changes_pure _
    rename_i seated
    exact absurd ⟨by simpa [Player.isSeated_iff] using seated, not_not.1 empty⟩ unserved

/-! ## The session -/

theorem refreshPlayers_changes (player : Player γ) : (refreshPlayers : Turn γ Outcome).Changes player := by
  refine (refreshPlayers_within player).changes ?_
  rintro _ (rfl | ⟨joined, rfl⟩)
  · exact .refl
  · exact .single (.seats joined)

theorem advance_changes (player : Player γ) : (advance : Turn γ Outcome).Changes player := by
  refine changes_get ?_
  split
  · exact changes_pure _
  rename_i seated
  have seated : player.address ∈ player.session.players := by
    simpa [Player.isSeated_iff] using seated
  refine (refreshEncryption_changes player).bind_within (refreshEncryption_within player) ?_
  rintro outcome _ ⟨finishedDeck, rfl⟩
  refine changes_get ?_
  dsimp only
  split
  · exact changes_pure _
  · rw [Changes, Within, yields_bind, yields_set, yields_pure]
    exact ⟨.single (@Change.observes γ { player with finishedDeck } seated _ rfl), by simp⟩

theorem updateSession_changes (player : Player γ) : (updateSession : Turn γ Outcome).Changes player :=
  (refreshPlayers_changes player).bind fun _ next _ => advance_changes next

end Turn

/-- Whatever move a player makes, and however it is answered, it changes by changes only. -/
theorem Move.take_becomes {γ σ : Type} [RandomSource γ] (move : Move)
    (answer : (request : Request) → σ → request.Answer × σ) (player : Player γ) (s : σ) :
    player.Becomes (move.turn.take answer player s).2.1 := by
  have keeps {turn : Turn γ Outcome} (changes : ∀ next, turn.Changes next) :
      turn.Keeps (fun _ _ _ _ => True) fun next (_ : σ) => player.Becomes next := by
    intro next s becomes
    refine ((changes next).yields (S := fun _ _ => True) (fun _ => trivial) (fun _ _ => trivial)
      (fun _ _ => trivial) s).mono ?_
    exact fun _ after _ h => becomes.trans h.1
  have all : Turn.AllKeep (γ := γ) (fun _ _ _ _ => True) fun next (_ : σ) => player.Becomes next :=
    ⟨keeps fun next => (Turn.join_within next).unchanged, keeps Turn.refreshPlayers_changes,
      keeps Turn.exchangeKeys_changes, keeps Turn.shuffle_changes, keeps Turn.refreshEncryption_changes,
      keeps Turn.decrypt_changes, keeps Turn.deal_changes, keeps Turn.updateSession_changes⟩
  exact (move.turn_keeps all player s .refl).take_any answer

/-! ## Runs -/

namespace Player

variable {γ : Type} [RandomSource γ]

/-- The player makes a move, however it is answered: with any payload, any list of senders, or any error. -/
inductive Endures : Player γ → Player γ → Prop
  | moves (player : Player γ) (move : Move) {σ : Type} (answer : (request : Request) → σ → request.Answer × σ)
      (s : σ) : Endures player (move.turn.take answer player s).2.1

theorem Endures.becomes {player next : Player γ} (endures : player.Endures next) : player.Becomes next := by
  cases endures with
  | moves move answer s => exact move.take_becomes answer player s

theorem becomes_of_endures {player next : Player γ} (run : Relation.ReflTransGen Endures player next) :
    player.Becomes next := by
  induction run with
  | refl => exact .refl
  | tail _ endures ih => exact ih.trans endures.becomes

end Player

end MentalPoker
