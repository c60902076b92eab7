/-
Turns that are tried again. Whoever breaks off looking for the keys of the others has those it has found and
finds the rest the next time, and its own key is announced by then. With that, every turn on its own can be
tried again: a turn whose transaction has not been filed has drawn from its source, and the decryptor may
have seen the finished deck.
-/
import MentalPoker.Proofs.Game.KeyRing
import MentalPoker.Proofs.Player.Honest
import MentalPoker.Proofs.Player.Resume

namespace MentalPoker

variable {γ α : Type}

namespace Turn

section

variable {finds : Prop} {player : Player γ} {log : Log}

/-! ## Keys -/

/-- The key that somebody has announced. -/
def announcedKey (player : Player γ) (log : Log) (other : Address) : Option Point :=
  (log.payload? (player.category .publicKey) other).bind fun payload => (Payload.key payload).toOption

/-- The player once it has looked for the keys of several others. -/
def learning (player : Player γ) (log : Log) (others : List Address) : Player γ :=
  { player with ring := player.ring.learn (announcedKey player log) others }

theorem collectKey_take (player : Player γ) (log : Log) (other : Address) : ∃ new,
    (collectKey other).take Log.answer player log = (.ok new, learning player log [other], log) := by
  simp only [collectKey, take_bind, take_get, take_askLatest, Log.answer_latestBySender, Except.mapError, learning,
    announcedKey, KeyRing.learn, List.foldl_cons, List.foldl_nil]
  cases log.payload? (player.category .publicKey) other with
  | none => exact ⟨false, rfl⟩
  | some payload =>
    dsimp only [Option.bind, Payload.key]
    cases (KeyMessage.ofBytes payload).bind KeyMessage.point with
    | error e => exact ⟨false, rfl⟩
    | ok key => exact ⟨_, rfl⟩

theorem collectKeys_take (log : Log) (others : List Address) : ∀ player : Player γ, ∃ new,
    (collectKeys others).take Log.answer player log = (.ok new, learning player log others, log) := by
  induction others with
  | nil => exact fun player => ⟨false, rfl⟩
  | cons other others ih =>
    intro player
    obtain ⟨new, first⟩ := collectKey_take player log other
    obtain ⟨more, rest⟩ := ih (learning player log [other])
    exact ⟨new || more, by rw [collectKeys, take_bind, first]; simp only [take_bind, rest]; rfl⟩

theorem collectKey_breaks {asked unfiled : Player γ → Log → Prop} {other : Address} (asking : asked player log) :
    (collectKey other).Breaks asked unfiled player log := by
  refine breaks_get (Breaks.bind (breaks_ask (fun _ => asking) fun files => absurd trivial files) ?_)
  intro latest _ _ _
  cases latest with
  | none => exact breaks_pure false
  | some payload =>
    dsimp only
    split
    · exact breaks_pure false
    · exact breaks_get ((breaks_set _).bind fun _ _ _ _ => breaks_pure _)

/-- Whoever breaks off collecting keys has collected those of the first few. -/
theorem collectKeys_breaks {asked unfiled : Player γ → Log → Prop} (others : List Address) : ∀ player : Player γ,
    (∀ done rest, others = done ++ rest → asked (learning player log done) log) →
      (collectKeys others).Breaks asked unfiled player log := by
  induction others with
  | nil => exact fun player _ => breaks_pure false
  | cons other others ih =>
    intro player asking
    refine (collectKey_breaks (asking [] (other :: others) rfl)).bind fun new next later taken => ?_
    obtain ⟨new', took⟩ := collectKey_take player log other
    cases took.symm.trans taken
    refine (ih _ fun done rest split => ?_).bind fun more _ _ _ => breaks_pure _
    exact asking (other :: done) rest (by rw [split]; rfl)

/-- The player once it has looked for all the keys it misses. -/
def collected (player : Player γ) (log : Log) : Player γ :=
  learning player log (player.session.missingKeys player.address player.ring)

theorem collectMissing_take {outcome : Outcome} (goesOn : outcome ≠ .skipped) (player : Player γ) (log : Log) :
    ∃ outcome', (collectMissing outcome).take Log.answer player log = (.ok outcome', collected player log, log) := by
  obtain ⟨new, taken⟩ := collectKeys_take log (player.session.missingKeys player.address player.ring) player
  exact ⟨_, by rw [collectMissing, if_neg goesOn]; simp only [take_bind, take_get, taken, take_pure]; rfl⟩

/-- Whoever has looked for the first few of the keys it misses looks for the others. -/
theorem collected_learning {done rest : List Address}
    (split : player.session.missingKeys player.address player.ring = done ++ rest) :
    collected (learning player log done) log = collected player log := by
  have ring := Session.learn_missingKeys (announcedKey player log) split
  exact congrArg (fun ring => { player with ring }) ring

theorem collectMissing_breaks {asked unfiled : Player γ → Log → Prop} (outcome : Outcome)
    (asking : ∀ done rest, player.session.missingKeys player.address player.ring = done ++ rest →
      asked (learning player log done) log) : (collectMissing outcome).Breaks asked unfiled player log := by
  unfold collectMissing
  split
  · exact breaks_pure _
  · exact breaks_get ((collectKeys_breaks _ player asking).bind fun _ _ _ _ => breaks_pure _)

section

variable [RandomSource γ]

/-- An announcement that goes through leaves a pair, or nothing has changed. -/
theorem announceKey_comes {recipients : List Address} : (announceKey recipients).Comes (fun outcome next later =>
    outcome = .skipped ∧ (next, later) = (player, log) ∨
      outcome ≠ .skipped ∧ ∃ keys source, next = { player with keys := some keys, source }) player log := by
  refine comes_get ?_
  split
  case h_2 => exact comes_pure (.inl ⟨rfl, rfl⟩)
  refine comes_hasPublished ?_
  split
  · exact comes_pure (.inl ⟨rfl, rfl⟩)
  refine comes_draw fun keys source => comes_ofExcept fun message _ => Comes.bind (comes_publish ?_)
  exact comes_modify (comes_pure (.inr ⟨by simp, keys, source, rfl⟩))

theorem announceKey_breaks {recipients : List Address} {asked unfiled : Player γ → Log → Prop}
    (asking : asked player log) (filing : ∀ source, unfiled { player with source } log) :
    (announceKey recipients).Breaks asked unfiled player log := by
  refine breaks_get ?_
  split
  case h_2 => exact breaks_pure _
  refine breaks_hasPublished asking ?_
  split
  · exact breaks_pure _
  refine (breaks_draw _).bind fun keys next later drew => ?_
  rw [take_draw, Prod.mk.injEq, Prod.mk.injEq] at drew
  obtain ⟨-, rfl, rfl⟩ := drew
  refine (breaks_ofExcept _).bind fun message next' later' said => ?_
  rw [take_ofExcept, Prod.mk.injEq, Prod.mk.injEq] at said
  obtain ⟨-, rfl, rfl⟩ := said
  exact (breaks_publish (filing _)).bind fun outcome _ _ _ => (breaks_modify _).bind fun _ _ _ _ => breaks_pure _

/-- The player has seen the table and announces no key any more. -/
structure Collects (player : Player γ) : Prop where
  full : ¬ player.session.players.length < max player.config.minPlayers 2
  silent : player.session.keyRecipients? player.address player.keys.isSome = none

omit [RandomSource γ] in
theorem collects_of_keys {player : Player γ} {keys : KeyPair}
    (full : ¬ player.session.players.length < max player.config.minPlayers 2) (held : player.keys = some keys) :
    Collects player :=
  ⟨full, by rw [held]; exact if_pos (.inl rfl)⟩

/-- Whoever has only keys to collect collects them, wherever it has broken off. -/
theorem exchangeKeys_of_collects (log : Log) (collects : Collects player) {done rest : List Address}
    (split : player.session.missingKeys player.address player.ring = done ++ rest) : ∃ outcome,
    (exchangeKeys : Turn γ Outcome).take Log.answer (learning player log done) log =
      (.ok outcome, collected player log, log) := by
  obtain ⟨outcome, taken⟩ := collectMissing_take (show Outcome.idle ≠ .skipped by simp) (learning player log done) log
  rw [collected_learning split] at taken
  refine ⟨outcome, ?_⟩
  rw [exchangeKeys, take_bind, take_get]
  dsimp only [learning]
  rw [if_neg collects.full, collects.silent]
  exact taken

theorem exchangeKeys_retriable : (exchangeKeys : Turn γ Outcome).Retriable finds player log := by
  -- whoever has collected the keys has no more to collect
  have again {middle : Player γ} {now : Log} {outcome : Outcome} (goesOn : outcome ≠ .skipped)
      (collects : Collects middle) : (collectMissing outcome).Comes (fun _ next later => (next, later) = (player, log) ∨
        ∃ b, (exchangeKeys : Turn γ Outcome).take Log.answer next later = (.ok b, next, later)) middle now := by
    obtain ⟨outcome', took⟩ := collectMissing_take goesOn middle now
    exact comes_of_take took fun _ _ => .inr (exchangeKeys_of_collects _ collects (List.append_nil _).symm)
  refine ⟨settles_of_comes (comes_get ?_), ?_⟩
  · dsimp only
    split
    · exact comes_pure (.inl rfl)
    rename_i full
    split
    · rename_i silent
      exact again (show Outcome.idle ≠ .skipped by simp) ⟨full, silent⟩
    · rename_i recipients asks
      refine Comes.bind (announceKey_comes.mono ?_)
      rintro outcome next later (⟨rfl, same⟩ | ⟨goesOn, keys, source, rfl⟩)
      · exact comes_pure (.inl same)
      · exact again goesOn (collects_of_keys full rfl)
  · refine breaks_get ?_
    split
    · exact breaks_pure _
    rename_i full
    split
    · rename_i silent
      obtain ⟨outcome, whole⟩ := exchangeKeys_of_collects log ⟨full, silent⟩ (List.nil_append _).symm
      refine collectMissing_breaks .idle fun done rest split => ?_
      obtain ⟨outcome', part⟩ := exchangeKeys_of_collects log ⟨full, silent⟩ split
      have whole : (exchangeKeys : Turn γ Outcome).take Log.answer player log =
        (.ok outcome, collected player log, log) := whole
      rw [Resumes, part, whole]
    · rename_i recipients asks
      refine (announceKey_breaks (resumes_refl ..) unfiled_source).bind fun outcome middle log' announced => ?_
      -- the turn that is taken at once goes on from the same announcement
      have once : (exchangeKeys : Turn γ Outcome).take Log.answer player log =
          (collectMissing outcome).take Log.answer middle log' := by
        rw [exchangeKeys, take_bind, take_get]
        dsimp only
        rw [if_neg full, asks, take_bind, announced]
        rfl
      rcases announceKey_comes _ _ _ announced with ⟨rfl, same⟩ | ⟨goesOn, keys, source, rfl⟩
      · exact breaks_pure _
      refine collectMissing_breaks outcome fun done rest split => ?_
      have collects : Collects { player with keys := some keys, source } := collects_of_keys full rfl
      obtain ⟨outcome', part⟩ := exchangeKeys_of_collects log' collects split
      obtain ⟨outcome'', whole⟩ := collectMissing_take goesOn { player with keys := some keys, source } log'
      rw [Resumes, part, once, whole]

end

end

/-! ## Turns that are taken again -/

/-- What becomes of a turn on a line when it is taken again on a journal without failures. -/
structure TriedAgain (finds : Prop) (turn : Turn γ α) (player : Player γ) (line : Line) : Prop where
  /-- A turn that has gone through goes through again, and changes nothing. -/
  settled : ∀ a, (turn.take Line.answer player line).1 = .ok a → ∃ b,
    turn.take Journal.answer (turn.take Line.answer player line).2.1
        (.unhindered (turn.take Line.answer player line).2.2.transactions) =
      (.ok b, (turn.take Line.answer player line).2.1,
        .unhindered (turn.take Line.answer player line).2.2.transactions)
  /-- A question that fails is what the turn comes to, and the turn that is taken again comes to where it
  would have come at once. -/
  resumed : ∀ failure ∈ turn.failures player line, failure.request.Asks →
    (turn.take Line.answer player line).1 = .error (.ledger failure.error) ∧
      (turn.take Journal.answer (turn.take Line.answer player line).2.1
          (.unhindered (turn.take Line.answer player line).2.2.transactions)).2 =
        (turn.take Journal.answer player (.unhindered line.transactions)).2
  /-- A publication that has not been filed leaves the ledger, and of the player all but its source and the
  finished deck that the decryptor has looked for. -/
  unfiled : ∀ failure ∈ turn.failures player line, ¬ failure.request.Asks → failure.after = failure.before →
    (turn.take Line.answer player line).2.2.transactions = line.transactions ∧ ∃ source finishedDeck,
      (turn.take Line.answer player line).2.1 = { player with source, finishedDeck } ∧
        (¬ finds → finishedDeck = player.finishedDeck)

theorem Retriable.triedAgain {finds : Prop} {turn : Turn γ α} {player : Player γ} {line : Line}
    (h : turn.Retriable finds player line.transactions) : turn.TriedAgain finds player line := by
  have ends := h.breaks.ends
  refine ⟨fun a went => ?_, fun failure noted asks => ?_, fun failure noted files lost => ?_⟩
  · rw [went] at ends
    obtain ⟨b, again⟩ := h.settles a _ _ ends.of_ok
    exact ⟨b, by rw [take_unhindered, again]⟩
  · obtain ⟨comes, resumes⟩ := ends.of_asking noted asks
    refine ⟨comes, ?_⟩
    rw [take_unhindered, take_unhindered]
    exact congrArg (fun after => (after.1, Journal.unhindered after.2)) resumes
  · exact ends.of_filing noted files lost

end Turn

/-- Players sign as themselves. -/
theorem Player.Lived.signs [RandomSource γ] {player : Player γ} (lived : player.Lived) :
    ∀ signer, player.signer = some signer → signer.address = player.address := by
  induction lived with
  | plays =>
    rintro _ ⟨⟩
    rfl
  | observes =>
    intro signer none
    cases none
  | wishes _ _ ih => exact ih
  | @moves player _ move line ih =>
    have course := (move.turn_runs player line.transactions).take (Line.meets _ line)
    intro signer signs
    rw [course.same.address]
    exact ih signer (course.same.signer.symm.trans signs)

/-- Whatever is on the ledger and whatever happens on the line, every turn on its own can be taken again: it
changes nothing once it has gone through, it goes on to where it would have come at once when a question has
failed, and it has only drawn, or found the finished deck, when its transaction has not been filed. -/
theorem turns_can_be_tried_again [RandomSource γ] {player : Player γ}
    (own : ∀ signer, player.signer = some signer → signer.address = player.address) {move : Move}
    (single : move ≠ .everything) (line : Line) :
    (move.turn (γ := γ)).TriedAgain (move = .decrypt) player line := by
  refine Turn.Retriable.triedAgain ?_
  cases move with
  | join => exact (Turn.join_retriable own).map _
  | refreshPlayers => exact Turn.refreshPlayers_retriable.map _
  | exchangeKeys => exact Turn.exchangeKeys_retriable.map _
  | shuffle => exact (Turn.shuffle_retriable own).map _
  | refreshEncryption => exact Turn.refreshEncryption_retriable.map _
  | decrypt => exact (Turn.decrypt_retriable own rfl).map _
  | deal => exact Turn.deal_retriable.map _
  | updateSession => exact Turn.updateSession_retriable.map _
  | everything => exact absurd rfl single

/-- The second player once it is seated. -/
def Player.seatedBob : Player (Seeded id) :=
  (Move.refreshPlayers.turn.take Line.answer (ofTwo "bob") asked).2.1

/-- The line goes down once a key is announced. -/
def Player.goesDown : Line := ⟨asked.journal, [.passes, .passes, .fails (.unavailable "down")], []⟩

theorem turns_can_be_tried_again_down :
    (∀ signer, Player.seatedBob.signer = some signer → signer.address = Player.seatedBob.address) ∧
      Move.exchangeKeys ≠ .everything ∧
      (Move.exchangeKeys.turn.failures Player.seatedBob Player.goesDown).map (·.error) =
        [.unavailable "down"] ∧
      Move.exchangeKeys.turn.TriedAgain (Move.exchangeKeys = .decrypt) Player.seatedBob Player.goesDown := by
  have lived : (Player.ofTwo "bob").Lived := .plays ..
  have own := (lived.moves .refreshPlayers Player.asked).signs
  exact ⟨own, by decide, by decide +kernel, turns_can_be_tried_again own (by decide) Player.goesDown⟩

end MentalPoker
