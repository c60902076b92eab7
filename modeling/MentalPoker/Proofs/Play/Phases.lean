/-
The phase tells the truth. The phase a player has reached is the latest that was ever observed, and the
facts that spoke for it then speak for it still, whatever the player is answered: so the phase never
claims more than the player has seen, and bringing the session up to date makes it claim no less.
-/
import MentalPoker.Proofs.Game.Session
import MentalPoker.Proofs.Play.Final
import MentalPoker.Proofs.Play.Recovery

namespace MentalPoker

namespace Phase

theorem eq_of_position_eq {a b : Phase} (h : a.position = b.position) : a = b := by
  revert h
  cases a <;> cases b <;> decide

end Phase

namespace Player

variable {γ : Type} {player next : Player γ}

/-! ## Facts -/

/-- The player has seen what a phase speaks of. -/
def Bears (player : Player γ) : Phase → Prop
  | .waitingForPlayers => True
  | .keyExchange => player.session.isFull = true
  | .encrypting => player.session.isFull = true ∧ player.progress.keysCollected = true
  | .decrypting => player.session.isFull = true ∧ player.progress.shuffleFinished = true
  | .ready => player.session.isFull = true ∧ player.session.hand ≠ []

theorem Bears.full {phase : Phase} (bears : player.Bears phase) (moved : phase ≠ .waitingForPlayers) :
    player.session.isFull = true := by
  cases phase with
  | waitingForPlayers => exact absurd rfl moved
  | keyExchange => exact bears
  | encrypting | decrypting | ready => exact bears.1

namespace Coherent

theorem names (coherent : player.Coherent) {a : Address} (known : a ∈ player.ring.names) :
    a ∈ player.session.players ∧ a ≠ player.address := by
  obtain ⟨entry, member, rfl⟩ := List.mem_map.1 known
  obtain ⟨-, seated, other, -⟩ := coherent.ring entry.1 entry.2 member
  exact ⟨seated, other⟩

/-- Whoever has collected all keys has a pair, and the key of everybody else. -/
theorem keysCollected (coherent : player.Coherent) (collected : player.progress.keysCollected = true) :
    player.keys.isSome ∧
      ∀ a ∈ player.session.players, a ≠ player.address → ∃ key, player.ring.get? a = some key := by
  obtain ⟨held, complete⟩ := Bool.and_eq_true_iff.1 collected
  refine ⟨held, fun a seated other => KeyRing.exists_key ?_⟩
  exact Session.mem_names_of_keysComplete complete coherent.once (fun _ => coherent.names) (coherent.keys held).2
    seated other

end Coherent

/-- What has been seen is not taken away. -/
theorem Bears.later (coherent : player.Coherent) (coherent' : next.Coherent) (same : player.Same next)
    (more : player.Extends next) {phase : Phase} (bears : player.Bears phase) : next.Bears phase := by
  have full (h : player.session.isFull = true) : next.session.isFull = true := by
    rw [coherent.isFull_iff] at h
    rw [coherent'.isFull_iff, same.config]
    exact h.trans more.players.length_le
  cases phase with
  | waitingForPlayers => trivial
  | keyExchange => exact full bears
  | encrypting =>
    obtain ⟨is, collected⟩ := bears
    obtain ⟨held, complete⟩ := Bool.and_eq_true_iff.1 collected
    obtain ⟨keys, held'⟩ := Option.isSome_iff_exists.1 held
    have players := coherent'.frozen same more (coherent.isFull_iff.1 is)
    have kept : player.ring.names ⊆ next.ring.names := fun a known => by
      obtain ⟨key, found⟩ := KeyRing.exists_key known
      exact List.mem_map_of_mem (KeyRing.mem_of_get? (more.ring a key found))
    refine ⟨full is, Bool.and_eq_true_iff.2 ⟨by rw [more.keys keys held']; rfl, ?_⟩⟩
    rw [Session.keysComplete, players]
    have others : ∀ a ∈ next.ring.names, a ∈ player.session.players ∧ a ≠ player.address := fun a known => by
      rw [← players, ← same.address]
      exact coherent'.names known
    exact Session.keysComplete_of_subset complete coherent.once kept coherent'.once others (coherent.keys held).2
  | decrypting =>
    obtain ⟨deck, seen⟩ := Option.isSome_iff_exists.1 bears.2
    exact ⟨full bears.1, by rw [progress, more.finished deck seen]; rfl⟩
  | ready => exact ⟨full bears.1, by rw [more.hand bears.2]; exact bears.2⟩

/-- What the facts speak for has been seen. -/
theorem Coherent.bears_observed (coherent : player.Coherent) :
    player.Bears (player.session.observedPhase player.progress player.config.minPlayers) := by
  unfold Session.observedPhase
  split
  · trivial
  rename_i several
  have full : player.session.isFull = true := by
    have seated := coherent.creator.length_le
    rw [coherent.isFull_iff]
    rw [List.length_singleton] at seated
    omega
  split
  · exact ⟨full, ‹_›⟩
  split
  · exact ⟨full, ‹_›⟩
  split
  · exact ⟨full, ‹_›⟩
  · exact full

/-- What has been seen the facts speak for, or for more. -/
theorem Bears.le_observed (coherent : player.Coherent) {phase : Phase} (bears : player.Bears phase) :
    phase.position ≤ (player.session.observedPhase player.progress player.config.minPlayers).position := by
  by_cases waits : phase = .waitingForPlayers
  · subst waits
    exact Nat.zero_le _
  have least := coherent.isFull_iff.1 (bears.full waits)
  have several : ¬ player.session.players.length < player.config.minPlayers := by omega
  unfold Session.observedPhase
  rw [if_neg several]
  -- each phase is one of the later branches, or the one it is for
  cases phase with
  | waitingForPlayers => exact absurd rfl waits
  | keyExchange => split_ifs <;> decide
  | encrypting =>
    rw [if_pos bears.2]
    split_ifs <;> decide
  | decrypting =>
    rw [if_pos bears.2]
    split_ifs <;> decide
  | ready => rw [if_pos bears.2]

/-! ## The phase -/

/-- The phase is announced, and the player has seen what it speaks of. -/
structure Truthful (player : Player γ) : Prop extends player.Coherent where
  announced : player.announced = player.session.phase
  bears : player.Bears player.session.phase

/-- A player may also be given a wish for the dealer at any time. -/
inductive Weathers [RandomSource γ] : Player γ → Player γ → Prop
  | endures {player next : Player γ} (endures : player.Endures next) : Weathers player next
  | wishes (player : Player γ) (dealer : Address) : Weathers player (player.withDealer dealer)

end Player

section

variable {γ : Type} {player next : Player γ}

/-- A change leaves phase and announcement, or makes both the later one of the phase and what is observed. -/
theorem Change.phase (change : Change player next) :
    (next.session.phase = player.session.phase ∧ next.announced = player.announced) ∨
      (next.session.phase = player.session.phase.later
          (player.session.observedPhase player.progress player.config.minPlayers) ∧
        next.announced = next.session.phase) := by
  cases change with
  | seats joined =>
    obtain ⟨players, seated⟩ := player.session.seatAll_eq joined
    obtain ⟨dealer, become, -⟩ := player.seated_eq joined
    rw [become, seated]
    exact .inl ⟨rfl, rfl⟩
  | observes _ observed =>
    subst observed
    exact .inr ⟨rfl, rfl⟩
  | _ => exact .inl ⟨rfl, rfl⟩

theorem Change.truthful (change : Change player next) (truthful : player.Truthful) :
    next.Truthful ∧ player.session.phase.position ≤ next.session.phase.position := by
  have coherent := change.coherent truthful.toCoherent
  have stays {phase : Phase} (bears : player.Bears phase) : next.Bears phase :=
    bears.later truthful.toCoherent coherent change.same change.extends
  rcases change.phase with ⟨phase, announced⟩ | ⟨phase, announced⟩
  · refine ⟨⟨coherent, ?_, ?_⟩, by rw [phase]⟩
    · rw [announced, truthful.announced, phase]
    · rw [phase]
      exact stays truthful.bears
  · refine ⟨⟨coherent, announced, ?_⟩, ?_⟩
    · rw [phase]
      rcases Phase.later_or player.session.phase
        (player.session.observedPhase player.progress player.config.minPlayers) with same | same
      · rw [same]
        exact stays truthful.bears
      · rw [same]
        exact stays truthful.toCoherent.bears_observed
    · rw [phase]
      exact Phase.position_le_later_left ..

end

namespace Player

variable {γ : Type} {player next : Player γ}

theorem Becomes.truthful (becomes : player.Becomes next) (truthful : player.Truthful) :
    next.Truthful ∧ player.session.phase.position ≤ next.session.phase.position := by
  induction becomes with
  | refl => exact ⟨truthful, le_rfl⟩
  | tail _ change ih =>
    obtain ⟨truthful', more⟩ := change.truthful ih.1
    exact ⟨truthful', ih.2.trans more⟩

theorem Weathers.truthful [RandomSource γ] (weathers : player.Weathers next) (truthful : player.Truthful) :
    next.Truthful ∧ player.session.phase.position ≤ next.session.phase.position := by
  cases weathers with
  | endures endures => exact Becomes.truthful endures.becomes truthful
  | wishes dealer =>
    obtain ⟨⟨limit, fits, creator, keys, ring, once⟩, announced, bears⟩ := truthful
    refine ⟨⟨⟨limit, fits, creator, keys, ring, once⟩, announced, ?_⟩, le_rfl⟩
    change Bears _ player.session.phase
    cases phase : player.session.phase <;> rw [phase] at bears <;> exact bears

theorem weathers_of_endures [RandomSource γ] (run : Relation.ReflTransGen Endures player next) :
    Relation.ReflTransGen Weathers player next :=
  Relation.ReflTransGen.mono (fun _ _ => .endures) _ _ run

theorem truthful_of_weathers [RandomSource γ] (run : Relation.ReflTransGen Weathers player next)
    (truthful : player.Truthful) :
    next.Truthful ∧ player.session.phase.position ≤ next.session.phase.position := by
  induction run with
  | refl => exact ⟨truthful, le_rfl⟩
  | tail _ step ih =>
    obtain ⟨truthful', more⟩ := step.truthful ih.1
    exact ⟨truthful', ih.2.trans more⟩

end Player

/-! ## Bringing the session up to date -/

namespace Turn

variable {γ σ : Type} {m : Manner σ}

/-- A player that is seated after it has gone on is no less far than the facts speak for. -/
theorem advance_yields (player : Player γ) (s : σ) : (advance : Turn γ Outcome).Yields m (fun result next _ =>
    result.isOk = true → next.isSeated = true →
      (next.session.observedPhase next.progress next.config.minPlayers).position ≤ next.session.phase.position)
    player s := by
  simp only [advance, yields_bind, yields_get]
  split
  · rename_i absent
    refine (yields_pure ..).2 fun _ seated => ?_
    rw [seated] at absent
    cases absent
  refine (yields_true refreshEncryption player s).bind (fun _ _ _ _ failed => by cases failed) fun _ next after _ => ?_
  simp only [yields_bind, yields_get]
  have reached := Phase.position_le_later next.session.phase
    (next.session.observedPhase next.progress next.config.minPlayers)
  split
  · rename_i same
    refine (yields_pure ..).2 fun _ _ => ?_
    rw [← same]
    exact reached
  · simp only [yields_bind, yields_set, yields_pure]
    exact fun _ _ => reached

theorem updateSession_yields (player : Player γ) (s : σ) :
    (updateSession : Turn γ Outcome).Yields m (fun result next _ => result.isOk = true → next.isSeated = true →
      (next.session.observedPhase next.progress next.config.minPlayers).position ≤ next.session.phase.position)
      player s :=
  (yields_true refreshPlayers player s).bind (fun _ _ _ _ failed => by cases failed) fun _ next after _ =>
    advance_yields next after

end Turn

/-! ## Runs -/

namespace Rules

theorem Fresh.truthful {γ : Type} {rules : Rules} {player : Player γ} (fresh : rules.Fresh player) :
    player.Truthful := by
  obtain ⟨phase, announced⟩ := fresh.waits
  refine ⟨fresh.coherent, announced.trans phase.symm, ?_⟩
  rw [phase]
  trivial

/-- Whatever a player is answered, its phase is the one it has announced, is never given up, and speaks of
what the player has; and whoever has brought its session up to date is in the phase the facts speak for. -/
theorem phase_tells_truth {γ : Type} [RandomSource γ] {rules : Rules} {start player : Player γ}
    (fresh : rules.Fresh start) (reached : Relation.ReflTransGen Player.Weathers start player) :
    player.announced = player.session.phase ∧
    (∀ next, Relation.ReflTransGen Player.Weathers player next →
      player.session.phase.position ≤ next.session.phase.position) ∧
    (player.session.phase ≠ .waitingForPlayers → player.session.isFull = true) ∧
    (player.session.phase = .encrypting → player.keys.isSome ∧
      ∀ a ∈ player.session.players, a ≠ player.address → ∃ key, player.ring.get? a = some key) ∧
    (player.session.phase = .decrypting → player.finishedDeck.isSome) ∧
    (player.session.phase = .ready → player.session.hand ≠ []) ∧
    ∀ {σ : Type} (answer : (request : Request) → σ → request.Answer × σ) (s after : σ) (outcome : Outcome)
      (next : Player γ), Turn.updateSession.take answer player s = (.ok outcome, next, after) →
        next.isSeated = true →
        next.session.phase = next.session.observedPhase next.progress next.config.minPlayers := by
  have truthful := (Player.truthful_of_weathers reached fresh.truthful).1
  have bears := truthful.bears
  refine ⟨truthful.announced, fun next later => (Player.truthful_of_weathers later truthful).2, bears.full,
    fun phase => ?_, fun phase => ?_, fun phase => ?_, ?_⟩
  · rw [phase] at bears
    exact truthful.toCoherent.keysCollected bears.2
  · rw [phase] at bears
    exact bears.2
  · rw [phase] at bears
    exact bears.2
  · intro σ answer s after outcome next taken seated
    have least := (Turn.updateSession_yields player s).take_any answer
    have becomes := Move.take_becomes .updateSession answer player s
    rw [Move.turn, Turn.take_map] at becomes
    rw [taken] at least becomes
    obtain ⟨truthful', -⟩ := Player.Becomes.truthful becomes truthful
    exact Phase.eq_of_position_eq ((truthful'.bears.le_observed truthful'.toCoherent).antisymm (least rfl seated))

/-- Nobody has filed anything that concerns the decks. -/
def silence : (request : Request) → Unit → request.Answer × Unit := hearsay ⟨"carol"⟩ [] []

/-- A player that has all keys, once it has looked at its session again. -/
def keyed : Player (Seeded id) := heed silence .updateSession ledOn

theorem weathers_keyed : Relation.ReflTransGen Player.Weathers joiner keyed :=
  Player.weathers_of_endures (endures_ledOn.tail (endures_heed silence .updateSession ledOn))

/-- The ledger goes back on what it said once the player speaks of its keys. -/
theorem phase_tells_truth_encrypting : keyed.session.phase = .encrypting ∧ keyed.announced = .encrypting ∧
    keyed.keys.isSome ∧ keyed.session.phase.position ≤ (heed denial .everything keyed).session.phase.position := by
  have phase : keyed.session.phase = .encrypting := by decide +kernel
  obtain ⟨announced, kept, -, encrypting, -⟩ := phase_tells_truth fresh_joiner weathers_keyed
  have next := kept _ (.single (.endures (endures_heed denial .everything keyed)))
  exact ⟨phase, announced.trans phase, (encrypting phase).1, next⟩

end Rules

end MentalPoker
