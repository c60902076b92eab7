/-
What a turn yields, in whatever manner its requests are answered. A manner says which answers a request
may get in a state, and what becomes of the state; a turn yields a postcondition if it holds wherever the
turn can end. Conditions of a ledger are one kind of manner; others note what the ledger was when it
answered, or take for granted that publications arrive.
-/
import MentalPoker.Player.Turn

namespace MentalPoker

/-- How requests are answered: from which state, with what, and to which state. -/
abbrev Manner (σ : Type) := σ → (request : Request) → request.Answer → σ → Prop

/-! ## Dialogues -/

namespace Dialogue

variable {α β σ τ : Type} {m : Manner σ}

/-- Wherever the dialogue ends, the postcondition holds of its result and of the state. -/
def Yields (m : Manner σ) (Q : α → σ → Prop) : Dialogue α → σ → Prop
  | done a, s => Q a s
  | ask request next, s => ∀ answer after, m s request answer after → (next answer).Yields m Q after

theorem yields_bind {Q : β → σ → Prop} (d : Dialogue α) (f : α → Dialogue β) (s : σ) :
    (d >>= f).Yields m Q s ↔ d.Yields m (fun a s => (f a).Yields m Q s) s := by
  induction d generalizing s with
  | done a => rfl
  | ask request next ih => exact forall₃_congr fun answer after _ => ih answer after

theorem Yields.mono {Q R : α → σ → Prop} (h : ∀ a s, Q a s → R a s) {d : Dialogue α} {s : σ}
    (yields : d.Yields m Q s) : d.Yields m R s := by
  induction d generalizing s with
  | done a => exact h a s yields
  | ask request next ih => exact fun answer after answered => ih answer (yields answer after answered)

theorem yields_true (d : Dialogue α) (s : σ) : d.Yields m (fun _ _ => True) s := by
  induction d generalizing s with
  | done a => trivial
  | ask request next ih => exact fun answer after _ => ih answer after

theorem Yields.and {Q R : α → σ → Prop} {d : Dialogue α} {s : σ} (first : d.Yields m Q s)
    (second : d.Yields m R s) : d.Yields m (fun a s => Q a s ∧ R a s) s := by
  induction d generalizing s with
  | done a => exact ⟨first, second⟩
  | ask request next ih =>
    exact fun answer after answered => ih answer (first answer after answered) (second answer after answered)

/-- A postcondition is carried from one manner to another by a relation between their states that
whatever the second one answers keeps. -/
theorem Yields.transfer {n : Manner τ} {R : σ → τ → Prop} {Q : α → σ → Prop}
    (keeps : ∀ {s t}, R s t → ∀ request answer t', n t request answer t' →
      ∃ s', m s request answer s' ∧ R s' t')
    {d : Dialogue α} {s : σ} {t : τ} (yields : d.Yields m Q s) (related : R s t) :
    d.Yields n (fun a t => ∃ s, Q a s ∧ R s t) t := by
  induction d generalizing s t with
  | done a => exact ⟨s, yields, related⟩
  | ask request next ih =>
    intro answer t' answered
    obtain ⟨s', answers, related'⟩ := keeps related request answer t' answered
    exact ih answer (yields answer s' answers) related'

/-- What is yielded in one manner is yielded in every manner that allows no more. -/
theorem Yields.of_le {n : Manner σ} {Q : α → σ → Prop} (le : ∀ s request answer after,
    n s request answer after → m s request answer after) {d : Dialogue α} {s : σ} (yields : d.Yields m Q s) :
    d.Yields n Q s := by
  induction d generalizing s with
  | done a => exact yields
  | ask request next ih =>
    exact fun answer after answered => ih answer (yields answer after (le s request answer after answered))

/-- Every request of the dialogue, held against whoever answers, is answered in the manner. -/
def Heeds (m : Manner σ) (answer : (request : Request) → τ → request.Answer × τ) (state : τ → σ) :
    Dialogue α → τ → Prop
  | done _, _ => True
  | ask request next, t =>
    m (state t) request (answer request t).1 (state (answer request t).2) ∧
      (next (answer request t).1).Heeds m answer state (answer request t).2

/-- What a dialogue yields holds after every run in the manner. -/
theorem Yields.run {answer : (request : Request) → τ → request.Answer × τ} {state : τ → σ}
    {Q : α → σ → Prop} {d : Dialogue α} {t : τ} (yields : d.Yields m Q (state t))
    (heeds : d.Heeds m answer state t) : Q (d.run answer t).1 (state (d.run answer t).2) := by
  induction d generalizing t with
  | done a => exact yields
  | ask request next ih => exact ih _ (yields _ _ heeds.1) heeds.2

theorem heeds_of_forall {answer : (request : Request) → τ → request.Answer × τ} {state : τ → σ}
    {I : τ → Prop} (h : ∀ request t, I t → I (answer request t).2 ∧
      m (state t) request (answer request t).1 (state (answer request t).2))
    (d : Dialogue α) {t : τ} (start : I t) : d.Heeds m answer state t := by
  induction d generalizing t with
  | done a => trivial
  | ask request next ih => exact ⟨(h request t start).2, ih _ (h request t start).1⟩

end Dialogue

/-! ## Turns -/

namespace Turn

variable {γ α β σ τ : Type} {m : Manner σ}

/-- Wherever the turn ends, the postcondition holds of its result, of the player, and of the state. It is
a structure so that nothing looks through it into the turn. -/
structure Yields (m : Manner σ) (Q : Except DealError α → Player γ → σ → Prop) (turn : Turn γ α)
    (player : Player γ) (s : σ) : Prop where
  run : Dialogue.Yields m (fun (result, player) s => Q result player s) (turn.run.run player) s

section

variable (Q : Except DealError α → Player γ → σ → Prop) (player : Player γ) (s : σ)

theorem yields_iff (turn : Turn γ α) :
    turn.Yields m Q player s ↔
      Dialogue.Yields m (fun (result, player) s => Q result player s) (turn.run.run player) s :=
  ⟨fun h => h.run, fun h => ⟨h⟩⟩

@[simp] theorem yields_pure (a : α) : (pure a : Turn γ α).Yields m Q player s ↔ Q (.ok a) player s :=
  yields_iff Q player s _

@[simp] theorem yields_throw (e : DealError) :
    (throw e : Turn γ α).Yields m Q player s ↔ Q (.error e) player s :=
  yields_iff Q player s _

@[simp] theorem yields_ofExcept (r : Except DealError α) :
    (ofExcept r : Turn γ α).Yields m Q player s ↔ Q r player s := by
  cases r <;> exact yields_iff Q player s _

theorem Yields.mono {Q R : Except DealError α → Player γ → σ → Prop}
    (h : ∀ result player s, Q result player s → R result player s) {turn : Turn γ α} {player : Player γ}
    {s : σ} (yields : turn.Yields m Q player s) : turn.Yields m R player s :=
  ⟨Dialogue.Yields.mono (fun (result, player) s => h result player s) yields.run⟩

theorem yields_true (turn : Turn γ α) (player : Player γ) (s : σ) :
    turn.Yields m (fun _ _ _ => True) player s :=
  ⟨Dialogue.yields_true _ s⟩

theorem Yields.and {Q R : Except DealError α → Player γ → σ → Prop} {turn : Turn γ α} {player : Player γ}
    {s : σ} (first : turn.Yields m Q player s) (second : turn.Yields m R player s) :
    turn.Yields m (fun result player s => Q result player s ∧ R result player s) player s :=
  ⟨first.run.and second.run⟩

theorem Yields.of_le {n : Manner σ} {Q : Except DealError α → Player γ → σ → Prop}
    (le : ∀ s request answer after, n s request answer after → m s request answer after) {turn : Turn γ α}
    {player : Player γ} {s : σ} (yields : turn.Yields m Q player s) : turn.Yields n Q player s :=
  ⟨yields.run.of_le le⟩

@[simp] theorem yields_bind (R : Except DealError β → Player γ → σ → Prop) (turn : Turn γ α)
    (next : α → Turn γ β) :
    (turn >>= next).Yields m R player s ↔
      turn.Yields m (fun result player s => match result with
        | .ok a => (next a).Yields m R player s
        | .error e => R (.error e) player s) player s := by
  simp only [yields_iff, ExceptT.run_bind, StateT.run_bind, Dialogue.yields_bind]
  constructor
  all_goals
    refine Dialogue.Yields.mono ?_
    rintro ⟨_ | _, _⟩ s h <;> exact h

@[simp] theorem yields_map (R : Except DealError β → Player γ → σ → Prop) (f : α → β) (turn : Turn γ α) :
    (f <$> turn).Yields m R player s ↔
      turn.Yields m (fun result player s => R (result.map f) player s) player s := by
  rw [map_eq_pure_bind, yields_bind]
  constructor
  all_goals
    refine Yields.mono ?_
    rintro (_ | _) player s h
    · exact h
    · simpa only [yields_pure, Except.map] using h

@[simp] theorem yields_tryCatch (turn : Turn γ α) (handle : DealError → Turn γ α) :
    (tryCatch turn handle).Yields m Q player s ↔
      turn.Yields m (fun result player s => match result with
        | .ok a => Q (.ok a) player s
        | .error e => (handle e).Yields m Q player s) player s := by
  simp only [yields_iff, ExceptT.run, tryCatch, tryCatchThe, MonadExceptOf.tryCatch, ExceptT.tryCatch,
    ExceptT.mk, StateT.run_bind, Dialogue.yields_bind]
  constructor
  all_goals
    refine Dialogue.Yields.mono ?_
    rintro ⟨_ | _, _⟩ s h <;> exact h

end

/-- The draw is named, so that nothing evaluates it. -/
theorem yields_draw {Q : Except DealError α → Player γ → σ → Prop} {player : Player γ} {s : σ}
    {f : γ → α × γ}
    (h : ∀ a source, f player.source = (a, source) → Q (.ok a) { player with source } s) :
    (draw f).Yields m Q player s :=
  (yields_iff Q player s _).2 (h (f player.source).1 (f player.source).2 rfl)

/-- One turn after another yields what the second does from wherever the first one ends. -/
theorem Yields.bind {Q : Except DealError α → Player γ → σ → Prop}
    {R : Except DealError β → Player γ → σ → Prop} {turn : Turn γ α} {next : α → Turn γ β}
    {player : Player γ} {s : σ} (first : turn.Yields m Q player s)
    (fails : ∀ e player s, Q (.error e) player s → R (.error e) player s)
    (second : ∀ a player s, Q (.ok a) player s → (next a).Yields m R player s) :
    (turn >>= next).Yields m R player s := by
  rw [yields_bind]
  refine first.mono fun result player s h => ?_
  cases result with
  | error e => exact fails e player s h
  | ok a => exact second a player s h

section

variable (player : Player γ) (s : σ)

@[simp] theorem yields_get (Q : Except DealError (Player γ) → Player γ → σ → Prop) :
    (get : Turn γ (Player γ)).Yields m Q player s ↔ Q (.ok player) player s :=
  yields_iff Q player s _

@[simp] theorem yields_set (Q : Except DealError PUnit → Player γ → σ → Prop) (next : Player γ) :
    (set next : Turn γ PUnit).Yields m Q player s ↔ Q (.ok ⟨⟩) next s :=
  yields_iff Q player s _

@[simp] theorem yields_modify (Q : Except DealError PUnit → Player γ → σ → Prop) (f : Player γ → Player γ) :
    (modify f : Turn γ PUnit).Yields m Q player s ↔ Q (.ok ⟨⟩) (f player) s :=
  yields_iff Q player s _

@[simp] theorem yields_attempt {α : Type} (Q : Except DealError Unit → Player γ → σ → Prop)
    (turn : Turn γ α) :
    (attempt turn).Yields m Q player s ↔ turn.Yields m (fun _ player s => Q (.ok ()) player s) player s := by
  rw [attempt, yields_tryCatch, yields_map]
  constructor
  all_goals
    refine Yields.mono ?_
    rintro (_ | _) player s h
    · simpa only [yields_pure, Except.map] using h
    · exact h

@[simp] theorem yields_ask (request : Request) (Q : Except DealError request.Value → Player γ → σ → Prop) :
    (ask request : Turn γ request.Value).Yields m Q player s ↔
      ∀ answer after, m s request answer after → Q (answer.mapError .ledger) player after :=
  yields_iff Q player s _

@[simp] theorem yields_askLatest (Q : Except DealError (Option Bytes) → Player γ → σ → Prop)
    (category : Category) (sender : Address) :
    (askLatest category sender).Yields m Q player s ↔ ∀ answer after,
      m s (.latestBySender category sender) answer after → Q (answer.mapError .ledger) player after :=
  yields_ask player s (.latestBySender category sender) Q

@[simp] theorem yields_askSenders (Q : Except DealError (List Address) → Player γ → σ → Prop)
    (category : Category) (recipient : Address) :
    (askSenders category recipient).Yields m Q player s ↔ ∀ answer after,
      m s (.sendersTo category recipient) answer after → Q (answer.mapError .ledger) player after :=
  yields_ask player s (.sendersTo category recipient) Q

@[simp] theorem yields_askPublish (Q : Except DealError TransactionId → Player γ → σ → Prop)
    (signer : Signer) (category : Category) (recipients : List Address) (payload : Bytes) :
    (askPublish signer category recipients payload).Yields m Q player s ↔ ∀ answer after,
      m s (.publish signer category recipients payload) answer after →
        Q (answer.mapError .ledger) player after :=
  yields_ask player s (.publish signer category recipients payload) Q

end

/-! ## Turns that keep a property -/

/-- Wherever the turn ends, what was so of the player and of the state is so again. -/
def Keeps (m : Manner σ) (I : Player γ → σ → Prop) (turn : Turn γ α) : Prop :=
  ∀ player s, I player s → turn.Yields m (fun _ next after => I next after) player s

section

variable {I : Player γ → σ → Prop}

theorem Keeps.bind {turn : Turn γ α} {next : α → Turn γ β} (first : turn.Keeps m I)
    (second : ∀ a, (next a).Keeps m I) : (turn >>= next).Keeps m I :=
  fun player s h => (first player s h).bind (fun _ _ _ h => h) fun a player s h => second a player s h

theorem Keeps.attempt {turn : Turn γ α} (h : turn.Keeps m I) : (attempt turn).Keeps m I := by
  intro player s holds
  rw [yields_attempt]
  exact h player s holds

theorem Keeps.map {turn : Turn γ α} (h : turn.Keeps m I) (f : α → β) : (f <$> turn).Keeps m I := by
  intro player s holds
  rw [yields_map]
  exact h player s holds

/-- What a turn keeps in one manner it keeps in another, as far as a relation between their states carries it. -/
theorem Keeps.transfer {n : Manner τ} {R : σ → τ → Prop} (related : ∀ {s t}, R s t → ∀ request answer t',
    n t request answer t' → ∃ s', m s request answer s' ∧ R s' t') {turn : Turn γ α} (h : turn.Keeps m I) :
    turn.Keeps n fun player t => ∃ s, I player s ∧ R s t := by
  rintro player t ⟨s, holds, same⟩
  exact ⟨Dialogue.Yields.transfer related (h player s holds).run same⟩

end

/-! ## Turns that are taken -/

/-- What a turn yields holds after it is taken in the manner. -/
theorem Yields.take {answer : (request : Request) → τ → request.Answer × τ} {state : τ → σ}
    {Q : Except DealError α → Player γ → σ → Prop} {turn : Turn γ α} {player : Player γ} {t : τ}
    (heeds : (turn.run.run player).Heeds m answer state t) (yields : turn.Yields m Q player (state t)) :
    Q (turn.take answer player t).1 (turn.take answer player t).2.1
      (state (turn.take answer player t).2.2) :=
  Dialogue.Yields.run yields.run heeds

/-- What a turn yields whatever it is answered holds after it is taken. -/
theorem Yields.take_any {Q : Except DealError α → Player γ → τ → Prop} {turn : Turn γ α} {player : Player γ} {t : τ}
    (yields : turn.Yields (fun _ _ _ _ => True) Q player t)
    (answer : (request : Request) → τ → request.Answer × τ) :
    Q (turn.take answer player t).1 (turn.take answer player t).2.1 (turn.take answer player t).2.2 := by
  have heeds : (turn.run.run player).Heeds (fun _ _ _ _ => True) answer id t :=
    Dialogue.heeds_of_forall (I := fun _ => True) (fun _ _ _ => ⟨trivial, trivial⟩) _ trivial
  exact yields.take heeds

end Turn

end MentalPoker
