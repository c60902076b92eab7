/-
Two runs of a turn side by side. They start from the same player and from two states of whoever answers
that are related, and they go abreast if they leave the same player and related states and come to
results that differ in the references of transactions at most: no turn looks into a reference, so two
ledgers may give different ones.
-/
import MentalPoker.Player.Move

namespace MentalPoker

variable {γ α β σ : Type}

/-! ## Results that are alike -/

/-- The results are values that are alike, or the same error, the reference in the message of a lost
reply apart. -/
inductive Agree (S : α → α → Prop) : Except DealError α → Except DealError α → Prop
  | ok {a a' : α} (alike : S a a') : Agree S (.ok a) (.ok a')
  | error (e : DealError) : Agree S (.error e) (.error e)
  | replyLost (id id' : TransactionId) :
      Agree S (.error (.ledger (.replyLost id))) (.error (.ledger (.replyLost id')))

/-- The outcomes are the same, the references of the published transactions apart. -/
inductive Outcome.Alike : Outcome → Outcome → Prop
  | same (outcome : Outcome) : Alike outcome outcome
  | published (id id' : TransactionId) : Alike (.published id) (.published id')

/-- The reports are the same, the references of the published transactions apart. -/
inductive Report.Alike : Report → Report → Prop
  | outcome {a b : Outcome} (alike : a.Alike b) : Alike (.outcome a) (.outcome b)
  | phase (phase : Phase) : Alike (.phase phase) (.phase phase)

theorem Agree.refl {S : α → α → Prop} (refl : ∀ a, S a a) : ∀ r : Except DealError α, Agree S r r
  | .ok a => .ok (refl a)
  | .error e => .error e

theorem Agree.map {S : α → α → Prop} {T : β → β → Prop} {r r' : Except DealError α} {f : α → β}
    (agree : Agree S r r') (h : ∀ a a', S a a' → T (f a) (f a')) : Agree T (r.map f) (r'.map f) := by
  cases agree with
  | ok alike => exact .ok (h _ _ alike)
  | error e => exact .error e
  | replyLost id id' => exact .replyLost id id'

/-- Whether there was nothing to do, or something was missing, does not depend on references. -/
theorem Outcome.Alike.eq_iff {a b c : Outcome} (alike : a.Alike b) (named : ∀ id, c ≠ .published id) :
    a = c ↔ b = c := by
  cases alike with
  | same => exact Iff.rfl
  | published id id' => exact ⟨fun h => absurd h.symm (named id), fun h => absurd h.symm (named id')⟩

/-! ## Turns -/

namespace Turn

variable {answer : (request : Request) → σ → request.Answer × σ} {R : Player γ → σ → σ → Prop}
  {S : α → α → Prop} {T : β → β → Prop} {player : Player γ} {s s' : σ}

/-- The two turns leave the same player and related states, and come to results that are alike. -/
structure Abreast (answer : (request : Request) → σ → request.Answer × σ) (R : Player γ → σ → σ → Prop)
    (S : α → α → Prop) (turn turn' : Turn γ α) (player : Player γ) (s s' : σ) : Prop where
  next : (turn.take answer player s).2.1 = (turn'.take answer player s').2.1
  agree : Agree S (turn.take answer player s).1 (turn'.take answer player s').1
  related : R (turn.take answer player s).2.1 (turn.take answer player s).2.2
    (turn'.take answer player s').2.2

theorem abreast_pure {a a' : α} (related : R player s s') (alike : S a a') :
    (pure a : Turn γ α).Abreast answer R S (pure a') player s s' :=
  ⟨rfl, .ok alike, related⟩

theorem abreast_throw (related : R player s s') (e : DealError) :
    (throw e : Turn γ α).Abreast answer R S (throw e) player s s' :=
  ⟨rfl, .error e, related⟩

theorem abreast_ofExcept (related : R player s s') (refl : ∀ a, S a a) (r : Except DealError α) :
    (ofExcept r : Turn γ α).Abreast answer R S (ofExcept r) player s s' := by
  refine ⟨?_, ?_, ?_⟩ <;> simp only [take_ofExcept]
  · exact .refl refl r
  · exact related

/-- Turns after turns go abreast if they do so from where the first ones end. -/
theorem Abreast.follow {turn turn' : Turn γ α} {f f' : α → Turn γ β}
    (first : turn.Abreast answer R S turn' player s s')
    (second : ∀ a a', S a a' → (f a).Abreast answer R T (f' a') (turn.take answer player s).2.1
      (turn.take answer player s).2.2 (turn'.take answer player s').2.2) :
    (turn >>= f).Abreast answer R T (turn' >>= f') player s s' := by
  obtain ⟨next, agree, related⟩ := first
  have here := take_bind answer player s turn f
  have there := take_bind answer player s' turn' f'
  generalize turn.take answer player s = ends at next agree related here second
  generalize turn'.take answer player s' = ends' at next agree related there second
  obtain ⟨result, player, s⟩ := ends
  obtain ⟨result', _, s'⟩ := ends'
  cases next
  cases agree with
  | ok alike =>
    obtain ⟨next, agree, related⟩ := second _ _ alike
    exact ⟨by rw [here, there, next], by rw [here, there]; exact agree, by rw [here, there]; exact related⟩
  | error e => exact ⟨by rw [here, there], by rw [here, there]; exact .error e, by rwa [here, there]⟩
  | replyLost id id' =>
    exact ⟨by rw [here, there], by rw [here, there]; exact .replyLost id id', by rwa [here, there]⟩

/-- Turns after turns go abreast if they do so from wherever the first ones may end. -/
theorem Abreast.bind {turn turn' : Turn γ α} {f f' : α → Turn γ β}
    (first : turn.Abreast answer R S turn' player s s')
    (second : ∀ a a' player s s', S a a' → R player s s' →
      (f a).Abreast answer R T (f' a') player s s') :
    (turn >>= f).Abreast answer R T (turn' >>= f') player s s' :=
  first.follow fun a a' alike => second a a' _ _ _ alike first.related

theorem Abreast.map {turn turn' : Turn γ α} (abreast : turn.Abreast answer R S turn' player s s') {f : α → β}
    (h : ∀ a a', S a a' → T (f a) (f a')) : (f <$> turn).Abreast answer R T (f <$> turn') player s s' := by
  refine ⟨?_, ?_, ?_⟩ <;> simp only [take_map]
  · exact abreast.next
  · exact abreast.agree.map h
  · exact abreast.related

theorem Abreast.attempt {turn turn' : Turn γ α} (abreast : turn.Abreast answer R S turn' player s s') :
    (attempt turn).Abreast answer R (fun _ _ => True) (attempt turn') player s s' := by
  refine ⟨?_, ?_, ?_⟩ <;> simp only [take_attempt]
  · exact abreast.next
  · exact .ok trivial
  · exact abreast.related

/-- Both turns look at the same player. -/
theorem abreast_get {f f' : Player γ → Turn γ α} (h : (f player).Abreast answer R S (f' player) player s s') :
    (get >>= f).Abreast answer R S (get >>= f') player s s' := by
  refine ⟨?_, ?_, ?_⟩ <;> simp only [take_bind, take_get]
  · exact h.next
  · exact h.agree
  · exact h.related

theorem abreast_set {next : Player γ} (related : R next s s') :
    (set next : Turn γ PUnit).Abreast answer R (fun _ _ => True) (set next) player s s' :=
  ⟨rfl, .ok trivial, related⟩

theorem abreast_modify {f : Player γ → Player γ} (related : R (f player) s s') :
    (modify f : Turn γ PUnit).Abreast answer R (fun _ _ => True) (modify f) player s s' :=
  ⟨rfl, .ok trivial, related⟩

/-- Equal players draw the same from their source. -/
theorem abreast_draw {f : γ → α × γ} (related : R { player with source := (f player.source).2 } s s') :
    (draw f).Abreast answer R (· = ·) (draw f) player s s' :=
  ⟨rfl, .ok rfl, related⟩

/-- A request goes abreast if its answers agree. -/
theorem abreast_ask {request : Request} {S : request.Value → request.Value → Prop}
    (agree : Agree S ((answer request s).1.mapError .ledger) ((answer request s').1.mapError .ledger))
    (related : R player (answer request s).2 (answer request s').2) :
    (ask request : Turn γ request.Value).Abreast answer R S (ask request) player s s' :=
  ⟨rfl, agree, related⟩

end Turn

end MentalPoker
