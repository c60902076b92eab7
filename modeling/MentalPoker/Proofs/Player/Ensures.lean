/-
What a turn ensures, whatever the ledger answers. The conditions say what can happen to a dialogue:
what others do to the ledger between two requests, whether requests fail, and which publications may
lose their reply. A turn ensures a postcondition if it holds wherever the turn can end.
-/
import MentalPoker.Proofs.Ledger.Log
import MentalPoker.Proofs.Player.Yields

namespace MentalPoker

/-- The conditions under which players talk to a ledger. -/
structure Conditions where
  /-- What others may make of the log before a request is answered. -/
  others : Log → Log → Prop
  others_trans : ∀ {log seen later}, others log seen → others seen later → others log later
  /-- Requests may fail before they reach the ledger. -/
  fails : Prop
  /-- The publications whose reply may be lost after they are appended. -/
  loses : Category → Prop

namespace Conditions

/-- Nobody interferes and nothing goes wrong. -/
def calm : Conditions := ⟨(· = ·), Eq.trans, False, fun _ => False⟩

@[simp] theorem calm_others {log later : Log} : calm.others log later ↔ log = later := Iff.rfl

@[simp] theorem calm_fails : calm.fails ↔ False := Iff.rfl

@[simp] theorem calm_loses {category : Category} : calm.loses category ↔ False := Iff.rfl

/-- Whatever can happen under the first conditions can happen under the second. -/
structure Le (c worse : Conditions) : Prop where
  others : ∀ {log later}, c.others log later → worse.others log later
  fails : c.fails → worse.fails
  loses : ∀ {category}, c.loses category → worse.loses category

theorem Le.trans {c worse worst : Conditions} (first : c.Le worse) (second : worse.Le worst) :
    c.Le worst :=
  ⟨second.others ∘ first.others, second.fails ∘ first.fails, second.loses ∘ first.loses⟩

/-- A request to a log, its answer, and the log after it. -/
def Exchange (c : Conditions) (log : Log) : (request : Request) → request.Answer → Log → Prop
  | .publish signer category recipients payload, answer, after =>
    (after = log ++ [Log.filing log signer category recipients payload] ∧
      ((∃ id, answer = .ok id) ∨ c.loses category ∧ ∃ e, answer = .error e)) ∨
    c.fails ∧ after = log ∧ ∃ e, answer = .error e
  | .latestBySender category sender, answer, after =>
    after = log ∧ (answer = .ok (Log.payload? category sender log) ∨ c.fails ∧ ∃ e, answer = .error e)
  | .sendersTo category recipient, answer, after =>
    after = log ∧ (answer = .ok (Log.sendersTo category recipient log) ∨ c.fails ∧ ∃ e, answer = .error e)

/-- What others do first, and then the exchange. -/
def manner (c : Conditions) : Manner Log := fun log request answer after =>
  ∃ seen, c.others log seen ∧ c.Exchange seen request answer after

end Conditions

/-! ## Dialogues -/

namespace Dialogue

variable {α σ : Type} {c : Conditions}

/-- Wherever the dialogue ends, the postcondition holds of its result and of the log. -/
def Ensures (c : Conditions) (Q : α → Log → Prop) : Dialogue α → Log → Prop
  | done a, log => Q a log
  | ask request next, log => ∀ seen, c.others log seen → ∀ answer after,
      c.Exchange seen request answer after → (next answer).Ensures c Q after

/-- Every exchange of the dialogue, held against whoever answers, is one of the conditions. -/
def Meets (c : Conditions) (answer : (request : Request) → σ → request.Answer × σ) (log : σ → Log) :
    Dialogue α → σ → Prop
  | done _, _ => True
  | ask request next, s =>
    (∃ seen, c.others (log s) seen ∧
      c.Exchange seen request (answer request s).1 (log (answer request s).2)) ∧
    (next (answer request s).1).Meets c answer log (answer request s).2

/-- Conditions are a manner of answering. -/
theorem ensures_iff_yields (d : Dialogue α) (Q : α → Log → Prop) (log : Log) :
    d.Ensures c Q log ↔ d.Yields c.manner Q log := by
  induction d generalizing log with
  | done a => rfl
  | ask request next ih =>
    constructor
    · rintro h answer after ⟨seen, later, exchange⟩
      exact (ih answer after).1 (h seen later answer after exchange)
    · intro h seen later answer after exchange
      exact (ih answer after).2 (h answer after ⟨seen, later, exchange⟩)

theorem meets_iff_heeds {answer : (request : Request) → σ → request.Answer × σ} {log : σ → Log}
    (d : Dialogue α) (s : σ) : d.Meets c answer log s ↔ d.Heeds c.manner answer log s := by
  induction d generalizing s with
  | done a => rfl
  | ask request next ih => exact and_congr_right' (ih _ _)

theorem meets_of_forall {answer : (request : Request) → σ → request.Answer × σ} {log : σ → Log}
    {I : σ → Prop} (h : ∀ request s, I s → I (answer request s).2 ∧ ∃ seen, c.others (log s) seen ∧
      c.Exchange seen request (answer request s).1 (log (answer request s).2))
    (d : Dialogue α) {s : σ} (start : I s) : d.Meets c answer log s :=
  (meets_iff_heeds d s).2 (heeds_of_forall h d start)

end Dialogue

/-! ## Turns -/

namespace Turn

variable {γ α β : Type} {c : Conditions}

/-- Wherever the turn ends, the postcondition holds of its result, of the player, and of the log. It is
a structure so that nothing looks through it into the turn. -/
structure Ensures (c : Conditions) (Q : Except DealError α → Player γ → Log → Prop)
    (turn : Turn γ α) (player : Player γ) (log : Log) : Prop where
  run : Dialogue.Ensures c (fun (result, player) log => Q result player log) (turn.run.run player) log

section

variable (Q : Except DealError α → Player γ → Log → Prop) (player : Player γ) (log : Log)

theorem ensures_iff_yields (turn : Turn γ α) :
    turn.Ensures c Q player log ↔ turn.Yields c.manner Q player log := by
  rw [yields_iff, ← Dialogue.ensures_iff_yields]
  exact ⟨fun h => h.run, fun h => ⟨h⟩⟩

@[simp] theorem ensures_pure (a : α) :
    (pure a : Turn γ α).Ensures c Q player log ↔ Q (.ok a) player log := by
  rw [ensures_iff_yields, yields_pure]

@[simp] theorem ensures_throw (e : DealError) :
    (throw e : Turn γ α).Ensures c Q player log ↔ Q (.error e) player log := by
  rw [ensures_iff_yields, yields_throw]

@[simp] theorem ensures_ofExcept (r : Except DealError α) :
    (ofExcept r : Turn γ α).Ensures c Q player log ↔ Q r player log := by
  rw [ensures_iff_yields, yields_ofExcept]

/-- The draw is named, so that nothing evaluates it. -/
theorem ensures_draw {Q : Except DealError α → Player γ → Log → Prop} {player : Player γ} {log : Log}
    {f : γ → α × γ}
    (h : ∀ a source, f player.source = (a, source) → Q (.ok a) { player with source } log) :
    (draw f).Ensures c Q player log :=
  (ensures_iff_yields Q player log _).2 (yields_draw h)

theorem Ensures.mono {Q R : Except DealError α → Player γ → Log → Prop}
    (h : ∀ result player log, Q result player log → R result player log) {turn : Turn γ α}
    {player : Player γ} {log : Log} (ensures : turn.Ensures c Q player log) :
    turn.Ensures c R player log := by
  rw [ensures_iff_yields] at ensures ⊢
  exact ensures.mono h

theorem Ensures.and {Q R : Except DealError α → Player γ → Log → Prop} {turn : Turn γ α}
    {player : Player γ} {log : Log} (first : turn.Ensures c Q player log)
    (second : turn.Ensures c R player log) :
    turn.Ensures c (fun result player log => Q result player log ∧ R result player log) player log := by
  rw [ensures_iff_yields] at first second ⊢
  exact first.and second

@[simp] theorem ensures_bind (R : Except DealError β → Player γ → Log → Prop) (turn : Turn γ α)
    (next : α → Turn γ β) :
    (turn >>= next).Ensures c R player log ↔
      turn.Ensures c (fun result player log => match result with
        | .ok a => (next a).Ensures c R player log
        | .error e => R (.error e) player log) player log := by
  rw [ensures_iff_yields, yields_bind, ensures_iff_yields]
  constructor
  all_goals
    refine Yields.mono ?_
    rintro (_ | a) player log h
    · exact h
    · simpa only [ensures_iff_yields] using h

@[simp] theorem ensures_map (R : Except DealError β → Player γ → Log → Prop) (f : α → β)
    (turn : Turn γ α) :
    (f <$> turn).Ensures c R player log ↔
      turn.Ensures c (fun result player log => R (result.map f) player log) player log := by
  rw [ensures_iff_yields, ensures_iff_yields, yields_map]

end

/-- One turn after another ensures what the second does from wherever the first one ends. -/
theorem Ensures.bind {Q : Except DealError α → Player γ → Log → Prop}
    {R : Except DealError β → Player γ → Log → Prop} {turn : Turn γ α} {next : α → Turn γ β}
    {player : Player γ} {log : Log} (first : turn.Ensures c Q player log)
    (fails : ∀ e player log, Q (.error e) player log → R (.error e) player log)
    (second : ∀ a player log, Q (.ok a) player log → (next a).Ensures c R player log) :
    (turn >>= next).Ensures c R player log := by
  simp only [ensures_iff_yields] at first second ⊢
  exact first.bind fails second

section

variable (player : Player γ) (log : Log)

@[simp] theorem ensures_get (Q : Except DealError (Player γ) → Player γ → Log → Prop) :
    (get : Turn γ (Player γ)).Ensures c Q player log ↔ Q (.ok player) player log := by
  rw [ensures_iff_yields, yields_get]

@[simp] theorem ensures_set (Q : Except DealError PUnit → Player γ → Log → Prop) (next : Player γ) :
    (set next : Turn γ PUnit).Ensures c Q player log ↔ Q (.ok ⟨⟩) next log := by
  rw [ensures_iff_yields, yields_set]

@[simp] theorem ensures_modify (Q : Except DealError PUnit → Player γ → Log → Prop)
    (f : Player γ → Player γ) :
    (modify f : Turn γ PUnit).Ensures c Q player log ↔ Q (.ok ⟨⟩) (f player) log := by
  rw [ensures_iff_yields, yields_modify]

@[simp] theorem ensures_attempt {α : Type} (Q : Except DealError Unit → Player γ → Log → Prop)
    (turn : Turn γ α) :
    (attempt turn).Ensures c Q player log ↔
      turn.Ensures c (fun _ player log => Q (.ok ()) player log) player log := by
  rw [ensures_iff_yields, ensures_iff_yields, yields_attempt]

/-! ## Requests -/

/-- A question is answered with what there is to be seen, unless it fails. -/
theorem forall_asked_iff {β : Type} (c : Conditions) {truth : Log → β} {log : Log}
    {Q : Except LedgerError β → Log → Prop} :
    (∀ answer after, (∃ seen, c.others log seen ∧ after = seen ∧
        (answer = .ok (truth seen) ∨ c.fails ∧ ∃ e, answer = .error e)) → Q answer after) ↔
      ∀ seen, c.others log seen → Q (.ok (truth seen)) seen ∧ (c.fails → ∀ e, Q (.error e) seen) := by
  constructor
  · intro h seen later
    exact ⟨h _ _ ⟨seen, later, rfl, .inl rfl⟩, fun fails e => h _ _ ⟨seen, later, rfl, .inr ⟨fails, e, rfl⟩⟩⟩
  · rintro h answer after ⟨seen, later, rfl, rfl | ⟨may, e, rfl⟩⟩
    · exact (h _ later).1
    · exact (h _ later).2 may e

@[simp] theorem ensures_askLatest (Q : Except DealError (Option Bytes) → Player γ → Log → Prop)
    (category : Category) (sender : Address) :
    (askLatest category sender).Ensures c Q player log ↔ ∀ seen, c.others log seen →
      Q (.ok (Log.payload? category sender seen)) player seen ∧
        (c.fails → ∀ e, Q (.error (.ledger e)) player seen) := by
  rw [ensures_iff_yields, yields_askLatest]
  exact forall_asked_iff c

@[simp] theorem ensures_askSenders (Q : Except DealError (List Address) → Player γ → Log → Prop)
    (category : Category) (recipient : Address) :
    (askSenders category recipient).Ensures c Q player log ↔ ∀ seen, c.others log seen →
      Q (.ok (Log.sendersTo category recipient seen)) player seen ∧
        (c.fails → ∀ e, Q (.error (.ledger e)) player seen) := by
  rw [ensures_iff_yields, yields_askSenders]
  exact forall_asked_iff c

@[simp] theorem ensures_askPublish (Q : Except DealError TransactionId → Player γ → Log → Prop)
    (signer : Signer) (category : Category) (recipients : List Address) (payload : Bytes) :
    (askPublish signer category recipients payload).Ensures c Q player log ↔
      ∀ seen, c.others log seen →
        (∀ id, Q (.ok id) player (seen ++ [Log.filing seen signer category recipients payload])) ∧
        (c.loses category → ∀ e, Q (.error (.ledger e)) player
          (seen ++ [Log.filing seen signer category recipients payload])) ∧
        (c.fails → ∀ e, Q (.error (.ledger e)) player seen) := by
  rw [ensures_iff_yields, yields_askPublish]
  constructor
  · intro h seen later
    exact ⟨fun id => h _ _ ⟨seen, later, .inl ⟨rfl, .inl ⟨id, rfl⟩⟩⟩,
      fun loses e => h _ _ ⟨seen, later, .inl ⟨rfl, .inr ⟨loses, e, rfl⟩⟩⟩,
      fun fails e => h _ _ ⟨seen, later, .inr ⟨fails, rfl, e, rfl⟩⟩⟩
  · rintro h answer after ⟨seen, later, ⟨rfl, ⟨id, rfl⟩ | ⟨may, e, rfl⟩⟩ | ⟨may, rfl, e, rfl⟩⟩
    · exact (h seen later).1 id
    · exact (h seen later).2.1 may e
    · exact (h _ later).2.2 may e

end

/-! ## Turns that are taken -/

/-- What a turn ensures holds after it is taken under the conditions. -/
theorem Ensures.take {σ : Type} {answer : (request : Request) → σ → request.Answer × σ}
    {log : σ → Log} {Q : Except DealError α → Player γ → Log → Prop} {turn : Turn γ α}
    {player : Player γ} {s : σ} (meets : (turn.run.run player).Meets c answer log s)
    (ensures : turn.Ensures c Q player (log s)) :
    Q (turn.take answer player s).1 (turn.take answer player s).2.1
      (log (turn.take answer player s).2.2) := by
  rw [ensures_iff_yields] at ensures
  exact ensures.take ((Dialogue.meets_iff_heeds _ s).1 meets)

end Turn

end MentalPoker
