/-
Turns and the requests that fail in them. What fails is noted with the ledger before and after it. A turn
in which nothing fails is the turn on a ledger that nothing happens to, and a turn that breaks off at the
first failure is told by what it has done until then.
-/
import MentalPoker.Proofs.Play.Run
import MentalPoker.Proofs.Player.Frame

namespace MentalPoker

/-! ## Ledgers that nothing happens to -/

namespace Log

/-- Every request is answered, and nothing is lost. -/
def answer : (request : Request) → Log → request.Answer × Log
  | .publish signer category recipients payload, log =>
    (.ok (Journal.idAt log.length), log ++ [filing log signer category recipients payload])
  | .latestBySender category sender, log => (.ok (log.payload? category sender), log)
  | .sendersTo category recipient, log => (.ok (log.sendersTo category recipient), log)

@[simp] theorem answer_latestBySender (log : Log) (category : Category) (sender : Address) :
    answer (.latestBySender category sender) log = (.ok (log.payload? category sender), log) := rfl

end Log

/-- A journal without failures ahead. -/
def Journal.unhindered (log : Log) : Journal := ⟨log, 0, 0⟩

/-- Such a journal answers as the ledger does. -/
theorem Journal.answer_unhindered (request : Request) (log : Log) :
    (Journal.unhindered log).answer request =
      ((Log.answer request log).1, Journal.unhindered (Log.answer request log).2) := by
  cases request <;> rfl

theorem Dialogue.run_unhindered {α : Type} (d : Dialogue α) (log : Log) :
    d.run Journal.answer (.unhindered log) = ((d.run Log.answer log).1, .unhindered (d.run Log.answer log).2) := by
  induction d generalizing log with
  | done a => rfl
  | ask request next ih => rw [run_ask, run_ask, Journal.answer_unhindered, ih]

theorem Journal.answer_of_ok {request : Request} {journal : Journal} {value : request.Value}
    (h : (journal.answer request).1 = .ok value) :
    Log.answer request journal.transactions = (.ok value, (journal.answer request).2.transactions) := by
  obtain ⟨log, failures, lostReplies⟩ := journal
  cases failures with
  | succ failures => cases request <;> cases h
  | zero =>
    cases request with
    | publish signer category recipients payload =>
      cases lostReplies with
      | zero =>
        cases h
        rfl
      | succ lostReplies => cases h
    | latestBySender category sender =>
      cases h
      rfl
    | sendersTo category recipient =>
      cases h
      rfl

/-- A line that answers does so as the ledger would. -/
theorem Line.answer_of_ok {request : Request} {line : Line} {value : request.Value}
    (h : (line.answer request).1 = .ok value) :
    Log.answer request line.transactions = (.ok value, (line.answer request).2.transactions) := by
  unfold Line.answer at h ⊢
  dsimp only at h ⊢
  split at h
  · cases h
  · exact Journal.answer_of_ok h
  · -- a publication whose reply is lost is not answered
    refine Journal.answer_of_ok ?_
    generalize line.journal.answer request = answered at h
    obtain ⟨answer, journal⟩ := answered
    cases request with
    | publish => cases answer <;> cases h
    | latestBySender => exact h
    | sendersTo => exact h

/-- Whoever asks changes nothing. -/
theorem Line.transactions_of_asks (line : Line) (request : Request) (asks : request.Asks) :
    (line.answer request).2.transactions = line.transactions :=
  (line.answer_exchange request).same_of_asks asks

/-! ## Failures -/

/-- A request that was not answered, and the ledger before and after it. -/
structure Failure where
  request : Request
  error : LedgerError
  before : Log
  after : Log

/-- Answers as the line does and notes what fails. -/
def Line.noting (request : Request) (noted : Line × List Failure) : request.Answer × (Line × List Failure) :=
  let (answer, line) := noted.1.answer request
  (answer, line, noted.2 ++ match answer with
    | .ok _ => []
    | .error e => [⟨request, e, noted.1.transactions, line.transactions⟩])

/-- Notes change nothing. -/
theorem Dialogue.run_noting {α : Type} (d : Dialogue α) (line : Line) (failures : List Failure) :
    (d.run Line.noting (line, failures)).1 = (d.run Line.answer line).1 ∧
      (d.run Line.noting (line, failures)).2.1 = (d.run Line.answer line).2 := by
  induction d generalizing line failures with
  | done a => exact ⟨rfl, rfl⟩
  | ask request next ih => exact ih _ _ _

/-- A request is answered by the ledger, or it fails and is noted; what has been filed may be on the
ledger all the same. -/
def Manner.noted : Manner (Log × List Failure) := fun s request answer after =>
  (answer = (Log.answer request s.1).1 ∧ after = ((Log.answer request s.1).2, s.2)) ∨
    ∃ e, answer = .error e ∧ after.2 = s.2 ++ [⟨request, e, s.1, after.1⟩] ∧ (request.Asks → after.1 = s.1)

theorem Line.answer_noted (request : Request) (noted : Line × List Failure) :
    Manner.noted (noted.1.transactions, noted.2) request (Line.noting request noted).1
      ((Line.noting request noted).2.1.transactions, (Line.noting request noted).2.2) := by
  obtain ⟨line, failures⟩ := noted
  unfold noting
  dsimp only
  cases answered : (line.answer request).1 with
  | ok value =>
    have as := Line.answer_of_ok answered
    exact .inl ⟨by rw [as], by rw [as, List.append_nil]⟩
  | error e => exact .inr ⟨e, rfl, rfl, fun asks => line.transactions_of_asks request asks⟩

namespace Turn

variable {γ α β : Type}

/-- The requests of a turn that fail. -/
def failures (turn : Turn γ α) (player : Player γ) (line : Line) : List Failure :=
  (turn.take Line.noting player (line, [])).2.2.2

/-- Whoever takes notes makes the same of the turn. -/
theorem take_noting (turn : Turn γ α) (player : Player γ) (line : Line) :
    turn.take Line.noting player (line, []) =
      ((turn.take Line.answer player line).1, (turn.take Line.answer player line).2.1,
        (turn.take Line.answer player line).2.2, turn.failures player line) := by
  obtain ⟨result, after⟩ := Dialogue.run_noting (turn.run.run player) line []
  simp only [take, failures, result, ← after]

section

variable (player : Player γ) (log : Log)

@[simp] theorem take_hasPublished_answer (step : Step) :
    (hasPublished step).take Log.answer player log =
      (.ok (log.payload? (player.category step) player.address).isSome, player, log) :=
  take_hasPublished Log.answer step

@[simp] theorem take_latestDeck?_answer (step : Step) (sender : Address) :
    (latestDeck? step sender).take Log.answer player log =
      (deckOf (log.payload? (player.category step) sender), player, log) :=
  take_latestDeck? Log.answer step sender

@[simp] theorem take_publish_answer (signer : Signer) (step : Step) (recipients : List Address) (payload : Bytes) :
    (publish signer step recipients payload).take Log.answer player log =
      (.ok (.published (Journal.idAt log.length)), player,
        log ++ [Log.filing log signer (player.category step) recipients payload]) := rfl

end

/-- The turn on a journal without failures is the turn on its ledger. -/
theorem take_unhindered (turn : Turn γ α) (player : Player γ) (log : Log) :
    turn.take Journal.answer player (.unhindered log) =
      ((turn.take Log.answer player log).1, (turn.take Log.answer player log).2.1,
        .unhindered (turn.take Log.answer player log).2.2) := by
  simp only [take, Dialogue.run_unhindered]

/-! ## Turns that go through -/

/-- A turn that goes through on a ledger that nothing happens to comes to this. -/
def Comes (Q : α → Player γ → Log → Prop) (turn : Turn γ α) (player : Player γ) (log : Log) : Prop :=
  ∀ a next later, turn.take Log.answer player log = (.ok a, next, later) → Q a next later

section

variable {Q : α → Player γ → Log → Prop} {player : Player γ} {log : Log}

theorem Comes.mono {Q' : α → Player γ → Log → Prop} {turn : Turn γ α} (comes : turn.Comes Q player log)
    (h : ∀ a next later, Q a next later → Q' a next later) : turn.Comes Q' player log :=
  fun a next later taken => h a next later (comes a next later taken)

theorem comes_of_take {turn : Turn γ α} {result : Except DealError α} {next : Player γ} {later : Log}
    (taken : turn.take Log.answer player log = (result, next, later)) (h : ∀ a, result = .ok a → Q a next later) :
    turn.Comes Q player log := by
  intro a next' later' taken'
  obtain ⟨rfl, rfl, rfl⟩ : result = .ok a ∧ next = next' ∧ later = later' := by
    simpa using taken.symm.trans taken'
  exact h a rfl

/-- A turn goes on from where the one before it has gone through. -/
theorem Comes.bind {turn : Turn γ β} {rest : β → Turn γ α} (first : turn.Comes (fun b => (rest b).Comes Q) player log) :
    (turn >>= rest).Comes Q player log := by
  intro a next later taken
  rw [take_bind] at taken
  split at taken
  · rename_i b middle log' went
    exact first b middle log' went a next later taken
  · cases taken

theorem comes_pure {a : α} (h : Q a player log) : (pure a : Turn γ α).Comes Q player log :=
  comes_of_take (take_pure ..) (by rintro _ ⟨⟩; exact h)

theorem comes_throw (e : DealError) : (throw e : Turn γ α).Comes Q player log :=
  comes_of_take (take_throw ..) (by rintro _ ⟨⟩)

theorem comes_get {rest : Player γ → Turn γ α} (h : (rest player).Comes Q player log) :
    (get >>= rest).Comes Q player log :=
  Comes.bind (comes_of_take (take_get ..) (by rintro _ ⟨⟩; exact h))

theorem comes_set {next : Player γ} {rest : PUnit → Turn γ α} (h : (rest ⟨⟩).Comes Q next log) :
    (set next >>= rest).Comes Q player log :=
  Comes.bind (comes_of_take (take_set ..) fun _ _ => h)

theorem comes_modify {f : Player γ → Player γ} {rest : PUnit → Turn γ α} (h : (rest ⟨⟩).Comes Q (f player) log) :
    (modify f >>= rest).Comes Q player log :=
  Comes.bind (comes_of_take (take_modify ..) fun _ _ => h)

theorem comes_ofExcept {r : Except DealError β} {rest : β → Turn γ α}
    (h : ∀ b, r = .ok b → (rest b).Comes Q player log) :
    (ofExcept r >>= rest).Comes Q player log :=
  Comes.bind (comes_of_take (take_ofExcept ..) h)

theorem comes_draw {f : γ → β × γ} {rest : β → Turn γ α}
    (h : ∀ b source, (rest b).Comes Q { player with source } log) : (draw f >>= rest).Comes Q player log :=
  Comes.bind (comes_of_take (take_draw ..) fun b _ => h b _)

theorem comes_hasPublished {step : Step} {rest : Bool → Turn γ α}
    (h : (rest (log.payload? (player.category step) player.address).isSome).Comes Q player log) :
    (hasPublished step >>= rest).Comes Q player log :=
  Comes.bind (comes_of_take (take_hasPublished_answer player log step) (by rintro _ ⟨⟩; exact h))

theorem comes_latestDeck? {step : Step} {sender : Address} {rest : Option (Deck Scalar) → Turn γ α}
    (h : ∀ deck, deckOf (log.payload? (player.category step) sender) = .ok deck → (rest deck).Comes Q player log) :
    (latestDeck? step sender >>= rest).Comes Q player log :=
  Comes.bind (comes_of_take (take_latestDeck?_answer player log step sender) h)

theorem comes_publish {Q : Outcome → Player γ → Log → Prop} {signer : Signer} {step : Step} {recipients : List Address}
    {payload : Bytes} (h : Q (.published (Journal.idAt log.length)) player
      (log ++ [Log.filing log signer (player.category step) recipients payload])) :
    (publish signer step recipients payload).Comes Q player log :=
  comes_of_take (take_publish_answer player log signer step recipients payload) (by rintro _ ⟨⟩; exact h)

end

/-! ## Turns that break off -/

/-- How a turn ends: it goes through as on a ledger that nothing happens to, or it breaks off at the first
request that fails. It is then where it stands when a question has failed, or when a transaction has not
been filed. -/
inductive Ends (asked unfiled : Player γ → Log → Prop) (turn : Turn γ α) (player : Player γ) (log : Log) :
    Except DealError α → Player γ → Log × List Failure → Prop
  | through {result : Except DealError α} {next : Player γ} {later : Log}
      (h : turn.take Log.answer player log = (result, next, later)) :
      Ends asked unfiled turn player log result next (later, [])
  | asking (failure : Failure) {next : Player γ} {later : Log} (asks : failure.request.Asks)
      (h : asked next later) :
      Ends asked unfiled turn player log (.error (.ledger failure.error)) next (later, [failure])
  | filing (failure : Failure) {next : Player γ} {later : Log} (files : ¬ failure.request.Asks)
      (h : failure.after = failure.before → unfiled next later) :
      Ends asked unfiled turn player log (.error (.ledger failure.error)) next (later, [failure])

section

variable {asked unfiled : Player γ → Log → Prop} {turn : Turn γ α} {player next : Player γ} {log : Log}
  {result : Except DealError α} {noted : Log × List Failure}

theorem Ends.of_ok {a : α} (ends : Ends asked unfiled turn player log (.ok a) next noted) :
    turn.take Log.answer player log = (.ok a, next, noted.1) := by
  cases ends with
  | through taken => exact taken

/-- A turn in which nothing has failed has gone through. -/
theorem Ends.of_unfailing {later : Log} (ends : Ends asked unfiled turn player log result next (later, [])) :
    turn.take Log.answer player log = (result, next, later) := by
  cases ends with
  | through taken => exact taken

theorem Ends.of_asking (ends : Ends asked unfiled turn player log result next noted) {failure : Failure}
    (among : failure ∈ noted.2) (asks : failure.request.Asks) :
    result = .error (.ledger failure.error) ∧ asked next noted.1 := by
  cases ends with
  | through => cases among
  | asking _ asks stands =>
    obtain rfl := List.mem_singleton.1 among
    exact ⟨rfl, stands⟩
  | filing _ files =>
    obtain rfl := List.mem_singleton.1 among
    exact absurd asks files

theorem Ends.of_filing (ends : Ends asked unfiled turn player log result next noted) {failure : Failure}
    (among : failure ∈ noted.2) (files : ¬ failure.request.Asks) (lost : failure.after = failure.before) :
    unfiled next noted.1 := by
  cases ends with
  | through => cases among
  | asking _ asks =>
    obtain rfl := List.mem_singleton.1 among
    exact absurd asks files
  | filing _ files stands =>
    obtain rfl := List.mem_singleton.1 among
    exact stands lost

end

/-- Wherever the turn breaks off, it does so at its first failure. -/
def Breaks (asked unfiled : Player γ → Log → Prop) (turn : Turn γ α) (player : Player γ) (log : Log) : Prop :=
  turn.Yields .noted (Ends asked unfiled turn player log) player (log, [])

section

variable {asked unfiled : Player γ → Log → Prop} {player : Player γ} {log : Log}

theorem Breaks.mono {asked' unfiled' : Player γ → Log → Prop} {turn : Turn γ α}
    (breaks : turn.Breaks asked unfiled player log) (h : ∀ next later, asked next later → asked' next later)
    (h' : ∀ next later, unfiled next later → unfiled' next later) : turn.Breaks asked' unfiled' player log := by
  refine Yields.mono (fun result next noted ends => ?_) breaks
  cases ends with
  | through taken => exact .through taken
  | asking _ asks stands => exact .asking _ asks (h _ _ stands)
  | filing _ files stands => exact .filing _ files fun same => h' _ _ (stands same)

/-- A turn goes on from where the one before it has gone through. -/
theorem Breaks.bind {turn : Turn γ α} {next : α → Turn γ β} (first : turn.Breaks asked unfiled player log)
    (second : ∀ a player' log', turn.take Log.answer player log = (.ok a, player', log') →
      (next a).Breaks asked unfiled player' log') : (turn >>= next).Breaks asked unfiled player log := by
  rw [Breaks, yields_bind]
  refine Yields.mono (fun result player' noted ends => ?_) first
  cases ends with
  | @through result _ log' taken =>
    cases result with
    | error e => exact .through (by rw [take_bind, taken])
    | ok a =>
      refine Yields.mono (fun result player'' noted ends => ?_) (second a _ _ taken)
      cases ends with
      | through taken' => exact .through (by rw [take_bind, taken]; exact taken')
      | asking _ asks stands => exact .asking _ asks stands
      | filing _ files stands => exact .filing _ files stands
  | asking _ asks stands => exact .asking _ asks stands
  | filing _ files stands => exact .filing _ files stands

/-- So the turn ends on every line. -/
theorem Breaks.ends {turn : Turn γ α} {line : Line} (breaks : turn.Breaks asked unfiled player line.transactions) :
    Ends asked unfiled turn player line.transactions (turn.take Line.answer player line).1
      (turn.take Line.answer player line).2.1
      ((turn.take Line.answer player line).2.2.transactions, turn.failures player line) := by
  have heeds : (turn.run.run player).Heeds .noted Line.noting (fun noted => (noted.1.transactions, noted.2))
      (line, []) :=
    Dialogue.heeds_of_forall (I := fun _ => True) (fun request noted _ => ⟨trivial, Line.answer_noted request noted⟩) _
      trivial
  have ends := Yields.take heeds breaks
  rwa [take_noting] at ends

theorem breaks_pure (a : α) : (pure a : Turn γ α).Breaks asked unfiled player log :=
  (yields_pure ..).2 (.through rfl)

theorem breaks_throw (e : DealError) : (throw e : Turn γ α).Breaks asked unfiled player log :=
  (yields_throw ..).2 (.through rfl)

theorem breaks_ofExcept (r : Except DealError α) : (ofExcept r : Turn γ α).Breaks asked unfiled player log :=
  (yields_ofExcept ..).2 (.through (take_ofExcept ..))

theorem breaks_set (next : Player γ) : (set next : Turn γ PUnit).Breaks asked unfiled player log :=
  (yields_set ..).2 (.through rfl)

theorem breaks_modify (f : Player γ → Player γ) : (modify f : Turn γ PUnit).Breaks asked unfiled player log :=
  (yields_modify ..).2 (.through rfl)

theorem breaks_draw (f : γ → α × γ) : (draw f).Breaks asked unfiled player log :=
  yields_draw fun a source drew => .through (by rw [take_draw, drew])

theorem breaks_get {next : Player γ → Turn γ α} (h : (next player).Breaks asked unfiled player log) :
    (get >>= next).Breaks asked unfiled player log := by
  refine Breaks.bind ((yields_get ..).2 (.through rfl)) ?_
  rintro _ _ _ ⟨⟩
  exact h

theorem breaks_ask {request : Request} (asking : request.Asks → asked player log)
    (filing : ¬ request.Asks → unfiled player log) :
    (ask request : Turn γ request.Value).Breaks asked unfiled player log := by
  rw [Breaks, yields_ask]
  rintro answer ⟨later, failures⟩ (⟨rfl, ⟨⟩⟩ | ⟨e, rfl, noted, kept⟩)
  · exact .through rfl
  -- a question leaves the ledger as it is, and so does a publication that has not been filed
  obtain rfl : failures = [⟨request, e, log, later⟩] := noted
  by_cases asks : request.Asks
  · obtain rfl : later = log := kept asks
    exact .asking ⟨request, e, later, later⟩ asks (asking asks)
  · exact .filing ⟨request, e, log, later⟩ asks fun same => by
      obtain rfl : later = log := same
      exact filing asks

/-! ### The parts of turns -/

theorem breaks_hasPublished {step : Step} {next : Bool → Turn γ α} (asking : asked player log)
    (h : (next (log.payload? (player.category step) player.address).isSome).Breaks asked unfiled player log) :
    (hasPublished step >>= next).Breaks asked unfiled player log := by
  refine Breaks.bind ?_ ?_
  · refine breaks_get (Breaks.bind (breaks_ask (fun _ => asking) fun files => absurd trivial files) ?_)
    exact fun _ _ _ _ => breaks_pure _
  · intro published player' log' taken
    rw [take_hasPublished_answer] at taken
    cases taken
    exact h

theorem breaks_latestDeck? {step : Step} {sender : Address} {next : Option (Deck Scalar) → Turn γ α}
    (asking : asked player log) (h : ∀ deck, deckOf (log.payload? (player.category step) sender) = .ok deck →
      (next deck).Breaks asked unfiled player log) :
    (latestDeck? step sender >>= next).Breaks asked unfiled player log := by
  refine Breaks.bind ?_ ?_
  · refine breaks_get (Breaks.bind (breaks_ask (fun _ => asking) fun files => absurd trivial files) ?_)
    intro latest player' log' taken
    cases latest with
    | none => exact breaks_pure none
    | some payload =>
      refine (breaks_ofExcept _).bind fun message _ _ _ => ?_
      exact (breaks_ofExcept _).bind fun deck _ _ _ => breaks_pure _
  · intro deck player' log' taken
    rw [take_latestDeck?_answer] at taken
    cases read : deckOf (log.payload? (player.category step) sender) with
    | error e =>
      rw [read] at taken
      cases taken
    | ok found =>
      rw [read] at taken
      cases taken
      exact h deck read

theorem breaks_publish {signer : Signer} {step : Step} {recipients : List Address} {payload : Bytes}
    (filing : unfiled player log) : (publish signer step recipients payload).Breaks asked unfiled player log :=
  breaks_get ((breaks_ask (fun asks => absurd asks id) fun _ => filing).bind fun _ _ _ _ => breaks_pure _)

end

end Turn

end MentalPoker
