/-
Ledgers with transactions of outsiders in between. Outsiders write outside the game, or in the game under
addresses that have no part in it, as long as they ask for no seat that is free. A player asks the ledger
only about those who have a seat and about those who join, and a full table stays as it is, so that every
turn goes abreast on the two ledgers.
-/
import MentalPoker.Proofs.Player.Abreast
import MentalPoker.Proofs.Player.Hitch
import MentalPoker.Proofs.Play.Chain

namespace MentalPoker

/-- The transactions differ in their reference at most. -/
structure Transaction.Alike (tx tx' : Transaction) : Prop where
  category : tx'.category = tx.category
  sender : tx'.sender = tx.sender
  recipients : tx'.recipients = tx.recipients
  payload : tx'.payload = tx.payload
  signature : tx'.signature = tx.signature

namespace Log

/-- Who sent transactions of a category to a recipient, one entry for each transaction. -/
def callers (category : Category) (recipient : Address) (log : Log) : List Address :=
  ((filed category log).filter (recipient ∈ ·.recipients)).map (·.sender)

variable {category : Category} {recipient : Address} {log : Log} {tx : Transaction}

theorem sendersTo_eq : sendersTo category recipient log = Journal.distinct (callers category recipient log) :=
  rfl

theorem callers_append : callers category recipient (log ++ [tx]) = callers category recipient log ++
    if tx.category = category ∧ recipient ∈ tx.recipients then [tx.sender] else [] := by
  by_cases filed : tx.category = category <;> by_cases called : recipient ∈ tx.recipients <;>
    simp [callers, Log.filed, filed, called]

end Log

/-! ## Journals and lines side by side -/

/-- The same befalls the requests to both journals, and what has been appended since is alike. -/
structure Journal.Beside (base base' : Log) (journal journal' : Journal) : Prop where
  failures : journal'.failures = journal.failures
  lostReplies : journal'.lostReplies = journal.lostReplies
  filed : ∃ more more', journal.transactions = base ++ more ∧ journal'.transactions = base' ++ more' ∧
    List.Forall₂ Transaction.Alike more more'

/-- The same befalls the requests on both lines. -/
structure Line.Beside (base base' : Log) (line line' : Line) : Prop where
  script : line'.script = line.script
  journal : line.journal.Beside base base' line'.journal

section

variable {base base' : Log} {journal journal' : Journal} {line line' : Line}

/-- Questions are answered by what the ledgers say, or fail the same. -/
theorem Journal.Beside.asks (beside : journal.Beside base base' journal') {request : Request}
    {S : request.Value → request.Value → Prop} (asks : request.Asks)
    (said : Agree S (({ journal with failures := 0 }.answer request).1.mapError .ledger)
      (({ journal' with failures := 0 }.answer request).1.mapError .ledger)) :
    Agree S ((journal.answer request).1.mapError .ledger) ((journal'.answer request).1.mapError .ledger) ∧
      (journal.answer request).2.Beside base base' (journal'.answer request).2 := by
  obtain ⟨txs, failures, lost⟩ := journal
  obtain ⟨txs', failures', lost'⟩ := journal'
  obtain ⟨rfl, rfl, filed⟩ := beside
  cases request with
  | publish => exact asks.elim
  | latestBySender =>
    rcases failures' with _ | failures
    · exact ⟨said, rfl, rfl, filed⟩
    · exact ⟨.error _, rfl, rfl, filed⟩
  | sendersTo =>
    rcases failures' with _ | failures
    · exact ⟨said, rfl, rfl, filed⟩
    · exact ⟨.error _, rfl, rfl, filed⟩

theorem Line.Beside.asks (beside : line.Beside base base' line') {request : Request}
    {S : request.Value → request.Value → Prop} (asks : request.Asks)
    (said : Agree S (({ line.journal with failures := 0 }.answer request).1.mapError .ledger)
      (({ line'.journal with failures := 0 }.answer request).1.mapError .ledger)) :
    Agree S ((line.answer request).1.mapError .ledger) ((line'.answer request).1.mapError .ledger) ∧
      (line.answer request).2.Beside base base' (line'.answer request).2 := by
  have passed := beside.journal.asks asks said
  unfold Line.answer
  dsimp only
  rw [beside.script]
  split
  · exact ⟨.error _, rfl, beside.journal⟩
  · exact ⟨passed.1, rfl, passed.2⟩
  · -- only the replies to publications are lost
    cases request with
    | publish => exact asks.elim
    | latestBySender => exact ⟨passed.1, rfl, passed.2⟩
    | sendersTo => exact ⟨passed.1, rfl, passed.2⟩

theorem Journal.Beside.publish (beside : journal.Beside base base' journal') (signer : Signer)
    (category : Category) (recipients : List Address) (payload : Bytes) :
    Agree (fun _ _ => True) ((journal.publish signer category recipients payload).1.mapError .ledger)
        ((journal'.publish signer category recipients payload).1.mapError .ledger) ∧
      (journal.publish signer category recipients payload).2.Beside base base'
        (journal'.publish signer category recipients payload).2 := by
  obtain ⟨txs, failures, lost⟩ := journal
  obtain ⟨txs', failures', lost'⟩ := journal'
  obtain ⟨rfl, rfl, filed⟩ := beside
  rcases failures' with _ | failures
  · have appended : ∃ more more',
        txs ++ [Log.filing txs signer category recipients payload] = base ++ more ∧
        txs' ++ [Log.filing txs' signer category recipients payload] = base' ++ more' ∧
        List.Forall₂ Transaction.Alike more more' := by
      obtain ⟨more, more', rfl, rfl, alike⟩ := filed
      exact ⟨_, _, List.append_assoc .., List.append_assoc ..,
        List.rel_append alike (.cons ⟨rfl, rfl, rfl, rfl, rfl⟩ .nil)⟩
    rcases lost' with _ | lost
    · exact ⟨.ok trivial, rfl, rfl, appended⟩
    · exact ⟨.replyLost _ _, rfl, rfl, appended⟩
  · exact ⟨.error _, rfl, rfl, filed⟩

theorem Line.Beside.publish (beside : line.Beside base base' line') (signer : Signer) (category : Category)
    (recipients : List Address) (payload : Bytes) :
    Agree (fun _ _ => True) ((line.answer (.publish signer category recipients payload)).1.mapError .ledger)
        ((line'.answer (.publish signer category recipients payload)).1.mapError .ledger) ∧
      (line.answer (.publish signer category recipients payload)).2.Beside base base'
        (line'.answer (.publish signer category recipients payload)).2 := by
  have passed := beside.journal.publish signer category recipients payload
  unfold Line.answer
  dsimp only
  rw [beside.script]
  split
  · exact ⟨.error _, rfl, beside.journal⟩
  · exact ⟨passed.1, rfl, passed.2⟩
  · -- a reply that was there is lost on both lines
    refine ⟨?_, rfl, passed.2⟩
    have agree := passed.1
    simp only [Journal.answer]
    cases here : (line.journal.publish signer category recipients payload).1 <;>
      cases there : (line'.journal.publish signer category recipients payload).1 <;>
      rw [here, there] at agree
    · exact agree
    · cases agree
    · cases agree
    · exact .replyLost _ _

end

namespace Rules

variable {γ : Type} (rules : Rules) (insiders : List Address)

/-! ## What outsiders write -/

/-- A transaction of somebody who has no part in the game: one outside the game, or one under another
address, which does not ask the creator for a seat before the last one is taken. -/
def Outside (log : Log) (tx : Transaction) : Prop :=
  (∀ step, tx.category ≠ rules.category step) ∨
    tx.sender ∉ insiders ∧
      (tx.category = rules.category .join → rules.creator ∈ tx.recipients → rules.Full log)

/-- The second ledger is the first one with transactions of outsiders in between. -/
inductive Padded : Log → Log → Prop
  | nil : Padded [] []
  | both {log log' : Log} {tx tx' : Transaction} (padded : Padded log log') (alike : tx.Alike tx') :
      Padded (log ++ [tx]) (log' ++ [tx'])
  | more {log log' : Log} {tx : Transaction} (padded : Padded log log')
      (outside : rules.Outside insiders log tx) : Padded log (log' ++ [tx])

section

variable {rules insiders} {log log' : Log} {tx : Transaction}

theorem Padded.append (padded : rules.Padded insiders log log') {more more' : Log}
    (alike : List.Forall₂ Transaction.Alike more more') : rules.Padded insiders (log ++ more) (log' ++ more') := by
  induction alike generalizing log log' with
  | nil => rwa [List.append_nil, List.append_nil]
  | @cons tx tx' more more' same _ ih =>
    rw [List.append_cons, List.append_cons log']
    exact ih (padded.both same)

/-- What insiders have filed for the game is the same on both ledgers. -/
theorem Padded.payload? (padded : rules.Padded insiders log log') (step : Step) {a : Address}
    (inside : a ∈ insiders) :
    log.payload? (rules.category step) a = log'.payload? (rules.category step) a := by
  induction padded with
  | nil => rfl
  | @both log log' tx tx' _ alike ih =>
    by_cases own : tx.category = rules.category step ∧ tx.sender = a
    · rw [Log.payload?_append_of_eq own.1 own.2, Log.payload?_append_of_eq (alike.category.trans own.1)
        (alike.sender.trans own.2), alike.payload]
    · have apart (same : tx.category = rules.category step) : tx.sender ≠ a := fun h => own ⟨same, h⟩
      rw [Log.payload?_append_of_ne apart, Log.payload?_append_of_ne (by rwa [alike.category, alike.sender]), ih]
  | more _ outside ih =>
    rw [ih, Log.payload?_append_of_ne]
    rintro same rfl
    rcases outside with foreign | ⟨other, -⟩
    · exact foreign step same
    · exact other inside

theorem Padded.seats_and_callers (valid : rules.config.Valid) (padded : rules.Padded insiders log log') :
    rules.seats log = rules.seats log' ∧
      (rules.Full log ∨ log.callers (rules.category .join) rules.creator =
        log'.callers (rules.category .join) rules.creator) := by
  have seats_of_callers {log log' : Log} (same : log.callers (rules.category .join) rules.creator =
      log'.callers (rules.category .join) rules.creator) : rules.seats log = rules.seats log' := by
    rw [seats, seats, Log.sendersTo_eq, Log.sendersTo_eq, same]
  have full_iff {log log' : Log} (same : rules.seats log = rules.seats log') :
      rules.Full log → rules.Full log' := fun full => by rwa [Full, ← same]
  have stays {log : Log} (tx : Transaction) (full : rules.Full log) :
      rules.seats (log ++ [tx]) = rules.seats log := seats_of_full valid (List.prefix_append _ _) full
  -- while a seat is free the same people have asked for one, and once none is, asking changes nothing
  induction padded with
  | nil => exact ⟨rfl, .inr rfl⟩
  | @both log log' tx tx' _ alike ih =>
    obtain ⟨same, full | callers⟩ := ih
    · have now := stays tx full
      exact ⟨by rw [now, stays tx' (full_iff same full), same], .inl (full_iff now.symm full)⟩
    · have callers : (log ++ [tx]).callers (rules.category .join) rules.creator =
          (log' ++ [tx']).callers (rules.category .join) rules.creator := by
        rw [Log.callers_append, Log.callers_append, callers, alike.category, alike.recipients, alike.sender]
      exact ⟨seats_of_callers callers, .inr callers⟩
  | @more log log' tx _ outside ih =>
    obtain ⟨same, full | callers⟩ := ih
    · exact ⟨by rw [stays tx (full_iff same full), same], .inl full⟩
    · by_cases asks : tx.category = rules.category .join ∧ rules.creator ∈ tx.recipients
      · have full : rules.Full log := by
          rcases outside with foreign | ⟨-, late⟩
          · exact absurd asks.1 (foreign .join)
          · exact late asks.1 asks.2
        exact ⟨by rw [stays tx (full_iff same full), same], .inl full⟩
      · have callers : log.callers (rules.category .join) rules.creator =
            (log' ++ [tx]).callers (rules.category .join) rules.creator := by
          rw [Log.callers_append, if_neg asks, List.append_nil, callers]
        exact ⟨seats_of_callers callers, .inr callers⟩

/-- Outsiders take no seats. -/
theorem Padded.seats (valid : rules.config.Valid) (padded : rules.Padded insiders log log') :
    rules.seats log = rules.seats log' :=
  (padded.seats_and_callers valid).1

/-- Whoever is seated after a transaction was seated before or has sent it. -/
theorem mem_seats_append {a : Address} (h : a ∈ rules.seats (log ++ [tx])) :
    a ∈ rules.seats log ∨ a = tx.sender := by
  have joined : (log ++ [tx]).sendersTo (rules.category .join) rules.creator =
      log.sendersTo (rules.category .join) rules.creator ∨
      (log ++ [tx]).sendersTo (rules.category .join) rules.creator =
        log.sendersTo (rules.category .join) rules.creator ++ [tx.sender] := by
    rw [Log.sendersTo_eq, Log.sendersTo_eq, Log.callers_append]
    split
    · rw [Log.distinct_append_singleton]
      split
      · exact .inl rfl
      · exact .inr rfl
    · rw [List.append_nil]
      exact .inl rfl
  rcases joined with same | new
  · rw [seats, same] at h
    exact .inl h
  · rw [seats, new, Session.seating, List.filter_append, ← List.cons_append, List.take_append,
      List.mem_append] at h
    exact h.imp_right fun late =>
      List.mem_singleton.1 (List.mem_of_mem_filter (List.mem_of_mem_take late))

end

/-! ## Turns side by side -/

/-- A player that has a part in the game, with a view that is the beginning of the table, and the lines to
two ledgers that differ in what outsiders have written. -/
structure Beholds (base base' : Log) (player : Player γ) (line line' : Line) : Prop where
  told : rules.Told player
  member : player.address ∈ insiders
  creator : [rules.creator] <+: player.session.players
  view : player.session.players <+: rules.seats line.transactions
  dealer : player.session.dealer = Session.dealerOf rules.dealer rules.creator player.session.players
  inside : rules.seats line.transactions ⊆ insiders
  padded : rules.Padded insiders base base'
  beside : line.Beside base base' line'

namespace Beholds

variable {rules insiders} {base base' : Log} {player next : Player γ} {line line' : Line}

theorem ledgers (beholds : rules.Beholds insiders base base' player line line') :
    rules.Padded insiders line.transactions line'.transactions := by
  obtain ⟨more, more', here, there, alike⟩ := beholds.beside.journal.filed
  rw [Line.transactions, Line.transactions, here, there]
  exact beholds.padded.append alike

/-- Nothing else about the player matters. -/
theorem of_same (beholds : rules.Beholds insiders base base' player line line') (same : player.Same next)
    (players : next.session.players = player.session.players)
    (dealer : next.session.dealer = player.session.dealer) :
    rules.Beholds insiders base base' next line line' where
  told := beholds.told.of_same same
  member := same.address ▸ beholds.member
  creator := players ▸ beholds.creator
  view := players ▸ beholds.view
  dealer := by rw [dealer, players, beholds.dealer]
  inside := beholds.inside
  padded := beholds.padded
  beside := beholds.beside

/-- Pair, keys, source, decks and phases may change. -/
theorem unseen (beholds : rules.Beholds insiders base base' player line line') (keys : Option KeyPair) (ring : KeyRing)
    (source : γ) (finishedDeck : Option (Deck Scalar)) (announced phase : Phase) :
    rules.Beholds insiders base base' { player with
      keys, ring, source, finishedDeck, announced, session := { player.session with phase } } line line' :=
  beholds.of_same ⟨rfl, rfl, rfl, rfl, rfl, rfl, rfl⟩ rfl rfl

/-- So may the hand. -/
theorem hand (beholds : rules.Beholds insiders base base' player line line') (hand : List Scalar) :
    rules.Beholds insiders base base' { player with session := (player.session.setHand hand).2 } line line' := by
  unfold Session.setHand
  split <;> exact beholds.of_same ⟨rfl, rfl, rfl, rfl, rfl, rfl, rfl⟩ rfl rfl

theorem seated_inside (beholds : rules.Beholds insiders base base' player line line') {a : Address}
    (seated : a ∈ player.session.players) : a ∈ insiders :=
  beholds.inside (beholds.view.subset seated)

/-- Both ledgers seat the same players. -/
theorem seatAll (valid : rules.config.Valid) (beholds : rules.Beholds insiders base base' player line line') :
    player.session.seatAll (line.transactions.sendersTo (player.category .join) player.session.creator) =
      player.session.seatAll (line'.transactions.sendersTo (player.category .join) player.session.creator) := by
  have same := beholds.ledgers.seats valid
  have view' : player.session.players <+: rules.seats line'.transactions := same ▸ beholds.view
  rw [beholds.told.category, beholds.told.creator, beholds.told.seatAll beholds.creator beholds.view,
    beholds.told.seatAll beholds.creator view', same]

theorem seated (beholds : rules.Beholds insiders base base' player line line') :
    rules.Beholds insiders base base'
      (player.seated (line.transactions.sendersTo (player.category .join) player.session.creator)) line line' := by
  rw [beholds.told.category, beholds.told.creator,
    beholds.told.seated beholds.creator beholds.view beholds.dealer]
  exact ⟨beholds.told.of_same ⟨rfl, rfl, rfl, rfl, rfl, rfl, rfl⟩, beholds.member, creator_prefix_seats _,
    List.prefix_rfl, rfl, beholds.inside, beholds.padded, beholds.beside⟩

end Beholds

end Rules

namespace Turn

open Rules

variable {γ : Type} {rules : Rules} {insiders : List Address} {base base' : Log} {player : Player γ}
  {line line' : Line}

/-- The turn, taken by the player on each of the lines, goes abreast. -/
abbrev Unmoved {α : Type} (rules : Rules) (insiders : List Address) (base base' : Log) (S : α → α → Prop)
    (turn : Turn γ α) (player : Player γ) (line line' : Line) : Prop :=
  turn.Abreast Line.answer (rules.Beholds insiders base base') S turn player line line'

theorem ask_unmoved (beholds : rules.Beholds insiders base base' player line line') (request : Request)
    {S : request.Value → request.Value → Prop} (asks : request.Asks)
    (said : Agree S (({ line.journal with failures := 0 }.answer request).1.mapError .ledger)
      (({ line'.journal with failures := 0 }.answer request).1.mapError .ledger)) :
    (ask request).Unmoved rules insiders base base' S player line line' := by
  have answers := beholds.beside.asks asks said
  have unchanged := line.transactions_of_asks request asks
  exact abreast_ask answers.1 { beholds with
    view := unchanged ▸ beholds.view, inside := unchanged ▸ beholds.inside, beside := answers.2 }

theorem askLatest_unmoved (beholds : rules.Beholds insiders base base' player line line') (step : Step)
    {a : Address} (inside : a ∈ insiders) :
    (askLatest (player.category step) a).Unmoved rules insiders base base' (· = ·) player line line' := by
  refine ask_unmoved beholds (.latestBySender _ _) trivial ?_
  have same := beholds.ledgers.payload? step inside
  rw [← beholds.told.category] at same
  exact .ok same

theorem hasPublished_unmoved (beholds : rules.Beholds insiders base base' player line line') (step : Step) :
    (hasPublished step).Unmoved rules insiders base base' (· = ·) player line line' := by
  refine abreast_get ((askLatest_unmoved beholds step beholds.member).bind ?_)
  rintro latest _ player line line' rfl beholds
  exact abreast_pure beholds rfl

theorem latestDeck?_unmoved (beholds : rules.Beholds insiders base base' player line line') (step : Step)
    {a : Address} (inside : a ∈ insiders) :
    (latestDeck? step a).Unmoved rules insiders base base' (· = ·) player line line' := by
  refine abreast_get ((askLatest_unmoved beholds step inside).bind ?_)
  rintro (_ | payload) _ player line line' rfl beholds
  · exact abreast_pure beholds rfl
  refine (abreast_ofExcept beholds (fun _ => rfl) _).bind ?_
  rintro message _ player line line' rfl beholds
  refine (abreast_ofExcept beholds (fun _ => rfl) _).bind ?_
  rintro deck _ player line line' rfl beholds
  exact abreast_pure beholds rfl

theorem publish_unmoved (beholds : rules.Beholds insiders base base' player line line') {signer : Signer}
    (inside : signer.address ∈ insiders) (step : Step) (recipients : List Address) (payload : Bytes) :
    (publish signer step recipients payload).Unmoved rules insiders base base' Outcome.Alike player line line' := by
  refine abreast_get ?_
  have answers := beholds.beside.publish signer (player.category step) recipients payload
  have filed : (line.answer (.publish signer (player.category step) recipients payload)).2.transactions =
      line.transactions ∨ ∃ tx : Transaction, tx.sender = signer.address ∧
        (line.answer (.publish signer (player.category step) recipients payload)).2.transactions =
          line.transactions ++ [tx] := by
    -- only the sender matters here: it is an insider, and nobody else takes a seat
    rcases line.answer_exchange (.publish signer (player.category step) recipients payload) with
      ⟨appended, -⟩ | ⟨-, unchanged, -⟩
    · exact .inr ⟨_, rfl, appended⟩
    · exact .inl unchanged
  have related : rules.Beholds insiders base base' player
      (line.answer (.publish signer (player.category step) recipients payload)).2
      (line'.answer (.publish signer (player.category step) recipients payload)).2 := by
    rcases filed with same | ⟨tx, sender, more⟩
    · exact { beholds with view := same ▸ beholds.view, inside := same ▸ beholds.inside, beside := answers.2 }
    · refine { beholds with view := ?_, inside := ?_, beside := answers.2 }
      · rw [more]
        exact beholds.view.trans (seats_grow (List.prefix_append _ _))
      · rw [more]
        intro a seated
        rcases mem_seats_append seated with old | rfl
        · exact beholds.inside old
        · exact sender ▸ inside
  exact (abreast_ask answers.1 related).bind fun id id' player line line' _ beholds =>
    abreast_pure beholds (.published id id')

theorem join_unmoved (beholds : rules.Beholds insiders base base' player line line') :
    (join : Turn γ Outcome).Unmoved rules insiders base base' Outcome.Alike player line line' := by
  refine abreast_get ?_
  split
  · exact abreast_pure beholds (.same _)
  have signs := beholds.told.signs
  have member := beholds.member
  refine (hasPublished_unmoved beholds .join).bind ?_
  rintro published _ player' line line' rfl beholds
  split
  · exact abreast_pure beholds (.same _)
  split
  · rename_i signer held
    exact publish_unmoved beholds (signs signer held ▸ member) ..
  · exact abreast_pure beholds (.same _)

theorem refreshPlayers_unmoved (valid : rules.config.Valid)
    (beholds : rules.Beholds insiders base base' player line line') :
    (refreshPlayers : Turn γ Outcome).Unmoved rules insiders base base' Outcome.Alike player line line' := by
  refine abreast_get ?_
  let request : Request := .sendersTo (player.category .join) player.session.creator
  have answers := ask_unmoved beholds request
    (S := fun joined joined' =>
      joined = line.transactions.sendersTo (player.category .join) player.session.creator ∧
        joined' = line'.transactions.sendersTo (player.category .join) player.session.creator)
    trivial (.ok ⟨rfl, rfl⟩)
  have asked : rules.Beholds insiders base base' player (line.answer request).2 (line'.answer request).2 :=
    answers.related
  have related := asked.seated
  rw [line.transactions_of_asks request trivial] at related
  refine answers.follow ?_
  rintro _ _ ⟨rfl, rfl⟩
  rw [← beholds.seatAll valid]
  exact (abreast_set related).bind fun _ _ player line line' _ beholds => abreast_pure beholds (.same _)

theorem announceKey_unmoved [RandomSource γ] (beholds : rules.Beholds insiders base base' player line line')
    (recipients : List Address) :
    (announceKey recipients).Unmoved rules insiders base base' Outcome.Alike player line line' := by
  refine abreast_get ?_
  split
  case h_2 => exact abreast_pure beholds (.same _)
  rename_i signer signs
  have inside : signer.address ∈ insiders := beholds.told.signs signer signs ▸ beholds.member
  refine (hasPublished_unmoved beholds .publicKey).bind ?_
  rintro published _ player line line' rfl beholds
  split
  · exact abreast_pure beholds (.same _)
  refine (abreast_draw (beholds.unseen ..)).bind ?_
  rintro keys _ player line line' rfl beholds
  refine (abreast_ofExcept beholds (fun _ => rfl) _).bind ?_
  rintro message _ player line line' rfl beholds
  refine (publish_unmoved beholds inside ..).bind ?_
  intro outcome outcome' player line line' alike beholds
  refine (abreast_modify (beholds.unseen ..)).bind ?_
  exact fun _ _ player line line' _ beholds => abreast_pure beholds alike

theorem collectKey_unmoved (beholds : rules.Beholds insiders base base' player line line') {other : Address}
    (inside : other ∈ insiders) :
    (collectKey other).Unmoved rules insiders base base' (· = ·) player line line' := by
  refine abreast_get ((askLatest_unmoved beholds .publicKey inside).bind ?_)
  rintro (_ | payload) _ player line line' rfl beholds
  · exact abreast_pure beholds rfl
  dsimp only
  split
  · exact abreast_pure beholds rfl
  refine abreast_get ?_
  refine Abreast.bind (abreast_set (beholds.unseen ..)) ?_
  exact fun _ _ player line line' _ beholds => abreast_pure beholds rfl

theorem collectKeys_unmoved (wanted : List Address) (inside : wanted ⊆ insiders) :
    ∀ {player : Player γ} {line line' : Line}, rules.Beholds insiders base base' player line line' →
      (collectKeys wanted).Unmoved rules insiders base base' (· = ·) player line line' := by
  induction wanted with
  | nil => exact fun beholds => abreast_pure beholds rfl
  | cons other wanted ih =>
    intro player line line' beholds
    rw [List.cons_subset] at inside
    refine (collectKey_unmoved beholds inside.1).bind ?_
    rintro new _ player line line' rfl beholds
    refine (ih inside.2 beholds).bind ?_
    rintro more _ player line line' rfl beholds
    exact abreast_pure beholds rfl

/-- Whatever became of the announcement, the keys that are missing are those of seated players. -/
theorem collectMissing_unmoved (beholds : rules.Beholds insiders base base' player line line')
    {outcome outcome' : Outcome} (alike : outcome.Alike outcome') : Abreast Line.answer
      (rules.Beholds insiders base base') Outcome.Alike (collectMissing outcome) (collectMissing outcome')
      player line line' := by
  have skipped : outcome = .skipped ↔ outcome' = .skipped := alike.eq_iff fun _ h => by cases h
  have idle : outcome = .idle ↔ outcome' = .idle := alike.eq_iff fun _ h => by cases h
  simp only [collectMissing, skipped, idle]
  split
  · exact abreast_pure beholds (.same _)
  refine abreast_get ?_
  have inside : player.session.missingKeys player.address player.ring ⊆ insiders := fun a missing =>
    beholds.seated_inside (Session.mem_players_of_missingKeys missing).1
  refine (collectKeys_unmoved _ inside beholds).bind ?_
  rintro new _ player line line' rfl beholds
  refine abreast_pure beholds ?_
  split
  · exact .same _
  · exact alike

theorem exchangeKeys_unmoved [RandomSource γ] (beholds : rules.Beholds insiders base base' player line line') :
    (exchangeKeys : Turn γ Outcome).Unmoved rules insiders base base' Outcome.Alike player line line' := by
  refine abreast_get ?_
  split
  · exact abreast_pure beholds (.same _)
  split
  · exact collectMissing_unmoved beholds (.same .idle)
  · exact (announceKey_unmoved beholds _).bind fun outcome outcome' player line line' alike beholds =>
      collectMissing_unmoved beholds alike

theorem addLayer_unmoved [RandomSource γ] (beholds : rules.Beholds insiders base base' player line line')
    {host : Player γ} {signer : Signer} (inside : signer.address ∈ insiders) (keys : KeyPair)
    (previous : Option (Deck Scalar)) :
    (addLayer host signer keys previous).Unmoved rules insiders base base' Outcome.Alike player line line' := by
  unfold addLayer
  split
  case h_2 => exact abreast_pure beholds (.same _)
  split
  case h_2 => exact abreast_pure beholds (.same _)
  refine Abreast.bind (abreast_draw (beholds.unseen ..)) ?_
  rintro applied _ player line line' rfl beholds
  refine (abreast_ofExcept beholds (fun _ => rfl) _).bind ?_
  rintro deck _ player line line' rfl beholds
  exact publish_unmoved beholds inside ..

theorem shuffle_unmoved [RandomSource γ] (beholds : rules.Beholds insiders base base' player line line') :
    (shuffle : Turn γ Outcome).Unmoved rules insiders base base' Outcome.Alike player line line' := by
  refine abreast_get ?_
  split
  · exact abreast_pure beholds (.same _)
  split
  case h_2 => exact abreast_pure beholds (.same _)
  rename_i signer signs
  have inside : signer.address ∈ insiders := beholds.told.signs signer signs ▸ beholds.member
  split
  case h_2 => exact abreast_pure beholds (.same _)
  rename_i keys held
  have seated {a : Address} := beholds.seated_inside (a := a)
  refine (hasPublished_unmoved beholds .shuffle).bind ?_
  rintro published _ now line line' rfl beholds
  split
  · exact abreast_pure beholds (.same _)
  split
  · exact (abreast_pure beholds rfl).bind fun previous _ now line line' same beholds =>
      same ▸ addLayer_unmoved beholds inside keys previous
  · rename_i predecessor before
    have predecessor_inside : predecessor ∈ insiders := by
      rw [Session.chainPredecessor?] at before
      split at before
      · cases before
      · exact seated (Circle.mem_of_previous? before).2
    exact (latestDeck?_unmoved beholds .shuffle predecessor_inside).bind fun previous _ now line line' same beholds =>
      same ▸ addLayer_unmoved beholds inside keys previous

theorem refreshEncryption_unmoved (beholds : rules.Beholds insiders base base' player line line') :
    (refreshEncryption : Turn γ Outcome).Unmoved rules insiders base base' Outcome.Alike player line line' := by
  refine abreast_get ?_
  split
  · exact abreast_pure beholds (.same _)
  split
  case h_2 => exact abreast_pure beholds (.same _)
  rename_i last finishes
  have inside : last ∈ insiders := beholds.seated_inside (Circle.mem_of_previous? finishes).2
  refine (latestDeck?_unmoved beholds .shuffle inside).bind ?_
  rintro (_ | deck) _ player line line' rfl beholds
  · exact abreast_pure beholds (.same _)
  · refine Abreast.bind (abreast_modify (beholds.unseen ..)) ?_
    exact fun _ _ player line line' _ beholds => abreast_pure beholds (.same _)

theorem decrypt_unmoved (beholds : rules.Beholds insiders base base' player line line') :
    (decrypt : Turn γ Outcome).Unmoved rules insiders base base' Outcome.Alike player line line' := by
  refine abreast_get ?_
  split
  · exact abreast_pure beholds (.same _)
  split
  case h_2 => exact abreast_pure beholds (.same _)
  rename_i signer signs
  have inside : signer.address ∈ insiders := beholds.told.signs signer signs ▸ beholds.member
  split
  case h_2 => exact abreast_pure beholds (.same _)
  refine (refreshEncryption_unmoved beholds).bind ?_
  intro _ _ player line line' _ beholds
  refine abreast_get ?_
  split
  · exact abreast_pure beholds (.same _)
  refine (hasPublished_unmoved beholds .decrypt).bind ?_
  rintro published _ _ line line' rfl beholds
  split
  · exact abreast_pure beholds (.same _)
  split
  case h_2 => exact abreast_pure beholds (.same _)
  split
  case h_2 => exact abreast_pure beholds (.same _)
  refine (abreast_ofExcept beholds (fun _ => rfl) _).bind ?_
  rintro deck _ _ line line' rfl beholds
  exact publish_unmoved beholds inside ..

theorem deal_unmoved (beholds : rules.Beholds insiders base base' player line line') :
    (deal : Turn γ Outcome).Unmoved rules insiders base base' Outcome.Alike player line line' := by
  refine abreast_get ?_
  dsimp only
  split
  · exact abreast_pure beholds (.same _)
  split
  · exact abreast_pure beholds (.same _)
  split
  case h_2 => exact abreast_pure beholds (.same _)
  rename_i decryptor decrypts
  split
  · exact abreast_pure beholds (.same _)
  have inside : decryptor ∈ insiders := beholds.seated_inside (Circle.mem_of_next? decrypts).2
  have looked := latestDeck?_unmoved beholds .decrypt inside
  have unchanged : ((latestDeck? .decrypt decryptor).take Line.answer player line).2.1 = player :=
    (latestDeck?_within .decrypt decryptor fun _ h => h).take Line.answer line
  have related := looked.related
  rw [unchanged] at related
  refine looked.follow ?_
  rw [unchanged]
  rintro (_ | deck) _ rfl
  · exact abreast_pure related (.same _)
  dsimp only
  split
  · refine Abreast.bind (abreast_set (related.hand _)) ?_
    exact fun _ _ player line line' _ beholds => abreast_pure beholds (.same _)
  · exact abreast_throw related _

theorem updateSession_unmoved (valid : rules.config.Valid)
    (beholds : rules.Beholds insiders base base' player line line') :
    (updateSession : Turn γ Outcome).Unmoved rules insiders base base' Outcome.Alike player line line' := by
  refine (refreshPlayers_unmoved valid beholds).bind ?_
  intro _ _ player line line' _ beholds
  refine abreast_get ?_
  split
  · exact abreast_pure beholds (.same _)
  refine (refreshEncryption_unmoved beholds).bind ?_
  intro _ _ player line line' _ beholds
  refine abreast_get ?_
  dsimp only
  split
  · exact abreast_pure beholds (.same _)
  refine Abreast.bind (abreast_set (beholds.unseen ..)) ?_
  exact fun _ _ player line line' _ beholds => abreast_pure beholds (.same _)

theorem everything_unmoved [RandomSource γ] (valid : rules.config.Valid)
    (beholds : rules.Beholds insiders base base' player line line') :
    (everything : Turn γ Phase).Unmoved rules insiders base base' (· = ·) player line line' := by
  refine (join_unmoved beholds).attempt.bind fun _ _ player line line' _ beholds => ?_
  refine (updateSession_unmoved valid beholds).attempt.bind fun _ _ player line line' _ beholds => ?_
  refine (exchangeKeys_unmoved beholds).attempt.bind fun _ _ player line line' _ beholds => ?_
  refine (shuffle_unmoved beholds).attempt.bind fun _ _ player line line' _ beholds => ?_
  refine (decrypt_unmoved beholds).attempt.bind fun _ _ player line line' _ beholds => ?_
  refine (deal_unmoved beholds).attempt.bind fun _ _ player line line' _ beholds => ?_
  refine (updateSession_unmoved valid beholds).attempt.bind fun _ _ player line line' _ beholds => ?_
  exact abreast_get (abreast_pure beholds rfl)

end Turn

/-- Whatever a player is told to do, it does with and without the outsiders' transactions. -/
theorem Move.turn_unmoved {γ : Type} [RandomSource γ] {rules : Rules} {insiders : List Address}
    {base base' : Log} {player : Player γ} {line line' : Line} (valid : rules.config.Valid)
    (beholds : rules.Beholds insiders base base' player line line') (move : Move) :
    move.turn.Unmoved rules insiders base base' Report.Alike player line line' := by
  have outcome {turn : Turn γ Outcome} (h : turn.Unmoved rules insiders base base' Outcome.Alike player line line') :
      (Report.outcome <$> turn).Unmoved rules insiders base base' Report.Alike player line line' :=
    h.map fun _ _ alike => .outcome alike
  cases move with
  | join => exact outcome (Turn.join_unmoved beholds)
  | refreshPlayers => exact outcome (Turn.refreshPlayers_unmoved valid beholds)
  | exchangeKeys => exact outcome (Turn.exchangeKeys_unmoved beholds)
  | shuffle => exact outcome (Turn.shuffle_unmoved beholds)
  | refreshEncryption => exact outcome (Turn.refreshEncryption_unmoved beholds)
  | decrypt => exact outcome (Turn.decrypt_unmoved beholds)
  | deal => exact outcome (Turn.deal_unmoved beholds)
  | updateSession => exact outcome (Turn.updateSession_unmoved valid beholds)
  | everything =>
    exact (Turn.everything_unmoved valid beholds).map fun phase _ same => same ▸ .phase phase

end MentalPoker
