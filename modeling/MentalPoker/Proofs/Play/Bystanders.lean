/-
Those who look on. A player that has no seat, however often it moves and whatever others write, files no
more than its wish to join, and has nothing of what players have; and a player that cannot sign files
nothing. What a player has filed is told from what the ledger gains, so that others may write anything, in
its name too.
-/
import MentalPoker.Proofs.Play.Seats
import MentalPoker.Proofs.Player.Coherent

namespace MentalPoker

/-! ## A ledger with an account -/

/-- A line that others use, and what one of its users has filed. -/
structure Desk where
  crowd : Crowd
  filed : List Transaction

namespace Desk

def log (desk : Desk) : Log := desk.crowd.log

/-- Lets the others append, answers, and notes what else the ledger has gained. -/
def answer (request : Request) (desk : Desk) : request.Answer × Desk :=
  let (a, crowd) := desk.crowd.answer request
  let before := desk.log ++ desk.crowd.batches.head?.getD []
  (a, ⟨crowd, desk.filed ++ crowd.log.drop before.length⟩)

end Desk

/-- A player, the ledger, and what the player has filed there. -/
structure Filer (γ : Type) where
  player : Player γ
  log : Log
  filed : List Transaction

/-- The player moves while others write, or the others write between two moves. -/
inductive Attends {γ : Type} [RandomSource γ] : Filer γ → Filer γ → Prop
  | moves {player : Player γ} (move : Move) (desk : Desk) :
      Attends ⟨player, desk.log, desk.filed⟩
        ⟨(move.turn.take Desk.answer player desk).2.1, (move.turn.take Desk.answer player desk).2.2.log,
          (move.turn.take Desk.answer player desk).2.2.filed⟩
  | others {player : Player γ} {log : Log} {filed : List Transaction} (more : Log) :
      Attends ⟨player, log, filed⟩ ⟨player, log ++ more, filed⟩

/-- A ledger, and what one of its users has filed there. -/
structure Account where
  log : Log
  filed : List Transaction

def Desk.account (desk : Desk) : Account := ⟨desk.log, desk.filed⟩

/-- An exchange on an unreliable ledger leaves it as it is or appends to it. -/
theorem Conditions.Exchange.grows {c : Conditions} {log after : Log} {request : Request} {answer : request.Answer}
    (exchange : c.Exchange log request answer after) : log <+: after := by
  cases request with
  | publish signer category recipients payload =>
    rcases exchange with ⟨appended, -⟩ | ⟨-, same, -⟩
    · exact appended ▸ List.prefix_append _ _
    · exact same ▸ List.prefix_rfl
  | latestBySender => exact exchange.1 ▸ List.prefix_rfl
  | sendersTo => exact exchange.1 ▸ List.prefix_rfl

namespace Account

/-- Others append, and then the exchange; what it appends is noted. -/
def manner : Manner Account := fun account request answer after =>
  ∃ seen mine, account.log <+: seen ∧ Conditions.unreliable.Exchange seen request answer after.log ∧
    after.log = seen ++ mine ∧ after.filed = account.filed ++ mine

variable {account after : Account} {request : Request} {answer : request.Answer}

theorem manner_grows (answered : manner account request answer after) : account.log <+: after.log := by
  obtain ⟨seen, mine, more, -, appended, -⟩ := answered
  exact appended ▸ more.trans (List.prefix_append _ _)

/-- A question files nothing. -/
theorem filed_of_asks (asks : request.Asks) (answered : manner account request answer after) :
    after.filed = account.filed := by
  obtain ⟨seen, mine, -, exchange, appended, noted⟩ := answered
  rw [exchange.same_of_asks asks] at appended
  rw [noted, List.append_right_eq_self.1 appended.symm, List.append_nil]

end Account

theorem Desk.answer_manner (request : Request) (desk : Desk) :
    Account.manner desk.account request (desk.answer request).1 (desk.answer request).2.account := by
  obtain ⟨⟨line, batches⟩, filed⟩ := desk
  have exchange := Line.answer_exchange request
    { line with journal := { line.journal with
        transactions := line.transactions ++ batches.head?.getD [] } }
  refine ⟨line.transactions ++ batches.head?.getD [], _, List.prefix_append _ _, exchange, ?_, rfl⟩
  exact (List.prefix_iff_eq_append.1 exchange.grows).symm

theorem Desk.heeds {α : Type} (d : Dialogue α) (desk : Desk) :
    d.Heeds Account.manner Desk.answer Desk.account desk :=
  Dialogue.heeds_of_forall (I := fun _ => True)
    (fun request desk _ => ⟨trivial, desk.answer_manner request⟩) d trivial

/-! ## Turns that file nothing -/

/-- The player cannot sign, or sees no seat of its own. -/
def Player.Idle {γ : Type} (player : Player γ) : Prop :=
  player.signer = none ∨ player.address ∉ player.session.players

/-- Whoever cannot sign files nothing. -/
theorem Player.asks_of_files {γ : Type} {player : Player γ} {step : Step} (unsigned : player.signer = none)
    (request : Request) (files : player.Files step request) : request.Asks := by
  cases request with
  | latestBySender => trivial
  | publish => cases unsigned.symm.trans files.1
  | sendersTo => exact files.elim

namespace Turn

variable {γ α : Type}

/-- A turn in which an idle player only asks. -/
def Quiet (turn : Turn γ α) : Prop := ∀ player : Player γ, player.Idle →
  turn.Within Request.Asks (fun _ => True) player

theorem quiet_of_within {turn : Turn γ α} {R : Request → Prop} {C : Player γ → Player γ → Prop}
    (within : ∀ player, turn.Within R (C player) player) (asks : ∀ request, R request → request.Asks) : turn.Quiet :=
  fun player _ => (within player).mono asks fun _ _ => trivial

/-- A turn that files for one step is quiet if whoever has no seat files nothing in it. -/
theorem quiet_of_files {turn : Turn γ α} {step : Step} {C : Player γ → Player γ → Prop}
    (within : ∀ player, turn.Within (player.Files step) (C player) player)
    (absent : ∀ player : Player γ, player.address ∉ player.session.players →
      turn.Within Request.Asks (fun _ => True) player) : turn.Quiet := by
  rintro player (unsigned | unseated)
  · exact (within player).mono (Player.asks_of_files unsigned) fun _ _ => trivial
  · exact absent player unseated

theorem exchangeKeys_quiet [RandomSource γ] : (exchangeKeys : Turn γ Outcome).Quiet := by
  refine quiet_of_files exchangeKeys_within fun player absent => within_get ?_
  split
  · exact within_pure trivial
  split
  · exact (collectMissing_within player .idle).mono asks_of_reads fun _ _ => trivial
  · rename_i recipients asked
    exact absurd (Session.keyRecipients?_eq_some asked).2.1 absent

theorem shuffle_quiet [RandomSource γ] : (shuffle : Turn γ Outcome).Quiet := by
  refine quiet_of_files shuffle_within fun player absent => within_get ?_
  have unseated : player.isSeated = false := Bool.eq_false_iff.2 fun seated => absent (Player.isSeated_iff.1 seated)
  rw [if_pos (by simp [unseated])]
  exact within_pure trivial

theorem decrypt_quiet : (decrypt : Turn γ Outcome).Quiet := by
  refine quiet_of_files decrypt_within fun player absent => within_get ?_
  have waits : player.session.decryptor? ≠ some player.address := fun decrypts =>
    absent (Circle.mem_of_next? decrypts).2
  rw [if_pos waits]
  exact within_pure trivial

end Turn

/-! ## What stays with those who have no seat -/

section

variable {γ : Type} {player next : Player γ}

/-- The player has what the other has, but for seats, keys of others and a deck. -/
structure Player.Unmoved (player next : Player γ) : Prop where
  keys : next.keys = player.keys
  source : next.source = player.source
  hand : next.session.hand = player.session.hand
  phase : next.session.phase = player.session.phase
  announced : next.announced = player.announced

theorem Change.unmoved (change : Change player next) (absent : player.address ∉ player.session.players) :
    player.Unmoved next := by
  cases change with
  | seats joined =>
    obtain ⟨players, seated⟩ := player.session.seatAll_eq joined
    obtain ⟨dealer, become, -⟩ := player.seated_eq joined
    rw [become, seated]
    exact ⟨rfl, rfl, rfl, rfl, rfl⟩
  | draws seated => exact absurd seated absent
  | keepsKeys seated => exact absurd seated absent
  | deals seated => exact absurd seated absent
  | observes seated => exact absurd seated absent
  | learns => exact ⟨rfl, rfl, rfl, rfl, rfl⟩
  | finishes => exact ⟨rfl, rfl, rfl, rfl, rfl⟩

/-- Whoever has no seat in the end has never had one. -/
theorem Player.Becomes.unmoved (becomes : player.Becomes next)
    (absent : next.address ∉ next.session.players) : player.Unmoved next := by
  induction becomes with
  | refl => exact ⟨rfl, rfl, rfl, rfl, rfl⟩
  | tail _ change ih =>
    have early := fun seated => absent (change.same.address ▸ change.extends.players.subset seated)
    obtain ⟨keys, source, hand, phase, announced⟩ := change.unmoved early
    have before := ih early
    exact ⟨keys.trans before.keys, source.trans before.source, hand.trans before.hand,
      phase.trans before.phase, announced.trans before.announced⟩

/-- Whoever cannot sign keeps no pair. -/
theorem Player.Becomes.unkeyed (becomes : player.Becomes next) (unsigned : player.signer = none)
    (unkeyed : player.keys = none) : next.keys = none := by
  induction becomes with
  | refl => exact unkeyed
  | tail before change ih =>
    cases change with
    | seats joined =>
      obtain ⟨dealer, become, -⟩ := Player.seated_eq _ joined
      rw [become]
      exact ih
    | keepsKeys _ _ signs =>
      rw [(Player.Becomes.same before).signer, unsigned] at signs
      cases signs
    | _ => exact ih

end

namespace Rules

section

variable {γ : Type} {rules : Rules}

/-! ## What is filed -/

variable (rules) in
/-- What a newcomer files. -/
structure Joins (player : Player γ) (tx : Transaction) : Prop where
  sender : tx.sender = player.address
  category : tx.category = rules.category .join
  recipients : tx.recipients = [rules.creator]
  payload : tx.payload = []

variable (rules) in
/-- The player sees the seats as they were at some time. -/
def Views (player : Player γ) (log : Log) : Prop := ∃ seen, rules.Sits player seen ∧ seen <+: log

variable (rules) in
/-- The player sees the seats as they were; its account is empty if it cannot sign, and has no more than its
wish to join if it has no seat. -/
structure Accounts (player : Player γ) (account : Account) : Prop where
  views : rules.Views player account.log
  unsigned : player.signer = none → account.filed = []
  aside : player.address ∉ rules.seats account.log →
    account.filed = [] ∨ ∃ tx ∈ account.log, account.filed = [tx] ∧ rules.Joins player tx

variable {player next : Player γ} {account after : Account}

theorem Views.told {log : Log} (views : rules.Views player log) : rules.Told player := by
  obtain ⟨seen, sits, -⟩ := views
  exact sits.told

theorem Views.grows {log later : Log} (views : rules.Views player log) (more : log <+: later) :
    rules.Views player later := by
  obtain ⟨seen, sits, early⟩ := views
  exact ⟨seen, sits, early.trans more⟩

/-- Who has a seat is on the ledger. -/
theorem Views.seated {log : Log} (views : rules.Views player log)
    (seated : player.address ∈ player.session.players) : player.address ∈ rules.seats log := by
  obtain ⟨seen, sits, early⟩ := views
  exact (seats_grow early).subset (sits.players ▸ seated)

/-- Nothing else is filed while the ledger grows. -/
theorem Accounts.later (accounts : rules.Accounts player account) (same : player.Same next)
    (views : rules.Views next after.log) (more : account.log <+: after.log) (filed : after.filed = account.filed) :
    rules.Accounts next after := by
  refine ⟨views, ?_, ?_⟩
  · intro unsigned
    rw [filed, accounts.unsigned (same.signer ▸ unsigned)]
  · intro absent
    rw [same.address] at absent
    have early := fun seated => absent ((seats_grow more).subset seated)
    rw [filed]
    refine (accounts.aside early).imp_right ?_
    rintro ⟨tx, member, single, joins⟩
    exact ⟨tx, more.subset member, single, ⟨same.address ▸ joins.sender, joins.category, joins.recipients,
      joins.payload⟩⟩

/-- Whoever has found no wish of its own has filed nothing, unless it has a seat. -/
theorem Accounts.filed_of_unfiled (accounts : rules.Accounts player account)
    (unfiled : player.address ∉ account.log.senders (rules.category .join))
    (absent : player.address ∉ rules.seats account.log) : account.filed = [] := by
  refine (accounts.aside absent).resolve_right ?_
  rintro ⟨tx, found, -, joins⟩
  have filed : tx ∈ account.log.filed (rules.category .join) :=
    List.mem_filter.2 ⟨found, decide_eq_true joins.category⟩
  exact unfiled (joins.sender ▸ List.mem_map_of_mem filed)

/-! ## Turns -/

/-- Whatever a player sees of the seats, with whatever account, they were so at some time. -/
theorem keeps_views {turn : Turn γ Outcome} (sees : turn.Keeps Sight.manner rules.SeesSeats) :
    turn.Keeps Account.manner fun player account => rules.Views player account.log := by
  have related {sight : Sight} {account : Account} (same : sight.log = account.log) (request : Request)
      (answer : request.Answer) (after : Account) (answered : Account.manner account request answer after) :
      ∃ sight', Sight.manner sight request answer sight' ∧ sight'.log = after.log := by
    have more : sight.log <+: after.log := same ▸ Account.manner_grows answered
    obtain ⟨seen, mine, -, exchange, -⟩ := answered
    cases request with
    | publish => exact ⟨⟨after.log, sight.seen⟩, ⟨more, rfl⟩, rfl⟩
    | latestBySender => exact ⟨⟨after.log, sight.seen⟩, ⟨more, rfl⟩, rfl⟩
    | sendersTo category recipient =>
      obtain ⟨same', told⟩ := exchange
      rcases told with rfl | ⟨-, e, rfl⟩
      · exact ⟨⟨after.log, after.log⟩, ⟨more, by rw [same'], rfl⟩, rfl⟩
      · exact ⟨⟨after.log, sight.seen⟩, ⟨more, rfl⟩, rfl⟩
  rintro player account ⟨seen, sits, early⟩
  refine (sees.transfer related player account ⟨⟨account.log, seen⟩, ⟨sits, early⟩, rfl⟩).mono ?_
  rintro _ next after ⟨sight, ⟨sits, early⟩, same⟩
  exact ⟨sight.seen, sits, same ▸ early⟩

/-- In a turn that is quiet nobody files anything who has no seat or cannot sign. -/
theorem accounts_of_quiet {turn : Turn γ Outcome} (changes : ∀ player, turn.Changes player)
    (sees : turn.Keeps Sight.manner rules.SeesSeats) (quiet : turn.Quiet) :
    turn.Keeps Account.manner rules.Accounts := by
  intro player account accounts
  have becomes := (changes player).yields (m := Account.manner)
    (S := fun account after => account.log <+: after.log) (fun _ => List.prefix_rfl) (fun h h' => h.trans h')
    (fun _ answered => Account.manner_grows answered) account
  have views := keeps_views sees player account accounts.views
  by_cases idle : player.Idle
  · have asks := (quiet player idle).yields (m := Account.manner)
      (S := fun account after => after.filed = account.filed) (fun _ => rfl) (fun h h' => h'.trans h)
      Account.filed_of_asks account
    refine ((becomes.and views).and asks).mono ?_
    rintro _ next after ⟨⟨⟨becomes, more⟩, views⟩, -, filed⟩
    exact accounts.later (Player.Becomes.same becomes) views more filed
  · -- whoever has a seat, and can sign, has nothing to account for
    refine (becomes.and views).mono ?_
    rintro _ next after ⟨⟨becomes, more⟩, views⟩
    have same := Player.Becomes.same becomes
    rw [Player.Idle, not_or, not_not] at idle
    refine ⟨views, ?_, ?_⟩
    · intro unsigned
      exact absurd (same.signer ▸ unsigned) idle.1
    · intro absent
      rw [same.address] at absent
      exact absurd ((seats_grow more).subset (accounts.views.seated idle.2)) absent

/-- Whoever has found no wish of its own to join may file one. -/
theorem publish_accounts (accounts : rules.Accounts player account) {signer : Signer} (signs : player.signer = some signer)
    (unfiled : player.address ∉ account.log.senders (rules.category .join)) :
    (Turn.publish signer .join [player.session.creator] []).Yields Account.manner
      (fun _ next after => rules.Accounts next after) player account := by
  have told := accounts.views.told
  rw [Turn.yields_publish]
  rintro answer after ⟨seen, mine, before, exchange, appended, noted⟩
  have more : account.log <+: after.log := appended ▸ before.trans (List.prefix_append _ _)
  rcases exchange with ⟨filed, -⟩ | ⟨-, unchanged, -⟩
  · rw [filed, List.append_cancel_left_eq] at appended
    rw [← appended] at noted
    refine ⟨accounts.views.grows more, fun unsigned => (by cases signs.symm.trans unsigned), fun absent => .inr ?_⟩
    have none := accounts.filed_of_unfiled unfiled fun seated => absent ((seats_grow more).subset seated)
    refine ⟨_, filed ▸ List.mem_append_right _ (List.mem_singleton.2 rfl), by rw [noted, none]; rfl, ?_⟩
    exact ⟨told.signs signer signs, told.category .join, by rw [Log.filing, told.creator], rfl⟩
  · rw [unchanged, List.self_eq_append_right] at appended
    rw [appended, List.append_nil] at noted
    exact accounts.later (.refl player) (accounts.views.grows more) more noted

theorem join_accounts : (Turn.join : Turn γ Outcome).Keeps Account.manner rules.Accounts := by
  intro player account accounts
  simp only [Turn.join, Turn.yields_bind, Turn.yields_get]
  split
  · exact (Turn.yields_pure ..).2 accounts
  simp only [Turn.yields_bind, Turn.yields_hasPublished]
  intro answer looked answered
  have more := Account.manner_grows answered
  have asks : Request.Asks (.latestBySender (player.category .join) player.address) := trivial
  have accounts := accounts.later (.refl player) (accounts.views.grows more) more (Account.filed_of_asks asks answered)
  obtain ⟨_, _, -, ⟨rfl, found⟩, -⟩ := answered
  rcases found with rfl | ⟨-, e, rfl⟩
  case inr => exact accounts
  simp only [Except.mapError, Except.map]
  split
  · exact (Turn.yields_pure ..).2 accounts
  rename_i unfiled
  split
  case h_2 => exact (Turn.yields_pure ..).2 accounts
  rename_i signer signs
  refine publish_accounts accounts signs ?_
  rwa [Log.payload?_isSome, accounts.views.told.category] at unfiled

/-- Whatever turn a player takes, it files nothing that it would have to account for. -/
theorem all_account [RandomSource γ] : Turn.AllKeep Account.manner (rules.Accounts (γ := γ)) where
  join := join_accounts
  refreshPlayers := accounts_of_quiet Turn.refreshPlayers_changes all_seeSeats.refreshPlayers
    (Turn.quiet_of_within Turn.refreshPlayers_within fun _ asks => asks)
  exchangeKeys := accounts_of_quiet Turn.exchangeKeys_changes all_seeSeats.exchangeKeys Turn.exchangeKeys_quiet
  shuffle := accounts_of_quiet Turn.shuffle_changes all_seeSeats.shuffle Turn.shuffle_quiet
  refreshEncryption := accounts_of_quiet Turn.refreshEncryption_changes all_seeSeats.refreshEncryption
    (Turn.quiet_of_within Turn.refreshEncryption_within Turn.asks_of_reads)
  decrypt := accounts_of_quiet Turn.decrypt_changes all_seeSeats.decrypt Turn.decrypt_quiet
  deal := accounts_of_quiet Turn.deal_changes all_seeSeats.deal
    (Turn.quiet_of_within Turn.deal_within Turn.asks_of_reads)
  updateSession := accounts_of_quiet Turn.updateSession_changes all_seeSeats.updateSession
    (Turn.quiet_of_within Turn.updateSession_within fun _ asks => asks)

end

/-! ## Runs -/

section

variable {γ : Type} {rules : Rules} {start : Player γ} {log : Log} {filer : Filer γ}

theorem Fresh.accounts (fresh : rules.Fresh start) (log : Log) : rules.Accounts start ⟨log, []⟩ :=
  ⟨⟨[], fresh.sits, List.nil_prefix⟩, fun _ => rfl, fun _ => .inl rfl⟩

/-- Who has a seat is the creator, or one of the first who joined. -/
theorem mem_seats_iff {a : Address} : a ∈ rules.seats log ↔
    a = rules.creator ∨ a ∈ (rules.newcomers log).take (rules.config.minPlayers - 1) := by
  have limit : max rules.config.minPlayers 1 = rules.config.minPlayers - 1 + 1 := by omega
  rw [seats_eq, limit, List.take_succ_cons, List.mem_cons]

variable [RandomSource γ]

theorem accounts_of_attends (run : Relation.ReflTransGen Attends ⟨start, log, []⟩ filer)
    (fresh : rules.Fresh start) : rules.Accounts filer.player ⟨filer.log, filer.filed⟩ := by
  induction run with
  | refl => exact fresh.accounts log
  | tail _ step ih =>
    cases step with
    | moves move desk => exact (move.turn_keeps all_account _ desk.account ih).take (desk.heeds _)
    | @others player log filed more =>
      have longer : log <+: log ++ more := List.prefix_append _ _
      exact ih.later (.refl player) (ih.views.grows longer) longer rfl

theorem becomes_of_attends (run : Relation.ReflTransGen Attends ⟨start, log, []⟩ filer) :
    start.Becomes filer.player := by
  induction run with
  | refl => exact .refl
  | tail _ step ih =>
    cases step with
    | moves move desk => exact ih.trans (move.take_becomes Desk.answer _ desk)
    | others => exact ih

/-- Whoever is neither the creator nor among the first who joined, however long the history becomes, files no
more than one wish to join, draws no pair, and has no pair, no cards and no phase but the first; and whoever
cannot sign files nothing and has no pair. -/
theorem bystanders_stand_by (fresh : rules.Fresh start)
    (run : Relation.ReflTransGen Attends ⟨start, log, []⟩ filer) :
    (∀ history, filer.log <+: history → start.address ≠ rules.creator →
      start.address ∉ (rules.newcomers history).take (rules.config.minPlayers - 1) →
      filer.filed.length ≤ 1 ∧
      (∀ tx ∈ filer.filed, tx.sender = start.address ∧ tx.category = rules.category .join ∧
        tx.recipients = [rules.creator] ∧ tx.payload = []) ∧
      filer.player.keys = none ∧ filer.player.source = start.source ∧ filer.player.session.hand = [] ∧
      filer.player.session.phase = .waitingForPlayers ∧ filer.player.announced = .waitingForPlayers) ∧
    (start.signer = none → filer.filed = [] ∧ filer.player.keys = none) := by
  have accounts := accounts_of_attends run fresh
  have becomes := becomes_of_attends run
  have same := becomes.same
  obtain ⟨-, -, hand, unkeyed, -⟩ := fresh.blank
  constructor
  · intro history part apart late
    have absent : filer.player.address ∉ rules.seats filer.log := fun seated => by
      rw [same.address] at seated
      exact (mem_seats_iff.1 ((seats_grow part).subset seated)).elim apart late
    have unmoved := becomes.unmoved fun seated => absent (accounts.views.seated seated)
    obtain ⟨phase, announced⟩ := fresh.waits
    have filed : filer.filed = [] ∨ ∃ tx, filer.filed = [tx] ∧ rules.Joins filer.player tx :=
      (accounts.aside absent).imp_right fun ⟨tx, _, single, joins⟩ => ⟨tx, single, joins⟩
    refine ⟨?_, ?_, unmoved.keys.trans unkeyed, unmoved.source, unmoved.hand.trans hand,
      unmoved.phase.trans phase, unmoved.announced.trans announced⟩
    all_goals rcases filed with none | ⟨tx, single, joins⟩
    · simp [none]
    · simp [single]
    · simp [none]
    · rw [single, List.forall_mem_singleton]
      exact ⟨joins.sender.trans same.address, joins.category, joins.recipients, joins.payload⟩
  · intro unsigned
    exact ⟨accounts.unsigned (same.signer.trans unsigned), becomes.unkeyed unsigned unkeyed⟩

end

/-- Somebody who comes when both other seats of three are taken. -/
def latecomer : Player (Seeded id) :=
  .new forThree.config ⟨⟨"dora"⟩, []⟩ forThree.game forThree.creator ⟨[], 0⟩

/-- Two have joined before, and the reply to the next publication is lost. -/
def busyDesk : Desk := ⟨{ twoJoined.crowd with line.script := [.passes, .losesReply] }, []⟩

/-- A turn of somebody at everything, and what it leaves of the desk. -/
def turnAt (player : Player (Seeded id)) (desk : Desk) : Player (Seeded id) × Desk :=
  (Move.everything.turn.take Desk.answer player desk).2

/-- The latecomer after two turns. -/
def turnedAway : Player (Seeded id) × Desk :=
  turnAt (turnAt latecomer busyDesk).1 (turnAt latecomer busyDesk).2

theorem attends_turnAt (player : Player (Seeded id)) (desk : Desk) : Attends ⟨player, desk.log, desk.filed⟩
    ⟨(turnAt player desk).1, (turnAt player desk).2.log, (turnAt player desk).2.filed⟩ := by
  unfold turnAt
  exact .moves .everything desk

theorem attends_turnedAway : Relation.ReflTransGen Attends ⟨latecomer, busyDesk.log, []⟩
    ⟨turnedAway.1, turnedAway.2.log, turnedAway.2.filed⟩ :=
  (Relation.ReflTransGen.single (attends_turnAt latecomer busyDesk)).tail (attends_turnAt _ _)

/-- The latecomer wishes to join once, and waits. -/
theorem bystanders_stand_by_latecomer : turnedAway.2.filed ≠ [] ∧ turnedAway.2.filed.length ≤ 1 ∧
    turnedAway.1.keys = none ∧ turnedAway.1.session.phase = .waitingForPlayers := by
  have fresh : forThree.Fresh latecomer := .plays _ _
  have late : latecomer.address ∉ (forThree.newcomers turnedAway.2.log).take 2 := by decide +kernel
  obtain ⟨once, -, unkeyed, -, -, phase, -⟩ :=
    (bystanders_stand_by fresh attends_turnedAway).1 turnedAway.2.log List.prefix_rfl (by decide) late
  exact ⟨by decide +kernel, once, unkeyed, phase⟩

end Rules

end MentalPoker
