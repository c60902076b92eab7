/-
The deal does not depend on the schedule. Players move in any order, reads fail and replies are lost, but
publications arrive, and each address has one process with a source of its own. Then whatever is filed is in
the script of the table, and so is every hand: two such runs with the same sources, in which the same
players join in the same order, differ in when things happen and in nothing else.
-/
import MentalPoker.Proofs.Play.Hands
import MentalPoker.Proofs.Play.Script
import MentalPoker.Proofs.Play.Seats

namespace MentalPoker

/-- Nothing is delivered that an unreliable line could not do. -/
theorem Manner.delivered_le (log : Log) (request : Request) (answer : request.Answer) (after : Log)
    (delivered : Manner.delivered log request answer after) :
    Conditions.unreliable.manner log request answer after := by
  -- an answer is what it has to be, or none
  have right {β : Type} {truth : β} {answer : Except LedgerError β}
      (told : ∀ found, answer = .ok found → found = truth) : answer = .ok truth ∨ True ∧ ∃ e, answer = .error e := by
    cases answer with
    | ok found => exact .inl (told found rfl ▸ rfl)
    | error e => exact .inr ⟨trivial, e, rfl⟩
  refine ⟨log, rfl, ?_⟩
  cases request with
  | publish signer category recipients payload =>
    refine .inl ⟨delivered, ?_⟩
    cases answer with
    | ok id => exact .inl ⟨id, rfl⟩
    | error e => exact .inr ⟨trivial, e, rfl⟩
  | latestBySender category sender => exact ⟨delivered.1, right delivered.2⟩
  | sendersTo category recipient => exact ⟨delivered.1, right delivered.2⟩

variable {γ : Type} [RandomSource γ]

namespace Rules

variable (rules : Rules)

/-- A step of a run in which publications arrive: somebody arrives who has the address to itself and the
source that is meant for it, somebody moves, or a transaction outside the game is appended. -/
inductive Proceeds (gen : Address → γ) : Table γ → Table γ → Prop
  | arrives {table : Table γ} {newcomer : Participant γ} (unused : table.player? newcomer.id = none)
      (fresh : rules.Fresh newcomer.player) (given : newcomer.player.source = gen newcomer.player.address)
      (sole : newcomer.player.address ∉ table.players.map (·.address)) :
      Proceeds gen table (table.place newcomer)
  | moves {table after : Table γ} {id : String} {move : Move} {result : Except DealError Report} (line : Line)
      (same : line.transactions = table.log)
      (delivers : ∀ player, table.player? id = some player →
        (move.turn.run.run player).Heeds Manner.delivered Line.answer Line.transactions line)
      (moved : Table.move? ⟨line, table.participants⟩ id move = some (result, after)) :
      Proceeds gen table after
  | foreign {table after : Table γ} {tx : Transaction} (outside : ∀ step, tx.category ≠ rules.category step)
      (same : after.participants = table.participants) (appended : after.log = table.log ++ [tx]) :
      Proceeds gen table after

/-- The states of such runs that start with an untouched ledger. -/
def Played (gen : Address → γ) (table : Table γ) : Prop :=
  ∃ start, rules.Untouched start ∧ Relation.ReflTransGen (rules.Proceeds gen) start table

/-- All that is known of a table whose run is on script. -/
structure Unfolds (gen : Address → γ) (players : List (Player γ)) (log : Log) : Prop where
  held : (rules.History log ∧ ∀ player ∈ players, rules.Knows log player) ∧ rules.Traced players log
  sole : (players.map (·.address)).Nodup
  scripted : rules.Scripted gen log
  on : ∀ player ∈ players, rules.OnScript gen log player

section

variable {rules} {gen : Address → γ} {log later : Log} {front back : List (Player γ)} {player next : Player γ}

theorem Proceeds.step {before after : Table γ} (step : rules.Proceeds gen before after) :
    rules.Next before after := by
  cases step with
  | arrives unused fresh => exact .arrives unused fresh
  | moves line same _ moved => exact .moves line same moved
  | foreign outside same appended => exact .foreign outside same appended

/-! ## Deeds -/

/-- What is new on the ledger after one transaction for a step is that transaction. -/
theorem filed_append_of_step (valid : rules.config.Valid) {tx other : Transaction} {step : Step}
    (category : tx.category = rules.category step) {step' : Step}
    (member : other ∈ (log ++ [tx]).filed (rules.category step')) :
    other ∈ log.filed (rules.category step') ∨ other = tx ∧ step' = step := by
  by_cases same : tx.category = rules.category step'
  · rw [Log.filed_append_of_eq same, List.mem_append, List.mem_singleton] at member
    exact member.imp_right fun h => ⟨h, valid.category_inj (same.symm.trans category)⟩
  · rw [Log.filed_append_of_ne same] at member
    exact .inl member

/-- The ledger stays on script when a player files what the script has for it. -/
theorem Scripted.files (valid : rules.config.Valid) (ordered : rules.Ordered log)
    (scripted : rules.Scripted gen log) (knows : rules.Knows log player) {signer : Signer}
    (signs : player.signer = some signer) {step : Step} {recipients : List Address} {payload : Bytes}
    (grows : rules.Grows log (log ++ [Log.filing log signer (player.category step) recipients payload]))
    (said : Says gen (rules.seats log) (rules.dealerAt log) step player.address payload)
    (full : step ≠ .publicKey → rules.Full log) :
    rules.Scripted gen (log ++ [Log.filing log signer (player.category step) recipients payload]) := by
  refine scripted.grow valid ordered grows fun step' _ tx member => ?_
  refine (filed_append_of_step valid (knows.told.category step) member).imp_right ?_
  rintro ⟨rfl, rfl⟩
  have own : (Log.filing log signer (player.category step') recipients payload).sender = player.address :=
    knows.told.signs signer signs
  by_cases key : step' = .publicKey
  · subst key
    rw [own]
    exact said
  · rw [own, dealerAt, grows.seats_of_full valid (full key)]
    exact said

/-- What a player does keeps the ledger on script. -/
theorem Scripted.deed (valid : rules.config.Valid) (ordered : rules.Ordered log)
    (scripted : rules.Scripted gen log) (knows : rules.Knows log player) (on : rules.OnScript gen log player)
    (grows : rules.Grows log later) (knows' : rules.Knows later next) (deed : Deed player log next later) :
    rules.Scripted gen later := by
  cases deed with
  | rests _ _ joins =>
    obtain ⟨more, rfl, joins⟩ := joins
    refine scripted.grow valid ordered grows fun step inGame tx member => .inl ?_
    rw [Log.filed, List.filter_append, List.mem_append] at member
    refine member.resolve_right fun new => inGame ?_
    obtain ⟨new, filed⟩ := List.mem_filter.1 new
    have category := (joins tx new).trans (knows.told.category .join)
    exact valid.category_inj ((of_decide_eq_true filed).symm.trans category)
  | misses _ _ _ same => exact same ▸ scripted
  | jams _ _ _ same => exact same ▸ scripted
  | announces recipients signs unfiled drew made _ filed =>
    subst filed
    rw [knows.told.category] at unfiled
    have first := on.first unfiled _ _ _ (.now drew made)
    exact scripted.files valid ordered knows signs grows ⟨_, _, _, first, rfl⟩ (absurd rfl)
  | shuffles recipients signs shares _ unfiled feeds layered filed =>
    subst filed
    rw [knows.told.category] at unfiled
    obtain ⟨-, -, full, -⟩ := knows.whole valid shares.held
    exact scripted.files valid ordered knows signs grows
      (on.shuffles valid knows scripted shares unfiled feeds layered) fun _ => full
  | @decrypts _ _ _ _ finished _ recipients signs shares keys _ ends bared filed =>
    obtain ⟨-, -, full, -⟩ := knows.whole valid shares.held
    -- the player looked at the chain before it filed, and saw the end of it
    have handed : ∃ last, Circle.previous? (rules.seats log) (rules.dealerAt log) = some last ∧
        rules.Handed log .shuffle last finished := by
      obtain ⟨last, finishes, payload, found, read⟩ := (knows'.finished finished ends).2 (by simp [keys])
      obtain ⟨players, dealer, -⟩ := knows'.whole valid keys
      rw [Session.finalShuffler?, players, dealer, dealerAt, grows.seats_of_full valid full] at finishes
      refine ⟨last, finishes, payload, ?_, read⟩
      subst filed
      rwa [Log.payload?_append_of_ne fun same => ?_] at found
      exact absurd (valid.category_inj ((knows.told.category .decrypt).symm.trans same)) (by decide)
    obtain ⟨last, before, handed⟩ := handed
    subst filed
    exact scripted.files valid ordered knows signs grows
      (on.decrypts valid knows scripted shares before handed bared) fun _ => full

/-- What a player does leaves it on script. -/
theorem OnScript.deed (valid : rules.config.Valid) (knows : rules.Knows log player)
    (on : rules.OnScript gen log player) (grows : rules.Grows log later) (address : next.address = player.address)
    (deed : Deed player log next later) : rules.OnScript gen later next := by
  have filed {step : Step} {signer : Signer} (signs : player.signer = some signer) (recipients : List Address)
      (payload : Bytes) : player.address ∈
        (log ++ [Log.filing log signer (player.category step) recipients payload]).senders
          (rules.category step) := by
    rw [Log.senders_append_of_eq (by exact knows.told.category step), Log.filing, knows.told.signs signer signs]
    simp
  cases deed with
  | rests keys source => exact on.grows valid knows grows address keys source
  | decrypts _ _ shares keys source =>
    exact on.grows valid knows grows address (keys.trans shares.held.symm) source
  | misses keys drew unfit same =>
    subst same
    refine ⟨fun unfiled => ?_, fun pair held => ?_⟩
    · rw [address] at unfiled ⊢
      exact fun pair message rest first => on.first unfiled pair message rest (.later drew unfit first)
    · cases keys.symm.trans held
  | announces recipients signs unfiled drew made keys same =>
    subst same
    rw [knows.told.category] at unfiled
    refine ⟨fun new => absurd (address ▸ filed signs recipients _) new, fun pair held => ?_⟩
    obtain rfl := keys pair held
    rw [address]
    exact ⟨_, _, on.first unfiled _ _ _ (.now drew made), fun _ => .inl rfl⟩
  | jams shares keys fails same =>
    subst same
    refine ⟨fun new => absurd (address ▸ knows.announces shares.held) new, fun pair held => ?_⟩
    obtain rfl := Option.some.inj (keys.symm.trans held)
    obtain ⟨message, rest, first, -⟩ := on.pair _ shares.held
    rw [address]
    exact ⟨message, rest, first, fun _ => .inr (knows.jammed valid shares fails)⟩
  | shuffles recipients signs shares keys _ _ _ same =>
    subst same
    refine ⟨fun new => absurd (address ▸ grows.senders (knows.announces shares.held)) new, fun pair held => ?_⟩
    obtain rfl := Option.some.inj (keys.symm.trans held)
    obtain ⟨message, rest, first, -⟩ := on.pair _ shares.held
    rw [address]
    exact ⟨message, rest, first, fun new => absurd (filed signs recipients _) new⟩

/-- A turn in which its player does one thing keeps the run on script. -/
theorem Unfolds.deed (valid : rules.config.Valid) (unfolds : rules.Unfolds gen (front ++ player :: back) log)
    (course : Course .unreliable ⟨player, log⟩ ⟨next, later⟩) (deed : Deed player log next later) :
    rules.Unfolds gen (front ++ next :: back) later := by
  have held := (kept_views valid).course course unfolds.held
  have grows : rules.Grows log later := (held.1.1 log deed.more).2
  have address : next.address = player.address := (Course.same course).address
  have knew := unfolds.held.1.2 player (by simp)
  have on := unfolds.on player (by simp)
  refine ⟨held, ?_, ?_, fun p member => ?_⟩
  · have sole := unfolds.sole
    rw [List.map_append, List.map_cons] at sole ⊢
    rwa [address]
  · exact unfolds.scripted.deed valid unfolds.held.1.1.ordered knew on grows (held.1.2 next (by simp)) deed
  · rcases mem_replaced player member with rfl | ⟨-, old⟩
    · exact on.deed valid knew grows address deed
    · exact (unfolds.on p old).grows valid (unfolds.held.1.2 p old) grows rfl rfl rfl

/-! ## Runs -/

theorem keeps_of_deeds {α : Type} (valid : rules.config.Valid) {turn : Turn γ α} (runs : turn.Runs .unreliable)
    (deeds : turn.Deeds) (front back : List (Player γ)) :
    turn.Keeps Manner.delivered fun player log => rules.Unfolds gen (front ++ player :: back) log := by
  intro player log unfolds
  have course := ((Turn.ensures_iff_yields _ player log turn).1 (runs player log)).of_le Manner.delivered_le
  exact (course.and (deeds player log)).mono fun _ next later h => unfolds.deed valid h.1 h.2

/-- Whatever turn a player takes, the run stays on script. -/
theorem all_unfold (valid : rules.config.Valid) (gen : Address → γ) (front back : List (Player γ)) :
    Turn.AllKeep Manner.delivered fun player log => rules.Unfolds gen (front ++ player :: back) log where
  join := keeps_of_deeds valid Turn.join_runs Turn.join_deeds front back
  refreshPlayers := keeps_of_deeds valid Turn.refreshPlayers_runs Turn.refreshPlayers_deeds front back
  exchangeKeys := keeps_of_deeds valid Turn.exchangeKeys_runs Turn.exchangeKeys_deeds front back
  shuffle := keeps_of_deeds valid Turn.shuffle_runs Turn.shuffle_deeds front back
  refreshEncryption := keeps_of_deeds valid
    (fun _ _ => Turn.refreshEncryption_ensures.mono fun _ _ _ h => h.1) Turn.refreshEncryption_deeds front back
  decrypt := keeps_of_deeds valid Turn.decrypt_runs Turn.decrypt_deeds front back
  deal := keeps_of_deeds valid Turn.deal_runs Turn.deal_deeds front back
  updateSession := keeps_of_deeds valid Turn.updateSession_runs Turn.updateSession_deeds front back

theorem Unfolds.proceeds (valid : rules.config.Valid) {before after : Table γ}
    (step : rules.Proceeds gen before after) (unfolds : rules.Unfolds gen before.players before.log)
    (named : before.Named) : rules.Unfolds gen after.players after.log ∧ after.Named := by
  refine ⟨?_, ((kept_views valid).next step.step unfolds.held named).2⟩
  cases step with
  | @arrives newcomer unused fresh given sole =>
    have players : (before.place newcomer).players = before.players ++ [newcomer.player] := by
      rw [Table.players, Table.participants_place_unused unused, List.map_append]
      rfl
    rw [players]
    refine ⟨(kept_views valid).arrival _ _ _ fresh unfolds.held, ?_, unfolds.scripted, ?_⟩
    · rw [List.map_append]
      exact unfolds.sole.append (List.nodup_singleton _) (List.disjoint_singleton.2 sole)
    · exact List.forall_mem_append.2 ⟨unfolds.on, List.forall_mem_singleton.2 (fresh.onScript given _)⟩
  | @moves _ id move result line same delivers moved =>
    have named' : Table.Named ⟨line, before.participants⟩ := named
    obtain ⟨front, back, player, found, split, replaced, ends⟩ := Table.move?_takes named' moved
    replace split : before.participants = front ++ ⟨id, player⟩ :: back := split
    have log : after.log = (move.turn.take Line.answer player line).2.2.transactions :=
      congrArg Line.transactions ends
    rw [Table.players, split, List.map_append, List.map_cons, ← same] at unfolds
    rw [Table.players, replaced, List.map_append, List.map_cons, log]
    have keeps := move.turn_keeps (all_unfold valid gen (front.map (·.player)) (back.map (·.player)))
    exact (keeps player line.transactions unfolds).take (delivers player found)
  | @foreign _ tx outside same appended =>
    have grows : rules.Grows before.log (before.log ++ [tx]) := grows_foreign outside
    rw [Table.players, same, appended]
    refine ⟨(kept_views valid).foreign _ _ _ outside unfolds.held, unfolds.sole, ?_, fun p member => ?_⟩
    · refine unfolds.scripted.grow valid unfolds.held.1.1.ordered grows fun step _ tx member => .inl ?_
      rwa [Log.filed_append_of_ne (outside step)] at member
    · exact (unfolds.on p member).grows valid (unfolds.held.1.2 p member) grows rfl rfl rfl

theorem Played.unfolds (valid : rules.config.Valid) {table : Table γ} (played : rules.Played gen table) :
    rules.Unfolds gen table.players table.log := by
  obtain ⟨start, untouched, steps⟩ := played
  suffices unfolds : rules.Unfolds gen table.players table.log ∧ table.Named from unfolds.1
  induction steps with
  | refl =>
    obtain ⟨held, named⟩ := (kept_views (γ := γ) valid).untouched untouched
    have nobody : start.players = [] := by rw [Table.players, untouched.nobody, List.map_nil]
    refine ⟨⟨held, by simp [nobody], fun step tx member => ?_, by simp [nobody]⟩, named⟩
    rw [untouched.unfiled] at member
    cases member
  | tail _ step ih => exact ih.1.proceeds valid step ih.2

/-! ## Two runs -/

omit [RandomSource γ] in
/-- Ledgers on which the same players have joined first seat the same. -/
theorem seats_of_newcomers (valid : rules.config.Valid) {log log' : Log}
    (joined : (rules.newcomers log).take (rules.config.minPlayers - 1) =
      (rules.newcomers log').take (rules.config.minPlayers - 1)) : rules.seats log = rules.seats log' := by
  have limit : max rules.config.minPlayers 1 = rules.config.minPlayers - 1 + 1 := by
    have := valid.two_le
    omega
  rw [seats_eq, seats_eq, limit, List.take_succ_cons, List.take_succ_cons, joined]

theorem Scripted.payload_eq {log log' : Log} (scripted : rules.Scripted gen log)
    (scripted' : rules.Scripted gen log') (seats : rules.seats log = rules.seats log')
    {step : Step} (inGame : step ≠ .join) {tx tx' : Transaction}
    (filed : tx ∈ log.filed (rules.category step)) (filed' : tx' ∈ log'.filed (rules.category step))
    (sender : tx.sender = tx'.sender) : tx.payload = tx'.payload := by
  have said := scripted step tx filed
  have said' := scripted' step tx' filed'
  rw [dealerAt, seats, sender] at said
  exact said.unique inGame said'

theorem Scripted.hand_eq {log log' : Log} (scripted : rules.Scripted gen log)
    (scripted' : rules.Scripted gen log') (seats : rules.seats log = rules.seats log')
    {a : Address} {hand hand' : List Scalar}
    (dealt : rules.Dealt log a hand) (dealt' : rules.Dealt log' a hand') : hand = hand' := by
  obtain ⟨decryptor, deck, next, ⟨payload, found, read⟩, cut⟩ := dealt
  obtain ⟨decryptor', deck', next', ⟨payload', found', read'⟩, cut'⟩ := dealt'
  rw [dealerAt, seats] at next cut
  obtain rfl : decryptor = decryptor' := Option.some.inj (next.symm.trans next')
  obtain ⟨tx, filed, sender, rfl⟩ := Log.exists_of_payload? found
  obtain ⟨tx', filed', sender', rfl⟩ := Log.exists_of_payload? found'
  have same := scripted.payload_eq scripted' seats (by decide) filed filed' (sender.trans sender'.symm)
  rw [same] at read
  cases read.symm.trans read'
  exact Option.some.inj (cut.symm.trans cut')

end

/-- Two runs of one game with the same sources, in which the same players join first and in the same order,
agree on every key, every deck and every hand that both of them have. A draw at the limit
`RandomSource.maxAttempts` is as much the source's as any other. -/
theorem deal_independent_of_schedule {rules : Rules} (valid : rules.config.Valid) {gen : Address → γ}
    {table table' : Table γ} (played : rules.Played gen table) (played' : rules.Played gen table')
    (joined : (rules.newcomers table.log).take (rules.config.minPlayers - 1) =
      (rules.newcomers table'.log).take (rules.config.minPlayers - 1)) :
    (∀ step, step ≠ .join → ∀ tx ∈ table.log.filed (rules.category step),
      ∀ tx' ∈ table'.log.filed (rules.category step), tx.sender = tx'.sender → tx.payload = tx'.payload) ∧
    ∀ p ∈ table.players, ∀ p' ∈ table'.players, p.address = p'.address →
      p.session.hand ≠ [] → p'.session.hand ≠ [] → p.session.hand = p'.session.hand := by
  have unfolds := played.unfolds valid
  have unfolds' := played'.unfolds valid
  have seats := seats_of_newcomers valid joined
  refine ⟨fun step inGame tx filed tx' filed' => ?_, fun p member p' member' same some some' => ?_⟩
  · exact unfolds.scripted.payload_eq unfolds'.scripted seats inGame filed filed'
  have dealt {table : Table γ} (unfolds : rules.Unfolds gen table.players table.log) {p : Player γ}
      (member : p ∈ table.players) (some : p.session.hand ≠ []) :
      rules.Dealt table.log p.address p.session.hand := by
    have alone : Alone table.players p.address :=
      List.count_eq_one_of_mem unfolds.sole (List.mem_map_of_mem member)
    exact (unfolds.held.2.viewed p member).dealt valid (unfolds.held.1.2 p member) some (.inr alone)
  exact unfolds.scripted.hand_eq unfolds'.scripted seats (dealt unfolds member some)
    (same ▸ dealt unfolds' member' some')

/-! ## Two short runs -/

/-- A line that fails no request delivers, whichever replies it loses. -/
theorem heeds_of_passes {α : Type} (d : Dialogue α) {line : Line} (passes : ∀ e, Fate.fails e ∉ line.script)
    (ready : line.journal.failures = 0) : d.Heeds Manner.delivered Line.answer Line.transactions line := by
  refine Dialogue.heeds_of_forall
    (I := fun line : Line => (∀ e, Fate.fails e ∉ line.script) ∧ line.journal.failures = 0) ?_ d ⟨passes, ready⟩
  rintro request ⟨⟨transactions, failures, lost⟩, script, log⟩ ⟨passes, rfl⟩
  have rest : ∀ e, Fate.fails e ∉ script.tail := fun e member => passes e (List.mem_of_mem_tail member)
  cases fate : script.head?.getD .passes with
  | fails e =>
    cases script with
    | nil => cases fate
    | cons first script => exact absurd (fate ▸ List.mem_cons_self) (passes e)
  | _ =>
    simp only [Line.answer, fate]
    cases request with
    | publish => cases lost <;> exact ⟨⟨rest, rfl⟩, rfl⟩
    | latestBySender => exact ⟨⟨rest, rfl⟩, rfl, fun _ h => (Except.ok.inj h).symm⟩
    | sendersTo => exact ⟨⟨rest, rfl⟩, rfl, fun _ h => (Except.ok.inj h).symm⟩

/-- Lets participants move one after another, each over a line of its own. -/
def playsOver : List (String × Move × List Fate) → Table γ → Table γ
  | [], table => table
  | (id, move, script) :: moves, table =>
    let line := ⟨⟨table.log, 0, 0⟩, script, []⟩
    playsOver moves (((Table.move? ⟨line, table.participants⟩ id move).map (·.2)).getD table)

theorem Played.playsOver {rules : Rules} {gen : Address → γ} (moves : List (String × Move × List Fate))
    (passes : ∀ turn ∈ moves, ∀ e, Fate.fails e ∉ turn.2.2) : ∀ {table : Table γ}, rules.Played gen table →
      rules.Played gen (Rules.playsOver moves table) := by
  induction moves with
  | nil => exact fun played => played
  | cons first moves ih =>
    intro table played
    obtain ⟨id, move, script⟩ := first
    refine ih (fun turn member => passes turn (List.mem_cons_of_mem _ member)) ?_
    let line : Line := ⟨⟨table.log, 0, 0⟩, script, []⟩
    cases moved : Table.move? ⟨line, table.participants⟩ id move with
    | none => exact played
    | some moving =>
      obtain ⟨start, untouched, steps⟩ := played
      refine ⟨start, untouched, steps.tail (.moves line rfl (fun player _ => ?_) moved)⟩
      exact heeds_of_passes _ (passes _ List.mem_cons_self) rfl

/-- Each player draws from a source of its own. -/
def sourceOf (a : Address) : Seeded id := ⟨a.name.toList.map (·.toNat.toUInt8), 0⟩

/-- A game for two of which nothing has happened but that both are there. -/
def bothThere : Table (Seeded id) :=
  let player (name : String) := Player.new forTwo.config ⟨⟨name⟩, []⟩ forTwo.game forTwo.creator (sourceOf ⟨name⟩)
  (Table.empty.place ⟨"a", player "alice"⟩).place ⟨"b", player "bob"⟩

theorem played_bothThere : forTwo.Played sourceOf bothThere := by
  refine ⟨.empty, ⟨rfl, fun _ => rfl⟩, .tail (.single (.arrives rfl (.plays ⟨⟨"alice"⟩, []⟩ _) rfl ?_))
    (.arrives (by decide +kernel) (.plays ⟨⟨"bob"⟩, []⟩ _) rfl ?_)⟩
  · exact List.not_mem_nil
  · decide +kernel

/-- The creator announces its key first. -/
def creatorFirst : Table (Seeded id) := playsOver [("b", .join, []), ("b", .refreshPlayers, []),
  ("a", .refreshPlayers, []), ("a", .exchangeKeys, []), ("b", .exchangeKeys, [])] bothThere

/-- The other one announces its key first, and never hears that it did. -/
def creatorLast : Table (Seeded id) := playsOver [("b", .join, []), ("b", .refreshPlayers, []),
  ("b", .exchangeKeys, [.passes, .losesReply]), ("a", .refreshPlayers, []), ("a", .exchangeKeys, [])] bothThere

theorem deal_independent_of_schedule_two :
    creatorFirst.log.senders (forTwo.category .publicKey) = [⟨"alice"⟩, ⟨"bob"⟩] ∧
    creatorLast.log.senders (forTwo.category .publicKey) = [⟨"bob"⟩, ⟨"alice"⟩] ∧
    (creatorLast.players.map (·.keys.isSome)) = [true, false] ∧
    ∀ tx ∈ creatorFirst.log.filed (forTwo.category .publicKey),
      ∀ tx' ∈ creatorLast.log.filed (forTwo.category .publicKey),
        tx.sender = tx'.sender → tx.payload = tx'.payload := by
  have valid : forTwo.config.Valid := rfl
  have first : forTwo.Played sourceOf creatorFirst := played_bothThere.playsOver _ (by simp)
  have last : forTwo.Played sourceOf creatorLast := played_bothThere.playsOver _ (by simp)
  have announced : forTwo.newcomers creatorFirst.log = [⟨"bob"⟩] ∧
      creatorFirst.log.senders (forTwo.category .publicKey) = [⟨"alice"⟩, ⟨"bob"⟩] := by decide +kernel
  have announced' : forTwo.newcomers creatorLast.log = [⟨"bob"⟩] ∧
      creatorLast.log.senders (forTwo.category .publicKey) = [⟨"bob"⟩, ⟨"alice"⟩] ∧
      (creatorLast.players.map (·.keys.isSome)) = [true, false] := by decide +kernel
  have agree := deal_independent_of_schedule valid first last (by rw [announced.1, announced'.1])
  exact ⟨announced.2, announced'.2.1, announced'.2.2, agree.1 .publicKey (by decide)⟩

end Rules

end MentalPoker
