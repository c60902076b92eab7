/-
Who sees whom at the table. Others write at any time and requests fail; whatever a player sees of the
seats is what the ledger said when it last refreshed them, and that is one formula of the ledger. So two
views of the same table are the beginning of one another, whatever the limits of their seats, and two
that are full with the same limit are the same.
-/
import MentalPoker.Proofs.Play.Completion
import MentalPoker.Proofs.Play.Once
import MentalPoker.Proofs.Player.Frame

namespace MentalPoker

/-! ## A ledger that is watched -/

/-- A line that others use, and what the ledger was when it last told who had joined. -/
structure Watch where
  crowd : Crowd
  seen : Log

namespace Watch

def log (watch : Watch) : Log := watch.crowd.log

/-- Lets the others append, answers, and notes the ledger if the answer tells who has joined. -/
def answer (request : Request) (watch : Watch) : request.Answer × Watch :=
  let (a, crowd) := watch.crowd.answer request
  let seen := match request, a with
    | .sendersTo .., .ok _ => crowd.log
    | _, _ => watch.seen
  (a, ⟨crowd, seen⟩)

end Watch

/-- A player, the ledger it follows, and what that was when the player last refreshed its seats. -/
structure Follower (γ : Type) where
  player : Player γ
  log : Log
  seen : Log

/-- The player moves while others write, or the others write between two moves. -/
inductive Follows {γ : Type} [RandomSource γ] : Follower γ → Follower γ → Prop
  | moves {player : Player γ} (move : Move) (watch : Watch) :
      Follows ⟨player, watch.log, watch.seen⟩
        ⟨(move.turn.take Watch.answer player watch).2.1, (move.turn.take Watch.answer player watch).2.2.log,
          (move.turn.take Watch.answer player watch).2.2.seen⟩
  | others {player : Player γ} {log seen : Log} (more : Log) :
      Follows ⟨player, log, seen⟩ ⟨player, log ++ more, seen⟩

namespace Rules

variable {γ : Type} (rules : Rules)

/-- A player that has followed a ledger since its process started, and had not seen anything then. -/
def Followed [RandomSource γ] (follower : Follower γ) : Prop :=
  ∃ player log, rules.Fresh player ∧ Relation.ReflTransGen Follows ⟨player, log, []⟩ follower

/-- Those who joined the creator's game, in the order in which they first did. -/
def newcomers (log : Log) : List Address :=
  ((log.filter fun tx => tx.category = rules.category .join ∧ rules.creator ∈ tx.recipients).map
    (·.sender)).eraseDups.filter (· ≠ rules.creator)

theorem newcomers_eq (log : Log) : rules.newcomers log =
    (log.sendersTo (rules.category .join) rules.creator).filter (· ≠ rules.creator) := by
  rw [newcomers, Log.sendersTo, Log.filed, Log.distinct_eq_eraseDups, List.filter_filter]
  simp only [Bool.and_comm, Bool.decide_and]

theorem seats_eq (log : Log) :
    rules.seats log = (rules.creator :: rules.newcomers log).take (max rules.config.minPlayers 1) := by
  rw [newcomers_eq]
  rfl

/-- Whoever comes later comes after those who have come. -/
theorem newcomers_mono {log later : Log} (more : log <+: later) :
    rules.newcomers log <+: rules.newcomers later := by
  obtain ⟨rest, rfl⟩ := more
  rw [newcomers_eq, newcomers_eq]
  exact (Log.sendersTo_prefix_append _ _ log rest).filter _

end Rules

/-! ## What is seen -/

/-- A ledger, and what it was when the seats were last refreshed. -/
structure Sight where
  log : Log
  seen : Log

/-- The ledger only grows, and it is noted when it tells who has joined. -/
def Sight.manner : Manner Sight := fun sight request answer after =>
  sight.log <+: after.log ∧ match request, answer with
    | .sendersTo category recipient, .ok joined =>
      joined = Log.sendersTo category recipient after.log ∧ after.seen = after.log
    | _, _ => after.seen = sight.seen

def Watch.sight (watch : Watch) : Sight := ⟨watch.log, watch.seen⟩

theorem Watch.answer_manner (request : Request) (watch : Watch) :
    Sight.manner watch.sight request (watch.answer request).1 (watch.answer request).2.sight := by
  obtain ⟨⟨line, batches⟩, seen⟩ := watch
  have exchange := Line.answer_exchange request
    { line with journal := { line.journal with
        transactions := line.transactions ++ batches.head?.getD [] } }
  have more : line.transactions <+: line.transactions ++ batches.head?.getD [] := List.prefix_append _ _
  simp only [answer, Crowd.answer, sight, log, Crowd.log]
  generalize Line.answer request _ = answered at exchange ⊢
  obtain ⟨answer, after⟩ := answered
  cases request with
  | publish signer category recipients payload =>
    refine ⟨?_, rfl⟩
    rcases exchange with ⟨appended, -⟩ | ⟨-, same, -⟩
    · exact appended ▸ more.trans (List.prefix_append _ _)
    · exact same ▸ more
  | latestBySender category sender => exact ⟨exchange.1 ▸ more, rfl⟩
  | sendersTo category recipient =>
    obtain ⟨same, told⟩ := exchange
    refine ⟨same ▸ more, ?_⟩
    rcases told with rfl | ⟨-, e, rfl⟩
    · exact ⟨by rw [same], rfl⟩
    · rfl

theorem Watch.heeds {α : Type} (d : Dialogue α) (watch : Watch) :
    d.Heeds Sight.manner Watch.answer Watch.sight watch :=
  Dialogue.heeds_of_forall (I := fun _ => True)
    (fun request watch _ => ⟨trivial, watch.answer_manner request⟩) d trivial

namespace Rules

section

variable {γ α : Type} (rules : Rules)

/-- The player sees the seats as they were on the ledger. -/
structure Sits (player : Player γ) (seen : Log) : Prop where
  told : rules.Told player
  players : player.session.players = rules.seats seen
  dealer : player.session.dealer = rules.dealerAt seen

/-- The player sees the seats as they were when it last refreshed them. -/
def SeesSeats (player : Player γ) (sight : Sight) : Prop :=
  rules.Sits player sight.seen ∧ sight.seen <+: sight.log

variable {rules} {player next : Player γ} {seen log : Log}

theorem Fresh.sits (fresh : rules.Fresh player) : rules.Sits player [] := by
  obtain ⟨players, dealer, -⟩ := fresh.blank
  have alone : rules.seats [] = [rules.creator] := by
    obtain ⟨free, limit⟩ := Nat.exists_eq_add_of_le' (Nat.le_max_right rules.config.minPlayers 1)
    rw [seats_eq, limit, List.take_succ_cons]
    simp [newcomers]
  refine ⟨fresh.told, players.trans alone.symm, ?_⟩
  rw [dealer, dealerAt, alone, dealerOf_singleton]

/-- A full table is as long as its limit. -/
theorem Sits.length_of_full {player : Player γ} {seen : Log} (sits : rules.Sits player seen)
    (full : player.session.isFull = true) :
    player.session.players.length = max rules.config.minPlayers 1 := by
  have least : max rules.config.minPlayers 1 ≤ player.session.players.length := by
    simpa [Session.isFull, sits.told.limit] using full
  refine Nat.le_antisymm ?_ least
  rw [sits.players, seats_eq]
  exact List.length_take_le _ _

/-- What a player sees when it refreshes its seats is the table. -/
theorem Sits.refreshed (sits : rules.Sits player seen) (more : seen <+: log) :
    rules.Sits (player.seated (log.sendersTo (player.category .join) player.session.creator)) log := by
  have same := player.seated_same (log.sendersTo (player.category .join) player.session.creator)
  refine ⟨sits.told.of_same same, ?_, ?_⟩
  all_goals
    rw [sits.told.category, sits.told.creator, sits.told.seated (sits.players ▸ creator_prefix_seats seen)
      (sits.players ▸ seats_grow more) (by rw [sits.dealer, sits.players, dealerAt])]

/-- A turn that does not ask who has joined notes nothing. -/
theorem yields_seen {turn : Turn γ α} {R : Request → Prop} {C : Player γ → Prop} {player : Player γ}
    (within : turn.Within R C player) (kinds : ∀ category recipient, ¬ R (.sendersTo category recipient))
    (sight : Sight) : turn.Yields Sight.manner
      (fun _ next after => C next ∧ after.seen = sight.seen ∧ sight.log <+: after.log) player sight := by
  refine within.yields (S := fun sight after => after.seen = sight.seen ∧ sight.log <+: after.log)
    (fun _ => ⟨rfl, List.prefix_rfl⟩) ?_ ?_ sight
  · rintro _ _ _ ⟨first, more⟩ ⟨second, more'⟩
    exact ⟨second.trans first, more.trans more'⟩
  · rintro sight request answer after kind ⟨more, noted⟩
    refine ⟨?_, more⟩
    cases request with
    | publish => exact noted
    | latestBySender => exact noted
    | sendersTo => exact absurd kind (kinds _ _)

/-- A turn that neither asks who has joined nor touches the seats leaves them as they were seen. -/
theorem seesSeats_of_within {turn : Turn γ α} {R : Player γ → Request → Prop} {C : Player γ → Player γ → Prop}
    (within : ∀ player, turn.Within (R player) (C player) player)
    (kinds : ∀ player category recipient, ¬ R player (.sendersTo category recipient))
    (changes : ∀ {player next}, C player next → player.Same next ∧
      next.session.players = player.session.players ∧ next.session.dealer = player.session.dealer) :
    turn.Keeps Sight.manner rules.SeesSeats := by
  rintro player sight ⟨sits, early⟩
  refine (yields_seen (within player) (kinds player) sight).mono ?_
  rintro _ next after ⟨change, same, more⟩
  obtain ⟨given, players, dealer⟩ := changes change
  refine ⟨?_, same.symm ▸ early.trans more⟩
  rw [same]
  exact ⟨sits.told.of_same given, players.trans sits.players, dealer.trans sits.dealer⟩

end

/-! ## Turns -/

section

variable {γ : Type} {rules : Rules}

theorem refreshPlayers_seesSeats :
    (Turn.refreshPlayers : Turn γ Outcome).Keeps Sight.manner rules.SeesSeats := by
  rintro player sight ⟨sits, early⟩
  simp only [Turn.refreshPlayers, Turn.yields_bind, Turn.yields_get, Turn.yields_askSenders, Turn.yields_set,
    Turn.yields_pure]
  rintro (e | joined) after ⟨more, noted⟩
  · exact ⟨noted.symm ▸ sits, noted.symm ▸ early.trans more⟩
  · obtain ⟨rfl, noted⟩ := noted
    refine ⟨?_, noted.symm ▸ List.prefix_rfl⟩
    rw [noted]
    exact sits.refreshed (early.trans more)

theorem refreshEncryption_seesSeats :
    (Turn.refreshEncryption : Turn γ Outcome).Keeps Sight.manner rules.SeesSeats := by
  refine seesSeats_of_within Turn.refreshEncryption_within (fun _ _ _ => id) ?_
  rintro player _ ⟨finishedDeck, rfl⟩
  exact ⟨⟨rfl, rfl, rfl, rfl, rfl, rfl, rfl⟩, rfl, rfl⟩

theorem updateSession_seesSeats :
    (Turn.updateSession : Turn γ Outcome).Keeps Sight.manner rules.SeesSeats := by
  refine refreshPlayers_seesSeats.bind fun _ player sight sees => ?_
  simp only [Turn.yields_bind, Turn.yields_get]
  split
  · exact (Turn.yields_pure ..).2 sees
  refine (refreshEncryption_seesSeats player sight sees).bind (fun _ _ _ h => h) ?_
  rintro _ next after ⟨sits, early⟩
  simp only [Turn.yields_bind, Turn.yields_get]
  split
  · exact (Turn.yields_pure ..).2 ⟨sits, early⟩
  · simp only [Turn.yields_bind, Turn.yields_set, Turn.yields_pure]
    exact ⟨⟨sits.told.of_same ⟨rfl, rfl, rfl, rfl, rfl, rfl, rfl⟩, sits.players, sits.dealer⟩, early⟩

/-- Whatever turn a player takes, it sees the seats as they were when it last refreshed them. -/
theorem all_seeSeats [RandomSource γ] : Turn.AllKeep Sight.manner (rules.SeesSeats (γ := γ)) := by
  have unchanged {player next : Player γ} (h : next = player) : player.Same next ∧
      next.session.players = player.session.players ∧ next.session.dealer = player.session.dealer := by
    subst h
    exact ⟨.refl next, rfl, rfl⟩
  refine ⟨seesSeats_of_within Turn.join_within (fun _ _ _ => id) unchanged, refreshPlayers_seesSeats,
    seesSeats_of_within Turn.exchangeKeys_within (fun _ _ _ => id) ?_,
    seesSeats_of_within Turn.shuffle_within (fun _ _ _ => id) ?_, refreshEncryption_seesSeats,
    seesSeats_of_within Turn.decrypt_within (fun _ _ _ => id) ?_,
    seesSeats_of_within Turn.deal_within (fun _ _ _ => id) ?_, updateSession_seesSeats⟩
  · rintro player _ ⟨keys, ring, source, rfl⟩
    exact ⟨⟨rfl, rfl, rfl, rfl, rfl, rfl, rfl⟩, rfl, rfl⟩
  · rintro player _ ⟨source, rfl⟩
    exact ⟨⟨rfl, rfl, rfl, rfl, rfl, rfl, rfl⟩, rfl, rfl⟩
  · rintro player _ ⟨finishedDeck, rfl⟩
    exact ⟨⟨rfl, rfl, rfl, rfl, rfl, rfl, rfl⟩, rfl, rfl⟩
  · rintro player _ ⟨hand, rfl⟩
    exact ⟨⟨rfl, rfl, rfl, rfl, rfl, rfl, rfl⟩, rfl, rfl⟩

/-! ## What a turn notes -/

end

end Rules

section

variable {γ : Type}

/-- What is noted as seen while a player takes a turn. A turn at everything brings the session up to date twice. -/
structure Watch.Notes [RandomSource γ] (watch : Watch) (player : Player γ) : Prop where
  /-- A refresh of the seats that succeeds has seen the ledger as it is. -/
  refreshed : (Turn.refreshPlayers.take Watch.answer player watch).1.isOk = true →
    (Turn.refreshPlayers.take Watch.answer player watch).2.2.seen =
      (Turn.refreshPlayers.take Watch.answer player watch).2.2.log
  /-- One that fails has seen nothing. -/
  failed : (Turn.refreshPlayers.take Watch.answer player watch).1.isOk = false →
    (Turn.refreshPlayers.take Watch.answer player watch).2.2.seen = watch.seen
  /-- Who brings its session up to date has seen what it sees when it refreshes its seats. -/
  updated : (Turn.updateSession.take Watch.answer player watch).2.2.seen =
    (Turn.refreshPlayers.take Watch.answer player watch).2.2.seen
  /-- No other turn looks who has joined. -/
  elsewhere : ∀ move : Move, move ≠ .refreshPlayers → move ≠ .updateSession → move ≠ .everything →
    (move.turn.take Watch.answer player watch).2.2.seen = watch.seen

theorem Turn.refreshPlayers_notes (player : Player γ) (sight : Sight) :
    (Turn.refreshPlayers : Turn γ Outcome).Yields Sight.manner (fun result _ after =>
      (result.isOk = true → after.seen = after.log) ∧ (result.isOk = false → after.seen = sight.seen))
      player sight := by
  simp only [Turn.refreshPlayers, Turn.yields_bind, Turn.yields_get, Turn.yields_askSenders, Turn.yields_set,
    Turn.yields_pure]
  rintro (e | joined) after ⟨-, noted⟩
  · exact ⟨fun is => (by cases is), fun _ => noted⟩
  · exact ⟨fun _ => noted.2, fun is => (by cases is)⟩

theorem Watch.seen_updateSession (watch : Watch) (player : Player γ) :
    (Turn.updateSession.take Watch.answer player watch).2.2.seen =
      (Turn.refreshPlayers.take Watch.answer player watch).2.2.seen := by
  rw [Turn.updateSession, Turn.take_bind]
  rcases Turn.refreshPlayers.take Watch.answer player watch with ⟨e | outcome, next, after⟩
  · rfl
  -- nothing that follows the refresh looks who has joined
  refine Turn.Yields.take (Q := fun _ _ later => later.seen = after.sight.seen) (after.heeds _) ?_
  simp only [Turn.yields_bind, Turn.yields_get]
  split
  · simp
  refine (Rules.yields_seen (Turn.refreshEncryption_within next) (fun _ _ => id) after.sight).bind
    (fun _ _ _ h => h.2.1) ?_
  rintro _ _ _ ⟨-, same, -⟩
  simp only [Turn.yields_bind, Turn.yields_get]
  split
  · simpa using same
  · simpa using same

theorem Watch.notes [RandomSource γ] (watch : Watch) (player : Player γ) : watch.Notes player := by
  have refreshed := (Turn.refreshPlayers_notes player watch.sight).take (watch.heeds _)
  refine ⟨refreshed.1, refreshed.2, watch.seen_updateSession player, fun move first second third => ?_⟩
  have still {turn : Turn γ Outcome} {R : Request → Prop} {C : Player γ → Prop} (within : turn.Within R C player)
      (kinds : ∀ category recipient, ¬ R (.sendersTo category recipient)) :
      ((Report.outcome <$> turn).take Watch.answer player watch).2.2.seen = watch.seen := by
    rw [Turn.take_map]
    exact ((Rules.yields_seen within kinds watch.sight).take (watch.heeds _)).2.1
  cases move with
  | join => exact still (Turn.join_within player) fun _ _ => id
  | exchangeKeys => exact still (Turn.exchangeKeys_within player) fun _ _ => id
  | shuffle => exact still (Turn.shuffle_within player) fun _ _ => id
  | refreshEncryption => exact still (Turn.refreshEncryption_within player) fun _ _ => id
  | decrypt => exact still (Turn.decrypt_within player) fun _ _ => id
  | deal => exact still (Turn.deal_within player) fun _ _ => id
  | refreshPlayers => exact absurd rfl first
  | updateSession => exact absurd rfl second
  | everything => exact absurd rfl third

end

namespace Rules

section

variable {γ : Type} {rules : Rules}

/-! ## Runs -/

theorem Followed.sits [RandomSource γ] {follower : Follower γ} (followed : rules.Followed follower) :
    rules.Sits follower.player follower.seen ∧ follower.seen <+: follower.log := by
  obtain ⟨player, log, fresh, followed⟩ := followed
  induction followed with
  | refl => exact ⟨fresh.sits, List.nil_prefix⟩
  | tail _ step ih =>
    cases step with
    | moves move watch =>
      have yields := move.turn_keeps all_seeSeats _ watch.sight ih
      exact yields.take (watch.heeds _)
    | others more => exact ⟨ih.1, ih.2.trans (List.prefix_append _ _)⟩

end

/-- Players with the same creator and the same category for joining, that follow one ledger, agree on the
seats: each sees the first of the creator and of those who had joined when it last refreshed its seats, by itself or
while it brought its session up to date. -/
theorem seating_agreement {γ γ' : Type} [RandomSource γ] [RandomSource γ'] {rules rules' : Rules}
    (creator : rules'.creator = rules.creator) (category : rules'.category .join = rules.category .join)
    {f : Follower γ} {f' : Follower γ'} (first : rules.Followed f) (second : rules'.Followed f')
    {history : Log} (part : f.log <+: history) (part' : f'.log <+: history) :
    (f.seen <+: f.log ∧ f.player.session.players =
      (rules.creator :: rules.newcomers f.seen).take (max rules.config.minPlayers 1) ∧
      ∀ watch : Watch, watch.Notes f.player) ∧
    (f.player.session.players <+: f'.player.session.players ∨
      f'.player.session.players <+: f.player.session.players) ∧
    (rules'.config.minPlayers = rules.config.minPlayers →
      f.player.session.isFull = true → f'.player.session.isFull = true →
        f'.player.session.players = f.player.session.players ∧
          (rules'.dealer = rules.dealer → f'.player.session.dealer = f.player.session.dealer)) := by
  obtain ⟨sits, early⟩ := first.sits
  obtain ⟨sits', early'⟩ := second.sits
  have mine : f.player.session.players <+: rules.creator :: rules.newcomers history := by
    rw [sits.players, seats_eq]
    exact (List.take_prefix _ _).trans
      (List.cons_prefix_cons.2 ⟨rfl, rules.newcomers_mono (early.trans part)⟩)
  have yours : f'.player.session.players <+: rules.creator :: rules.newcomers history := by
    have same : rules'.newcomers history = rules.newcomers history := by
      rw [newcomers, newcomers, creator, category]
    rw [sits'.players, seats_eq, ← same, ← creator]
    exact (List.take_prefix _ _).trans
      (List.cons_prefix_cons.2 ⟨rfl, rules'.newcomers_mono (early'.trans part')⟩)
  refine ⟨⟨early, by rw [sits.players, seats_eq], fun watch => watch.notes _⟩,
    List.prefix_or_prefix_of_prefix mine yours, ?_⟩
  intro limit full full'
  have players : f'.player.session.players = f.player.session.players := by
    have length := sits.length_of_full full
    have length' := sits'.length_of_full full'
    rw [limit, ← length] at length'
    exact (List.prefix_of_prefix_length_le yours mine length'.le).eq_of_length length'
  refine ⟨players, fun wish => ?_⟩
  rw [sits.dealer, sits'.dealer, dealerAt, dealerAt, ← sits.players, ← sits'.players, players, wish, creator]

/-- A ledger on which two have joined, with nothing seen of it yet. -/
def twoJoined : Watch :=
  let joins (name : String) := Log.filing [] ⟨⟨name⟩, []⟩ (forThree.category .join) [forThree.creator] []
  ⟨⟨⟨⟨[joins "bob", joins "carol"], 0, 0⟩, [], []⟩, []⟩, []⟩

/-- Somebody who looks on and refreshes its seats on that ledger. -/
def onlooker (rules : Rules) : Follower (Seeded id) :=
  let player := rules.told (.observer rules.config ⟨"dora"⟩ rules.game rules.creator ⟨[], 0⟩)
  let (_, player, watch) := (Move.refreshPlayers.turn).take Watch.answer player twoJoined
  ⟨player, watch.log, watch.seen⟩

theorem followed_onlooker (rules : Rules) : rules.Followed rules.onlooker :=
  ⟨_, _, .observes ⟨"dora"⟩ ⟨[], 0⟩, .single (.moves .refreshPlayers twoJoined)⟩

/-- Tables of two and of three on one ledger. -/
theorem seating_agreement_two : forTwo.onlooker.player.session.players = [⟨"alice"⟩, ⟨"bob"⟩] ∧
    forThree.onlooker.player.session.players = [⟨"alice"⟩, ⟨"bob"⟩, ⟨"carol"⟩] ∧
    (forTwo.onlooker.player.session.players <+: forThree.onlooker.player.session.players ∨
      forThree.onlooker.player.session.players <+: forTwo.onlooker.player.session.players) := by
  have creator : forThree.creator = forTwo.creator := rfl
  have category : forThree.category .join = forTwo.category .join := rfl
  have same : forThree.onlooker.log <+: forTwo.onlooker.log := by decide +kernel
  have agree := seating_agreement creator category (followed_onlooker forTwo) (followed_onlooker forThree)
    List.prefix_rfl same
  exact ⟨by decide +kernel, by decide +kernel, agree.2.1⟩

end Rules

end MentalPoker
