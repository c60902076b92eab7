/-
A session however it is used. Five things are done to one, in any order and with any arguments. Each of
them leaves the creator in the first seat, nobody in two of them and the dealer in one, and none takes
back a seat, a phase or a hand. Only a limit decides how many more are seated: between two limits nothing
matters but who joined, in which order, and neither the portions they are seated in nor what else is done.
-/
import MentalPoker.Proofs.Game.Seating

namespace MentalPoker

/-- The later one of two phases is no earlier than the first. -/
theorem Phase.position_le_later_left (a b : Phase) : a.position ≤ (a.later b).position := by
  unfold later
  split <;> omega

namespace Session

/-! ## Uses -/

/-- What is done to a session. -/
inductive Use where
  | limit (seats : Nat)
  | seat (joined : List Address)
  | dealer (dealer : Address)
  | hand (hand : List Scalar)
  | observe (progress : Progress) (minPlayers : Nat)

/-- Those whom a use is to seat. -/
def Use.joined : Use → List Address
  | seat joined => joined
  | _ => []

/-- The session after a use. A dealer who is refused leaves it as it is. -/
def used (session : Session) : Use → Session
  | .limit seats => session.withSeats seats
  | .seat joined => session.seatAll joined
  | .dealer dealer => (session.setDealer dealer).toOption.getD session
  | .hand hand => (session.setHand hand).2
  | .observe progress minPlayers => session.observe progress minPlayers

/-- The session after several uses, in order. -/
def after (session : Session) (uses : List Use) : Session := uses.foldl used session

/-- How many seats are taken when these are seated. -/
def added (session : Session) (joined : List Address) : Nat :=
  (session.seatAll joined).players.length - session.players.length

/-- How many seats are taken in several uses, counted use by use. -/
def addedAfter (session : Session) : List Use → Nat
  | [] => 0
  | use :: uses => session.added use.joined + (session.used use).addedAfter uses

/-- The creator has the first seat, nobody has two, and the dealer has one. -/
structure Orderly (session : Session) : Prop where
  first : session.players.head? = some session.creator
  once : session.players.Nodup
  dealing : session.dealer ∈ session.players

/-- A later session has the seats of an earlier one, in the same order, a phase that is no earlier, and the
hand if there was one. -/
structure Continues (session next : Session) : Prop where
  game : next.game = session.game
  creator : next.creator = session.creator
  players : session.players <+: next.players
  phase : session.phase.position ≤ next.phase.position
  hand : session.hand ≠ [] → next.hand = session.hand

theorem Continues.refl (session : Session) : session.Continues session :=
  ⟨rfl, rfl, List.prefix_rfl, le_rfl, fun _ => rfl⟩

theorem Continues.trans {first second third : Session} (early : first.Continues second)
    (late : second.Continues third) : first.Continues third where
  game := late.game.trans early.game
  creator := late.creator.trans early.creator
  players := early.players.trans late.players
  phase := early.phase.trans late.phase
  hand held := by
    have kept := early.hand held
    rw [late.hand (kept ▸ held), kept]

section

variable {session next : Session}

/-! ## What is refused -/

/-- Nobody deals without a seat. -/
theorem setDealer_eq_error_iff {dealer : Address} {reason : DealError} :
    session.setDealer dealer = .error reason ↔ dealer ∉ session.players ∧ reason = .notSeated dealer := by
  unfold setDealer isSeated
  by_cases seated : dealer ∈ session.players
  · simp [seated]
  · simp [seated, eq_comm]

theorem used_dealer_of_notMem {dealer : Address} (absent : dealer ∉ session.players) :
    session.used (.dealer dealer) = session := by
  have refused := setDealer_eq_error_iff.2 ⟨absent, rfl⟩
  rw [used, refused]
  rfl

theorem used_dealer_of_mem {dealer : Address} (seated : dealer ∈ session.players) :
    session.used (.dealer dealer) = { session with dealer } := by
  rw [used, setDealer, isSeated, if_pos (decide_eq_true seated)]
  rfl

/-- A hand is taken once, and an empty one never. -/
theorem setHand_eq_false_iff {hand : List Scalar} :
    (session.setHand hand).1 = false ↔ session.hand ≠ [] ∨ hand = [] := by
  unfold setHand
  split
  · exact iff_of_true rfl ‹_›
  · exact iff_of_false nofun ‹_›

theorem setHand_of_refused {hand : List Scalar} (refused : (session.setHand hand).1 = false) :
    (session.setHand hand).2 = session := by
  rw [setHand, if_pos (setHand_eq_false_iff.1 refused)]

/-! ## One use -/

/-- A use alters nothing, or one thing: the number of seats, the players by newcomers behind the others, the dealer
by a seated one, the hand where there was none, or the phase by a later one. -/
inductive Altered (session : Session) : Session → Prop
  | same : Altered session session
  | seats (seats : Option Nat) : Altered session { session with seats }
  | players (players : List Address) (more : session.players <+: players)
      (once : session.players.Nodup → players.Nodup) : Altered session { session with players }
  | dealer (dealer : Address) (seated : dealer ∈ session.players) : Altered session { session with dealer }
  | hand (hand : List Scalar) (empty : session.hand = []) : Altered session { session with hand }
  | phase (phase : Phase) (later : session.phase.position ≤ phase.position) : Altered session { session with phase }

theorem altered_used (session : Session) (use : Use) : session.Altered (session.used use) := by
  cases use with
  | limit => exact .seats _
  | seat joined =>
    obtain ⟨players, seated⟩ := session.seatAll_eq joined
    have more := session.seatAll_prefix joined
    have once (nodup : session.players.Nodup) := nodup_seatAll nodup joined
    show session.Altered (session.seatAll joined)
    rw [seated] at more once ⊢
    exact .players players more once
  | dealer dealer =>
    by_cases seated : dealer ∈ session.players
    · rw [used_dealer_of_mem seated]
      exact .dealer dealer seated
    · rw [used_dealer_of_notMem seated]
      exact .same
  | hand hand =>
    show session.Altered (session.setHand hand).2
    unfold setHand
    split
    · exact .same
    · rename_i taken
      rw [not_or, not_not] at taken
      exact .hand hand taken.1
  | observe => exact .phase _ (Phase.position_le_later_left _ _)

theorem Altered.orderly (altered : session.Altered next) (orderly : session.Orderly) : next.Orderly := by
  cases altered with
  | players players more once =>
    have first : players.head? = some session.creator := by
      obtain ⟨newcomers, rfl⟩ := more
      rw [List.head?_append, orderly.first, Option.some_or]
    exact ⟨first, once orderly.once, more.subset orderly.dealing⟩
  | dealer _ seated => exact ⟨orderly.first, orderly.once, seated⟩
  | _ => exact ⟨orderly.first, orderly.once, orderly.dealing⟩

theorem Altered.continues (altered : session.Altered next) : session.Continues next := by
  have same := Continues.refl session
  cases altered with
  | players _ more => exact ⟨rfl, rfl, more, same.phase, same.hand⟩
  | hand _ empty => exact ⟨rfl, rfl, same.players, same.phase, fun held => absurd empty held⟩
  | phase _ later => exact ⟨rfl, rfl, same.players, later, same.hand⟩
  | _ => exact ⟨rfl, rfl, same.players, same.phase, same.hand⟩

/-- Who is seated by a use other than a limit follows from who joined. -/
theorem players_used (session : Session) {use : Use} (unlimited : ∀ seats, use ≠ .limit seats) :
    (session.used use).players = (session.seatAll use.joined).players ∧ (session.used use).seats = session.seats := by
  cases use with
  | limit seats => exact absurd rfl (unlimited seats)
  | seat joined =>
    obtain ⟨players, seated⟩ := session.seatAll_eq joined
    refine ⟨rfl, ?_⟩
    show (session.seatAll joined).seats = session.seats
    rw [seated]
  | dealer dealer =>
    by_cases seated : dealer ∈ session.players
    · rw [used_dealer_of_mem seated]
      exact ⟨rfl, rfl⟩
    · rw [used_dealer_of_notMem seated]
      exact ⟨rfl, rfl⟩
  | hand hand =>
    show (session.setHand hand).2.players = session.players ∧ (session.setHand hand).2.seats = session.seats
    unfold setHand
    split <;> exact ⟨rfl, rfl⟩
  | observe => exact ⟨rfl, rfl⟩

theorem length_used (session : Session) (use : Use) :
    (session.used use).players.length = session.players.length + session.added use.joined := by
  have same : (session.used use).players = (session.seatAll use.joined).players := by
    cases use with
    | limit => rfl
    | seat | dealer | hand | observe => exact (players_used session (by simp)).1
  have grown := (session.seatAll_prefix use.joined).length_le
  rw [same, added]
  omega

/-! ## Many uses -/

theorem Orderly.after (orderly : session.Orderly) (uses : List Use) : (session.after uses).Orderly := by
  induction uses generalizing session with
  | nil => exact orderly
  | cons use uses ih => exact ih ((session.altered_used use).orderly orderly)

theorem continues_after (session : Session) (uses : List Use) : session.Continues (session.after uses) := by
  induction uses generalizing session with
  | nil => exact .refl session
  | cons use uses ih => exact (session.altered_used use).continues.trans (ih (session.used use))

theorem length_after (session : Session) (uses : List Use) :
    (session.after uses).players.length = session.players.length + session.addedAfter uses := by
  induction uses generalizing session with
  | nil => rfl
  | cons use uses ih =>
    rw [addedAfter, ← Nat.add_assoc, ← length_used]
    exact ih (session.used use)

/-- Who is seated depends on who sits already and on the limit, and on nothing else. -/
theorem players_seatAll_congr {other : Session} (players : other.players = session.players)
    (seats : other.seats = session.seats) (joined : List Address) :
    (other.seatAll joined).players = (session.seatAll joined).players := by
  induction joined generalizing session other with
  | nil => exact players
  | cons a joined ih =>
    have same : (other.seat a).players = (session.seat a).players ∧ (other.seat a).seats = (session.seat a).seats := by
      unfold seat isFull
      rw [players, seats]
      split
      · exact ⟨players, seats⟩
      · exact ⟨rfl, rfl⟩
    exact ih same.1 same.2

/-- Until the next limit it makes no difference in which portions those who joined are seated. -/
theorem players_after (session : Session) {uses : List Use} (unlimited : ∀ seats, Use.limit seats ∉ uses) :
    (session.after uses).players = (session.seatAll (uses.flatMap Use.joined)).players := by
  induction uses generalizing session with
  | nil => rfl
  | cons use uses ih =>
    have now : ∀ seats, use ≠ .limit seats := fun seats same => unlimited seats (same ▸ List.mem_cons_self)
    have rest : ∀ seats, Use.limit seats ∉ uses := fun seats later => unlimited seats (List.mem_cons_of_mem use later)
    obtain ⟨players, seats⟩ := players_used session now
    have limit : (session.seatAll use.joined).seats = session.seats := by
      obtain ⟨_, seated⟩ := session.seatAll_eq use.joined
      rw [seated]
    calc ((session.used use).after uses).players
        = ((session.used use).seatAll (uses.flatMap Use.joined)).players := ih _ rest
      _ = ((session.seatAll use.joined).seatAll (uses.flatMap Use.joined)).players :=
        players_seatAll_congr players (seats.trans limit.symm) _
      _ = (session.seatAll (use.joined ++ uses.flatMap Use.joined)).players := by
        rw [seatAll, seatAll, seatAll, List.foldl_append]

theorem addedAfter_eq (session : Session) {uses : List Use} (unlimited : ∀ seats, Use.limit seats ∉ uses) :
    session.addedAfter uses = session.added (uses.flatMap Use.joined) := by
  have counted := session.length_after uses
  rw [added, ← players_after session unlimited]
  omega

theorem orderly_start (game : GameId) (creator : Address) : (start game creator).Orderly :=
  ⟨rfl, List.nodup_singleton creator, List.mem_singleton_self creator⟩

/-- What a session makes of the uses that follow. -/
structure Keeps (session : Session) : Prop where
  continues : ∀ uses, session.Continues (session.after uses)
  /-- Somebody without a seat is refused as dealer, and nothing changes. -/
  refusesDealer : ∀ dealer reason,
    session.setDealer dealer = .error reason ↔ dealer ∉ session.players ∧ reason = .notSeated dealer
  keepsDealer : ∀ dealer reason, session.setDealer dealer = .error reason → session.used (.dealer dealer) = session
  /-- An empty hand is refused, and a second one, and nothing changes. -/
  refusesHand : ∀ hand, (session.setHand hand).1 = false ↔ session.hand ≠ [] ∨ hand = []
  keepsHand : ∀ hand, (session.setHand hand).1 = false → session.used (.hand hand) = session
  /-- Two portions are seated as one list is, and as many seats are taken. -/
  portions : ∀ joined more,
    ((session.seatAll joined).seatAll more).players = (session.seatAll (joined ++ more)).players ∧
    session.added joined + (session.seatAll joined).added more = session.added (joined ++ more)
  /-- So are any number of portions, whatever else is done in between. -/
  seats : ∀ uses, (∀ limit, Use.limit limit ∉ uses) →
    (session.after uses).players = (session.seatAll (uses.flatMap Use.joined)).players ∧
    session.addedAfter uses = session.added (uses.flatMap Use.joined)
  /-- At a full table nobody else is seated. -/
  settled : session.isFull = true → ∀ uses, (∀ limit, Use.limit limit ∉ uses) →
    (session.after uses).players = session.players

theorem keeps (session : Session) : session.Keeps where
  continues := session.continues_after
  refusesDealer _ _ := setDealer_eq_error_iff
  keepsDealer _ _ refused := used_dealer_of_notMem (setDealer_eq_error_iff.1 refused).1
  refusesHand _ := setHand_eq_false_iff
  keepsHand _ := setHand_of_refused
  portions joined more := by
    have unlimited : ∀ limit, Use.limit limit ∉ [Use.seat joined, Use.seat more] := by simp
    have players := session.players_after unlimited
    have counted := session.addedAfter_eq unlimited
    simp only [List.flatMap_cons, List.flatMap_nil, Use.joined, List.append_nil] at players counted
    exact ⟨players, counted⟩
  seats _ unlimited := ⟨session.players_after unlimited, session.addedAfter_eq unlimited⟩
  settled full uses unlimited := by
    rw [session.players_after unlimited, seatAll_of_settled (.inl full)]

end

/-- A session that was started and then used in any way has its creator in the first seat, nobody in two and its
dealer in one; and however it is used from there on, it keeps its seats, its phase and its hand, what it refuses
changes nothing, and until it is limited anew the portions in which people are seated make no difference. -/
theorem used_in_any_way (game : GameId) (creator : Address) (uses : List Use) :
    ((start game creator).after uses).creator = creator ∧
    ((start game creator).after uses).Orderly ∧ ((start game creator).after uses).Keeps :=
  ⟨((start game creator).continues_after uses).creator, (orderly_start game creator).after uses, keeps _⟩

/-- A limit below the seats that are taken takes none of them back. -/
example : ((start ⟨"game"⟩ ⟨"a"⟩).after
    [.seat [⟨"b"⟩, ⟨"b"⟩], .limit 1, .seat [⟨"c"⟩], .limit 3, .seat [⟨"a"⟩, ⟨"c"⟩]]).players = [⟨"a"⟩, ⟨"b"⟩, ⟨"c"⟩] := by
  decide

end Session

end MentalPoker
