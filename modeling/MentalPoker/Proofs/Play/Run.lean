/-
Runs of a table. Everybody plays by the same rules; players arrive at any time, a restarted one
under a new name, and move in any order, each move over before the next one starts. Requests may
fail and publications may lose their reply. Whatever holds of an untouched ledger and is kept by
every arrival, every act and every foreign transaction holds of every state that is reached.
-/
import MentalPoker.Play.Table
import MentalPoker.Proofs.Player.Course
import MentalPoker.Random.Seeded

namespace MentalPoker

/-! ## The line -/

namespace Conditions

/-- Nobody else writes during a move, but any request may fail and any publication may lose its
reply. -/
def unreliable : Conditions := ⟨(· = ·), Eq.trans, True, fun _ => True⟩

end Conditions

namespace Line

/-- The transactions at the other end. -/
def transactions (line : Line) : Log := line.journal.transactions

end Line

/-- A journal answers, fails, or loses a reply. -/
theorem Journal.answer_exchange (request : Request) (journal : Journal) :
    Conditions.unreliable.Exchange journal.transactions request (journal.answer request).1
      (journal.answer request).2.transactions := by
  cases request with
  | publish signer category recipients payload =>
    simp only [answer, publish, guarded]
    split
    · split
      · exact .inl ⟨rfl, .inl ⟨_, rfl⟩⟩
      · exact .inl ⟨rfl, .inr ⟨trivial, _, rfl⟩⟩
    · exact .inr ⟨trivial, rfl, _, rfl⟩
  | latestBySender category sender =>
    simp only [answer, latestBySender, guarded]
    split
    · exact ⟨rfl, .inl rfl⟩
    · exact ⟨rfl, .inr ⟨trivial, _, rfl⟩⟩
  | sendersTo category recipient =>
    simp only [answer, sendersToRecipient, guarded]
    split
    · exact ⟨rfl, .inl rfl⟩
    · exact ⟨rfl, .inr ⟨trivial, _, rfl⟩⟩

theorem Line.answer_exchange (request : Request) (line : Line) :
    Conditions.unreliable.Exchange line.transactions request (line.answer request).1
      (line.answer request).2.transactions := by
  have passed := line.journal.answer_exchange request
  unfold Line.answer
  dsimp only
  split
  · -- a request that fails on the line leaves the journal alone
    cases request with
    | publish => exact .inr ⟨trivial, rfl, _, rfl⟩
    | latestBySender => exact ⟨rfl, .inr ⟨trivial, _, rfl⟩⟩
    | sendersTo => exact ⟨rfl, .inr ⟨trivial, _, rfl⟩⟩
  · exact passed
  · cases request with
    | publish signer category recipients payload =>
      generalize line.journal.answer (.publish signer category recipients payload) = answered at passed ⊢
      obtain ⟨answer, journal⟩ := answered
      rcases passed with ⟨appended, _⟩ | ⟨_, unchanged, e, rfl⟩
      · refine .inl ⟨appended, .inr ⟨trivial, ?_⟩⟩
        cases answer <;> exact ⟨_, rfl⟩
      · exact .inr ⟨trivial, unchanged, e, rfl⟩
    | latestBySender => exact passed
    | sendersTo => exact passed

/-- No run on a line is worse than unreliable. -/
theorem Line.meets {α : Type} (d : Dialogue α) (line : Line) :
    d.Meets .unreliable Line.answer Line.transactions line :=
  Dialogue.meets_of_forall (I := fun _ => True)
    (fun request line _ => ⟨trivial, _, rfl, line.answer_exchange request⟩) d trivial

/-! ## Moves -/

namespace Table

variable {γ : Type}

def log (table : Table γ) : Log := table.line.transactions

def players (table : Table γ) : List (Player γ) := table.participants.map (·.player)

/-- No two participants have the same name. -/
def Named (table : Table γ) : Prop := (table.participants.map (·.id)).Nodup

theorem participants_place_unused {table : Table γ} {newcomer : Participant γ}
    (unused : table.player? newcomer.id = none) :
    (table.place newcomer).participants = table.participants ++ [newcomer] := by
  rw [player?, Option.map_eq_none_iff, List.find?_eq_none] at unused
  have nobody : table.participants.any (·.id == newcomer.id) = false := by
    rw [List.any_eq_false]
    exact unused
  simp [place, nobody]

/-- A participant who is known by its name takes its own place and no other. -/
theorem place_known {table : Table γ} {id : String} {player : Player γ} (named : table.Named)
    (h : table.player? id = some player) : ∃ before after,
      table.participants = before ++ ⟨id, player⟩ :: after ∧ ∀ line next,
        place ⟨line, table.participants⟩ ⟨id, next⟩ = ⟨line, before ++ ⟨id, next⟩ :: after⟩ := by
  rw [player?, Option.map_eq_some_iff] at h
  obtain ⟨participant, found, rfl⟩ := h
  obtain ⟨same, before, after, split, -⟩ := List.find?_eq_some_iff_append.1 found
  obtain rfl : participant.id = id := by simpa using same
  refine ⟨before, after, split, fun line next => ?_⟩
  simp only [Named, split, List.map_append, List.map_cons, List.nodup_append, List.nodup_cons,
    List.mem_map, List.mem_cons] at named
  obtain ⟨-, ⟨notAfter, -⟩, apart⟩ := named
  have stays (others : List (Participant γ)) (h : ∀ p ∈ others, p.id ≠ participant.id) :
      others.map (fun p => if p.id = participant.id then ⟨participant.id, next⟩ else p) = others :=
    (List.map_congr_left fun p member => if_neg (h p member)).trans (List.map_id others)
  have left := stays before fun p member => apart p.id ⟨p, member, rfl⟩ participant.id (.inl rfl)
  have right := stays after fun p member same => notAfter ⟨p, member, same⟩
  simp [place, split, left, right]

/-- Lets participants move one after another, on the line as it is. -/
def plays [RandomSource γ] : List (String × Move) → Table γ → Table γ
  | [], table => table
  | (id, move) :: moves, table => plays moves (((table.move? id move).map (·.2)).getD table)

/-- In a move the player takes its turn on the line, and then its own place again. -/
theorem move?_of_player? [RandomSource γ] {table : Table γ} {id : String} {player : Player γ}
    (found : table.player? id = some player) (move : Move) (line : Line) :
    Table.move? ⟨line, table.participants⟩ id move =
      some ((move.turn.take Line.answer player line).1,
        place ⟨(move.turn.take Line.answer player line).2.2, table.participants⟩
          ⟨id, (move.turn.take Line.answer player line).2.1⟩) := by
  have looked : player? ⟨line, table.participants⟩ id = some player := found
  rw [move?, looked]
  rfl

/-- In a move one player takes its turn, and everybody else stays where they are. -/
theorem move?_takes [RandomSource γ] {table after : Table γ} {id : String} {move : Move}
    {result : Except DealError Report} (named : table.Named)
    (moved : table.move? id move = some (result, after)) :
    ∃ front back player, table.player? id = some player ∧
      table.participants = front ++ ⟨id, player⟩ :: back ∧
      after.participants = front ++ ⟨id, (move.turn.take Line.answer player table.line).2.1⟩ :: back ∧
      after.line = (move.turn.take Line.answer player table.line).2.2 := by
  simp only [move?, bind, Option.bind_eq_some_iff, pure, Option.some.injEq, Prod.mk.injEq] at moved
  obtain ⟨player, found, -, rfl⟩ := moved
  obtain ⟨front, back, split, replaced⟩ := place_known named found
  rw [replaced]
  exact ⟨front, back, player, found, split, rfl, rfl⟩

/-- A move takes its player along a course. -/
theorem move?_course [RandomSource γ] {c : Conditions} {table after : Table γ} {id : String}
    {move : Move} {result : Except DealError Report} (named : table.Named)
    (moved : table.move? id move = some (result, after))
    (meets : ∀ player, table.player? id = some player →
      (move.turn.run.run player).Meets c Line.answer Line.transactions table.line) :
    ∃ front back player next, table.participants = front ++ ⟨id, player⟩ :: back ∧
      after.participants = front ++ ⟨id, next⟩ :: back ∧
      Course c ⟨player, table.log⟩ ⟨next, after.log⟩ := by
  obtain ⟨front, back, player, found, split, replaced, line⟩ := move?_takes named moved
  refine ⟨front, back, player, _, split, replaced, ?_⟩
  have ends : after.log = (move.turn.take Line.answer player table.line).2.2.transactions :=
    congrArg Line.transactions line
  rw [ends]
  exact Turn.Ensures.take (meets player found) (move.turn_runs player table.log)

end Table

/-! ## Rules and runs -/

/-- What all players of a game are told. -/
structure Rules where
  config : Config
  game : GameId
  creator : Address
  /-- Who is to deal instead of the creator, once seated. -/
  dealer : Option Address

namespace Rules

variable {γ : Type} (rules : Rules)

/-- Where the transactions of a step are filed. -/
def category (step : Step) : Category := rules.config.category step rules.game

/-- A player that is told who is to deal. -/
def told (player : Player γ) : Player γ := rules.dealer.elim player player.withDealer

/-- A player at the start of its process: one that takes part, or one that looks on. -/
inductive Fresh : Player γ → Prop
  | plays (signer : Signer) (source : γ) :
      Fresh (rules.told (.new rules.config signer rules.game rules.creator source))
  | observes (address : Address) (source : γ) :
      Fresh (rules.told (.observer rules.config address rules.game rules.creator source))

/-- Nobody has arrived, and the game has no transaction. -/
structure Untouched (table : Table γ) : Prop where
  nobody : table.participants = []
  unfiled : ∀ step, Log.filed (rules.category step) table.log = []

/-- A step of a run: an arrival, a move on a line in whatever state, or a transaction outside the
game. -/
inductive Next [RandomSource γ] : Table γ → Table γ → Prop
  | arrives {table : Table γ} {newcomer : Participant γ}
      (unused : table.player? newcomer.id = none) (fresh : rules.Fresh newcomer.player) :
      Next table (table.place newcomer)
  | moves {table after : Table γ} {id : String} {move : Move} {result : Except DealError Report}
      (line : Line) (same : line.transactions = table.log)
      (moved : Table.move? ⟨line, table.participants⟩ id move = some (result, after)) :
      Next table after
  | foreign {table after : Table γ} {tx : Transaction} (outside : ∀ step, tx.category ≠ rules.category step)
      (same : after.participants = table.participants) (appended : after.log = table.log ++ [tx]) :
      Next table after

/-- The states of runs that start with an untouched ledger. -/
def Reachable [RandomSource γ] (table : Table γ) : Prop :=
  ∃ start, rules.Untouched start ∧ Relation.ReflTransGen rules.Next start table

/-- A property of players and log that no act and no foreign transaction takes away. -/
structure Steady [RandomSource γ] (c : Conditions) (I : List (Player γ) → Log → Prop) : Prop where
  act : ∀ front back player next log later, I (front ++ player :: back) log →
    Act c ⟨player, log⟩ ⟨next, later⟩ → I (front ++ next :: back) later
  foreign : ∀ players log tx, (∀ step, tx.category ≠ rules.category step) → I players log →
    I players (log ++ [tx])

/-- A property of players and log that every step of a run keeps. -/
structure Kept [RandomSource γ] (I : List (Player γ) → Log → Prop) : Prop
    extends Steady rules .unreliable I where
  start : ∀ log, (∀ step, Log.filed (rules.category step) log = []) → I [] log
  arrival : ∀ players log player, rules.Fresh player → I players log → I (players ++ [player]) log

section

variable [RandomSource γ] {rules} {c : Conditions} {I : List (Player γ) → Log → Prop}

theorem Steady.course (steady : rules.Steady c I) {front back : List (Player γ)} {scene next : Scene γ}
    (course : Course c scene next) (h : I (front ++ scene.player :: back) scene.log) :
    I (front ++ next.player :: back) next.log := by
  induction course with
  | refl => exact h
  | tail _ act ih => exact steady.act _ _ _ _ _ _ ih act

end

/-- Every step keeps what is kept, and the names of the participants apart. -/
theorem Kept.next [RandomSource γ] {I : List (Player γ) → Log → Prop} {rules : Rules}
    (kept : rules.Kept I) {before after : Table γ} (step : rules.Next before after)
    (holds : I before.players before.log) (named : before.Named) :
    I after.players after.log ∧ after.Named := by
  cases step with
  | @arrives newcomer unused fresh =>
    have split := Table.participants_place_unused unused
    refine ⟨?_, ?_⟩
    · rw [Table.players, split, List.map_append]
      exact kept.arrival _ _ _ fresh holds
    · rw [Table.player?, Option.map_eq_none_iff, List.find?_eq_none] at unused
      rw [Table.Named, split, List.map_append]
      refine List.nodup_append.2 ⟨named, List.nodup_singleton _, ?_⟩
      rintro id taken _ single rfl
      obtain ⟨p, member, rfl⟩ := List.mem_map.1 taken
      exact unused p member (by simpa using single)
  | @moves _ id move result line same moved =>
    have named' : Table.Named ⟨line, before.participants⟩ := named
    obtain ⟨front, back, player, next, split, split', course⟩ :=
      Table.move?_course named' moved fun player _ => Line.meets _ line
    replace split : before.participants = front ++ ⟨id, player⟩ :: back := split
    rw [Table.players, split, List.map_append, List.map_cons, ← same] at holds
    rw [Table.players, Table.Named, split', List.map_append, List.map_cons]
    refine ⟨kept.course course holds, ?_⟩
    rw [Table.Named, split] at named
    simpa using named
  | foreign outside same appended =>
    rw [Table.players, Table.Named, same, appended]
    exact ⟨kept.foreign _ _ _ outside holds, named⟩

theorem Kept.untouched [RandomSource γ] {I : List (Player γ) → Log → Prop} {rules : Rules}
    (kept : rules.Kept I) {table : Table γ} (untouched : rules.Untouched table) :
    I table.players table.log ∧ table.Named := by
  rw [Table.players, Table.Named, untouched.nobody]
  exact ⟨kept.start _ untouched.unfiled, List.nodup_nil⟩

/-- What is kept by every step holds of every reachable state. -/
theorem Kept.reachable [RandomSource γ] {I : List (Player γ) → Log → Prop} {rules : Rules}
    (kept : rules.Kept I) {table : Table γ} (reached : rules.Reachable table) :
    I table.players table.log ∧ table.Named := by
  obtain ⟨start, untouched, steps⟩ := reached
  induction steps with
  | refl => exact kept.untouched untouched
  | tail _ step ih => exact kept.next step ih.1 ih.2

/-- Moves on the line as it is are steps of a run. -/
theorem steps_plays [RandomSource γ] (moves : List (String × Move)) : ∀ table : Table γ,
    Relation.ReflTransGen rules.Next table (table.plays moves) := by
  induction moves with
  | nil => exact fun _ => .refl
  | cons first moves ih =>
    intro table
    obtain ⟨id, move⟩ := first
    cases moved : table.move? id move with
    | none =>
      rw [Table.plays, moved]
      exact ih table
    | some moving =>
      rw [Table.plays, moved]
      exact (ih moving.2).head (.moves table.line rfl moved)

/-- The rules of a game for three. -/
def forThree : Rules := ⟨.default, ⟨"tx0"⟩, ⟨"alice"⟩, none⟩

theorem forThree_valid : forThree.config.Valid := rfl

end Rules

end MentalPoker
