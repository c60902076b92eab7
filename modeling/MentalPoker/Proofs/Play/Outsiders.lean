/-
Outsiders have no influence. At a reachable table every player of the game does the same, fails the same
and appends the same, whether or not the ledger holds what outsiders have written; and a run during which
they write what they want brings every player to where the run without them does.
-/
import MentalPoker.Proofs.Play.KeyAgreement
import MentalPoker.Proofs.Play.Padding

namespace MentalPoker

/-! ## Runs with and without outsiders -/

/-- What happens at a table. -/
inductive Event (γ : Type) where
  | arrives (newcomer : Participant γ)
  /-- A participant moves, and this befalls its requests. -/
  | moves (id : String) (move : Move) (script : List Fate) (failures lostReplies : Nat)
  /-- Somebody else appends a transaction. -/
  | files (tx : Transaction)

/-- It is something that the participants do. -/
def Event.byPlayers {γ : Type} : Event γ → Bool
  | files _ => false
  | _ => true

/-- The line when this befalls the next requests. -/
def Line.prepared (line : Line) (script : List Fate) (failures lostReplies : Nat) : Line :=
  { line with script, journal := ⟨line.transactions, failures, lostReplies⟩ }

namespace Table

variable {γ : Type} [RandomSource γ]

/-- The table after an event. -/
def after (table : Table γ) : Event γ → Table γ
  | .arrives newcomer => table.place newcomer
  | .moves id move script failures lostReplies =>
    ((move? { table with line := table.line.prepared script failures lostReplies } id move).map (·.2)).getD table
  | .files tx =>
    { table with line := { table.line with
      journal := { table.line.journal with transactions := table.log ++ [tx] } } }

/-- The table after one event after another. -/
def afterAll (table : Table γ) (events : List (Event γ)) : Table γ := events.foldl after table

theorem after_moves (table : Table γ) (id : String) (move : Move) (script : List Fate)
    (failures lostReplies : Nat) : table.after (.moves id move script failures lostReplies) =
      match table.player? id with
      | none => table
      | some player =>
        let (_, next, line) := move.turn.take Line.answer player (table.line.prepared script failures lostReplies)
        place ⟨line, table.participants⟩ ⟨id, next⟩ := by
  cases found : table.player? id with
  | none =>
    have looked : player? ⟨table.line.prepared script failures lostReplies, table.participants⟩ id = none := found
    rw [after, move?, looked]
    rfl
  | some player =>
    rw [after, move?_of_player? found]
    rfl

end Table

namespace Rules

variable {γ : Type} {rules : Rules} {insiders : List Address}

section

variable [RandomSource γ]

/-- The event can happen at a table at which only insiders play and outsiders write. -/
def Allows (rules : Rules) (insiders : List Address) (table : Table γ) : Event γ → Prop
  | .arrives newcomer => table.player? newcomer.id = none ∧ rules.Fresh newcomer.player ∧
    newcomer.player.address ∈ insiders
  | .moves .. => True
  | .files tx => rules.Outside insiders table.log tx

/-- The events can happen one after another. -/
def AllowsAll (rules : Rules) (insiders : List Address) : Table γ → List (Event γ) → Prop
  | _, [] => True
  | table, event :: events => rules.Allows insiders table event ∧
    rules.AllowsAll insiders (table.after event) events

end

theorem Padded.refl (log : Log) : rules.Padded insiders log log := by
  induction log using List.reverseRecOn with
  | nil => exact .nil
  | append_singleton log tx ih => exact ih.both ⟨rfl, rfl, rfl, rfl, rfl⟩

/-- A player at a reachable table beholds the ledger with and without what outsiders have written. -/
theorem Reachable.beholds [RandomSource γ] (valid : rules.config.Valid) {table : Table γ}
    (reached : rules.Reachable table) (inside : rules.seats table.log ⊆ insiders) {player : Player γ}
    (member : player ∈ table.players) (insider : player.address ∈ insiders) (line line' : Line)
    (ledger : line.transactions = table.log) (padded : rules.Padded insiders table.log line'.transactions)
    (script : line'.script = line.script) (failures : line'.journal.failures = line.journal.failures)
    (lostReplies : line'.journal.lostReplies = line.journal.lostReplies) :
    rules.Beholds insiders table.log line'.transactions player line line' := by
  have knows := ((kept_history_and_knowledge valid).reachable reached).1.2 player member
  exact ⟨knows.told, insider, knows.creator, ledger ▸ knows.view, knows.dealer, ledger ▸ inside, padded,
    script, failures, lostReplies, [], [], ledger.trans (List.append_nil _).symm, (List.append_nil _).symm, .nil⟩

/-- A table that has been reached without outsiders, and the same one with what they have written. -/
structure Level [RandomSource γ] (rules : Rules) (insiders : List Address) (table table' : Table γ) : Prop where
  reached : rules.Reachable table
  participants : table'.participants = table.participants
  padded : rules.Padded insiders table.log table'.log
  inside : rules.seats table.log ⊆ insiders
  insiders : ∀ player ∈ table.players, player.address ∈ insiders

section

variable [RandomSource γ] {table table' : Table γ}

theorem Level.start (untouched : rules.Untouched table) (creator : rules.creator ∈ insiders) :
    rules.Level insiders table table := by
  refine ⟨⟨table, untouched, .refl⟩, rfl, .refl _, ?_, ?_⟩
  · have alone : rules.seats table.log = [rules.creator] := by
      rw [seats, Log.sendersTo, untouched.unfiled, Session.seating, List.take_of_length_le]
      · rfl
      · simp [Journal.distinct]
    rw [alone, List.cons_subset]
    exact ⟨creator, List.nil_subset _⟩
  · rw [Table.players, untouched.nobody]
    exact fun _ h => absurd h List.not_mem_nil

theorem Level.arrives (level : rules.Level insiders table table') {newcomer : Participant γ}
    (unused : table.player? newcomer.id = none) (fresh : rules.Fresh newcomer.player)
    (insider : newcomer.player.address ∈ insiders) :
    rules.Level insiders (table.place newcomer) (table'.place newcomer) := by
  obtain ⟨start, untouched, steps⟩ := level.reached
  have unused' : table'.player? newcomer.id = none := by
    rw [Table.player?, level.participants]
    exact unused
  have split := Table.participants_place_unused unused
  refine ⟨⟨start, untouched, steps.tail (.arrives unused fresh)⟩, ?_, level.padded, level.inside, ?_⟩
  · rw [split, Table.participants_place_unused unused', level.participants]
  · rw [Table.players, split, List.map_append]
    exact List.forall_mem_append.2 ⟨level.insiders, List.forall_mem_singleton.2 insider⟩

theorem Level.moves (valid : rules.config.Valid) (level : rules.Level insiders table table') (id : String)
    (move : Move) (script : List Fate) (failures lostReplies : Nat) :
    rules.Level insiders (table.after (.moves id move script failures lostReplies))
      (table'.after (.moves id move script failures lostReplies)) := by
  have same : table'.player? id = table.player? id := by rw [Table.player?, level.participants, Table.player?]
  rw [Table.after_moves, Table.after_moves, same]
  cases found : table.player? id with
  | none => exact level
  | some player =>
    obtain ⟨start, untouched, steps⟩ := level.reached
    have named := ((kept_history_and_knowledge valid).reachable level.reached).2
    -- the player has the same place at both tables, and moves the same on both lines
    obtain ⟨front, back, split, replaced⟩ := Table.place_known named found
    have everyone : table.players = front.map (·.player) ++ player :: back.map (·.player) := by
      rw [Table.players, split, List.map_append, List.map_cons]
    have member : player ∈ table.players := by
      rw [everyone]
      exact List.mem_append_right _ List.mem_cons_self
    have beholds := level.reached.beholds valid level.inside member (level.insiders player member)
      (table.line.prepared script failures lostReplies) (table'.line.prepared script failures lostReplies)
      rfl level.padded rfl rfl rfl
    obtain ⟨next, -, related⟩ := move.turn_unmoved valid beholds
    have moved := Table.move?_of_player? found move (table.line.prepared script failures lostReplies)
    have reached : rules.Reachable _ := ⟨start, untouched, steps.tail
      (.moves (table.line.prepared script failures lostReplies) rfl moved)⟩
    refine ⟨reached, ?_, related.ledgers, related.inside, ?_⟩
    · dsimp only
      rw [level.participants, ← next, replaced, replaced]
    · dsimp only
      rw [Table.players, replaced]
      have others := level.insiders
      rw [everyone] at others
      simp only [List.map_append, List.map_cons, List.forall_mem_append, List.forall_mem_cons] at others ⊢
      exact ⟨others.1, related.member, others.2.2⟩

theorem Level.files (level : rules.Level insiders table table') {tx : Transaction} (valid : rules.config.Valid)
    (outside : rules.Outside insiders table'.log tx) : rules.Level insiders table (table'.after (.files tx)) := by
  have same := level.padded.seats valid
  refine ⟨level.reached, level.participants, level.padded.more ?_, level.inside, level.insiders⟩
  rwa [Outside, Full, same]

theorem Level.afterAll (valid : rules.config.Valid) {events : List (Event γ)} : ∀ {table table' : Table γ},
    rules.Level insiders table table' → rules.AllowsAll insiders table' events →
      rules.Level insiders (table.afterAll (events.filter Event.byPlayers)) (table'.afterAll events) := by
  induction events with
  | nil => exact fun level _ => level
  | cons event events ih =>
    rintro table table' level ⟨allowed, rest⟩
    cases event with
    | arrives newcomer =>
      obtain ⟨unused, fresh, insider⟩ := allowed
      rw [Table.player?, level.participants] at unused
      exact ih (level.arrives unused fresh insider) rest
    | moves id move script failures lostReplies => exact ih (level.moves valid ..) rest
    | files tx => exact ih (level.files valid allowed) rest

end

/-- Nothing that outsiders write on the ledger makes a difference to the players of a game. In every
reachable state a player takes every turn as it would without their transactions: it is the same player
afterwards, its result is the same and it appends the same, references apart. And a run of the players,
with outsiders writing in between, brings the players to where they get without them; so everybody gets
the same hand. -/
theorem outsiders_without_influence [RandomSource γ] (valid : rules.config.Valid) (insiders : List Address) :
    (∀ {table : Table γ}, rules.Reachable table → rules.seats table.log ⊆ insiders →
      ∀ player ∈ table.players, player.address ∈ insiders →
      ∀ line line' : Line, line.transactions = table.log → rules.Padded insiders table.log line'.transactions →
      line'.script = line.script → line'.journal.failures = line.journal.failures →
      line'.journal.lostReplies = line.journal.lostReplies →
      ∀ move : Move,
        let run := move.turn.take Line.answer player line
        let run' := move.turn.take Line.answer player line'
        run'.2.1 = run.2.1 ∧ Agree Report.Alike run.1 run'.1 ∧
          ∃ more more', run.2.2.transactions = table.log ++ more ∧
            run'.2.2.transactions = line'.transactions ++ more' ∧ List.Forall₂ Transaction.Alike more more') ∧
    (rules.creator ∈ insiders → ∀ start : Table γ, rules.Untouched start →
      ∀ events, rules.AllowsAll insiders start events →
        (start.afterAll events).participants = (start.afterAll (events.filter Event.byPlayers)).participants ∧
          rules.Padded insiders (start.afterAll (events.filter Event.byPlayers)).log (start.afterAll events).log) := by
  refine ⟨fun reached inside player member insider line line' ledger padded script failures lost move => ?_,
    fun creator start untouched events allowed => ?_⟩
  · have beholds := reached.beholds valid inside member insider line line' ledger padded script failures lost
    obtain ⟨next, agree, related⟩ := move.turn_unmoved valid beholds
    exact ⟨next.symm, agree, related.beside.journal.filed⟩
  · have level := (Level.start untouched creator).afterAll valid allowed
    exact ⟨level.participants, level.padded⟩

/-- The two players of a game arrive, and the second one joins. -/
def gathering : List (Event (Seeded id)) :=
  [.arrives ⟨"a", playerOfTwo "alice" none⟩, .arrives ⟨"b", playerOfTwo "bob" none⟩, .moves "b" .join [] 0 0]

/-- Somebody without a seat files something for a step, addressed to the creator. -/
def intrusion (step : Step) : Transaction :=
  ⟨⟨"forged"⟩, forTwo.category step, ⟨"eve"⟩, [forTwo.creator], Bytes.ofString "{}", []⟩

/-- The game goes on until a key is announced, and the intruder files a key and asks for a seat. -/
def intruded : List (Event (Seeded id)) :=
  gathering ++ [.files (intrusion .publicKey), .files (intrusion .join), .moves "b" .everything [] 0 0,
    .moves "a" .refreshPlayers [] 1 0, .files (intrusion .join), .moves "a" .refreshPlayers [] 0 0]

theorem allowsAll_intruded : forTwo.AllowsAll [⟨"alice"⟩, ⟨"bob"⟩] .empty intruded := by
  have full {log : Log} (seats : (forTwo.seats log).length = 2) : forTwo.Full log := seats
  have outside : (⟨"eve"⟩ : Address) ∉ [(⟨"alice"⟩ : Address), ⟨"bob"⟩] := by decide
  refine ⟨⟨rfl, fresh_playerOfTwo "alice" none, by decide⟩,
    ⟨by decide +kernel, fresh_playerOfTwo "bob" none, by decide⟩, trivial,
    .inr ⟨outside, fun same => absurd same (by decide +kernel)⟩, .inr ⟨outside, fun _ _ => full ?_⟩,
    trivial, trivial, .inr ⟨outside, fun _ _ => full ?_⟩, trivial, trivial⟩
  · decide +kernel
  · decide +kernel

theorem outsiders_without_influence_two :
    (∀ player ∈ (Table.afterAll .empty gathering).players, ∀ move : Move,
      (move.turn.take Line.answer player
        ⟨⟨(Table.afterAll .empty gathering).log ++ [intrusion .join], 0, 0⟩, [], []⟩).2.1 =
      (move.turn.take Line.answer player ⟨⟨(Table.afterAll .empty gathering).log, 0, 0⟩, [], []⟩).2.1) ∧
    (Table.afterAll .empty intruded).participants =
      (Table.afterAll .empty (intruded.filter Event.byPlayers)).participants ∧
    ((Table.afterAll .empty intruded).log.map (·.sender.name),
      (Table.afterAll .empty intruded).players.map fun p => (p.keys.isSome, p.session.players)) =
      (["bob", "eve", "eve", "bob", "eve"],
        [(false, [⟨"alice"⟩, ⟨"bob"⟩]), (true, [⟨"alice"⟩, ⟨"bob"⟩])]) := by
  have valid : forTwo.config.Valid := rfl
  have untouched : forTwo.Untouched (.empty : Table (Seeded id)) := ⟨rfl, fun _ => rfl⟩
  have influence := outsiders_without_influence (γ := Seeded id) valid [⟨"alice"⟩, ⟨"bob"⟩]
  have gathered : forTwo.Level [⟨"alice"⟩, ⟨"bob"⟩] (Table.afterAll .empty gathering)
      (Table.afterAll .empty gathering) :=
    (Level.start untouched (by decide)).afterAll valid
      (show AllowsAll _ _ _ gathering from ⟨allowsAll_intruded.1, allowsAll_intruded.2.1, trivial, trivial⟩)
  have full : forTwo.Full (Table.afterAll .empty gathering).log := by
    unfold Full
    decide +kernel
  refine ⟨fun player member move => ?_,
    (influence.2 (by decide) .empty untouched intruded allowsAll_intruded).1, by decide +kernel⟩
  exact (influence.1 gathered.reached gathered.inside player member (gathered.insiders player member)
    ⟨⟨_, 0, 0⟩, [], []⟩ ⟨⟨_, 0, 0⟩, [], []⟩ rfl ((Padded.refl _).more (.inr ⟨by decide, fun _ _ => full⟩)) rfl rfl rfl move).1

end Rules

end MentalPoker
