/-
Rounds on a calm line. In a round every participant takes a turn at everything, once or more often
and in whatever order; what holds of a table and is kept by every such turn holds afterwards, and
what every turn brings to the one who takes it has come to everybody.
-/
import MentalPoker.Proofs.Play.Run
import MentalPoker.Proofs.Player.Calm

namespace MentalPoker

/-! ## Calm lines -/

namespace Line

/-- Nothing goes wrong on the line. -/
structure Calm (line : Line) : Prop where
  script : line.script = []
  failures : line.journal.failures = 0
  lostReplies : line.journal.lostReplies = 0

variable {line : Line}

theorem Calm.answer (calm : line.Calm) (request : Request) : (line.answer request).2.Calm ∧
    Conditions.calm.Exchange line.transactions request (line.answer request).1
      (line.answer request).2.transactions := by
  obtain ⟨⟨transactions, failures, lostReplies⟩, script, log⟩ := line
  obtain ⟨rfl, rfl, rfl⟩ := calm
  cases request with
  | publish => exact ⟨⟨rfl, rfl, rfl⟩, .inl ⟨rfl, .inl ⟨_, rfl⟩⟩⟩
  | latestBySender => exact ⟨⟨rfl, rfl, rfl⟩, rfl, .inl rfl⟩
  | sendersTo => exact ⟨⟨rfl, rfl, rfl⟩, rfl, .inl rfl⟩

theorem Calm.meets {α : Type} (d : Dialogue α) (calm : line.Calm) :
    d.Meets .calm Line.answer Line.transactions line :=
  Dialogue.meets_of_forall
    (fun request _ calm => ⟨(calm.answer request).1, _, rfl, (calm.answer request).2⟩) d calm

/-- A line is as calm after a dialogue as it was before. -/
theorem Calm.run {α : Type} (d : Dialogue α) (calm : line.Calm) : (d.run Line.answer line).2.Calm := by
  induction d generalizing line with
  | done a => exact calm
  | ask request next ih => exact ih _ (calm.answer request).1

end Line

namespace Table

variable {γ : Type}

/-! ## Turns of participants -/

/-- The table with nothing left that could go wrong. -/
def calmed (table : Table γ) : Table γ := ⟨⟨⟨table.log, 0, 0⟩, [], table.line.log⟩, table.participants⟩

variable [RandomSource γ]

/-- Lets participants take a turn at everything, one after another. -/
def ticks (table : Table γ) (ids : List String) : Table γ :=
  ids.foldl (fun table id => ((table.move? id .everything).map (·.2)).getD table) table

theorem ticks_of_none {table : Table γ} {id : String} (moved : table.move? id .everything = none) :
    table.ticks [id] = table := by
  simp [ticks, moved]

theorem ticks_of_some {table after : Table γ} {id : String} {result : Except DealError Report}
    (moved : table.move? id .everything = some (result, after)) : table.ticks [id] = after := by
  simp [ticks, moved]

/-- All participants have names, and nothing goes wrong. -/
structure Orderly (table : Table γ) : Prop where
  named : table.Named
  calm : table.line.Calm

/-- A turn is taken by the participant of the name, if there is one. -/
theorem ticks_singleton {table : Table γ} (orderly : table.Orderly) (id : String) :
    (table.ticks [id] = table ∧ ∀ p ∈ table.participants, p.id ≠ id) ∨
      ∃ front back player next, table.participants = front ++ ⟨id, player⟩ :: back ∧
        (table.ticks [id]).participants = front ++ ⟨id, next⟩ :: back ∧ (table.ticks [id]).Orderly ∧
        ∀ Q : Player γ → Log → Prop, Turn.everything.Ensures .calm (fun _ => Q) player table.log →
          Q next (table.ticks [id]).log := by
  cases moved : table.move? id .everything with
  | none =>
    refine .inl ⟨ticks_of_none moved, ?_⟩
    simp only [move?, bind, Option.bind_eq_none_iff, pure, reduceCtorEq, imp_false, player?,
      Option.map_eq_some_iff, not_exists, not_and] at moved
    intro p member same
    have found : ∃ q, table.participants.find? (·.id == id) = some q := by
      rw [← Option.isSome_iff_exists, List.find?_isSome]
      exact ⟨p, member, by simpa using same⟩
    obtain ⟨q, found⟩ := found
    exact moved q.player q found rfl
  | some moving =>
    obtain ⟨result, after⟩ := moving
    obtain ⟨front, back, player, -, split, replaced, line⟩ := move?_takes orderly.named moved
    have ends : after.log =
        (Move.everything.turn.take Line.answer player table.line).2.2.transactions :=
      congrArg Line.transactions line
    rw [ticks_of_some moved]
    refine .inr ⟨front, back, player, _, split, replaced, ⟨?_, ?_⟩, fun Q ensures => ?_⟩
    · have named := orderly.named
      rw [Named, split] at named
      rw [Named, replaced]
      simpa using named
    · rw [line]
      exact orderly.calm.run (Move.everything.turn.run.run player)
    · rw [ends]
      refine Turn.Ensures.take (Q := fun _ => Q) (orderly.calm.meets _) ?_
      rw [Move.turn, Turn.ensures_map]
      exact ensures

/-! ## What turns keep and bring -/

/-- What holds of a table holds after every turn. -/
def Keeps (I : List (Player γ) → Log → Prop) : Prop :=
  ∀ ⦃front player back log⦄, I (front ++ player :: back) log →
    Turn.everything.Ensures .calm (fun _ next later => I (front ++ next :: back) later) player log

/-- Where something holds of a table, a turn brings something to the one who takes it, and nobody else loses
it by that turn. -/
def Brings (I : List (Player γ) → Log → Prop) (P : Player γ → Log → Prop) : Prop :=
  ∀ ⦃front player back log⦄, I (front ++ player :: back) log →
    Turn.everything.Ensures .calm (fun _ next later => P next later ∧
      ∀ other ∈ front ++ back, P other log → P other later) player log

variable {I : List (Player γ) → Log → Prop} {P : Player γ → Log → Prop} {table : Table γ}

/-- After turns that some have taken, everybody has what the turns bring who has taken one or had it. -/
theorem brings_ticks (keeps : Keeps I) (brings : Brings I P) (ids : List String) : ∀ {table : Table γ},
    table.Orderly → I table.players table.log →
    (∀ p ∈ table.participants, p.id ∈ ids ∨ P p.player table.log) →
      (table.ticks ids).Orderly ∧ I (table.ticks ids).players (table.ticks ids).log ∧
        (table.ticks ids).participants.map (·.id) = table.participants.map (·.id) ∧
        ∀ p ∈ (table.ticks ids).players, P p (table.ticks ids).log := by
  induction ids with
  | nil =>
    intro table orderly holds all
    refine ⟨orderly, holds, rfl, fun p member => ?_⟩
    obtain ⟨q, seated, rfl⟩ := List.mem_map.1 member
    exact (all q seated).resolve_left List.not_mem_nil
  | cons id ids ih =>
    intro table orderly holds all
    have split : table.ticks (id :: ids) = (table.ticks [id]).ticks ids := rfl
    rw [split]
    rcases ticks_singleton orderly id with ⟨idle, nobody⟩ |
      ⟨front, back, player, next, seats, seats', orderly', ensures⟩
    · rw [idle]
      refine ih orderly holds fun p member => (all p member).imp_left fun inside => ?_
      exact (List.mem_cons.1 inside).resolve_left (nobody p member)
    · have at_ : table.players = front.map (·.player) ++ player :: back.map (·.player) := by
        rw [players, seats, List.map_append, List.map_cons]
      have at_' : (table.ticks [id]).players =
          front.map (·.player) ++ next :: back.map (·.player) := by
        rw [players, seats', List.map_append, List.map_cons]
      rw [at_] at holds
      obtain ⟨kept, mine, others⟩ := ensures _ ((keeps holds).and (brings holds))
      have ids_ : (table.ticks [id]).participants.map (·.id) = table.participants.map (·.id) := by
        simp [seats, seats']
      rw [← ids_]
      refine ih orderly' (at_' ▸ kept) fun p member => ?_
      rw [seats'] at member
      rcases mem_replaced ⟨id, player⟩ member with rfl | ⟨elsewhere, before⟩
      · exact .inr mine
      rcases all p (seats ▸ before) with inside | had
      · have named := orderly.named
        rw [Named, seats] at named
        have apart : p.id ≠ id := name_ne_of_mem_others named elsewhere
        exact .inl ((List.mem_cons.1 inside).resolve_left apart)
      · refine .inr (others p.player ?_ had)
        rw [← List.map_append]
        exact List.mem_map_of_mem elsewhere

/-! ## Rounds -/

/-- The participants have the given names, nothing goes wrong, and something holds of the table. -/
structure Stands (names : List String) (I : List (Player γ) → Log → Prop) (table : Table γ) : Prop
    extends Orderly table where
  called : table.participants.map (·.id) = names
  holds : I table.players table.log

section

variable {names ids : List String} {J : List (Player γ) → Log → Prop}

omit [RandomSource γ] in
theorem Stands.mono (stands : table.Stands names I) (le : ∀ {players log}, I players log → J players log) :
    table.Stands names J :=
  ⟨stands.toOrderly, stands.called, le stands.holds⟩

/-- What is kept holds after turns of whomever. -/
theorem Stands.ticks (keeps : Keeps I) (ids : List String) (stands : table.Stands names I) :
    (table.ticks ids).Stands names I := by
  have nothing : Brings I fun _ _ => True := by
    intro front player back log holds
    exact (keeps holds).mono fun _ _ _ _ => ⟨trivial, fun _ _ _ => trivial⟩
  obtain ⟨orderly, kept, same, -⟩ :=
    brings_ticks keeps nothing ids stands.toOrderly stands.holds fun _ _ => .inr trivial
  exact ⟨orderly, same.trans stands.called, kept⟩

/-- What is kept holds after any rounds. -/
theorem Stands.rounds (keeps : Keeps I) (rounds : List (List String)) : ∀ {table : Table γ},
    table.Stands names I → (rounds.foldl Table.ticks table).Stands names I := by
  induction rounds with
  | nil => exact id
  | cons ids rounds ih => exact fun stands => ih (stands.ticks keeps ids)

/-- After a round in which everybody takes a turn, everybody has what a turn brings. -/
theorem Stands.round (keeps : Keeps I) (brings : Brings I P) (everybody : names ⊆ ids)
    (stands : table.Stands names I) :
    (table.ticks ids).Stands names fun players log => I players log ∧ ∀ p ∈ players, P p log := by
  have moves : ∀ p ∈ table.participants, p.id ∈ ids := by
    intro p member
    apply everybody
    rw [← stands.called]
    exact List.mem_map_of_mem member
  obtain ⟨orderly, kept, same, all⟩ := brings_ticks keeps brings ids stands.toOrderly stands.holds
    fun p member => .inl (moves p member)
  exact ⟨orderly, same.trans stands.called, kept, all⟩

end

end Table

end MentalPoker
