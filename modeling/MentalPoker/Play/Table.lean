/-
A table: the players of one or more games and the line they share. Players move one at a time, and a
move is over before the next one starts.
-/
import MentalPoker.Play.Line
import MentalPoker.Player.Move

namespace MentalPoker

/-- A player under the name by which it is told to move. -/
structure Participant (γ : Type) where
  id : String
  player : Player γ

/-- What a player knows, and what it has told. -/
structure Knowledge where
  session : Session
  keys : Option KeyPair
  ring : KeyRing
  finishedDeck : Option (Deck Scalar)
  announced : Phase
deriving DecidableEq

def Participant.knowledge {γ : Type} (p : Participant γ) : Knowledge :=
  ⟨p.player.session, p.player.keys, p.player.ring, p.player.finishedDeck, p.player.announced⟩

structure Table (γ : Type) where
  line : Line
  participants : List (Participant γ)

namespace Table

variable {γ : Type}

/-- A table without players, and an empty journal. -/
def empty : Table γ := ⟨.fresh, []⟩

/-- Puts a participant in the place of the one with the same name, or behind all others. -/
def place (table : Table γ) (newcomer : Participant γ) : Table γ :=
  let participants :=
    if table.participants.any (·.id == newcomer.id) then
      table.participants.map fun p => if p.id = newcomer.id then newcomer else p
    else table.participants ++ [newcomer]
  { table with participants }

def player? (table : Table γ) (id : String) : Option (Player γ) :=
  (table.participants.find? (·.id == id)).map (·.player)

/-- Changes the journal from outside. -/
def withJournal {α : Type} (table : Table γ) (f : Journal → α × Journal) : α × Table γ :=
  let (a, journal) := f table.line.journal
  (a, { table with line := { table.line with journal } })

/-- The requests made since the log was last taken. -/
def takeLog (table : Table γ) : List Request × Table γ :=
  (table.line.log, { table with line := { table.line with log := [] } })

section

variable [RandomSource γ]

/-- Lets a participant move. -/
def move? (table : Table γ) (id : String) (move : Move) :
    Option (Except DealError Report × Table γ) := do
  let player ← table.player? id
  let (result, player, line) := move.turn.take Line.answer player table.line
  return (result, place { table with line } ⟨id, player⟩)

/-- Lets the participants take a turn one after another; before each turn the line is prepared. -/
def eachTakes {α : Type} (each : Turn γ α) (prepare : Line → Line) :
    List (Participant γ) → Line → List (Except DealError α) × Table γ
  | [], line => ([], ⟨line, []⟩)
  | p :: rest, line =>
    let (result, player, line) := each.take Line.answer p.player (prepare line)
    let (results, table) := eachTakes each prepare rest line
    (result :: results, { table with participants := { p with player } :: table.participants })

/-- A round: everyone takes a turn at everything, in order. Before each turn the journal may be told
to fail its next calls. -/
def round (failures : Option Nat) (table : Table γ) : List (Except DealError Phase) × Table γ :=
  let prepare (line : Line) : Line :=
    match failures with
    | none => line
    | some calls => { line with journal := line.journal.failNext calls }
  eachTakes Turn.everything prepare table.participants table.line

/-- Several rounds and what each of them reports. -/
def rounds (failures : Option Nat) : (count : Nat) → Table γ →
    List (List (Except DealError Phase)) × Table γ
  | 0, table => ([], table)
  | count + 1, table =>
    let (report, table) := table.round failures
    let (reports, table) := rounds failures count table
    (report :: reports, table)

/-- Nothing has been published and nobody has learned anything. -/
def settledAs (before after : Table γ) : Bool :=
  before.line.journal.transactions.length == after.line.journal.transactions.length
    && before.participants.map (·.knowledge) == after.participants.map (·.knowledge)

/-- Rounds until one of them changes nothing, at most `limit`. -/
def settle : (limit : Nat) → Table γ → Table γ
  | 0, table => table
  | limit + 1, table =>
    let (_, next) := table.round none
    if table.settledAs next then next else settle limit next

/-- The game as the players play it on their own: everyone joins, in order, and then everyone polls
until nothing changes any more. -/
def playOut (limit : Nat) (table : Table γ) : Table γ :=
  (eachTakes Turn.join id table.participants table.line).2.settle limit

end

end Table

end MentalPoker
