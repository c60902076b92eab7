/-
The line between the players and the journal. It notes every request, and a script says what befalls
the next ones: a request may fail before it reaches the journal, and the reply to a publication may
be lost after it was appended.
-/
import MentalPoker.Ledger.Dialogue

namespace MentalPoker

/-- What befalls a request on the line. -/
inductive Fate where
  | passes
  /-- The request does not reach the journal. -/
  | fails (error : LedgerError)
  /-- The request reaches the journal, and if it is a publication its reply is lost. -/
  | losesReply
deriving DecidableEq

/-- What is left of an answer when the replies to publications are lost. -/
def Request.unacknowledged : (request : Request) → request.Answer → request.Answer
  | publish .., .ok id => .error (.replyLost id)
  | _, answer => answer

structure Line where
  journal : Journal
  /-- What befalls the next requests; the ones after them pass. -/
  script : List Fate
  /-- The requests made, the failed ones included. -/
  log : List Request

namespace Line

/-- The line to an empty journal. -/
def fresh : Line := ⟨.empty, [], []⟩

/-- Answers a request as the script says. -/
def answer (request : Request) (line : Line) : request.Answer × Line :=
  let rest := { line with script := line.script.tail, log := line.log ++ [request] }
  match line.script.head?.getD .passes with
  | .fails error => (.error error, rest)
  | .passes =>
    let (a, journal) := line.journal.answer request
    (a, { rest with journal })
  | .losesReply =>
    let (a, journal) := line.journal.answer request
    (request.unacknowledged a, { rest with journal })

end Line

end MentalPoker
