/-
The names on the ledger, and the failures of asking it.
-/
import MentalPoker.Bytes

namespace MentalPoker

/-- Who sends and receives transactions. -/
structure Address where
  name : String
deriving DecidableEq

/-- The reference of a transaction. -/
structure TransactionId where
  text : String
deriving DecidableEq

/-- A game is known by the reference of the transaction that created it. -/
abbrev GameId := TransactionId

/-- Why the ledger gave no answer. Every failure is taken to be transient: whoever hit it asks again
on the next turn. -/
inductive LedgerError where
  | unavailable (cause : String)
  | rejected (cause : String)
deriving DecidableEq

namespace LedgerError

/-- The failure of a publication that has been appended although nobody was told. -/
def replyLost (id : TransactionId) : LedgerError := unavailable s!"reply for {id.text} lost"

def message : LedgerError → String
  | unavailable cause => s!"Ledger unavailable: {cause}"
  | rejected cause => s!"Transaction rejected: {cause}"

end LedgerError

end MentalPoker
