/-
The ledger: an append-only list of transactions and the two questions asked of it. A journal can be
told to fail its next calls, as a flaky network would, and to append the next publications but to
report them as failed, as a timeout after a successful submission looks.
-/
import MentalPoker.Ledger.Category
import MentalPoker.Ledger.Signer

namespace MentalPoker

structure Transaction where
  id : TransactionId
  category : Category
  sender : Address
  recipients : List Address
  payload : Bytes
  signature : Bytes
deriving DecidableEq

structure Journal where
  /-- In the order in which they were appended. -/
  transactions : List Transaction
  /-- How many of the next calls fail. -/
  failures : Nat
  /-- How many of the next publications lose their reply. -/
  lostReplies : Nat
deriving DecidableEq

namespace Journal

def empty : Journal := ⟨[], 0, 0⟩

/-- Lets the next `calls` calls fail, readers and writers alike. -/
def failNext (journal : Journal) (calls : Nat) : Journal := { journal with failures := calls }

/-- Lets the next `publications` publications lose their reply. -/
def dropReplies (journal : Journal) (publications : Nat) : Journal :=
  { journal with lostReplies := publications }

/-! ## The transactions -/

/-- The transactions of a category. -/
def inCategory (journal : Journal) (category : Category) : List Transaction :=
  journal.transactions.filter (·.category = category)

/-- The senders in a category, one entry for each transaction. -/
def senders (journal : Journal) (category : Category) : List Address :=
  (journal.inCategory category).map (·.sender)

/-- The payload of the last transaction of a sender in a category. -/
def latestPayload? (journal : Journal) (category : Category) (sender : Address) : Option Bytes :=
  ((journal.inCategory category).reverse.find? (·.sender = sender)).map (·.payload)

/-- The list without repetitions, every entry at its first place. -/
def distinct (addresses : List Address) : List Address :=
  addresses.foldl (fun seen a => if a ∈ seen then seen else seen ++ [a]) []

/-- Who sent transactions of a category to a recipient, in the order of the first ones. -/
def sendersTo (journal : Journal) (category : Category) (recipient : Address) : List Address :=
  distinct (((journal.inCategory category).filter (recipient ∈ ·.recipients)).map (·.sender))

/-! ## Calls -/

/-- The reference of the transaction at place `i`. -/
def idAt (i : Nat) : TransactionId := ⟨s!"tx{i}"⟩

/-- Lets a call fail if failures are pending. -/
def guarded {α : Type} (journal : Journal) (call : Journal → Except LedgerError α × Journal) :
    Except LedgerError α × Journal :=
  match journal.failures with
  | 0 => call journal
  | failures + 1 => (.error (.unavailable "injected failure"), { journal with failures })

/-- Appends a transaction, whose reference is the answer. -/
def publish (journal : Journal) (signer : Signer) (category : Category) (recipients : List Address)
    (payload : Bytes) : Except LedgerError TransactionId × Journal :=
  journal.guarded fun journal =>
    let id := idAt journal.transactions.length
    let transaction : Transaction :=
      ⟨id, category, signer.address, recipients, payload, signer.sign payload⟩
    let journal := { journal with transactions := journal.transactions ++ [transaction] }
    match journal.lostReplies with
    | 0 => (.ok id, journal)
    | lostReplies + 1 =>
      (.error (.replyLost id), { journal with lostReplies })

/-- Asks for the payload of the last transaction of a sender in a category. -/
def latestBySender (journal : Journal) (category : Category) (sender : Address) :
    Except LedgerError (Option Bytes) × Journal :=
  journal.guarded fun journal => (.ok (journal.latestPayload? category sender), journal)

/-- Asks who sent transactions of a category to a recipient. -/
def sendersToRecipient (journal : Journal) (category : Category) (recipient : Address) :
    Except LedgerError (List Address) × Journal :=
  journal.guarded fun journal => (.ok (journal.sendersTo category recipient), journal)

end Journal

end MentalPoker
