/-
Dialogues with a ledger. What a player does on its turn is a value: a tree of requests that branches
on the ledger's answers. The same turn can so be held against a journal, against a list of given
answers, or against a ledger on which others write between two requests.
-/
import MentalPoker.Ledger.Journal

namespace MentalPoker

/-- What is asked of a ledger. -/
inductive Request where
  | publish (signer : Signer) (category : Category) (recipients : List Address) (payload : Bytes)
  | latestBySender (category : Category) (sender : Address)
  | sendersTo (category : Category) (recipient : Address)
deriving DecidableEq

namespace Request

/-- What a successful answer holds. -/
abbrev Value : Request → Type
  | publish .. => TransactionId
  | latestBySender .. => Option Bytes
  | sendersTo .. => List Address

/-- The answer to a request. -/
abbrev Answer (request : Request) : Type := Except LedgerError request.Value

/-- The request in words: what is asked, the category, and about whom. -/
def describe : Request → String
  | publish _ category _ _ => s!"publish {category.name}"
  | latestBySender category sender => s!"by_sender {category.name} {sender.name}"
  | sendersTo category recipient => s!"by_recipient {category.name} {recipient.name}"

end Request

/-- The answer of a journal. -/
def Journal.answer : (request : Request) → Journal → request.Answer × Journal
  | .publish signer category recipients payload, journal =>
    journal.publish signer category recipients payload
  | .latestBySender category sender, journal => journal.latestBySender category sender
  | .sendersTo category recipient, journal => journal.sendersToRecipient category recipient

/-- A dialogue that comes to a result of type `α`. -/
inductive Dialogue (α : Type) where
  | done (result : α)
  | ask (request : Request) (next : request.Answer → Dialogue α)

namespace Dialogue

variable {α β : Type}

/-- One dialogue after another. -/
def bind : Dialogue α → (α → Dialogue β) → Dialogue β
  | done a, f => f a
  | ask request next, f => ask request fun answer => (next answer).bind f

instance : Monad Dialogue where
  pure := done
  bind := bind

theorem bind_done (d : Dialogue α) : d.bind done = d := by
  induction d with
  | done a => rfl
  | ask r next ih => exact congrArg (ask r) (funext ih)

theorem bind_assoc {δ : Type} (d : Dialogue α) (f : α → Dialogue β) (g : β → Dialogue δ) :
    (d.bind f).bind g = d.bind fun a => (f a).bind g := by
  induction d with
  | done a => rfl
  | ask r next ih => exact congrArg (ask r) (funext ih)

instance : LawfulMonad Dialogue :=
  .mk' _ bind_done (fun _ _ => rfl) bind_assoc

/-- Holds a dialogue against whoever answers from a state. -/
def run {σ : Type} (answer : (request : Request) → σ → request.Answer × σ) :
    Dialogue α → σ → α × σ
  | done a, s => (a, s)
  | ask r next, s =>
    let (a, s) := answer r s
    (next a).run answer s

section

variable {σ : Type} (answer : (request : Request) → σ → request.Answer × σ)

@[simp] theorem run_pure (a : α) (s : σ) : (pure a : Dialogue α).run answer s = (a, s) := rfl

@[simp] theorem run_done (a : α) (s : σ) : (done a).run answer s = (a, s) := rfl

@[simp] theorem run_ask (r : Request) (next : r.Answer → Dialogue α) (s : σ) :
    (ask r next).run answer s = (next (answer r s).1).run answer (answer r s).2 := rfl

@[simp] theorem run_bind (d : Dialogue α) (f : α → Dialogue β) (s : σ) :
    (d >>= f).run answer s = (f (d.run answer s).1).run answer (d.run answer s).2 := by
  induction d generalizing s with
  | done a => rfl
  | ask r next ih => exact ih _ _

end

end Dialogue

end MentalPoker
