/-
Turns. A turn is a dialogue of a player with the ledger that changes the player and comes to a
result or an error; after an error the changes made so far stand. `Turn.take` holds a turn against
whoever answers, and the lemmas say what becomes of each way to make a turn.
-/
import MentalPoker.Ledger.Dialogue
import MentalPoker.Player.Basic

namespace MentalPoker

/-- A dialogue of a player with the ledger. -/
abbrev Turn (γ : Type) := ExceptT DealError (StateT (Player γ) Dialogue)

namespace Turn

variable {γ α β : Type}

/-- Asks the ledger; its failure is the turn's. -/
def ask (request : Request) : Turn γ request.Value := fun player =>
  .ask request fun answer => .done (answer.mapError .ledger, player)

/-- Asks for the payload of the last transaction of a sender in a category. -/
def askLatest (category : Category) (sender : Address) : Turn γ (Option Bytes) :=
  ask (.latestBySender category sender)

/-- Asks who sent transactions of a category to a recipient. -/
def askSenders (category : Category) (recipient : Address) : Turn γ (List Address) :=
  ask (.sendersTo category recipient)

/-- Asks to append a transaction. -/
def askPublish (signer : Signer) (category : Category) (recipients : List Address)
    (payload : Bytes) : Turn γ TransactionId :=
  ask (.publish signer category recipients payload)

/-- Draws from the player's source. -/
def draw (f : γ → α × γ) : Turn γ α := fun player =>
  let (a, source) := f player.source
  .done (.ok a, { player with source })

/-- Goes on, whatever the turn came to. -/
def attempt (turn : Turn γ α) : Turn γ Unit :=
  tryCatch ((fun _ => ()) <$> turn) fun _ => pure ()

section

variable {σ : Type} (answer : (request : Request) → σ → request.Answer × σ)

/-- A turn of a player: what it came to, the player after it, and the state of whoever answered. -/
def take (turn : Turn γ α) (player : Player γ) (s : σ) : Except DealError α × Player γ × σ :=
  let ((result, player), s) := Dialogue.run answer (turn.run.run player) s
  (result, player, s)

variable (player : Player γ) (s : σ)

@[simp] theorem take_pure (a : α) : take answer (pure a) player s = (.ok a, player, s) := rfl

@[simp] theorem take_throw (e : DealError) :
    take answer (throw e : Turn γ α) player s = (.error e, player, s) := rfl

@[simp] theorem take_get : take answer get player s = (.ok player, player, s) := rfl

@[simp] theorem take_set (next : Player γ) :
    take answer (set next) player s = (.ok ⟨⟩, next, s) := rfl

@[simp] theorem take_modify (f : Player γ → Player γ) :
    take answer (modify f) player s = (.ok ⟨⟩, f player, s) := rfl

@[simp] theorem take_ofExcept (r : Except DealError α) :
    take answer (ofExcept r) player s = (r, player, s) := by
  cases r <;> rfl

@[simp] theorem take_askLatest (category : Category) (sender : Address) :
    take answer (askLatest category sender) player s =
      ((answer (.latestBySender category sender) s).1.mapError .ledger, player,
        (answer (.latestBySender category sender) s).2) := rfl

@[simp] theorem take_askSenders (category : Category) (recipient : Address) :
    take answer (askSenders category recipient) player s =
      ((answer (.sendersTo category recipient) s).1.mapError .ledger, player,
        (answer (.sendersTo category recipient) s).2) := rfl

@[simp] theorem take_askPublish (signer : Signer) (category : Category) (recipients : List Address)
    (payload : Bytes) :
    take answer (askPublish signer category recipients payload) player s =
      ((answer (.publish signer category recipients payload) s).1.mapError .ledger, player,
        (answer (.publish signer category recipients payload) s).2) := rfl

@[simp] theorem take_draw (f : γ → α × γ) :
    take answer (draw f) player s =
      (.ok (f player.source).1, { player with source := (f player.source).2 }, s) := rfl

/-- A turn after another is taken from where that one ended, unless it failed. -/
@[simp] theorem take_bind (turn : Turn γ α) (next : α → Turn γ β) :
    take answer (turn >>= next) player s =
      match take answer turn player s with
      | (.ok a, player, s) => take answer (next a) player s
      | (.error e, player, s) => (.error e, player, s) := by
  simp only [take, ExceptT.run_bind, StateT.run_bind, Dialogue.run_bind]
  rcases Dialogue.run answer (StateT.run (ExceptT.run turn) player) s with ⟨⟨_ | _, _⟩, _⟩ <;> rfl

@[simp] theorem take_map (f : α → β) (turn : Turn γ α) :
    take answer (f <$> turn) player s =
      ((take answer turn player s).1.map f, (take answer turn player s).2) := by
  rw [map_eq_pure_bind, take_bind]
  rcases take answer turn player s with ⟨_ | _, _, _⟩ <;> rfl

@[simp] theorem take_tryCatch (turn : Turn γ α) (handle : DealError → Turn γ α) :
    take answer (tryCatch turn handle) player s =
      match take answer turn player s with
      | (.ok a, player, s) => (.ok a, player, s)
      | (.error e, player, s) => take answer (handle e) player s := by
  simp only [take, ExceptT.run, StateT.run_bind, Dialogue.run_bind, tryCatch, tryCatchThe,
    MonadExceptOf.tryCatch, ExceptT.tryCatch, ExceptT.mk]
  rcases Dialogue.run answer (StateT.run turn player) s with ⟨⟨_ | _, _⟩, _⟩ <;> rfl

@[simp] theorem take_attempt (turn : Turn γ α) :
    take answer (attempt turn) player s = (.ok ⟨⟩, (take answer turn player s).2) := by
  rw [attempt, take_tryCatch, take_map]
  rcases take answer turn player s with ⟨_ | _, _, _⟩ <;> rfl

end

end Turn

end MentalPoker
