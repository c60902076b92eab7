/-
What players do, one act at a time. An act changes the player, or appends a transaction, or both at
once where they belong together, and it names everything the player has checked before.
-/
import MentalPoker.Game.Role
import MentalPoker.Proofs.Game.Seating
import MentalPoker.Proofs.Player.Ensures
import MentalPoker.Proofs.Wire.RoundTrip
import Mathlib.Logic.Relation

namespace MentalPoker

namespace Player

variable {γ : Type}

theorem isSeated_iff {player : Player γ} : player.isSeated = true ↔ player.address ∈ player.session.players :=
  decide_eq_true_iff

/-- The player once everybody is seated who has joined. -/
def seated (player : Player γ) (joined : List Address) : Player γ :=
  let session := player.session.seatAll joined
  { player with session := match player.preferredDealer with
    | none => session
    | some dealer => (session.setDealer dealer).toOption.getD session }

end Player

/-- A player and the log of the ledger it talks to. -/
structure Scene (γ : Type) where
  player : Player γ
  log : Log

namespace Scene

variable {γ : Type} (c : Conditions) (scene : Scene γ)

/-- The player has looked at the log before others brought it to what it is now. -/
def Saw (P : Log → Prop) : Prop := ∃ seen, c.others seen scene.log ∧ P seen

/-- The player has found no transaction of its own for the step. -/
def Unfiled (step : Step) : Prop :=
  scene.Saw c fun log => scene.player.address ∉ log.senders (scene.player.category step)

/-- The player has looked up the transaction of somebody for a step. -/
def Found (step : Step) (sender : Address) (payload : Bytes) : Prop :=
  scene.Saw c fun log => log.payload? (scene.player.category step) sender = some payload

/-- The player appends its transaction for a step. -/
def file (signer : Signer) (step : Step) (recipients : List Address) (payload : Bytes) : Scene γ :=
  ⟨scene.player, scene.log ++
    [Log.filing scene.log signer (scene.player.category step) recipients payload]⟩

/-- The player's view of the table is full. -/
def Full : Prop := max scene.player.config.minPlayers 2 ≤ scene.player.session.players.length

/-- The player may announce the pair it draws, with the given message. -/
structure Announces [RandomSource γ] (signer : Signer) (keys : KeyPair) (source : γ) (message : KeyMessage) : Prop where
  signs : scene.player.signer = some signer
  none : scene.player.keys = none
  full : scene.Full
  seated : scene.player.address ∈ scene.player.session.players
  unfiled : scene.Unfiled c .publicKey
  drawn : KeyPair.generate scene.player.source = (keys, source)
  message : KeyMessage.ofPoint keys.publicKey = .ok message

/-- The deck that the player is to shuffle. -/
inductive Input : Deck Scalar → Prop
  /-- The dealer opens the chain once it has the keys of all others. -/
  | opens (deals : scene.player.address = scene.player.session.dealer)
      (complete : scene.player.session.keysComplete scene.player.ring = true) :
      Input Deck.plain.encode
  /-- Everybody else goes on with the deck of its predecessor. -/
  | follows {predecessor : Address} {payload : Bytes} {deck : Deck Scalar}
      (follows : scene.player.address ≠ scene.player.session.dealer)
      (before : Circle.previous? scene.player.session.players scene.player.address = some predecessor)
      (found : scene.Found c .shuffle predecessor payload)
      (read : Payload.deck payload = .ok deck) : Input deck

/-- The player may file a deck under its new layer. -/
structure Shuffles (signer : Signer) (deck : Deck Scalar) : Prop where
  signs : scene.player.signer = some signer
  seated : scene.player.address ∈ scene.player.session.players
  unfiled : scene.Unfiled c .shuffle
  layered : ∃ keys input successor key, ∃ shuffled : Deck Scalar, scene.player.keys = some keys ∧
    scene.Input c input ∧ shuffled.entries.Perm input.entries ∧
    Circle.next? scene.player.session.players scene.player.address = some successor ∧
    scene.player.ring.get? successor = some key ∧ shuffled.encrypt key keys.secretKey = .ok deck

/-- The player may file the finished deck without a layer. -/
structure Decrypts (signer : Signer) (deck : Deck Scalar) : Prop where
  signs : scene.player.signer = some signer
  decryptor : scene.player.session.decryptor? = some scene.player.address
  unfiled : scene.Unfiled c .decrypt
  bared : ∃ keys finished successor key, scene.player.keys = some keys ∧
    scene.player.finishedDeck = some finished ∧
    Circle.next? scene.player.session.players scene.player.address = some successor ∧
    scene.player.ring.get? successor = some key ∧ finished.decrypt key keys.secretKey = .ok deck

end Scene

/-- One act of a player, or of the others. -/
inductive Act {γ : Type} [RandomSource γ] (c : Conditions) : Scene γ → Scene γ → Prop
  | others {player : Player γ} {log later : Log} (h : c.others log later) :
      Act c ⟨player, log⟩ ⟨player, later⟩
  /-- Whoever has no pair draws only its pair, to lose it when the request fails. -/
  | draws {player : Player γ} {log : Log} (source : γ) (draws : player.keys.isSome ∨ c.fails ∨
      ∃ e, KeyMessage.ofPoint (KeyPair.generate player.source).1.publicKey = .error e) :
      Act c ⟨player, log⟩ ⟨{ player with source }, log⟩
  | joins {scene : Scene γ} {signer : Signer} (signs : scene.player.signer = some signer)
      (newcomer : scene.player.address ≠ scene.player.session.creator)
      (unfiled : scene.Unfiled c .join) :
      Act c scene (scene.file signer .join [scene.player.session.creator] [])
  | seats {player : Player γ} {log : Log} :
      Act c ⟨player, log⟩
        ⟨player.seated (log.sendersTo (player.category .join) player.session.creator), log⟩
  /-- The reply is lost, and the pair with it. -/
  | losesKeys {player : Player γ} {log : Log} {signer : Signer} {keys : KeyPair} {source : γ}
      {message : KeyMessage} (h : (Scene.mk player log).Announces c signer keys source message)
      (loses : c.loses (player.category .publicKey)) :
      Act c ⟨player, log⟩ (Scene.file ⟨{ player with source }, log⟩ signer .publicKey
        player.session.players message.toBytes)
  | keepsKeys {player : Player γ} {log : Log} {signer : Signer} {keys : KeyPair} {source : γ}
      {message : KeyMessage} (h : (Scene.mk player log).Announces c signer keys source message) :
      Act c ⟨player, log⟩ (Scene.file ⟨{ player with keys := some keys, source }, log⟩ signer .publicKey
        player.session.players message.toBytes)
  | learns {player : Player γ} {log : Log} {other : Address} {payload : Bytes} {key : Point}
      (full : (Scene.mk player log).Full) (seated : other ∈ player.session.players)
      (notSelf : other ≠ player.address)
      (found : log.payload? (player.category .publicKey) other = some payload)
      (read : Payload.key payload = .ok key) :
      Act c ⟨player, log⟩ ⟨{ player with ring := (player.ring.record other key).2 }, log⟩
  | shuffles {scene : Scene γ} {signer : Signer} {deck : Deck Scalar}
      (h : scene.Shuffles c signer deck) :
      Act c scene (scene.file signer .shuffle scene.player.session.players
        (DeckMessage.ofDeck deck).toBytes)
  | finishes {player : Player γ} {log : Log} {last : Address} {payload : Bytes} {deck : Deck Scalar}
      (none : player.finishedDeck = none) (finishes : player.session.finalShuffler? = some last)
      (found : log.payload? (player.category .shuffle) last = some payload)
      (read : Payload.deck payload = .ok deck) (several : 2 ≤ player.session.players.length) :
      Act c ⟨player, log⟩ ⟨{ player with finishedDeck := some deck }, log⟩
  | decrypts {scene : Scene γ} {signer : Signer} {deck : Deck Scalar}
      (h : scene.Decrypts c signer deck) :
      Act c scene (scene.file signer .decrypt scene.player.session.players
        (DeckMessage.ofDeck deck).toBytes)
  | deals {player : Player γ} {log : Log} {decryptor : Address} {payload : Bytes}
      {deck : Deck Scalar} {hand : List Scalar}
      (decrypts : player.session.decryptor? = some decryptor)
      (found : log.payload? (player.category .decrypt) decryptor = some payload)
      (read : Payload.deck payload = .ok deck)
      (dealt : player.session.dealtHand? player.address deck player.config.cardsPerPlayer = some hand)
      (apart : decryptor ≠ player.session.dealer) :
      Act c ⟨player, log⟩ ⟨{ player with session := (player.session.setHand hand).2 }, log⟩
  | observes {player : Player γ} {log : Log} (phase announced : Phase)
      (observed : phase = (player.session.observe player.progress player.config.minPlayers).phase) :
      Act c ⟨player, log⟩ ⟨{ player with session := { player.session with phase }, announced }, log⟩

/-- A player gets from one scene to another by acts. -/
abbrev Course {γ : Type} [RandomSource γ] (c : Conditions) : Scene γ → Scene γ → Prop := Relation.ReflTransGen (Act c)

/-! ## What all acts have in common -/

/-- What a player was given, apart from its source, is the same. -/
structure Player.Same {γ : Type} (player next : Player γ) : Prop where
  config : next.config = player.config
  address : next.address = player.address
  signer : next.signer = player.signer
  dealer : next.preferredDealer = player.preferredDealer
  game : next.session.game = player.session.game
  creator : next.session.creator = player.session.creator
  limit : next.session.seats = player.session.seats

section

variable {γ : Type} {c : Conditions} {player next : Player γ} {log later : Log}

theorem Player.Same.refl (player : Player γ) : player.Same player := ⟨rfl, rfl, rfl, rfl, rfl, rfl, rfl⟩

theorem Player.Same.trans {last : Player γ} (first : player.Same next) (second : next.Same last) :
    player.Same last :=
  ⟨second.config.trans first.config, second.address.trans first.address, second.signer.trans first.signer,
    second.dealer.trans first.dealer, second.game.trans first.game, second.creator.trans first.creator,
    second.limit.trans first.limit⟩

theorem Player.Same.category (same : player.Same next) (step : Step) :
    next.category step = player.category step := by
  rw [Player.category, same.config, same.game, Player.category]

theorem Player.seated_same (player : Player γ) (joined : List Address) :
    player.Same (player.seated joined) := by
  obtain ⟨players, all⟩ := player.session.seatAll_eq joined
  unfold seated
  rw [all]
  cases wish : player.preferredDealer with
  | none => exact ⟨rfl, rfl, rfl, wish.symm, rfl, rfl, rfl⟩
  | some dealer =>
    dsimp only [Session.setDealer]
    split <;> exact ⟨rfl, rfl, rfl, wish.symm, rfl, rfl, rfl⟩

section

variable [RandomSource γ]

theorem Act.same (act : Act c ⟨player, log⟩ ⟨next, later⟩) : player.Same next := by
  cases act with
  | seats => exact player.seated_same _
  | deals =>
    unfold Session.setHand
    split <;> exact ⟨rfl, rfl, rfl, rfl, rfl, rfl, rfl⟩
  | _ => exact ⟨rfl, rfl, rfl, rfl, rfl, rfl, rfl⟩

theorem Course.same {scene after : Scene γ} (course : Course c scene after) :
    scene.player.Same after.player := by
  induction course with
  | refl => exact .refl _
  | tail _ act ih => exact ih.trans act.same

/-- An act leaves the ledger to the others, or as it is, or files a transaction for a step for which the
player has found none of its own. -/
theorem Act.files (act : Act c ⟨player, log⟩ ⟨next, later⟩) :
    c.others log later ∨ later = log ∨ ∃ signer step recipients payload, player.signer = some signer ∧
      (Scene.mk player log).Unfiled c step ∧
      (step = .join → player.address ≠ player.session.creator) ∧
      later = log ++ [Log.filing log signer (player.category step) recipients payload] := by
  cases act with
  | others h => exact .inl h
  | draws | seats | learns | finishes | deals | observes => exact .inr (.inl rfl)
  | joins signs newcomer unfiled =>
    exact .inr (.inr ⟨_, _, _, _, signs, unfiled, fun _ => newcomer, rfl⟩)
  | losesKeys h => exact .inr (.inr ⟨_, _, _, _, h.signs, h.unfiled, nofun, rfl⟩)
  | keepsKeys h => exact .inr (.inr ⟨_, _, _, _, h.signs, h.unfiled, nofun, rfl⟩)
  | shuffles h => exact .inr (.inr ⟨_, _, _, _, h.signs, h.unfiled, nofun, rfl⟩)
  | decrypts h => exact .inr (.inr ⟨_, _, _, _, h.signs, h.unfiled, nofun, rfl⟩)

/-! ## Worse conditions -/

variable {worse : Conditions} {scene after : Scene γ}

omit [RandomSource γ] in
theorem Scene.Saw.mono (le : c.Le worse) {P : Log → Prop} (h : scene.Saw c P) : scene.Saw worse P := by
  obtain ⟨seen, others, holds⟩ := h
  exact ⟨seen, le.others others, holds⟩

theorem Scene.Announces.mono (le : c.Le worse) {signer : Signer} {keys : KeyPair} {source : γ}
    {message : KeyMessage} (h : scene.Announces c signer keys source message) :
    scene.Announces worse signer keys source message :=
  { h with unfiled := h.unfiled.mono le }

omit [RandomSource γ] in
theorem Scene.Input.mono (le : c.Le worse) {deck : Deck Scalar} (h : scene.Input c deck) :
    scene.Input worse deck := by
  cases h with
  | opens deals complete => exact .opens deals complete
  | follows follows before found read => exact .follows follows before (found.mono le) read

omit [RandomSource γ] in
theorem Scene.Shuffles.mono (le : c.Le worse) {signer : Signer} {deck : Deck Scalar}
    (h : scene.Shuffles c signer deck) : scene.Shuffles worse signer deck := by
  obtain ⟨signs, seated, unfiled, keys, input, successor, key, shuffled, held, inputs, rest⟩ := h
  exact ⟨signs, seated, unfiled.mono le, keys, input, successor, key, shuffled, held, inputs.mono le, rest⟩

/-- What a player does under some conditions it may do under worse ones. -/
theorem Act.mono (le : c.Le worse) (act : Act c scene after) : Act worse scene after := by
  cases act with
  | others h => exact .others (le.others h)
  | draws source draws => exact .draws source (draws.imp_right (Or.imp_left le.fails))
  | joins signs newcomer unfiled => exact .joins signs newcomer (unfiled.mono le)
  | seats => exact .seats
  | losesKeys h loses => exact .losesKeys (h.mono le) (le.loses loses)
  | keepsKeys h => exact .keepsKeys (h.mono le)
  | learns full seated notSelf found read => exact .learns full seated notSelf found read
  | shuffles h => exact .shuffles (h.mono le)
  | finishes none finishes found read several => exact .finishes none finishes found read several
  | decrypts h => exact .decrypts { h with unfiled := h.unfiled.mono le }
  | deals decrypts found read dealt apart => exact .deals decrypts found read dealt apart
  | observes phase announced observed => exact .observes phase announced observed

end

end

end MentalPoker
