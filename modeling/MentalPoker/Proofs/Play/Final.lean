/-
What a player has learned is final. A ledger may say anything, and something else each time it is asked,
or fail: a player keeps its pair, the keys of the others, the finished deck and its hand as it first had
them, and once it has drawn a pair neither the seats nor the dealer change any more.
-/
import MentalPoker.Proofs.Play.Knowledge
import MentalPoker.Proofs.Player.Coherent
import MentalPoker.Random.Seeded

namespace MentalPoker

/-! ## The dealer and the source -/

namespace Player

variable {γ : Type} {player next : Player γ}

/-- Who deals is the one who is wished for, once that one sits. -/
def Dealt (player : Player γ) : Prop :=
  player.session.dealer = Session.dealerOf player.preferredDealer player.session.creator player.session.players

theorem Dealt.seated (dealt : player.Dealt) (joined : List Address) : (player.seated joined).Dealt := by
  have more := player.session.seatAll_players_subset joined
  obtain ⟨players, seatedAll⟩ := player.session.seatAll_eq joined
  obtain ⟨dealer, become, kept, wished⟩ := player.seated_eq joined
  rw [seatedAll] at become kept wished more
  unfold Dealt Session.dealerOf at dealt ⊢
  rw [become]
  cases wish : player.preferredDealer with
  | none =>
    simp only [wish, reduceCtorEq, false_and, or_false] at dealt kept
    exact kept.trans dealt
  | some other =>
    simp only [wish] at dealt ⊢
    by_cases sits : other ∈ players
    · rw [if_pos sits]
      exact wished other wish sits
    · rw [if_neg sits]
      rw [if_neg fun early => sits (more early)] at dealt
      rcases kept with same | ⟨same, early⟩
      · exact same.trans dealt
      · exact absurd (Option.some.inj (wish.symm.trans same) ▸ early) sits

theorem Dealt.mem (dealt : player.Dealt) (coherent : player.Coherent) :
    player.session.dealer ∈ player.session.players := by
  rw [Dealt] at dealt
  rw [dealt]
  exact Session.dealerOf_mem (coherent.creator.subset List.mem_cons_self)

end Player

section

variable {γ : Type} {player next : Player γ}

theorem Change.dealt (change : Change player next) (dealt : player.Dealt) : next.Dealt := by
  cases change with
  | seats joined => exact dealt.seated joined
  | observes _ observed =>
    subst observed
    exact dealt
  | _ => exact dealt

/-- A source is drawn from at a table that is known. -/
theorem Change.source (change : Change player next) (coherent : player.Coherent) :
    next.source = player.source ∨ player.SeesTable := by
  cases change with
  | seats joined =>
    obtain ⟨dealer, become, -⟩ := player.seated_eq joined
    exact .inl (by rw [become])
  | draws _ ready => exact .inr (ready.elim (fun held => (coherent.keys held).1) id)
  | _ => exact .inl rfl

end

namespace Player

variable {γ : Type} {player next : Player γ}

theorem Becomes.dealt (becomes : player.Becomes next) (dealt : player.Dealt) : next.Dealt := by
  induction becomes with
  | refl => exact dealt
  | tail _ change ih => exact change.dealt ih

theorem Becomes.source (becomes : player.Becomes next) (coherent : player.Coherent) :
    next.source = player.source ∨ next.SeesTable := by
  induction becomes with
  | refl => exact .inl rfl
  | tail before change ih =>
    have sees (early : SeesTable _) := SeesTable.later early change.same change.extends.players
    rcases ih with same | early
    · exact (change.source (Becomes.coherent before coherent)).imp (fun now => now.trans same) sees
    · exact .inr (sees early)

end Player

/-! ## Runs -/

namespace Rules

section

variable {γ : Type} {rules : Rules} {player : Player γ}

/-- A player that has just arrived has nothing to account for. -/
theorem Fresh.coherent (fresh : rules.Fresh player) : player.Coherent := by
  obtain ⟨players, -, -, keys, ring, -⟩ := fresh.blank
  have told := fresh.told
  refine ⟨by rw [told.limit, told.config], ?_, ?_, ?_, ?_, ?_⟩
  · rw [players]
    exact Nat.le_max_right _ 1
  · rw [players, told.creator]
  · simp [keys]
  · simp [ring, KeyRing.empty]
  · simp [ring, KeyRing.names, KeyRing.empty]

theorem Fresh.dealt (fresh : rules.Fresh player) : player.Dealt := by
  obtain ⟨players, dealer, -⟩ := fresh.blank
  rw [Player.Dealt, players, dealer, fresh.told.creator, dealerOf_singleton]

end

/-- Whatever a player is answered, what it has learned is final; its keys are those of others at the table;
the seats stay once all are taken, and the dealer once the one who is wished for deals; and whoever has
drawn a pair sees the whole table, and always will. -/
theorem learned_is_final {γ : Type} [RandomSource γ] {rules : Rules} {start player next : Player γ}
    (fresh : rules.Fresh start) (reached : Relation.ReflTransGen Player.Endures start player)
    (later : Relation.ReflTransGen Player.Endures player next) :
    player.Extends next ∧
    (∀ a key, player.ring.get? a = some key → a ∈ player.session.players ∧ a ≠ player.address ∧
      key ≠ .infinity ∧ ∃ message : KeyMessage, message.point = .ok key) ∧
    (max rules.config.minPlayers 1 ≤ player.session.players.length →
      next.session.players = player.session.players) ∧
    player.session.dealer ∈ player.session.players ∧
    (next.session.dealer ≠ player.session.dealer →
      player.session.dealer = rules.creator ∧ rules.dealer = some next.session.dealer) ∧
    (player.keys.isSome ∨ player.source ≠ start.source → player.session.isFull = true ∧
      next.session.players = player.session.players ∧ next.session.dealer = player.session.dealer) := by
  have before := Player.becomes_of_endures reached
  have becomes := Player.becomes_of_endures later
  have coherent := before.coherent fresh.coherent
  have dealt := before.dealt fresh.dealt
  have told := fresh.told.of_same before.same
  have more := becomes.extends
  have frozen := (becomes.coherent coherent).frozen becomes.same more
  have dealer : next.session.dealer =
      Session.dealerOf rules.dealer rules.creator next.session.players := by
    rw [becomes.dealt dealt, becomes.same.dealer, becomes.same.creator, told.dealer, told.creator]
  rw [Player.Dealt, told.dealer, told.creator] at dealt
  refine ⟨more, fun a key known => ?_, fun full => frozen (told.config ▸ full), ?_, fun changed => ?_,
    fun drawn => ?_⟩
  · obtain ⟨-, seated, other, payload, read⟩ := coherent.ring a key (KeyRing.mem_of_get? known)
    obtain ⟨affine, -, -, announced⟩ := Payload.point_of_key read
    exact ⟨seated, other, affine, announced⟩
  · exact (before.dealt fresh.dealt).mem coherent
  · rw [dealer, dealt] at changed
    rw [dealer, dealt]
    exact Session.dealerOf_grow more.players.subset changed
  · have sees : player.SeesTable := drawn.elim (fun held => (coherent.keys held).1)
      (before.source fresh.coherent).resolve_left
    have full := coherent.isFull_of_seesTable sees
    have players := frozen (coherent.isFull_iff.1 full)
    exact ⟨full, players, by rw [dealer, dealt, players]⟩

/-- A ledger that takes everything, says that these have joined, and has the payload from everybody but the
one who asks. -/
def hearsay (me : Address) (joined : List Address) (payload : Bytes) (request : Request) (asked : Unit) :
    request.Answer × Unit :=
  match request with
  | .publish .. => (.ok ⟨"filed"⟩, asked)
  | .latestBySender _ sender => (.ok (if sender = me then none else some payload), asked)
  | .sendersTo .. => (.ok joined, asked)

/-- A player after a move that is answered so. -/
def heed (answer : (request : Request) → Unit → request.Answer × Unit) (move : Move) (player : Player (Seeded id)) :
    Player (Seeded id) :=
  (move.turn.take answer player ()).2.1

theorem endures_heed (answer : (request : Request) → Unit → request.Answer × Unit) (move : Move)
    (player : Player (Seeded id)) : player.Endures (heed answer move player) :=
  .moves player move answer ()

/-- Two have joined, and all others have announced the same key. -/
def tableTalk : (request : Request) → Unit → request.Answer × Unit :=
  hearsay ⟨"bob"⟩ [⟨"bob"⟩, ⟨"carol"⟩]
    (((KeyMessage.ofPoint (KeyPair.ofSecret 1).publicKey).toOption.map (·.toBytes)).getD [])

/-- Somebody else has joined instead, and what the others have filed cannot be read. -/
def denial : (request : Request) → Unit → request.Answer × Unit := hearsay ⟨"bob"⟩ [⟨"mallory"⟩] []

/-- Somebody who is about to join a game for three. -/
def joiner : Player (Seeded id) :=
  .new forThree.config ⟨⟨"bob"⟩, []⟩ forThree.game forThree.creator ⟨[], 0⟩

theorem fresh_joiner : forThree.Fresh joiner := .plays _ _

/-- The joiner at the table, with a pair and the keys of both others. -/
def ledOn : Player (Seeded id) := heed tableTalk .exchangeKeys (heed tableTalk .updateSession joiner)

theorem endures_ledOn : Relation.ReflTransGen Player.Endures joiner ledOn :=
  (Relation.ReflTransGen.single (endures_heed tableTalk .updateSession joiner)).tail
    (endures_heed tableTalk .exchangeKeys _)

/-- The ledger goes back on what it said once the player has its pair. -/
theorem learned_is_final_denied : ledOn.keys.isSome ∧
    ledOn.session.players = [⟨"alice"⟩, ⟨"bob"⟩, ⟨"carol"⟩] ∧
    (heed denial .everything ledOn).keys = ledOn.keys ∧
    (heed denial .everything ledOn).session.players = ledOn.session.players := by
  have learned : ledOn.keys.isSome ∧ ledOn.session.players = [⟨"alice"⟩, ⟨"bob"⟩, ⟨"carol"⟩] := by decide +kernel
  obtain ⟨more, -, -, -, -, stays⟩ :=
    learned_is_final fresh_joiner endures_ledOn (.single (endures_heed denial .everything ledOn))
  obtain ⟨keys, held⟩ := Option.isSome_iff_exists.1 learned.1
  exact ⟨learned.1, learned.2, (more.keys keys held).trans held.symm, (stays (.inl learned.1)).2.1⟩

end Rules

end MentalPoker
