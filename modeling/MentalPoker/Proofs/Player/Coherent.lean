/-
What a player has learned stays learned. Every change fills in what was missing and leaves the rest, so
that a later state extends an earlier one; and what a player checks before it changes holds from then on,
because seats are only taken and never given up.
-/
import MentalPoker.Proofs.Game.KeyRing
import MentalPoker.Proofs.Player.Change

namespace MentalPoker

namespace Player

variable {γ : Type} {player next last : Player γ}

/-! ## Extension -/

/-- Whatever a player had, it has later, and who sat then sits in the same seat. -/
structure Extends (player next : Player γ) : Prop where
  keys : ∀ keys, player.keys = some keys → next.keys = some keys
  ring : ∀ a key, player.ring.get? a = some key → next.ring.get? a = some key
  finished : ∀ deck, player.finishedDeck = some deck → next.finishedDeck = some deck
  hand : player.session.hand ≠ [] → next.session.hand = player.session.hand
  players : player.session.players <+: next.session.players

theorem Extends.refl (player : Player γ) : player.Extends player :=
  ⟨fun _ h => h, fun _ _ h => h, fun _ h => h, fun _ => rfl, List.prefix_rfl⟩

theorem Extends.trans (first : player.Extends next) (second : next.Extends last) : player.Extends last where
  keys keys held := second.keys keys (first.keys keys held)
  ring a key known := second.ring a key (first.ring a key known)
  finished deck seen := second.finished deck (first.finished deck seen)
  hand served := by
    have kept := first.hand served
    exact (second.hand (kept ▸ served)).trans kept
  players := first.players.trans second.players

/-- A player that has seated people has the seats of before, and the new ones behind them. -/
theorem seated_players (player : Player γ) (joined : List Address) :
    (player.seated joined).session.players = (player.session.seatAll joined).players := by
  obtain ⟨dealer, same, -⟩ := player.seated_eq joined
  rw [same]

end Player

section

variable {γ : Type} {player next : Player γ}

theorem Change.same (change : Change player next) : player.Same next := by
  cases change with
  | seats joined => exact player.seated_same joined
  | observes _ observed =>
    subst observed
    exact ⟨rfl, rfl, rfl, rfl, rfl, rfl, rfl⟩
  | _ => exact ⟨rfl, rfl, rfl, rfl, rfl, rfl, rfl⟩

theorem Change.extends (change : Change player next) : player.Extends next := by
  have same := Player.Extends.refl player
  cases change with
  | seats joined =>
    obtain ⟨players, seated⟩ := player.session.seatAll_eq joined
    have more := player.session.seatAll_prefix joined
    obtain ⟨dealer, become, -⟩ := player.seated_eq joined
    rw [become, seated]
    exact ⟨same.keys, same.ring, same.finished, same.hand, by rwa [seated] at more⟩
  | draws => exact ⟨same.keys, same.ring, same.finished, same.hand, same.players⟩
  | keepsKeys _ _ _ none => exact ⟨fun _ held => (by cases none.symm.trans held), same.ring, same.finished,
      same.hand, same.players⟩
  | learns => exact ⟨same.keys, fun _ _ known => KeyRing.get?_record known, same.finished, same.hand, same.players⟩
  | finishes none => exact ⟨same.keys, same.ring, fun _ seen => (by cases none.symm.trans seen), same.hand,
      same.players⟩
  | deals _ empty => exact ⟨same.keys, same.ring, same.finished, fun served => absurd empty served, same.players⟩
  | observes _ observed =>
    subst observed
    exact ⟨same.keys, same.ring, same.finished, same.hand, same.players⟩

end

namespace Player

variable {γ : Type} {player next : Player γ}

theorem Becomes.same (becomes : player.Becomes next) : player.Same next := by
  induction becomes with
  | refl => exact .refl player
  | tail _ change ih => exact ih.trans change.same

theorem Becomes.extends (becomes : player.Becomes next) : player.Extends next := by
  induction becomes with
  | refl => exact .refl player
  | tail _ change ih => exact ih.trans change.extends

/-! ## Coherence -/

theorem SeesTable.later (sees : player.SeesTable) (same : player.Same next)
    (more : player.session.players <+: next.session.players) : next.SeesTable := by
  rw [SeesTable, same.config]
  exact sees.trans more.length_le

/-- The seats are those of one table, the first one the creator's; whoever has a pair sits at the whole
table; and every key on the ring was announced by another one there. -/
structure Coherent (player : Player γ) : Prop where
  limit : player.session.seats = some (max player.config.minPlayers 1)
  fits : player.session.players.length ≤ max player.config.minPlayers 1
  creator : [player.session.creator] <+: player.session.players
  keys : player.keys.isSome → player.SeesTable ∧ player.address ∈ player.session.players
  ring : ∀ a key, (a, key) ∈ player.ring.entries → player.SeesTable ∧ a ∈ player.session.players ∧
    a ≠ player.address ∧ ∃ payload, Payload.key payload = .ok key
  once : player.ring.names.Nodup

namespace Coherent

/-- A table whose seats are taken is full. -/
theorem isFull_iff (coherent : player.Coherent) :
    player.session.isFull = true ↔ max player.config.minPlayers 1 ≤ player.session.players.length := by
  simp [Session.isFull, coherent.limit]

theorem isFull_of_seesTable (coherent : player.Coherent) (sees : player.SeesTable) :
    player.session.isFull = true := by
  rw [coherent.isFull_iff]
  unfold SeesTable at sees
  omega

/-- At a full table nobody takes a seat any more. -/
theorem frozen (coherent : next.Coherent) (same : player.Same next) (more : player.Extends next)
    (full : max player.config.minPlayers 1 ≤ player.session.players.length) :
    next.session.players = player.session.players := by
  refine (more.players.eq_of_length_le (coherent.fits.trans ?_)).symm
  rwa [same.config]

/-- More of the table may be known, as long as the rest is accounted for. -/
theorem grow (coherent : player.Coherent) (same : player.Same next)
    (more : player.session.players <+: next.session.players)
    (fits : next.session.players.length ≤ max player.config.minPlayers 1)
    (keys : next.keys.isSome → player.keys.isSome ∨ player.SeesTable ∧ player.address ∈ player.session.players)
    (ring : ∀ a key, (a, key) ∈ next.ring.entries → (a, key) ∈ player.ring.entries ∨ player.SeesTable ∧
      a ∈ player.session.players ∧ a ≠ player.address ∧ ∃ payload, Payload.key payload = .ok key)
    (once : next.ring.names.Nodup) : next.Coherent where
  limit := by rw [same.limit, same.config, coherent.limit]
  fits := by rwa [same.config]
  creator := by
    rw [same.creator]
    exact coherent.creator.trans more
  keys held := by
    obtain ⟨sees, seated⟩ := (keys held).elim coherent.keys id
    exact ⟨sees.later same more, same.address ▸ more.subset seated⟩
  ring a key known := by
    obtain ⟨sees, seated, other, read⟩ := (ring a key known).elim (coherent.ring a key) id
    exact ⟨sees.later same more, more.subset seated, same.address ▸ other, read⟩
  once := once

end Coherent

end Player

section

variable {γ : Type} {player next : Player γ}

theorem Change.coherent (change : Change player next) (coherent : player.Coherent) : next.Coherent := by
  have known (a : Address) (key : Point) (h : (a, key) ∈ player.ring.entries) : (a, key) ∈ player.ring.entries ∨
      player.SeesTable ∧ a ∈ player.session.players ∧ a ≠ player.address ∧
        ∃ payload, Payload.key payload = .ok key := .inl h
  have same := change.same
  have more := change.extends.players
  cases change with
  | seats joined =>
    have fits := Session.seatAll_length_le joined coherent.limit coherent.fits
    rw [← player.seated_players joined] at fits
    obtain ⟨dealer, become, -⟩ := player.seated_eq joined
    refine coherent.grow same more fits ?_ ?_ ?_
    all_goals rw [become]
    · exact .inl
    · exact known
    · exact coherent.once
  | draws => exact coherent.grow same more coherent.fits .inl known coherent.once
  | keepsKeys seated sees => exact coherent.grow same more coherent.fits (fun _ => .inr ⟨sees, seated⟩) known coherent.once
  | learns sees seated notSelf read =>
    refine coherent.grow same more coherent.fits .inl (fun a key member => ?_) (KeyRing.nodup_record coherent.once)
    refine (KeyRing.mem_record member).imp_right ?_
    rintro ⟨⟩
    exact ⟨sees, seated, notSelf, _, read⟩
  | finishes => exact coherent.grow same more coherent.fits .inl known coherent.once
  | deals => exact coherent.grow same more coherent.fits .inl known coherent.once
  | observes _ observed =>
    subst observed
    exact coherent.grow same more coherent.fits .inl known coherent.once

end

namespace Player

variable {γ : Type} {player next : Player γ}

theorem Becomes.coherent (becomes : player.Becomes next) (coherent : player.Coherent) : next.Coherent := by
  induction becomes with
  | refl => exact coherent
  | tail _ change ih => exact change.coherent ih

end Player

end MentalPoker
