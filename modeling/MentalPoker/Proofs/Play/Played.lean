/-
Deals that are played to their end. A round of turns at everything is part of a run with restarts, as long
as every address has one process; so the rounds after which the deal is over lead from two players who have
just come to a state that such a run reaches, with everything on the ledger and in their hands.
-/
import MentalPoker.Proofs.Play.Completion
import MentalPoker.Proofs.Play.Restarts

namespace MentalPoker

/-- A list of two whose first entry is known. -/
theorem eq_pair_of_perm {α : Type} {order : List α} {a b : α} (perm : order.Perm [a, b]) (head : order[0]? = some a) :
    order = [a, b] := by
  obtain ⟨x, y, rfl⟩ := List.length_eq_two.1 perm.length_eq
  obtain rfl : x = a := Option.some.inj head
  rw [List.perm_singleton.1 (List.perm_cons _ |>.1 perm)]

namespace Rules

variable {γ : Type} [RandomSource γ] {rules : Rules} {names : List Address} {called : List String}

/-! ## Rounds as parts of a run -/

theorem keeps_addresses (names : List Address) :
    Table.Keeps fun (players : List (Player γ)) _ => players.map (·.address) = names := by
  apply Table.keeps_of_acts
  rintro front back player next log later rfl act
  simp only [List.map_append, List.map_cons, act.same.address]

omit [RandomSource γ] in
/-- Where no address has two processes, the latest one of an address takes the turn. -/
theorem latest_of_nodup {table : Table γ} (distinct : (table.players.map (·.address)).Nodup) {id : String}
    {front back : List (Participant γ)} {player : Player γ}
    (split : table.participants = front ++ ⟨id, player⟩ :: back) : table.Latest id := by
  refine ⟨front, player, back, split, fun p member same => ?_⟩
  rw [Table.players, split, List.map_append, List.map_cons, List.map_append, List.map_cons] at distinct
  refine (List.nodup_cons.1 (List.nodup_append.1 distinct).2.1).1 ?_
  rw [← same]
  exact List.mem_map_of_mem (f := (·.address)) (List.mem_map_of_mem (f := (·.player)) member)

/-- Turns at everything are steps of a run with restarts. -/
theorem renews_ticks (distinct : names.Nodup) (ids : List String) : ∀ {table : Table γ},
    (table.Stands called fun players _ => players.map (·.address) = names) →
      Relation.ReflTransGen rules.Renews table (table.ticks ids) := by
  induction ids with
  | nil => exact fun _ => .refl
  | cons id ids ih =>
    intro table stands
    have rest := ih (stands.ticks (keeps_addresses names) [id])
    have first : Relation.ReflTransGen rules.Renews table (table.ticks [id]) := by
      cases moved : table.move? id .everything with
      | none => rw [Table.ticks_of_none moved]
      | some moving =>
        obtain ⟨front, back, player, -, split, -⟩ := Table.move?_takes stands.named moved
        have latest := latest_of_nodup (stands.holds.symm ▸ distinct) split
        rw [Table.ticks_of_some moved]
        exact .single (.moves latest table.line rfl moved)
    exact first.trans rest

/-- Rounds are parts of a run with restarts. -/
theorem renews_rounds (distinct : names.Nodup) (rounds : List (List String)) : ∀ {table : Table γ},
    (table.Stands called fun players _ => players.map (·.address) = names) →
      Relation.ReflTransGen rules.Renews table (rounds.foldl Table.ticks table) := by
  induction rounds with
  | nil => exact fun _ => .refl
  | cons ids rounds ih =>
    intro table stands
    exact (renews_ticks distinct ids stands).trans (ih (stands.ticks (keeps_addresses names) ids))

/-! ## Two players at the end of their deal -/

/-- Alice and Bob after six rounds. -/
def twoPlayed : Table (Seeded id) := sixRounds.foldl Table.ticks twoPlayers

theorem stands_twoPlayers :
    twoPlayers.Stands ["a", "b"] (forTwo.Whole (twoPlayers.players.map (·.address))) :=
  ⟨⟨gathering_two.named, rfl, rfl, rfl⟩, rfl, gathering_two.whole forTwo_valid⟩

theorem renewed_two : forTwo.Renewed twoPlayed := by
  let alone : Table (Seeded id) := Table.empty.place ⟨"a", playerOfTwo "alice" none⟩
  have first : forTwo.Renews .empty alone := .arrives rfl _ _
  have absent : alone.player? "b" = none := by decide +kernel
  have second : forTwo.Renews alone twoPlayers := .arrives absent _ _
  refine ⟨.empty, ⟨rfl, fun _ => rfl⟩, ((Relation.ReflTransGen.single first).tail second).trans ?_⟩
  exact renews_rounds gathering_two.distinct sixRounds (stands_twoPlayers.mono fun whole => whole.gathered.addresses)

/-- What the two have come to. -/
theorem over_two : ∃ plan : Plan, plan.Fits forTwo ∧ twoPlayed.Stands ["a", "b"] fun players log =>
    (forTwo.Equipped [⟨"alice"⟩, ⟨"bob"⟩] plan players log ∧ log.senders (forTwo.category .decrypt) ≠ []) ∧
      ∀ p ∈ players, p.Over := by
  have shared : ∀ p ∈ twoPlayers.players, ∀ q ∈ twoPlayers.players,
      (Cipher.sharedFactor q.pair.publicKey p.pair.secretKey).isOk = true := by decide +kernel
  exact over_rounds forTwo_valid gathering_two.distinct rfl gathering_two.creator stands_twoPlayers rfl
    everybody_sixRounds rfl fun p first q second _ => Cipher.exists_factor_of_isOk (shared p first q second)

/-- For both the deal is over, and they have all else that they should have. -/
theorem players_two : ∃ alice bob, twoPlayed.players = [alice, bob] ∧
    alice.address = ⟨"alice"⟩ ∧ bob.address = ⟨"bob"⟩ ∧ ∀ p ∈ twoPlayed.players, p.Over ∧ p.keys.isSome = true ∧
      p.address ∈ forTwo.seats twoPlayed.log ∧ p.session.isFull = true := by
  obtain ⟨plan, fits, stands⟩ := over_two
  obtain ⟨⟨equipped, -⟩, ended⟩ := stands.holds
  have addresses := equipped.gathered.addresses
  obtain ⟨alice, bob, pair⟩ := List.length_eq_two.1 ((List.length_map _).symm.trans (congrArg List.length addresses))
  rw [pair] at addresses
  obtain ⟨first, rest⟩ := List.cons.inj addresses
  refine ⟨alice, bob, pair, first, List.head_eq_of_cons_eq rest, fun p member =>
    ⟨ended p member, equipped.held p member, equipped.seats ▸ equipped.seated member, ?_⟩⟩
  obtain ⟨sees, -⟩ := equipped.view forTwo_valid member (equipped.held p member)
  rw [Session.isFull, (equipped.knows p member).told.limit, sees, fits.full]
  decide

/-- There is a name for whoever else comes. -/
theorem absent_two : twoPlayed.player? "c" = none := by
  obtain ⟨plan, -, stands⟩ := over_two
  have called : ∀ p ∈ twoPlayed.participants, p.id ∈ ["a", "b"] :=
    fun p inside => stands.called ▸ List.mem_map_of_mem inside
  rw [Table.player?, Option.map_eq_none_iff, List.find?_eq_none]
  intro p inside same
  have listed := called p inside
  rw [beq_iff_eq.1 same] at listed
  exact absurd listed (by decide)

/-- Alice deals, and Bob comes next. -/
theorem rotation_two : forTwo.rotation? twoPlayed.log = some [⟨"alice"⟩, ⟨"bob"⟩] := by
  obtain ⟨plan, fits, stands⟩ := over_two
  have equipped := stands.holds.1.1
  have rotation := equipped.rotation fits
  have table : plan.seats.Perm [⟨"alice"⟩, ⟨"bob"⟩] :=
    (List.perm_ext_iff_of_nodup fits.nodup (by decide)).2 equipped.everybody
  have head : plan.order[0]? = some forTwo.creator := Circle.rotation_head fits.rotation
  rw [rotation, eq_pair_of_perm ((Circle.rotation_perm fits.rotation).trans table) head]

/-- Both have added their layer, and Bob has removed one. -/
theorem filed_two : twoPlayed.log.senders (forTwo.category .shuffle) = [⟨"alice"⟩, ⟨"bob"⟩] ∧
    twoPlayed.log.senders (forTwo.category .decrypt) = [⟨"bob"⟩] := by
  obtain ⟨plan, -, stands⟩ := over_two
  obtain ⟨⟨equipped, decrypted⟩, -⟩ := stands.holds
  obtain ⟨chain, second, place, closed⟩ := equipped.history.ordered.closed decrypted _ rotation_two
  obtain rfl : (⟨"bob"⟩ : Address) = second := Option.some.inj place
  exact ⟨chain, closed⟩

end Rules

end MentalPoker
