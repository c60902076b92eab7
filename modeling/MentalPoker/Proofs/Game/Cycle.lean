/-
The circle as a cycle. Going on to the next seat is a permutation of the seats, and going back to the one before is
its inverse. Everything else is told by it: the rotation is the way from the dealer on, and the distance of a player
is the number of steps, one at least and a whole turn at most, that lead from the dealer to it.
-/
import MentalPoker.Proofs.Game.Circle
import Mathlib.GroupTheory.Perm.List
import Mathlib.Data.List.Iterate
import Mathlib.Order.Interval.Set.Basic

namespace MentalPoker.Circle

variable {α : Type} [DecidableEq α] {players order : List α} {a b : α} {i j k : ℕ}

/-! ## Going on -/

/-- A seat, by who sits on it. -/
abbrev Seat (players : List α) : Type := {a // a ∈ players}

/-- Going on to the next seat. -/
def turn (players : List α) : Equiv.Perm (Seat players) :=
  players.formPerm.subtypePerm fun _ => List.formPerm_mem_iff_mem

theorem coe_turn_iterate (seat : Seat players) (k : ℕ) :
    (((turn players)^[k] seat : Seat players) : α) = (players.formPerm ^ k) seat := by
  rw [Equiv.Perm.iterate_eq_pow, turn, Equiv.Perm.subtypePerm_pow, Equiv.Perm.subtypePerm_apply]

/-- So many steps on from a place is the place so much higher, counted around the table. -/
theorem getElem?_turn (nodup : players.Nodup) {seat : Seat players} (place : players[i]? = some ↑seat) (k : ℕ) :
    players[(i + k) % players.length]? = some ↑((turn players)^[k] seat) := by
  obtain ⟨inside, same⟩ := List.getElem?_eq_some_iff.1 place
  rw [List.getElem?_eq_getElem (Nat.mod_lt _ (by omega)), coe_turn_iterate, ← same,
    List.formPerm_pow_apply_getElem players nodup k i inside]

theorem next?_seat (nodup : players.Nodup) (seat : Seat players) :
    next? players seat = some ↑(turn players seat) := by
  obtain ⟨i, place⟩ := List.getElem?_of_mem seat.2
  rw [next?_of_place nodup place]
  exact getElem?_turn nodup place 1

theorem previous?_seat (nodup : players.Nodup) (seat : Seat players) :
    previous? players seat = some ↑((turn players).symm seat) := by
  rw [← next?_eq_some_iff nodup, next?_seat nodup, Equiv.apply_symm_apply]

/-! ## From the dealer on -/

section

variable {dealer : Seat players}

theorem getElem?_rotation_turn (nodup : players.Nodup) (h : rotation? players dealer = some order) (k : ℕ) :
    order[k % players.length]? = some ↑((turn players)^[k] dealer) := by
  obtain ⟨d, deals, rfl⟩ := rotation?_eq_some h
  have pos := List.length_pos_of_mem dealer.2
  rw [List.getElem?_rotate (Nat.mod_lt _ pos), Nat.mod_add_mod, Nat.add_comm]
  exact getElem?_turn nodup deals k

/-- The rotation is the way around the table, from the dealer to the last one before it. -/
theorem rotation?_seat (nodup : players.Nodup) (h : rotation? players dealer = some order) :
    order = (List.iterate (turn players) dealer players.length).map (↑) := by
  have length := rotation_length h
  refine List.ext_getElem? fun k => ?_
  rw [List.getElem?_map]
  rcases Nat.lt_or_ge k players.length with inside | outside
  · rw [List.getElem?_iterate _ _ _ _ inside, Option.map_some, ← getElem?_rotation_turn nodup h,
      Nat.mod_eq_of_lt inside]
  · rw [List.getElem?_eq_none (by omega), List.getElem?_eq_none (by rw [List.length_iterate]; omega)]
    rfl

theorem distance?_turn (nodup : players.Nodup) (pos : 0 < k) (most : k ≤ players.length) :
    distance? players dealer ((turn players)^[k] dealer : Seat players) = some k := by
  obtain ⟨order, h⟩ := exists_rotation dealer.2
  rw [distance?_rotation nodup h (getElem?_rotation_turn nodup h k), rotation_length h]
  rcases Nat.lt_or_eq_of_le most with before | rfl
  · rw [Nat.mod_eq_of_lt before, if_neg (by omega)]
  · rw [Nat.mod_self, if_pos rfl]

/-- Every seat is reached within a turn. -/
theorem exists_steps (nodup : players.Nodup) (dealer seat : Seat players) :
    ∃ k, 0 < k ∧ k ≤ players.length ∧ (turn players)^[k] dealer = seat := by
  obtain ⟨order, h⟩ := exists_rotation dealer.2
  have pos := List.length_pos_of_mem dealer.2
  obtain ⟨k, place⟩ := List.getElem?_of_mem ((rotation_perm h).mem_iff.2 seat.2)
  have inside := (List.getElem?_eq_some_iff.1 place).1
  rw [rotation_length h] at inside
  have reached (k' : ℕ) (same : k' % players.length = k) : (turn players)^[k'] dealer = seat := by
    have there := getElem?_rotation_turn nodup h k'
    rw [same, place] at there
    exact Subtype.ext (Option.some.inj there).symm
  -- the dealer is reached after a whole turn, and not before the first step
  rcases Nat.eq_zero_or_pos k with rfl | after
  · exact ⟨players.length, pos, le_rfl, reached _ (Nat.mod_self _)⟩
  · exact ⟨k, after, inside.le, reached _ (Nat.mod_eq_of_lt inside)⟩

theorem distance?_seat_iff (nodup : players.Nodup) {seat : Seat players} :
    distance? players dealer seat = some k ↔
      0 < k ∧ k ≤ players.length ∧ (turn players)^[k] dealer = seat := by
  constructor
  · intro distance
    obtain ⟨k', pos, most, rfl⟩ := exists_steps nodup dealer seat
    obtain rfl := Option.some.inj ((distance?_turn nodup pos most).symm.trans distance)
    exact ⟨pos, most, rfl⟩
  · rintro ⟨pos, most, rfl⟩
    exact distance?_turn nodup pos most

/-- The distances from a dealer number the seats. -/
theorem distance?_bijOn (nodup : players.Nodup) (dealer : Seat players) :
    Set.BijOn (distance? players dealer) {a | a ∈ players} (some '' Set.Icc 1 players.length) := by
  refine ⟨fun a seated => ?_, fun a seated b seated' same => ?_, ?_⟩
  · obtain ⟨k, distance⟩ := exists_distance dealer.2 seated
    obtain ⟨-, -, pos, most⟩ := distance?_within distance
    exact ⟨k, ⟨pos, most⟩, distance.symm⟩
  · obtain ⟨k, distance⟩ := exists_distance dealer.2 seated
    let seat : Seat players := ⟨a, seated⟩
    let seat' : Seat players := ⟨b, seated'⟩
    have reached : (turn players)^[k] dealer = seat := ((distance?_seat_iff nodup).1 distance).2.2
    have reached' : (turn players)^[k] dealer = seat' := ((distance?_seat_iff nodup).1 (same ▸ distance)).2.2
    exact congrArg Subtype.val (reached.symm.trans reached')
  · rintro - ⟨k, ⟨pos, most⟩, rfl⟩
    exact ⟨_, ((turn players)^[k] dealer).2, distance?_turn nodup pos most⟩

end

/-! ## Strangers -/

theorem position?_eq_none_iff : position? players a = none ↔ a ∉ players := List.idxOf?_eq_none_iff

theorem next?_eq_none_iff : next? players a = none ↔ a ∉ players := by
  constructor
  · intro none seated
    obtain ⟨b, next⟩ := exists_next?_of_mem seated
    cases none.symm.trans next
  · intro stranger
    rw [next?, position?_eq_none_iff.2 stranger]
    rfl

theorem previous?_eq_none_iff : previous? players a = none ↔ a ∉ players := by
  constructor
  · intro none seated
    obtain ⟨b, before⟩ := exists_previous?_of_mem seated
    cases none.symm.trans before
  · intro stranger
    rw [previous?, position?_eq_none_iff.2 stranger]
    rfl

theorem rotation?_eq_none_iff : rotation? players a = none ↔ a ∉ players := by
  constructor
  · intro none seated
    obtain ⟨order, h⟩ := exists_rotation seated
    cases none.symm.trans h
  · intro stranger
    rw [rotation?, position?_eq_none_iff.2 stranger]
    rfl

theorem distance?_eq_none_iff : distance? players a b = none ↔ a ∉ players ∨ b ∉ players := by
  rw [← not_and_or]
  constructor
  · rintro none ⟨dealt, seated⟩
    obtain ⟨k, distance⟩ := exists_distance dealt seated
    cases none.symm.trans distance
  · intro stranger
    rw [Option.eq_none_iff_forall_ne_some]
    intro k distance
    obtain ⟨dealt, seated, -⟩ := distance?_within distance
    exact stranger ⟨dealt, seated⟩

/-! ## Ranges -/

/-- The place of a seat and what is computed with it stay in range, among so many players: nothing is subtracted
that is too large, nothing is added up to more than twice the number of players, and what is looked up is there. -/
structure InRange (count i : ℕ) : Prop where
  seat : i < count
  after : (i + 1) % count < count
  turned : 1 ≤ i + count
  before : (i + count - 1) % count < count
  twice : i + count < 2 * count
  /-- The place of another seat can be subtracted from this one, a turn later. -/
  apart : ∀ j < count, j ≤ i + count

theorem inRange_of_position? (h : position? players a = some i) : InRange players.length i := by
  have inside := (List.getElem?_eq_some_iff.1 (getElem?_of_position? h)).1
  have pos : 0 < players.length := by omega
  exact ⟨inside, Nat.mod_lt _ pos, by omega, Nat.mod_lt _ pos, by omega, fun j small => by omega⟩

/-- The seats of a table are one cycle. Next and previous player are inverse permutations of the seats. The rotation
lists what is reached from the dealer step by step, every seat once. The distance of a player is the one number of
steps, from one to a whole turn, after which it is reached, and tells its place in the rotation; from one dealer on,
the distances number the seats. Only who does not sit has no place, no neighbours, no rotation and no distance, and
all that is computed stays in range. -/
theorem seats_are_one_cycle (nodup : players.Nodup) :
    (∀ seat : Seat players, next? players seat = some ↑(turn players seat) ∧
      previous? players seat = some ↑((turn players).symm seat)) ∧
    (∀ dealer : Seat players, ∃ order, rotation? players dealer = some order ∧
      order = (List.iterate (turn players) dealer players.length).map (↑) ∧
      order.length = players.length ∧ order.Nodup ∧ (∀ a, a ∈ order ↔ a ∈ players) ∧
      (∀ seat : Seat players, ∃ k, distance? players dealer seat = some k ∧
        order[k % players.length]? = some ↑seat ∧
        ∀ j, 0 < j ∧ j ≤ players.length ∧ (turn players)^[j] dealer = seat ↔ j = k) ∧
      Set.BijOn (distance? players dealer) {a | a ∈ players} (some '' Set.Icc 1 players.length)) ∧
    (∀ a, (position? players a = none ↔ a ∉ players) ∧ (next? players a = none ↔ a ∉ players) ∧
      (previous? players a = none ↔ a ∉ players) ∧ (rotation? players a = none ↔ a ∉ players) ∧
      ∀ b, distance? players a b = none ↔ a ∉ players ∨ b ∉ players) ∧
    ∀ a i, position? players a = some i → InRange players.length i := by
  refine ⟨fun seat => ⟨next?_seat nodup seat, previous?_seat nodup seat⟩, fun dealer => ?_, fun a => ?_,
    fun a i place => inRange_of_position? place⟩
  · obtain ⟨order, h⟩ := exists_rotation dealer.2
    refine ⟨order, h, rotation?_seat nodup h, rotation_length h, rotation_nodup nodup h,
      fun a => (rotation_perm h).mem_iff, fun seat => ?_, distance?_bijOn nodup dealer⟩
    obtain ⟨k, distance⟩ := exists_distance dealer.2 seat.2
    obtain ⟨-, -, reached⟩ := (distance?_seat_iff nodup).1 distance
    refine ⟨k, distance, ?_, fun j => ?_⟩
    · rw [getElem?_rotation_turn nodup h, reached]
    · rw [← distance?_seat_iff nodup, distance, Option.some.injEq, eq_comm]
  · exact ⟨position?_eq_none_iff, next?_eq_none_iff, previous?_eq_none_iff, rotation?_eq_none_iff,
      fun b => distance?_eq_none_iff⟩

/-- Three at a table: after the last one comes the first, and from the second one on the distances are 3, 1 and 2. -/
theorem seats_are_one_cycle_three :
    let players : List String := ["alice", "bob", "carol"]
    players.Nodup ∧ next? players "carol" = some "alice" ∧ previous? players "alice" = some "carol" ∧
      (∃ order, rotation? players "bob" = some order ∧ order.length = 3 ∧ ∀ a, a ∈ order ↔ a ∈ players) ∧
      (∃ k, distance? players "bob" "alice" = some k ∧ ∀ j, 0 < j ∧ j ≤ 3 ∧
        (turn players)^[j] ⟨"bob", by decide⟩ = ⟨"alice", by decide⟩ ↔ j = k) ∧
      next? players "dave" = none := by
  intro players
  have nodup : players.Nodup := by decide
  obtain ⟨neighbours, around, strangers, -⟩ := seats_are_one_cycle nodup
  obtain ⟨order, rotation, -, length, -, once, distances, -⟩ := around ⟨"bob", by decide⟩
  obtain ⟨k, distance, -, only⟩ := distances ⟨"alice", by decide⟩
  have carol := neighbours ⟨"carol", by decide⟩
  have alice := neighbours ⟨"alice", by decide⟩
  exact ⟨nodup, carol.1, alice.2, ⟨order, rotation, length, once⟩, ⟨k, distance, only⟩,
    (strangers "dave").2.1.2 (by decide)⟩

end MentalPoker.Circle
