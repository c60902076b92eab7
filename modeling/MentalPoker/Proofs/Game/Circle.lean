/-
The seats counted from the dealer on. The rotation lists them in that order, and the neighbours of a
player and its distance from the dealer can be read off its place in the rotation. Going on from neighbour
to neighbour leads once around the table, from the dealer back to the dealer.
-/
import MentalPoker.Game.Circle
import Mathlib.Data.List.Rotate

namespace MentalPoker.Circle

variable {α : Type} [DecidableEq α] {players order : List α} {dealer a b : α} {i k : Nat}

/-! ## Places -/

theorem position?_of_getElem? (nodup : players.Nodup) (h : players[i]? = some a) :
    position? players a = some i := by
  obtain ⟨inside, rfl⟩ := List.getElem?_eq_some_iff.1 h
  rw [position?, List.idxOf?_eq_some_iff]
  refine ⟨inside, rfl, fun j before same => ?_⟩
  have := nodup.getElem_inj_iff.1 same
  omega

theorem getElem?_of_position? (h : position? players a = some i) : players[i]? = some a := by
  obtain ⟨inside, same, -⟩ := List.idxOf?_eq_some_iff.1 h
  rw [List.getElem?_eq_getElem inside, same]

theorem exists_place (h : a ∈ players) : ∃ i, position? players a = some i :=
  Option.isSome_iff_exists.1 (List.isSome_idxOf?.2 h)

omit [DecidableEq α] in
theorem place_unique {i j : Nat} (nodup : players.Nodup) (hi : players[i]? = some a)
    (hj : players[j]? = some a) : i = j := by
  have inside := (List.getElem?_eq_some_iff.1 hi).1
  exact (List.getElem?_inj inside nodup).1 (hi.trans hj.symm)

/-- Who has a next one is at the table, as is the next one. -/
theorem mem_of_next? (h : next? players a = some b) : a ∈ players ∧ b ∈ players := by
  simp only [next?, bind, Option.bind_eq_some_iff] at h
  obtain ⟨i, place, after⟩ := h
  exact ⟨List.mem_of_getElem? (getElem?_of_position? place), List.mem_of_getElem? after⟩

theorem mem_of_previous? (h : previous? players a = some b) : a ∈ players ∧ b ∈ players := by
  simp only [previous?, bind, Option.bind_eq_some_iff] at h
  obtain ⟨i, place, before⟩ := h
  exact ⟨List.mem_of_getElem? (getElem?_of_position? place), List.mem_of_getElem? before⟩

/-- Everybody at the table has a next one. -/
theorem exists_next?_of_mem (h : a ∈ players) : ∃ b, next? players a = some b := by
  obtain ⟨i, place⟩ := exists_place h
  have inside : (i + 1) % players.length < players.length := Nat.mod_lt _ (List.length_pos_of_mem h)
  refine ⟨players[(i + 1) % players.length], ?_⟩
  simp only [next?, place, bind, Option.bind]
  exact List.getElem?_eq_getElem inside

theorem exists_previous?_of_mem (h : a ∈ players) : ∃ b, previous? players a = some b := by
  obtain ⟨i, place⟩ := exists_place h
  have inside : (i + players.length - 1) % players.length < players.length :=
    Nat.mod_lt _ (List.length_pos_of_mem h)
  refine ⟨players[(i + players.length - 1) % players.length], ?_⟩
  simp only [previous?, place, bind, Option.bind]
  exact List.getElem?_eq_getElem inside

/-- At a table for one the next one is oneself. -/
theorem eq_of_next?_alone (alone : players.length = 1) (h : next? players a = some b) : b = a := by
  obtain ⟨left, right⟩ := mem_of_next? h
  obtain ⟨c, rfl⟩ := List.length_eq_one_iff.1 alone
  rw [List.mem_singleton] at left right
  rw [left, right]

theorem next?_of_place (nodup : players.Nodup) (h : players[i]? = some a) :
    next? players a = players[(i + 1) % players.length]? := by
  simp only [next?, position?_of_getElem? nodup h, bind, Option.bind]

theorem previous?_of_place (nodup : players.Nodup) (h : players[i]? = some a) :
    previous? players a = players[(i + players.length - 1) % players.length]? := by
  simp only [previous?, position?_of_getElem? nodup h, bind, Option.bind]

/-- Whoever has somebody next is the one before. -/
theorem next?_eq_some_iff (nodup : players.Nodup) : next? players a = some b ↔ previous? players b = some a := by
  constructor
  · intro next
    obtain ⟨i, place⟩ := List.getElem?_of_mem (mem_of_next? next).1
    have inside := (List.getElem?_eq_some_iff.1 place).1
    rw [next?_of_place nodup place] at next
    have back : ((i + 1) % players.length + players.length - 1) % players.length = i := by
      have turn : i + 1 + (players.length - 1) = i + players.length := by omega
      rw [Nat.add_sub_assoc (by omega), Nat.mod_add_mod, turn, Nat.add_mod_right, Nat.mod_eq_of_lt inside]
    rw [previous?_of_place nodup next, back, place]
  · intro before
    obtain ⟨i, place⟩ := List.getElem?_of_mem (mem_of_previous? before).1
    have inside := (List.getElem?_eq_some_iff.1 place).1
    rw [previous?_of_place nodup place] at before
    have back : ((i + players.length - 1) % players.length + 1) % players.length = i := by
      have turn : i + players.length - 1 + 1 = i + players.length := by omega
      rw [Nat.mod_add_mod, turn, Nat.add_mod_right, Nat.mod_eq_of_lt inside]
    rw [next?_of_place nodup before, back, place]

/-- Everybody at the table is next to somebody. -/
theorem exists_next (nodup : players.Nodup) (h : a ∈ players) : ∃ b, next? players b = some a := by
  obtain ⟨b, before⟩ := exists_previous?_of_mem h
  exact ⟨b, (next?_eq_some_iff nodup).2 before⟩

/-- With two players or more nobody is next to itself. -/
theorem ne_of_next? (nodup : players.Nodup) (two : 2 ≤ players.length) (h : next? players a = some b) : b ≠ a := by
  obtain ⟨i, place⟩ := List.getElem?_of_mem (mem_of_next? h).1
  have inside := (List.getElem?_eq_some_iff.1 place).1
  rw [next?_of_place nodup place] at h
  rintro rfl
  have same := place_unique nodup place h
  rcases Nat.lt_or_ge (i + 1) players.length with below | above
  · rw [Nat.mod_eq_of_lt below] at same
    omega
  · rw [show i + 1 = players.length by omega, Nat.mod_self] at same
    omega

/-! ## The rotation -/

theorem exists_rotation (h : dealer ∈ players) : ∃ order, rotation? players dealer = some order := by
  obtain ⟨i, place⟩ := exists_place h
  exact ⟨players.drop i ++ players.take i, by simp [rotation?, place]⟩

/-- The rotation is the list of seats, rotated to the dealer's. -/
theorem rotation?_eq_some (h : rotation? players dealer = some order) :
    ∃ d, players[d]? = some dealer ∧ order = players.rotate d := by
  simp only [rotation?, bind, Option.bind_eq_some_iff, pure, Option.some.injEq] at h
  obtain ⟨d, found, rfl⟩ := h
  have seated := getElem?_of_position? found
  have inside := (List.getElem?_eq_some_iff.1 seated).1
  exact ⟨d, seated, (List.rotate_eq_drop_append_take inside.le).symm⟩

theorem rotation_perm (h : rotation? players dealer = some order) : order.Perm players := by
  obtain ⟨d, -, rfl⟩ := rotation?_eq_some h
  exact List.rotate_perm players d

theorem rotation_length (h : rotation? players dealer = some order) :
    order.length = players.length :=
  (rotation_perm h).length_eq

theorem rotation_nodup (nodup : players.Nodup) (h : rotation? players dealer = some order) :
    order.Nodup :=
  (rotation_perm h).nodup_iff.2 nodup

theorem rotation_head (h : rotation? players dealer = some order) : order[0]? = some dealer := by
  obtain ⟨d, seated, rfl⟩ := rotation?_eq_some h
  have inside := (List.getElem?_eq_some_iff.1 seated).1
  rw [List.getElem?_rotate (by omega), Nat.zero_add, Nat.mod_eq_of_lt inside, seated]

/-- The order around the table that ends with the dealer. -/
theorem rotation_rotate_one {d : Nat} (nodup : players.Nodup) (h : rotation? players dealer = some order)
    (seat : players[d]? = some dealer) : order.rotate 1 = players.drop (d + 1) ++ players.take (d + 1) := by
  obtain ⟨d', seat', rfl⟩ := rotation?_eq_some h
  obtain rfl := place_unique nodup seat seat'
  have inside := (List.getElem?_eq_some_iff.1 seat).1
  rw [List.rotate_rotate, List.rotate_eq_drop_append_take inside]

/-- A place in the rotation is a seat so many places after the dealer's. -/
theorem getElem?_rotation (h : rotation? players dealer = some order) (ha : order[k]? = some a) :
    ∃ d, players[d]? = some dealer ∧ order = players.rotate d ∧ k < players.length ∧
      players[(k + d) % players.length]? = some a := by
  have inside := (List.getElem?_eq_some_iff.1 ha).1
  rw [rotation_length h] at inside
  obtain ⟨d, seated, rfl⟩ := rotation?_eq_some h
  rw [List.getElem?_rotate inside] at ha
  exact ⟨d, seated, rfl, inside, ha⟩

/-! ## Neighbours -/

theorem next?_rotation (nodup : players.Nodup) (h : rotation? players dealer = some order)
    (ha : order[k]? = some a) : next? players a = order[(k + 1) % order.length]? := by
  obtain ⟨d, -, rfl, inside, seat⟩ := getElem?_rotation h ha
  rw [List.length_rotate, List.getElem?_rotate (Nat.mod_lt _ (by omega)), next?_of_place nodup seat,
    Nat.mod_add_mod, Nat.mod_add_mod, Nat.add_right_comm]

theorem previous?_rotation (nodup : players.Nodup) (h : rotation? players dealer = some order)
    (ha : order[k]? = some a) :
    previous? players a = order[(k + (order.length - 1)) % order.length]? := by
  obtain ⟨d, -, rfl, inside, seat⟩ := getElem?_rotation h ha
  rw [List.length_rotate, List.getElem?_rotate (Nat.mod_lt _ (by omega)), previous?_of_place nodup seat,
    Nat.add_sub_assoc (by omega), Nat.mod_add_mod, Nat.mod_add_mod, Nat.add_right_comm]

/-- The player before the dealer is the last of the rotation. -/
theorem previous?_dealer (nodup : players.Nodup) (h : rotation? players dealer = some order) :
    previous? players dealer = order[order.length - 1]? := by
  have head := rotation_head h
  have pos := (List.getElem?_eq_some_iff.1 head).1
  rw [previous?_rotation nodup h head, Nat.zero_add, Nat.mod_eq_of_lt (by omega)]

/-- Whoever is not the dealer comes after its predecessor in the rotation. -/
theorem previous?_succ (nodup : players.Nodup) (h : rotation? players dealer = some order)
    (ha : order[k + 1]? = some a) : previous? players a = order[k]? := by
  have inside := (List.getElem?_eq_some_iff.1 ha).1
  have turn : k + 1 + (order.length - 1) = k + order.length := by omega
  rw [previous?_rotation nodup h ha, turn, Nat.add_mod_right, Nat.mod_eq_of_lt (by omega)]

theorem next?_dealer (nodup : players.Nodup) (h : rotation? players dealer = some order)
    (two : 2 ≤ players.length) : next? players dealer = order[1]? := by
  rw [next?_rotation nodup h (rotation_head h), rotation_length h, Nat.zero_add,
    Nat.mod_eq_of_lt (by omega)]

/-! ## Once around the table -/

/-- After the last of the rotation the walk is back at the dealer. -/
theorem getElem?_walk (h : rotation? players dealer = some order) (inside : k ≤ order.length) :
    (order ++ [dealer])[k]? = order[k % order.length]? := by
  rcases Nat.lt_or_eq_of_le inside with before | rfl
  · rw [List.getElem?_append_left before, Nat.mod_eq_of_lt before]
  · rw [List.getElem?_concat_length, Nat.mod_self, rotation_head h]

theorem next?_walk (nodup : players.Nodup) (h : rotation? players dealer = some order)
    (place : (order ++ [dealer])[k]? = some a) (more : k < order.length) :
    next? players a = (order ++ [dealer])[k + 1]? := by
  rw [getElem?_walk h more, next?_rotation nodup h]
  rwa [List.getElem?_append_left more] at place

/-- Going on to the next one leads once around the table, from the dealer back to the dealer. -/
theorem isChain_walk (nodup : players.Nodup) (h : rotation? players dealer = some order) :
    List.IsChain (fun a b => next? players a = some b) (order ++ [dealer]) := by
  rw [List.isChain_iff_getElem]
  intro k inside
  have more : k < order.length := by simpa using inside
  rw [next?_walk nodup h (List.getElem?_eq_getElem _) more]
  exact List.getElem?_eq_getElem inside

/-- Whoever goes on to the next one walks a part of that way. -/
theorem infix_walk (nodup : players.Nodup) (h : rotation? players dealer = some order)
    (next : next? players a = some b) : [a, b] <:+: order ++ [dealer] := by
  obtain ⟨k, place⟩ := List.getElem?_of_mem ((rotation_perm h).mem_iff.2 (mem_of_next? next).1)
  have inside := (List.getElem?_eq_some_iff.1 place).1
  replace place : (order ++ [dealer])[k]? = some a := by rwa [List.getElem?_append_left inside]
  rw [next?_walk nodup h place inside] at next
  refine List.infix_iff_getElem?.2 ⟨k, by simp; omega, fun i bound => ?_⟩
  match i, bound with
  | 0, _ => simpa using place
  | 1, _ => simpa [Nat.add_comm] using next

/-! ## Distances -/

theorem exists_distance (dealt : dealer ∈ players) (seated : a ∈ players) :
    ∃ k, distance? players dealer a = some k := by
  obtain ⟨d, deals⟩ := exists_place dealt
  obtain ⟨p, place⟩ := exists_place seated
  simp only [distance?, deals, place, bind, Option.bind, pure]
  exact ⟨_, rfl⟩

/-- A distance is one between seats, of one place at least and a whole turn at most. -/
theorem distance?_within (h : distance? players dealer a = some k) :
    dealer ∈ players ∧ a ∈ players ∧ 0 < k ∧ k ≤ players.length := by
  simp only [distance?, bind, Option.bind_eq_some_iff, pure, Option.some.injEq] at h
  obtain ⟨d, deals, p, place, rfl⟩ := h
  have dealt := List.mem_of_getElem? (getElem?_of_position? deals)
  have below := Nat.mod_lt (p + players.length - d) (List.length_pos_of_mem dealt)
  refine ⟨dealt, List.mem_of_getElem? (getElem?_of_position? place), ?_⟩
  split <;> omega

theorem distance?_rotation (nodup : players.Nodup) (h : rotation? players dealer = some order)
    (ha : order[k]? = some a) :
    distance? players dealer a = some (if k = 0 then order.length else k) := by
  obtain ⟨d, dealt, rfl, inside, seat⟩ := getElem?_rotation h ha
  have seated := (List.getElem?_eq_some_iff.1 dealt).1
  have steps : ((k + d) % players.length + players.length - d) % players.length = k := by
    rcases Nat.lt_or_ge (k + d) players.length with below | above
    · have : k + d + players.length - d = k + players.length := by omega
      rw [Nat.mod_eq_of_lt below, this, Nat.add_mod_right, Nat.mod_eq_of_lt inside]
    · have wrapped : (k + d) % players.length = k + d - players.length := by
        rw [Nat.mod_eq_sub_mod above, Nat.mod_eq_of_lt (by omega)]
      have : k + d - players.length + players.length - d = k := by omega
      rw [wrapped, this, Nat.mod_eq_of_lt inside]
  simp only [distance?, position?_of_getElem? nodup dealt, position?_of_getElem? nodup seat, bind,
    Option.bind, pure, steps, List.length_rotate]

end MentalPoker.Circle
