/-
Who sits at a table. The creator has the first seat and those who join have the others, in order, as
far as there are any: seating a list again, or a longer one later, leaves the seats that are taken
as they are. So every view of a table is the beginning of every later one, and of the table itself.
-/
import MentalPoker.Game.Session
import Mathlib.Data.List.Infix
import Mathlib.Data.List.Nodup
import Mathlib.Tactic.Common

namespace MentalPoker

namespace Session

/-- The seats of a table that these have joined. -/
def seating (creator : Address) (seats : Nat) (joined : List Address) : List Address :=
  (creator :: joined.filter (· ≠ creator)).take seats

/-- Who deals at a table: the one who is wished for, once seated, and the creator otherwise. -/
def dealerOf (wished : Option Address) (creator : Address) (players : List Address) : Address :=
  match wished with
  | none => creator
  | some dealer => if dealer ∈ players then dealer else creator

section

variable {creator : Address} {seats : Nat} {joined later : List Address} {wished : Option Address}
  {players : List Address}

theorem seating_mono (h : joined <+: later) :
    seating creator seats joined <+: seating creator seats later := by
  have longer : creator :: joined.filter (· ≠ creator) <+: creator :: later.filter (· ≠ creator) :=
    List.cons_prefix_cons.2 ⟨rfl, h.filter _⟩
  exact longer.take seats

theorem seating_nodup (h : joined.Nodup) : (seating creator seats joined).Nodup := by
  refine List.Nodup.sublist (List.take_sublist _ _) (List.nodup_cons.2 ⟨?_, h.filter _⟩)
  simp

theorem seating_length_le : (seating creator seats joined).length ≤ seats :=
  List.length_take_le _ _

theorem creator_prefix_seating (pos : 0 < seats) : [creator] <+: seating creator seats joined := by
  obtain ⟨free, rfl⟩ := Nat.exists_eq_add_of_lt pos
  rw [seating, Nat.zero_add, List.take_succ_cons]
  exact List.cons_prefix_cons.2 ⟨rfl, List.nil_prefix⟩

theorem dealerOf_mem (h : creator ∈ players) : dealerOf wished creator players ∈ players := by
  unfold dealerOf
  split
  · exact h
  · split
    · assumption
    · exact h

/-- Who deals changes only from the creator to the one who is wished for. -/
theorem dealerOf_grow (more : players ⊆ later)
    (changed : dealerOf wished creator later ≠ dealerOf wished creator players) :
    dealerOf wished creator players = creator ∧ wished = some (dealerOf wished creator later) := by
  cases wished with
  | none => exact absurd rfl changed
  | some dealer =>
    unfold dealerOf at changed ⊢
    dsimp only at changed ⊢
    by_cases early : dealer ∈ players
    · rw [if_pos early, if_pos (more early)] at changed
      exact absurd rfl changed
    · rw [if_neg early] at changed ⊢
      split at changed
      · exact ⟨rfl, by rw [if_pos ‹_›]⟩
      · exact absurd rfl changed

end

/-! ## Seating a list -/

/-- Seating people changes who is seated. -/
theorem seatAll_eq (session : Session) (joined : List Address) :
    ∃ players, session.seatAll joined = { session with players } := by
  induction joined generalizing session with
  | nil => exact ⟨session.players, rfl⟩
  | cons a joined ih =>
    have seated : ∃ players, session.seat a = { session with players } := by
      unfold seat
      split
      · exact ⟨session.players, rfl⟩
      · exact ⟨_, rfl⟩
    obtain ⟨players, one⟩ := seated
    obtain ⟨players', all⟩ := ih (session.seat a)
    refine ⟨players', ?_⟩
    rw [seatAll, List.foldl_cons, ← seatAll, all, one]

theorem seat_of_mem {session : Session} {a : Address} (h : a ∈ session.players) :
    session.seat a = session :=
  if_pos (.inr h)

/-- Newcomers take the free seats in order. -/
theorem seatAll_of_nodup {seats : Nat} : ∀ (newcomers : List Address) (session : Session),
    session.seats = some seats → session.players.length ≤ seats →
    (session.players ++ newcomers).Nodup →
      session.seatAll newcomers =
        { session with players := (session.players ++ newcomers).take seats }
  | [], session, _, fits, _ => by
    rw [List.append_nil, List.take_of_length_le fits]
    rfl
  | a :: newcomers, session, limit, fits, nodup => by
    have new : a ∉ session.players := fun old =>
      (List.nodup_append.1 nodup).2.2 a old a (List.mem_cons_self) rfl
    have rest : (session.players ++ newcomers).Nodup :=
      nodup.sublist ((List.sublist_cons_self a newcomers).append_left _)
    by_cases full : seats ≤ session.players.length
    · have stays : session.seat a = session := if_pos (.inl (by simp [isFull, limit, full]))
      rw [seatAll, List.foldl_cons, stays, ← seatAll, seatAll_of_nodup newcomers session limit fits rest,
        List.take_append_of_le_length full, List.take_append_of_le_length full]
    · have sits : session.seat a = { session with players := session.players ++ [a] } :=
        if_neg (by simp [isFull, limit, new]; omega)
      have ih := seatAll_of_nodup newcomers { session with players := session.players ++ [a] } limit
        (by simp; omega) (by simpa using nodup)
      rw [seatAll, List.foldl_cons, sits, ← seatAll, ih]
      simp

/-- Those who sit already make no difference. -/
theorem seatAll_filter (session : Session) (joined : List Address) {taken : List Address}
    (h : taken ⊆ session.players) :
    session.seatAll joined = session.seatAll (joined.filter (· ∉ taken)) := by
  induction joined generalizing session with
  | nil => rfl
  | cons a joined ih =>
    by_cases sits : a ∈ taken
    · rw [List.filter_cons_of_neg (by simpa using sits), seatAll, List.foldl_cons, seat_of_mem (h sits)]
      exact ih session h
    · rw [List.filter_cons_of_pos (by simpa using sits), seatAll, List.foldl_cons, seatAll,
        List.foldl_cons]
      refine ih (session.seat a) fun b hb => ?_
      unfold seat
      split
      · exact h hb
      · exact List.mem_append_left _ (h hb)

/-- At a full table nobody is seated, and those who sit already are not seated again. -/
theorem seatAll_of_settled {session : Session} {joined : List Address}
    (h : session.isFull = true ∨ ∀ a ∈ joined, a ∈ session.players) : session.seatAll joined = session := by
  induction joined with
  | nil => rfl
  | cons a joined ih =>
    have stays : session.seat a = session := by
      rcases h with full | all
      · exact if_pos (.inl full)
      · exact seat_of_mem (all a List.mem_cons_self)
    rw [seatAll, List.foldl_cons, stays]
    exact ih (h.imp_right fun all b later => all b (List.mem_cons_of_mem _ later))

/-- Seats are only taken behind those that are taken already. -/
theorem seatAll_prefix (session : Session) (joined : List Address) :
    session.players <+: (session.seatAll joined).players := by
  induction joined generalizing session with
  | nil => exact List.prefix_rfl
  | cons a joined ih =>
    refine List.IsPrefix.trans ?_ (ih (session.seat a))
    unfold seat
    split
    · exact List.prefix_rfl
    · exact List.prefix_append _ _

theorem seatAll_players_subset (session : Session) (joined : List Address) :
    session.players ⊆ (session.seatAll joined).players :=
  (session.seatAll_prefix joined).subset

/-- No more are seated than there are seats. -/
theorem seatAll_length_le {session : Session} {seats : Nat} (joined : List Address)
    (limit : session.seats = some seats) (fits : session.players.length ≤ seats) :
    (session.seatAll joined).players.length ≤ seats := by
  induction joined generalizing session with
  | nil => exact fits
  | cons a joined ih =>
    have seated : (session.seat a).seats = some seats ∧ (session.seat a).players.length ≤ seats := by
      unfold seat
      split
      · exact ⟨limit, fits⟩
      · rename_i free
        have room : session.players.length < seats := by simp_all [isFull]
        exact ⟨limit, by simpa using Nat.succ_le_of_lt room⟩
    exact ih seated.1 seated.2

/-- Nobody is seated twice. -/
theorem nodup_seatAll {session : Session} (nodup : session.players.Nodup) (joined : List Address) :
    (session.seatAll joined).players.Nodup := by
  induction joined generalizing session with
  | nil => exact nodup
  | cons a joined ih =>
    refine @ih (session.seat a) ?_
    unfold seat
    split
    · exact nodup
    · rename_i free
      rw [not_or] at free
      exact nodup.append (List.nodup_singleton a) (List.disjoint_singleton.2 free.2)

/-- Once everybody is seated who has joined, the table is full or they all sit. -/
theorem seatAll_settled (session : Session) (joined : List Address) :
    (session.seatAll joined).isFull = true ∨ ∀ a ∈ joined, a ∈ (session.seatAll joined).players := by
  induction joined generalizing session with
  | nil => exact .inr fun _ none => absurd none List.not_mem_nil
  | cons a joined ih =>
    by_cases full : session.isFull = true
    · rw [seatAll_of_settled (.inl full)]
      exact .inl full
    · have sits : a ∈ (session.seat a).players := by
        unfold seat
        split
        · exact (or_iff_right full).1 ‹_›
        · exact List.mem_append_right _ List.mem_cons_self
      refine (ih (session.seat a)).imp_right fun all => List.forall_mem_cons.2 ⟨?_, all⟩
      exact seatAll_players_subset _ joined sits

/-- A view that is the beginning of a table becomes the table once everybody is seated who joined. -/
theorem seatAll_of_prefix {session : Session} {seats : Nat} {joined : List Address}
    (limit : session.seats = some seats) (nodup : joined.Nodup)
    (creator : [session.creator] <+: session.players)
    (view : session.players <+: seating session.creator seats joined) :
    session.seatAll joined = { session with players := seating session.creator seats joined } := by
  -- the seated ones after the creator are the first of those who joined
  obtain ⟨seated, same⟩ := creator
  have fits := view.length_le.trans seating_length_le
  have all := view.trans (List.take_prefix _ _)
  rw [← same, List.singleton_append, List.cons_prefix_cons] at all
  obtain ⟨others, split⟩ := all.2
  have apart : (session.creator :: joined.filter (· ≠ session.creator)).Nodup :=
    List.nodup_cons.2 ⟨by simp, nodup.filter _⟩
  have left : joined.filter (· ∉ session.players) = others := by
    rw [← split] at apart
    have free : ∀ b ∈ others, b ∉ seated := fun b later early =>
      (List.nodup_append.1 (List.nodup_cons.1 apart).2).2.2 b early b later rfl
    calc joined.filter (· ∉ session.players)
        = (joined.filter (· ≠ session.creator)).filter (· ∉ seated) := by
          simp [List.filter_filter, ← same, Bool.and_comm]
      _ = others := by
          rw [← split, List.filter_append, List.filter_eq_nil_iff.2 (by simp),
            List.filter_eq_self.2 (by simpa using free), List.nil_append]
  have taken : session.players ++ others = session.creator :: joined.filter (· ≠ session.creator) := by
    rw [← same, ← split]
    rfl
  rw [seatAll_filter session joined (List.Subset.refl _), left,
    seatAll_of_nodup others session limit fits (taken ▸ apart), taken]
  rfl

end Session

end MentalPoker
