/-
Hands: the cards of a deck in equal parts, the first for the player after the dealer and the last for
the dealer. All hands of a table one after another are the beginning of the deck: no card is left out, and
none is in two hands. Where a part begins and ends is computed in words. As long as the last place of a
table is a word this is arithmetic; beyond, a program that stops deals no hand, and one that goes on may
deal one that begins where the product has wrapped to.
-/
import MentalPoker.Game.Role
import MentalPoker.Proofs.Game.Circle

namespace MentalPoker

namespace Deck

variable {α β : Type} [DecidableEq β] {deck : Deck α} {players order : List β} {dealer a : β}
  {count k : Nat}

/-- A hand ends as many hands after the first card as its owner sits after the dealer. -/
theorem reach_of_seat {seat : Nat} (pos : 0 < seat) (count : Nat) : (seat - 1) * count + count = seat * count := by
  rw [← Nat.succ_mul, Nat.succ_eq_add_one, Nat.sub_add_cancel pos]

/-! ## Places -/

section

variable {overflow : Overflow} {seat : Nat} {hand : List α}

theorem slice?_eq_some_iff {start stop : Nat} : deck.slice? start stop = some hand ↔
    start ≤ stop ∧ stop ≤ deck.size ∧ hand = (deck.entries.drop start).take (stop - start) := by
  rw [slice?, Option.ite_none_right_eq_some, Option.some.injEq, and_assoc, eq_comm (a := hand)]

theorem handWith?_seated (distance : Circle.distance? players dealer a = some seat) :
    deck.handWith? overflow players dealer a count = do
      let start ← overflow.word? ((seat - 1) * count)
      let stop ← overflow.word? (start + count)
      return deck.slice? start stop := by
  rw [handWith?, distance]

/-- Who is dealt a hand, whether the program stops or not, has a seat, as the dealer has. -/
theorem exists_distance_of_handWith? (dealt : deck.handWith? overflow players dealer a count = some (some hand)) :
    ∃ seat, Circle.distance? players dealer a = some seat := by
  cases distance : Circle.distance? players dealer a with
  | none =>
    rw [handWith?, distance] at dealt
    cases dealt
  | some seat => exact ⟨seat, rfl⟩

/-- Where the end of a hand is a word, the hand is the part of the deck that the distance from the dealer tells. -/
theorem handWith?_eq_slice (overflow : Overflow) (distance : Circle.distance? players dealer a = some seat)
    (fits : seat * count < UInt64.size) :
    deck.handWith? overflow players dealer a count = some (deck.slice? ((seat - 1) * count) (seat * count)) := by
  have reach := reach_of_seat (Circle.distance?_within distance).2.2.1 count
  have start : overflow.word? ((seat - 1) * count) = some ((seat - 1) * count) := overflow.word?_of_lt (by omega)
  have stop : overflow.word? ((seat - 1) * count + count) = some (seat * count) := by
    rw [reach]
    exact overflow.word?_of_lt fits
  rw [handWith?_seated distance]
  simp only [bind, start, stop, Option.bind_some, pure]

/-- A program that stops at a number that no word holds stops exactly at the hands that end there. -/
theorem handWith?_stops_eq_none_iff : deck.handWith? .stops players dealer a count = none ↔
    ∃ seat, Circle.distance? players dealer a = some seat ∧ UInt64.size ≤ seat * count := by
  cases distance : Circle.distance? players dealer a with
  | none => simp [handWith?, distance]
  | some seat =>
    have reach := reach_of_seat (Circle.distance?_within distance).2.2.1 count
    simp only [Option.some.injEq, exists_eq_left']
    constructor
    · intro stopped
      by_contra fits
      rw [handWith?_eq_slice .stops distance (by omega)] at stopped
      cases stopped
    · intro beyond
      rw [handWith?_seated distance, Option.bind_eq_bind, Option.bind_eq_none_iff]
      intro start begins
      -- the hand begins where it would, and so it ends beyond the words
      simp only [Overflow.word?, Option.ite_none_right_eq_some, Option.some.injEq] at begins
      obtain ⟨-, rfl⟩ := begins
      rw [reach, Overflow.word?_stops_eq_none_iff.2 beyond]
      rfl

/-- A hand begins at the word for its first place, if the deck goes far enough from there. -/
theorem handWith?_eq_some_iff (word : count < UInt64.size) (sized : deck.size < UInt64.size) :
    deck.handWith? overflow players dealer a count = some (some hand) ↔
      ∃ seat start, Circle.distance? players dealer a = some seat ∧
        overflow.word? ((seat - 1) * count) = some start ∧ start + count ≤ deck.size ∧
        hand = (deck.entries.drop start).take count := by
  constructor
  · intro dealt
    obtain ⟨seat, distance⟩ := exists_distance_of_handWith? dealt
    rw [handWith?_seated distance] at dealt
    simp only [bind, Option.bind_eq_some_iff, pure, Option.some.injEq, slice?_eq_some_iff] at dealt
    obtain ⟨start, begins, stop, ends, order, enough, part⟩ := dealt
    -- a hand that wraps would end before it begins
    have together : stop = start + count := Overflow.eq_add_of_word? (Overflow.lt_of_word? begins) word ends order
    rw [together, Nat.add_sub_cancel_left] at part
    exact ⟨seat, start, distance, begins, together ▸ enough, part⟩
  · rintro ⟨seat, start, distance, begins, enough, rfl⟩
    have ends : overflow.word? (start + count) = some (start + count) := overflow.word?_of_lt (by omega)
    rw [handWith?_seated distance]
    simp only [bind, begins, ends, Option.bind_some, pure, Option.some.injEq, slice?_eq_some_iff]
    exact ⟨Nat.le_add_right _ _, enough, by rw [Nat.add_sub_cancel_left]⟩

theorem length_of_handWith? (word : count < UInt64.size) (sized : deck.size < UInt64.size)
    (dealt : deck.handWith? overflow players dealer a count = some (some hand)) : hand.length = count := by
  obtain ⟨seat, start, -, -, enough, rfl⟩ := (handWith?_eq_some_iff word sized).1 dealt
  unfold size at enough
  rw [List.length_take, List.length_drop]
  omega

/-- A program that goes on deals exactly the hands that do not go beyond the deck from where they begin. -/
theorem exists_handWith?_wraps_iff (word : count < UInt64.size) (sized : deck.size < UInt64.size) :
    (∃ hand, deck.handWith? .wraps players dealer a count = some (some hand)) ↔
      ∃ seat, Circle.distance? players dealer a = some seat ∧
        (seat - 1) * count % UInt64.size + count ≤ deck.size := by
  simp only [handWith?_eq_some_iff word sized, Overflow.word?, Option.some.injEq]
  constructor
  · rintro ⟨hand, seat, start, distance, rfl, enough, -⟩
    exact ⟨seat, distance, enough⟩
  · rintro ⟨seat, distance, enough⟩
    exact ⟨_, seat, _, distance, rfl, enough, rfl⟩

/-- Where the program stops, or a table of hands as long as the deck ends at a word, a player has a hand exactly if
the deck goes as far as the distance from the dealer tells. -/
theorem exists_handWith?_iff (word : count < UInt64.size) (sized : deck.size < UInt64.size)
    (safe : overflow = .stops ∨ players.length * deck.size < UInt64.size) :
    (∃ hand, deck.handWith? overflow players dealer a count = some (some hand)) ↔
      ∃ seat, Circle.distance? players dealer a = some seat ∧ seat * count ≤ deck.size := by
  constructor
  · rintro ⟨hand, dealt⟩
    obtain ⟨seat, start, distance, begins, enough, -⟩ := (handWith?_eq_some_iff word sized).1 dealt
    obtain ⟨-, -, pos, most⟩ := Circle.distance?_within distance
    have reach := reach_of_seat pos count
    -- the first place is a word already
    have place : start = (seat - 1) * count := by
      rcases safe with rfl | small
      · simp only [Overflow.word?, Option.ite_none_right_eq_some, Option.some.injEq] at begins
        exact begins.2.symm
      · have bound : seat * count ≤ players.length * deck.size := Nat.mul_le_mul most (by omega)
        rw [overflow.word?_of_lt (by omega), Option.some.injEq] at begins
        exact begins.symm
    exact ⟨seat, distance, by omega⟩
  · rintro ⟨seat, distance, enough⟩
    have reach := reach_of_seat (Circle.distance?_within distance).2.2.1 count
    rw [handWith?_eq_slice overflow distance (by omega)]
    exact ⟨_, congrArg some (slice?_eq_some_iff.2 ⟨by omega, enough, rfl⟩)⟩

/-! ## Hands -/

theorem hand?_eq_some_iff_wraps : deck.hand? players dealer a count = some hand ↔
    deck.handWith? .wraps players dealer a count = some (some hand) :=
  Option.join_eq_some_iff

/-- Whoever is dealt a hand has a seat, as the dealer has. -/
theorem seated_of_hand? (h : deck.hand? players dealer a count = some hand) : dealer ∈ players ∧ a ∈ players := by
  obtain ⟨seat, distance⟩ := exists_distance_of_handWith? (hand?_eq_some_iff_wraps.1 h)
  obtain ⟨deals, seated, -⟩ := Circle.distance?_within distance
  exact ⟨deals, seated⟩

/-- Where the last place of the table is a word, every program deals the same hands. -/
theorem handWith?_of_fits (overflow : Overflow) (fits : players.length * count < UInt64.size) :
    deck.handWith? overflow players dealer a count = some (deck.hand? players dealer a count) := by
  cases distance : Circle.distance? players dealer a with
  | none => simp [hand?, handWith?, distance]
  | some seat =>
    have most := (Circle.distance?_within distance).2.2.2
    have small : seat * count < UInt64.size := (Nat.mul_le_mul_right count most).trans_lt fits
    rw [hand?, handWith?_eq_slice overflow distance small, handWith?_eq_slice .wraps distance small, Option.join_some]

/-- A hand is the part of the deck that the distance from the dealer tells, if the deck goes that far. -/
theorem hand?_eq_some_iff (fits : players.length * count < UInt64.size) :
    deck.hand? players dealer a count = some hand ↔
      ∃ seat, Circle.distance? players dealer a = some seat ∧ seat * count ≤ deck.size ∧
        hand = (deck.entries.drop ((seat - 1) * count)).take count := by
  rw [hand?_eq_some_iff_wraps]
  cases distance : Circle.distance? players dealer a with
  | none => simp [handWith?, distance]
  | some seat =>
    obtain ⟨-, -, pos, most⟩ := Circle.distance?_within distance
    have reach := reach_of_seat pos count
    have small : seat * count < UInt64.size := (Nat.mul_le_mul_right count most).trans_lt fits
    have width : seat * count - (seat - 1) * count = count := by omega
    rw [handWith?_eq_slice .wraps distance small, Option.some.injEq, slice?_eq_some_iff, width]
    simp only [Option.some.injEq, exists_eq_left']
    exact and_iff_right (by omega)

end

/-- Everybody at the table gets as many cards as there are to be. -/
theorem exists_hand (fits : players.length * count < UInt64.size) (h : Circle.rotation? players dealer = some order)
    (enough : order.length * count ≤ deck.size) (seated : a ∈ order) :
    ∃ hand, deck.hand? players dealer a count = some hand ∧ hand.length = count := by
  have perm := Circle.rotation_perm h
  have deals : dealer ∈ players := perm.mem_iff.1 (List.mem_of_getElem? (Circle.rotation_head h))
  obtain ⟨seat, distance⟩ := Circle.exists_distance deals (perm.mem_iff.1 seated)
  obtain ⟨-, -, pos, most⟩ := Circle.distance?_within distance
  have reach := reach_of_seat pos count
  rw [perm.length_eq] at enough
  have far : seat * count ≤ deck.size := (Nat.mul_le_mul_right count most).trans enough
  refine ⟨_, (hand?_eq_some_iff fits).2 ⟨seat, distance, far, rfl⟩, ?_⟩
  unfold size at far
  rw [List.length_take, List.length_drop]
  omega

/-- The hand at a place of the rotation. -/
theorem hand?_eq_part {hand : List α} (fits : players.length * count < UInt64.size) (nodup : players.Nodup)
    (h : Circle.rotation? players dealer = some order) (place : order[k]? = some a)
    (dealt : deck.hand? players dealer a count = some hand) :
    hand = (deck.entries.drop (((if k = 0 then order.length else k) - 1) * count)).take count := by
  obtain ⟨seat, distance, -, part⟩ := (hand?_eq_some_iff fits).1 dealt
  rw [Circle.distance?_rotation nodup h place, Option.some.injEq] at distance
  rw [part, distance]

/-- Different parts of a list without repetitions have nothing in common. -/
theorem disjoint_parts {xs : List α} (nodup : xs.Nodup) (count : Nat) {i j : Nat} (before : i < j) :
    ((xs.drop (i * count)).take count).Disjoint ((xs.drop (j * count)).take count) := by
  have reach : i * count + count ≤ j * count := by
    rw [← Nat.succ_mul]
    exact Nat.mul_le_mul_right count before
  intro card early late
  rw [List.take_drop] at early
  exact List.disjoint_take_drop nodup reach (List.mem_of_mem_drop early) (List.mem_of_mem_take late)

/-- Nobody has a card of another player's hand. -/
theorem hand?_disjoint {b : β} {hand hand' : List α} (fits : players.length * count < UInt64.size)
    (nodup : players.Nodup) (distinct : deck.entries.Nodup)
    (mine : deck.hand? players dealer a count = some hand)
    (yours : deck.hand? players dealer b count = some hand') (apart : a ≠ b) : hand.Disjoint hand' := by
  obtain ⟨dealerSeated, seated⟩ := seated_of_hand? mine
  obtain ⟨order, rotation⟩ := Circle.exists_rotation dealerSeated
  have perm := Circle.rotation_perm rotation
  obtain ⟨i, place⟩ := List.getElem?_of_mem (perm.mem_iff.2 seated)
  obtain ⟨j, place'⟩ := List.getElem?_of_mem (perm.mem_iff.2 (seated_of_hand? yours).2)
  have inside := (List.getElem?_eq_some_iff.1 place).1
  have inside' := (List.getElem?_eq_some_iff.1 place').1
  rw [hand?_eq_part fits nodup rotation place mine, hand?_eq_part fits nodup rotation place' yours]
  have differ : i ≠ j := by
    rintro rfl
    exact apart (Option.some.inj (place.symm.trans place'))
  have parts : (if i = 0 then order.length else i) - 1 ≠ (if j = 0 then order.length else j) - 1 := by
    split <;> split <;> omega
  rcases Nat.lt_or_gt_of_ne parts with before | after
  · exact disjoint_parts distinct count before
  · exact fun _ mine yours => disjoint_parts distinct count after yours mine

/-- Parts of a list one after another are its beginning. -/
theorem flatten_parts (xs : List α) (count n : Nat) :
    ((List.range n).map fun i => (xs.drop (i * count)).take count).flatten = xs.take (n * count) := by
  induction n with
  | zero => simp
  | succ n ih =>
    rw [List.range_succ, List.map_append, List.flatten_append, ih, Nat.succ_mul, List.take_add]
    simp

/-- The hands of a table, from the player after the dealer on, are the beginning of the deck. -/
theorem hands_rotation (fits : players.length * count < UInt64.size) (nodup : players.Nodup)
    (h : Circle.rotation? players dealer = some order)
    {hand : β → List α} (dealt : ∀ a ∈ order, deck.hand? players dealer a count = some (hand a)) :
    (order.rotate 1).flatMap hand = deck.entries.take (order.length * count) := by
  rw [← flatten_parts, List.flatMap_def]
  congr 1
  refine List.ext_getElem (by simp) fun i inside inside' => ?_
  rw [List.length_map, List.length_range] at inside'
  have seat : (i + 1) % order.length < order.length := Nat.mod_lt _ (by omega)
  have place := List.getElem?_eq_getElem seat
  have mine := hand?_eq_part fits nodup h place (dealt _ (List.mem_of_getElem? place))
  -- the last place of the rotation from the next player on is the dealer's
  have same : (if (i + 1) % order.length = 0 then order.length else (i + 1) % order.length) - 1 = i := by
    rcases Nat.lt_or_ge (i + 1) order.length with below | above
    · rw [Nat.mod_eq_of_lt below, if_neg (by omega)]
      omega
    · rw [show i + 1 = order.length by omega, Nat.mod_self, if_pos rfl]
      omega
  rw [same] at mine
  rw [List.getElem_map, List.getElem_map, List.getElem_rotate, List.getElem_range]
  exact mine

/-- Every card as far as the hands go is in the hand of one player only. -/
theorem existsUnique_owner (fits : players.length * count < UInt64.size) (nodup : players.Nodup)
    (distinct : deck.entries.Nodup)
    (h : Circle.rotation? players dealer = some order) {hand : β → List α}
    (dealt : ∀ a ∈ players, deck.hand? players dealer a count = some (hand a)) {card : α}
    (among : card ∈ deck.entries.take (order.length * count)) : ∃! a, a ∈ players ∧ card ∈ hand a := by
  have perm := Circle.rotation_perm h
  rw [← hands_rotation fits nodup h fun a member => dealt a (perm.mem_iff.1 member), List.mem_flatMap] at among
  obtain ⟨a, member, mine⟩ := among
  rw [List.mem_rotate, perm.mem_iff] at member
  refine ⟨a, ⟨member, mine⟩, ?_⟩
  rintro b ⟨member', yours⟩
  by_contra apart
  exact hand?_disjoint fits nodup distinct (dealt b member') (dealt a member) apart yours mine

/-- The hands of a table are a partition of the top of the deck. A player has one exactly if it and the dealer sit
and the deck goes as far as its distance from the dealer tells, and then as many cards as there are to be; that distance
is one place at least and a whole turn at most. If there are enough cards for all, the hands from the player after the
dealer on to the dealer are one after another what the deck begins with, so that none of these cards is left out or
dealt twice. Counts and places are words. A program that stops at other numbers does so exactly at the hands that end
there. One that goes on has a hand for whoever finds enough cards from the word on where its hand begins; only at a
table so large that a hand as long as the deck for each player leaves the words is this anything else. -/
theorem hands_partition (deck : Deck α) (count : Nat) (word : count < UInt64.size) (sized : deck.size < UInt64.size)
    (nodup : players.Nodup) :
    (∀ overflow : Overflow, overflow = .stops ∨ players.length * deck.size < UInt64.size → ∀ dealer a,
      (∃ hand, deck.handWith? overflow players dealer a count = some (some hand)) ↔ dealer ∈ players ∧ a ∈ players ∧
        ∃ seat, Circle.distance? players dealer a = some seat ∧ seat * count ≤ deck.size) ∧
    (∀ dealer a, deck.handWith? .stops players dealer a count = none ↔
      ∃ seat, Circle.distance? players dealer a = some seat ∧ UInt64.size ≤ seat * count) ∧
    (∀ dealer a, (∃ hand, deck.handWith? .wraps players dealer a count = some (some hand)) ↔
      ∃ seat, Circle.distance? players dealer a = some seat ∧
        (seat - 1) * count % UInt64.size + count ≤ deck.size) ∧
    (∀ overflow dealer a hand, deck.handWith? overflow players dealer a count = some (some hand) →
      hand.length = count) ∧
    (∀ dealer a seat, Circle.distance? players dealer a = some seat → 0 < seat ∧ seat ≤ players.length) ∧
    ∀ overflow d dealer, players[d]? = some dealer → players.length * count ≤ deck.size →
      ∃ hand : β → List α, (∀ a ∈ players, deck.handWith? overflow players dealer a count = some (some (hand a))) ∧
        (players.drop (d + 1) ++ players.take (d + 1)).flatMap hand =
          deck.entries.take (players.length * count) ∧
        (deck.entries.Nodup → ∀ card ∈ deck.entries.take (players.length * count),
          ∃! a, a ∈ players ∧ card ∈ hand a) := by
  refine ⟨fun overflow safe dealer a => ?_, fun _ _ => handWith?_stops_eq_none_iff,
    fun _ _ => exists_handWith?_wraps_iff word sized, fun _ _ _ _ => length_of_handWith? word sized,
    fun dealer a seat distance => (Circle.distance?_within distance).2.2, fun overflow d dealer dealt enough => ?_⟩
  · rw [exists_handWith?_iff word sized safe]
    constructor
    · rintro ⟨seat, distance, enough⟩
      obtain ⟨deals, seated, -⟩ := Circle.distance?_within distance
      exact ⟨deals, seated, seat, distance, enough⟩
    · exact fun h => h.2.2
  · have fits : players.length * count < UInt64.size := enough.trans_lt sized
    obtain ⟨order, rotation⟩ := Circle.exists_rotation (List.mem_of_getElem? dealt)
    have perm := Circle.rotation_perm rotation
    simp only [handWith?_of_fits overflow fits, Option.some.injEq]
    rw [← perm.length_eq] at enough ⊢
    -- the hands as one function; who does not sit at the table has no cards
    have served (a : β) : ∃ hand : List α, a ∈ players → deck.hand? players dealer a count = some hand := by
      by_cases seated : a ∈ players
      · obtain ⟨hand, dealt, -⟩ := exists_hand fits rotation enough (perm.mem_iff.2 seated)
        exact ⟨hand, fun _ => dealt⟩
      · exact ⟨[], fun h => absurd h seated⟩
    choose hand dealtTo using served
    refine ⟨hand, dealtTo, ?_, fun distinct card among => existsUnique_owner fits nodup distinct rotation dealtTo among⟩
    rw [← Circle.rotation_rotate_one nodup rotation dealt]
    exact hands_rotation fits nodup rotation fun a member => dealtTo a (perm.mem_iff.1 member)

/-- All but one of the cards are dealt among three, from the player after the dealer on. With hands of 2⁶³ cards there
is none, and a program that does not go on beyond the words stops at the third of them. -/
theorem hands_partition_three :
    let players : List String := ["alice", "bob", "carol"]
    players.Nodup ∧ 17 < UInt64.size ∧ 0x8000000000000000 < UInt64.size ∧ plain.size < UInt64.size ∧
      (∃ hand : String → List Card,
        hand "carol" ++ hand "alice" ++ hand "bob" = plain.entries.take 51 ∧
        ∀ card ∈ plain.entries.take 51, ∃! a, a ∈ players ∧ card ∈ hand a) ∧
      plain.handWith? .stops players "bob" "bob" 0x8000000000000000 = none ∧
      ¬ ∃ hand, plain.handWith? .wraps players "bob" "bob" 0x8000000000000000 = some (some hand) := by
  intro players
  have nodup : players.Nodup := by decide
  have word : 17 < UInt64.size := by decide
  have large : 0x8000000000000000 < UInt64.size := by decide
  have sized : plain.size < UInt64.size := by decide
  obtain ⟨-, -, -, -, -, partition⟩ := hands_partition plain 17 word sized nodup
  obtain ⟨hand, -, together, once⟩ := partition .wraps 1 "bob" rfl (by decide)
  obtain ⟨deals, stops, -⟩ := hands_partition plain 0x8000000000000000 large sized nodup
  refine ⟨nodup, word, large, sized, ⟨hand, ?_, once (by decide)⟩, ?_, ?_⟩
  · rw [List.append_assoc]
    simpa [players] using together
  · exact (stops "bob" "bob").2 ⟨3, by decide, by decide⟩
  · rw [deals .wraps (.inr (by decide))]
    rintro ⟨-, -, seat, distance, enough⟩
    have three : Circle.distance? players "bob" "bob" = some 3 := by decide
    obtain rfl : 3 = seat := Option.some.inj (three.symm.trans distance)
    revert enough
    decide

end Deck

/-- What a player takes from the decrypted deck is its hand in its view of the table. -/
theorem Session.hand?_of_dealtHand? {session : Session} {me : Address} {deck : Deck Scalar} {count : Nat}
    {hand : List Scalar} (h : session.dealtHand? me deck count = some hand) :
    deck.hand? session.players session.dealer me count = some hand := by
  unfold dealtHand? at h
  split at h
  · cases h
  · exact h

/-- At a table for which the deck is large enough everybody has a hand. -/
theorem Session.exists_dealtHand {session : Session} {me : Address} {deck : Deck Scalar} {count : Nat}
    (deals : session.dealer ∈ session.players) (seated : me ∈ session.players) (cards : 0 < count)
    (fits : session.players.length * count < UInt64.size) (enough : session.players.length * count ≤ deck.size) :
    ∃ hand, session.dealtHand? me deck count = some hand ∧ hand.length = count := by
  obtain ⟨order, rotation⟩ := Circle.exists_rotation deals
  have perm := Circle.rotation_perm rotation
  rw [← perm.length_eq] at enough
  obtain ⟨hand, dealt, length⟩ := Deck.exists_hand fits rotation enough (perm.mem_iff.2 seated)
  refine ⟨hand, ?_, length⟩
  rw [dealtHand?, if_neg cards.ne', dealt]

end MentalPoker
