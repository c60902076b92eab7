/-
Cards as numbers. A card and its place in the canonical deck determine each other, and so do a card and its scalar:
the scalars of cards are the numbers from 1 to 52. Only the lowest word of a scalar is read, and its length shows that
the other words are zero. A deck of scalars is hence decoded exactly if it is the code of a deck of cards.
-/
import MentalPoker.Card.Deck
import MentalPoker.Proofs.Entries
import Mathlib.Algebra.Group.Nat.Defs
import Mathlib.Data.List.Forall2
import Mathlib.Tactic.Common

namespace MentalPoker

/-! ## Binary digits -/

namespace Residue

variable {m k : ℕ} {a : Fin m}

theorem bitLength_le_iff : bitLength a ≤ k ↔ a.val < 2 ^ k := by
  rw [bitLength]
  split
  · rename_i zero
    rw [zero]
    exact iff_of_true (Nat.zero_le k) (Nat.two_pow_pos k)
  · rename_i nonzero
    rw [Nat.add_one_le_iff, Nat.log2_lt nonzero]

theorem lowestWord_toNat (small : a.val < 2 ^ 64) : (lowestWord a).toNat = a.val := UInt64.toNat_ofNat_of_lt' small

end Residue

/-! ## Places -/

theorem Suit.mem_all (suit : Suit) : suit ∈ all := by cases suit <;> decide

theorem Rank.mem_all (rank : Rank) : rank ∈ all := by cases rank <;> decide

theorem Suit.getElem?_eq_some_iff {i : ℕ} {suit : Suit} : all[i]? = some suit ↔ i = suit.position :=
  getElem?_eq_some_iff_idxOf (by decide) suit.mem_all

theorem Rank.getElem?_eq_some_iff {i : ℕ} {rank : Rank} : all[i]? = some rank ↔ i = rank.position :=
  getElem?_eq_some_iff_idxOf (by decide) rank.mem_all

theorem Suit.position_lt (suit : Suit) : suit.position < all.length := List.idxOf_lt_length_of_mem suit.mem_all

theorem Rank.position_lt (rank : Rank) : rank.position < all.length := List.idxOf_lt_length_of_mem rank.mem_all

namespace Card

theorem index_lt (card : Card) : card.index < count := by
  have suit := card.suit.position_lt
  have rank := card.rank.position_lt
  calc card.index < card.suit.position * Rank.all.length + Rank.all.length := Nat.add_lt_add_left rank _
    _ = (card.suit.position + 1) * Rank.all.length := (Nat.succ_mul ..).symm
    _ ≤ count := Nat.mul_le_mul_right _ suit

theorem ofIndex?_eq_some_iff {i : ℕ} {card : Card} : ofIndex? i = some card ↔ i = card.index := by
  obtain ⟨rank, suit⟩ := card
  have place : ofIndex? i = some ⟨rank, suit⟩ ↔
      i / Rank.all.length = suit.position ∧ i % Rank.all.length = rank.position := by
    rw [← Suit.getElem?_eq_some_iff, ← Rank.getElem?_eq_some_iff]
    simp only [ofIndex?, bind, Option.bind_eq_some_iff, pure, Option.some.injEq, mk.injEq]
    constructor
    · rintro ⟨suit', hs, rank', hr, rfl, rfl⟩
      exact ⟨hs, hr⟩
    · rintro ⟨hs, hr⟩
      exact ⟨suit, hs, rank, hr, rfl, rfl⟩
  rw [place, index]
  have small := rank.position_lt
  constructor
  · rintro ⟨high, low⟩
    rw [← high, ← low, Nat.div_add_mod']
  · rintro rfl
    exact ⟨by rw [Nat.mul_comm, Nat.mul_add_div (by decide), Nat.div_eq_of_lt small, Nat.add_zero],
      by rw [Nat.mul_comm, Nat.mul_add_mod, Nat.mod_eq_of_lt small]⟩

/-- Each of the 52 places is that of a card. -/
theorem exists_index {i : ℕ} (inside : i < count) : ∃ card : Card, card.index = i := by
  have suit : i / Rank.all.length < Suit.all.length := Nat.div_lt_of_lt_mul (by rwa [Nat.mul_comm])
  have rank : i % Rank.all.length < Rank.all.length := Nat.mod_lt i (by decide)
  refine ⟨⟨Rank.all[i % Rank.all.length], Suit.all[i / Rank.all.length]⟩, (ofIndex?_eq_some_iff.1 ?_).symm⟩
  simp [ofIndex?, suit, rank]

/-! ## Scalars -/

theorem toScalar_val (card : Card) : card.toScalar.val = card.index + 1 := by
  have small : card.index + 1 < groupOrder := Nat.lt_of_le_of_lt card.index_lt (by decide)
  rw [toScalar, Fin.val_ofNat, Nat.mod_eq_of_lt small]

theorem toScalar_ne_zero (card : Card) : card.toScalar ≠ 0 := by
  intro zero
  have := card.toScalar_val
  rw [zero, Fin.val_zero] at this
  omega

theorem ofScalar?_eq_some_iff {value : Scalar} {card : Card} :
    ofScalar? value = some card ↔ value = card.toScalar := by
  have place := card.toScalar_val
  have inside : card.index < 52 := card.index_lt
  rw [ofScalar?, Fin.ext_iff, place]
  split
  · rename_i long
    rw [← Nat.not_le, Residue.bitLength_le_iff] at long
    simp only [reduceCtorEq, false_iff]
    omega
  · rename_i short
    rw [Nat.not_lt, Residue.bitLength_le_iff] at short
    rw [Residue.lowestWord_toNat (by omega)]
    cases value.val with
    | zero => simp
    | succ i => simp only [ofIndex?_eq_some_iff, Nat.add_right_cancel_iff]

/-- A scalar that is not one of the numbers from 1 to 52 stands for no card. -/
theorem ofScalar?_eq_none_iff {value : Scalar} :
    ofScalar? value = none ↔ ¬ (1 ≤ value.val ∧ value.val ≤ count) := by
  rw [Option.eq_none_iff_forall_ne_some]
  constructor
  · rintro none ⟨pos, small⟩
    obtain ⟨card, place⟩ := exists_index (i := value.val - 1) (by omega)
    refine none card (ofScalar?_eq_some_iff.2 (Fin.ext ?_))
    rw [toScalar_val, place, Nat.sub_add_cancel pos]
  · intro outside card found
    have place := card.index_lt
    rw [ofScalar?_eq_some_iff, Fin.ext_iff, toScalar_val] at found
    omega

theorem toScalar_injective : Function.Injective toScalar := by
  intro card other same
  have mine := ofScalar?_eq_some_iff.2 (Eq.refl card.toScalar)
  rw [same, ofScalar?_eq_some_iff.2 rfl] at mine
  exact (Option.some.inj mine).symm

end Card

/-! ## Decks -/

namespace Deck

theorem mapM_eq_some_iff {α β : Type} {f : α → Option β} {xs : List α} {ys : List β} :
    xs.mapM f = some ys ↔ List.Forall₂ (fun x y => f x = some y) xs ys := by
  induction xs generalizing ys with
  | nil => cases ys <;> simp
  | cons x xs ih =>
    rw [List.mapM_cons, List.forall₂_cons_left_iff]
    cases first : f x with
    | none => simp
    | some y =>
      cases rest : xs.mapM f with
      | none => simp [← ih, rest]
      | some zs => simp [← ih, rest, eq_comm]

/-- A deck is decoded as the cards whose code it is. -/
theorem decode_eq_ok_iff {deck : Deck Scalar} {cards : Deck Card} :
    deck.decode = .ok cards ↔ cards.encode = deck := by
  have coded : deck.entries.mapM Card.ofScalar? = some cards.entries ↔ cards.encode = deck := by
    simp only [mapM_eq_some_iff, Card.ofScalar?_eq_some_iff]
    rw [← List.forall₂_map_right_iff, List.forall₂_eq_eq_eq]
    exact ⟨fun same => congrArg mk same.symm, fun same => congrArg entries same.symm⟩
  rw [← coded, decode]
  cases deck.entries.mapM Card.ofScalar? with
  | none => simp
  | some known => exact ⟨by rintro ⟨⟩; rfl, by rintro ⟨⟩; rfl⟩

theorem mapM_eq_none_iff {α β : Type} {f : α → Option β} {xs : List α} :
    xs.mapM f = none ↔ ∃ x ∈ xs, f x = none := by
  induction xs with
  | nil => simp
  | cons x xs ih =>
    rw [List.mapM_cons, List.exists_mem_cons_iff, ← ih]
    cases f x <;> cases xs.mapM f <;> simp

/-- A deck with an entry that is no card's scalar is not decoded. -/
theorem decode_eq_error_iff {deck : Deck Scalar} {e : DealError} : deck.decode = .error e ↔
    e = .unknownCard ∧ ∃ value ∈ deck.entries, ¬ (1 ≤ value.val ∧ value.val ≤ Card.count) := by
  simp only [← Card.ofScalar?_eq_none_iff, ← mapM_eq_none_iff]
  rw [decode]
  cases deck.entries.mapM Card.ofScalar? with
  | none => simp [eq_comm]
  | some cards => simp

end Deck

end MentalPoker
