/-
Layers as factors: adding one multiplies every card by a scalar that is not zero, removing it
multiplies by the inverse, and so layers come off in any order. Under any layers a deck keeps its 52
distinct entries, and without them it decodes to a permutation of the plain deck.
-/
import MentalPoker.Proofs.Card.Code
import MentalPoker.Proofs.Card.Shuffle
import MentalPoker.Proofs.Wire.RoundTrip
import Mathlib.Data.ZMod.Defs

namespace MentalPoker

namespace Deck

/-! ## Full decks -/

theorem plain_full : plain.encode.Full := by decide +kernel

/-- The bare cards are the scalars from 1 to 52. -/
theorem plain_scalars : plain.encode.entries = (List.range 52).map fun i => Fin.ofNat _ (i + 1) := by
  decide +kernel

theorem Full.of_perm {deck other : Deck Scalar} (h : deck.Full)
    (perm : other.entries.Perm deck.entries) : other.Full :=
  ⟨perm.length_eq.trans h.1, perm.nodup_iff.2 h.2⟩

/-! ## Factors -/

/-- The deck with every card multiplied by a factor. -/
def times (deck : Deck Scalar) (factor : Scalar) : Deck Scalar := ⟨deck.entries.map (· * factor)⟩

theorem times_times (deck : Deck Scalar) (f g : Scalar) :
    (deck.times f).times g = deck.times (f * g) := by
  simp [times, Function.comp_def, mul_assoc]

theorem times_one (deck : Deck Scalar) : deck.times 1 = deck := by simp [times]

theorem times_inverse {f : Scalar} (h : f ≠ 0) (deck : Deck Scalar) :
    (deck.times f).times (Residue.inverse f) = deck := by
  rw [times_times, Residue.mul_inverse h, times_one]

theorem mul_right_injective_of_ne_zero {f : Scalar} (nonzero : f ≠ 0) : Function.Injective (· * f) := by
  intro a b same
  have := congrArg (· * Residue.inverse f) same
  simpa only [mul_assoc, Residue.mul_inverse nonzero, mul_one] using this

theorem Full.times {deck : Deck Scalar} (h : deck.Full) {f : Scalar} (nonzero : f ≠ 0) :
    (deck.times f).Full :=
  ⟨by simpa [Deck.times, size] using h.1, h.2.map (mul_right_injective_of_ne_zero nonzero)⟩

theorem encrypt_eq {deck : Deck Scalar} {key : Point} {own factor : Scalar}
    (h : Cipher.sharedFactor key own = .ok factor) :
    deck.encrypt key own = .ok (deck.times factor) := by
  simp [encrypt, Cipher.encryptAll, h, Except.map, times]

theorem decrypt_eq {deck : Deck Scalar} {key : Point} {own factor : Scalar}
    (h : Cipher.sharedFactor key own = .ok factor) :
    deck.decrypt key own = .ok (deck.times (Residue.inverse factor)) := by
  simp [decrypt, Cipher.decryptAll, h, Except.map, times]

theorem encrypt_eq_error {deck : Deck Scalar} {key : Point} {own : Scalar} {cause : CipherError}
    (h : Cipher.sharedFactor key own = .error cause) : deck.encrypt key own = .error (.cipher cause) := by
  rw [encrypt, Cipher.encryptAll, h, Except.map]

theorem decrypt_eq_error {deck : Deck Scalar} {key : Point} {own : Scalar} {cause : CipherError}
    (h : Cipher.sharedFactor key own = .error cause) : deck.decrypt key own = .error (.cipher cause) := by
  rw [decrypt, Cipher.decryptAll, h, Except.map]

/-- A layer that was added has a factor. -/
theorem factor_of_encrypt {deck layered : Deck Scalar} {key : Point} {own : Scalar}
    (h : deck.encrypt key own = .ok layered) :
    ∃ factor, Cipher.sharedFactor key own = .ok factor ∧ layered = deck.times factor := by
  cases shared : Cipher.sharedFactor key own with
  | error cause =>
    rw [encrypt_eq_error shared] at h
    cases h
  | ok factor =>
    rw [encrypt_eq shared] at h
    cases h
    exact ⟨factor, rfl, rfl⟩

theorem factor_of_decrypt {deck bared : Deck Scalar} {key : Point} {own : Scalar}
    (h : deck.decrypt key own = .ok bared) :
    ∃ factor, Cipher.sharedFactor key own = .ok factor ∧
      bared = deck.times (Residue.inverse factor) := by
  cases shared : Cipher.sharedFactor key own with
  | error cause =>
    rw [decrypt_eq_error shared] at h
    cases h
  | ok factor =>
    rw [decrypt_eq shared] at h
    cases h
    exact ⟨factor, rfl, rfl⟩

/-! ## Removing layers -/

/-- A layer as its remover knows it: the other party's key and its own secret. -/
structure Layer where
  key : Point
  secret : Scalar

/-- The factor of a layer is known. -/
def Layer.Has (layer : Layer) (factor : Scalar) : Prop :=
  Cipher.sharedFactor layer.key layer.secret = .ok factor

/-- The deck without the layers, removed one after another. -/
def removeAll (deck : Deck Scalar) (layers : List Layer) : Except DealError (Deck Scalar) :=
  layers.foldlM (fun deck layer => deck.decrypt layer.key layer.secret) deck

/-- Layers come off one by one until the cards are bare again. -/
theorem removeAll_times : ∀ {layers : List Layer} {factors : List Scalar},
    List.Forall₂ Layer.Has layers factors → ∀ deck : Deck Scalar,
      (deck.times factors.prod).removeAll layers = .ok deck
  | [], [], .nil, deck => by simp [removeAll, times_one, pure, Except.pure]
  | layer :: layers, factor :: factors, .cons has rest, deck => by
    have nonzero := Cipher.sharedFactor_ne_zero has
    have swap : deck.times (factor :: factors).prod = (deck.times factors.prod).times factor := by
      rw [times_times, List.prod_cons, mul_comm]
    have ih := removeAll_times rest deck
    rw [removeAll] at ih ⊢
    rw [swap, List.foldlM_cons, decrypt_eq has, times_inverse nonzero]
    exact ih

/-! ## Bare cards -/

/-- Bare cards in any order decode to the plain deck in some order. -/
theorem decode_of_perm {deck : Deck Scalar} (h : deck.entries.Perm plain.encode.entries) :
    ∃ cards, deck.decode = .ok cards ∧ cards.entries.Perm plain.entries := by
  have codes : List.Forall₂ (fun value card => value = Card.toScalar card) plain.encode.entries plain.entries := by
    rw [← List.forall₂_map_right_iff, List.forall₂_eq_eq_eq]
    rfl
  obtain ⟨cards, coded, perm⟩ := List.perm_comp_forall₂ h codes
  rw [← List.forall₂_map_right_iff, List.forall₂_eq_eq_eq] at coded
  exact ⟨⟨cards⟩, decode_eq_ok_iff.2 (congrArg mk coded.symm), perm⟩

/-! ## Any order -/

theorem prod_ne_zero {layers : List Layer} {factors : List Scalar}
    (has : List.Forall₂ Layer.Has layers factors) : factors.prod ≠ 0 := by
  induction has with
  | nil => decide
  | cons has _ ih =>
    rw [List.prod_cons, Ne, Residue.mul_eq_zero_iff, not_or]
    exact ⟨Cipher.sharedFactor_ne_zero has, ih⟩

/-- Cards under layers are bare again once each layer has been removed, in whatever order. -/
theorem removeAll_of_perm {deck : Deck Scalar} {layers order : List Layer} {factors : List Scalar}
    (has : List.Forall₂ Layer.Has layers factors) (perm : order.Perm layers)
    (h : deck.entries.Perm (plain.encode.times factors.prod).entries) :
    ∃ bare cards, deck.removeAll order = .ok bare ∧ bare.decode = .ok cards ∧
      cards.entries.Perm plain.entries := by
  obtain ⟨factors', has', perm'⟩ := List.perm_comp_forall₂ perm has
  have nonzero := prod_ne_zero has
  have under : (deck.times (Residue.inverse factors.prod)).times factors'.prod = deck := by
    rw [perm'.prod_eq, times_times, mul_comm, Residue.mul_inverse nonzero, times_one]
  have bare : (deck.times (Residue.inverse factors.prod)).entries.Perm plain.encode.entries := by
    have divided := h.map (· * Residue.inverse factors.prod)
    change List.Perm _ ((plain.encode.times _).times _).entries at divided
    rwa [times_inverse nonzero] at divided
  obtain ⟨cards, decoded, same⟩ := decode_of_perm bare
  refine ⟨_, cards, ?_, decoded, same⟩
  have removed := removeAll_times has' (deck.times (Residue.inverse factors.prod))
  rwa [under] at removed

end Deck

end MentalPoker
