/-
Pairings of a point and a secret. A layer that is removed with another pairing than it was added with leaves a
scalar like any other, which is the message only if that is zero or the two pairings have the same factor. They have
if their shared points are the same or opposite, so that the sign of neither the point nor the secret matters.
-/
import MentalPoker.Proofs.Card.Distinct

namespace MentalPoker

namespace Cipher

variable {key key' : Point} {own own' factor factor' : Scalar}

/-! ## Signs -/

/-- Opposite points have the same x coordinate, and so the same factor, or none for the same reason. -/
theorem sharedFactor_of_opposite (h : key.multiple own.val = (key'.multiple own'.val).opposite) :
    sharedFactor key own = sharedFactor key' own' := by
  unfold sharedFactor
  rw [h]
  cases key'.multiple own'.val with
  | infinity => rfl
  | affine x y => rfl

theorem sharedFactor_opposite (onCurve : key.OnCurve) (own : Scalar) :
    sharedFactor key.opposite own = sharedFactor key own :=
  sharedFactor_of_opposite (Point.opposite_multiple onCurve own.val)

theorem sharedFactor_neg (onCurve : key.OnCurve) (inSubgroup : key.InSubgroup) (own : Scalar) :
    sharedFactor key (-own) = sharedFactor key own := by
  refine sharedFactor_of_opposite (Point.multiple_eq_opposite onCurve inSubgroup ?_)
  rw [Nat.dvd_iff_mod_eq_zero, ← Fin.val_add, neg_add_cancel, Fin.val_zero]

theorem degenerate_congr (h : sharedFactor key own = sharedFactor key' own') :
    Degenerate key own ↔ Degenerate key' own' := by
  rw [degenerate_iff, degenerate_iff, h]

/-! ## Removing with another pairing -/

theorem not_degenerate_of_isOk (h : (sharedFactor key own).isOk = true) : ¬ Degenerate key own := by
  rw [degenerate_iff]
  rintro ⟨cause, shared⟩
  rw [shared] at h
  cases h

theorem exists_factor (sound : ¬ Degenerate key own) : ∃ factor, sharedFactor key own = .ok factor := by
  cases shared : sharedFactor key own with
  | error cause => exact absurd (degenerate_iff.2 ⟨cause, shared⟩) sound
  | ok factor => exact ⟨factor, rfl⟩

/-- The factor of the one pairing stays and that of the other one is divided by, which is the same only if the two
cancel. -/
theorem exchanged_eq_iff (nonzero : factor' ≠ 0) {message : Scalar} :
    message * factor * Residue.inverse factor' = message ↔ message = 0 ∨ factor = factor' := by
  rw [Residue.mul_inverse_eq_iff nonzero, Residue.mul_eq_mul_iff, or_comm]

theorem exchanged_ne_zero (nonzero : factor ≠ 0) (nonzero' : factor' ≠ 0) {message : Scalar} (some : message ≠ 0) :
    message * factor * Residue.inverse factor' ≠ 0 := by
  rw [Ne, Residue.mul_eq_zero_iff, Residue.mul_eq_zero_iff]
  rintro ((none | none) | none)
  · exact some none
  · exact nonzero none
  · exact Residue.inverse_ne_zero nonzero' none

/-- What a wrong pairing does. A layer is removed with any pairing that has a factor. What comes out is the message
exactly if that is zero or the factor is the one that the layer was added with, and otherwise it is neither zero nor
the message. For a point of the subgroup the factor is the same with the opposite point and with the opposite
secret, as is whether there is one. -/
theorem wrong_pairing :
    (∀ {key key' : Point} {own own' : Scalar}, ¬ Degenerate key own → ¬ Degenerate key' own' → ∀ message,
      ∃ coded opened, encrypt message key own = .ok coded ∧ decrypt coded key' own' = .ok opened ∧
        (opened = message ↔ message = 0 ∨ sharedFactor key own = sharedFactor key' own') ∧
        (¬ (message = 0 ∨ sharedFactor key own = sharedFactor key' own') → opened ≠ 0 ∧ opened ≠ message)) ∧
    ∀ {key : Point}, key.OnCurve → key.InSubgroup → ∀ own,
      sharedFactor key.opposite own = sharedFactor key own ∧ sharedFactor key (-own) = sharedFactor key own ∧
      (Degenerate key.opposite own ↔ Degenerate key own) ∧ (Degenerate key (-own) ↔ Degenerate key own) := by
  constructor
  · intro key key' own own' sound sound' message
    obtain ⟨factor, shared⟩ := exists_factor sound
    obtain ⟨factor', shared'⟩ := exists_factor sound'
    have nonzero := sharedFactor_ne_zero shared
    have nonzero' := sharedFactor_ne_zero shared'
    have same : sharedFactor key own = sharedFactor key' own' ↔ factor = factor' := by
      rw [shared, shared', Except.ok.injEq]
    refine ⟨_, _, encrypt_of_factor shared message, decrypt_of_factor shared' _, ?_, fun other => ⟨?_, ?_⟩⟩
    · rw [exchanged_eq_iff nonzero', same]
    · exact exchanged_ne_zero nonzero nonzero' fun none => other (.inl none)
    · rw [Ne, exchanged_eq_iff nonzero', ← same]
      exact other
  · intro key onCurve inSubgroup own
    have opposite := sharedFactor_opposite onCurve own
    have neg := sharedFactor_neg onCurve inSubgroup own
    exact ⟨opposite, neg, degenerate_congr opposite, degenerate_congr neg⟩

/-- A pairing with another player turns 11 into some other scalar; the opposite point or secret brings it back. -/
theorem wrong_pairing_opposite :
    (∃ coded opened, encrypt 11 (KeyPair.ofSecret 2).publicKey 3 = .ok coded ∧
      decrypt coded (KeyPair.ofSecret 5).publicKey 7 = .ok opened ∧ opened ≠ 0 ∧ opened ≠ 11) ∧
    ∃ coded, encrypt 11 (KeyPair.ofSecret 2).publicKey 3 = .ok coded ∧
      decrypt coded (KeyPair.ofSecret 2).publicKey.opposite 3 = .ok 11 ∧
      decrypt coded (KeyPair.ofSecret 2).publicKey (-3) = .ok 11 := by
  have onCurve := KeyPair.ofSecret_onCurve 2
  have inSubgroup := KeyPair.ofSecret_inSubgroup 2
  have sound : ¬ Degenerate (KeyPair.ofSecret 2).publicKey 3 := not_degenerate_of_isOk (by decide +kernel)
  have sound' : ¬ Degenerate (KeyPair.ofSecret 5).publicKey 7 := not_degenerate_of_isOk (by decide +kernel)
  obtain ⟨opposite, neg, opposite_iff, neg_iff⟩ := wrong_pairing.2 onCurve inSubgroup 3
  constructor
  · obtain ⟨coded, opened, added, removed, -, other⟩ := wrong_pairing.1 sound sound' 11
    obtain ⟨some, differs⟩ := other (by decide +kernel)
    exact ⟨coded, opened, added, removed, some, differs⟩
  · obtain ⟨coded, opened, added, removed, same, -⟩ := wrong_pairing.1 sound (mt opposite_iff.1 sound) 11
    obtain ⟨coded', opened', added', removed', same', -⟩ := wrong_pairing.1 sound (mt neg_iff.1 sound) 11
    obtain rfl : coded = coded' := Except.ok.inj (added.symm.trans added')
    obtain rfl := same.2 (.inr opposite.symm)
    obtain rfl := same'.2 (.inr neg.symm)
    exact ⟨coded, added, removed, removed'⟩

end Cipher

end MentalPoker
