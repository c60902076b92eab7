/-
Layers between pairs of players. Both ends of a pair come to the same shared point, and so to the same
factor or the same failure; and factors commute, so that the layers of several pairs come off in any order,
each from either end.
-/
import MentalPoker.Proofs.Card.Layer

namespace MentalPoker

/-! ## Ties -/

/-- Two who know each other's public keys, each of which is the generator as many times as the secret says. -/
structure Tie where
  one : KeyPair
  other : KeyPair
  one_sound : one.publicKey = Point.generator.multiple one.secretKey.val
  other_sound : other.publicKey = Point.generator.multiple other.secretKey.val

/-- The end of a tie at which somebody stands. -/
inductive Tie.Side where
  | one | other

namespace Tie

/-- The tie of two secrets. -/
def ofSecrets (a b : Scalar) : Tie := ⟨.ofSecret a, .ofSecret b, rfl, rfl⟩

/-- The layer of the tie, as it is known at one of its ends. -/
def layer (tie : Tie) : Side → Deck.Layer
  | .one => ⟨tie.other.publicKey, tie.one.secretKey⟩
  | .other => ⟨tie.one.publicKey, tie.other.secretKey⟩

/-- The point that both ends share. -/
def point (tie : Tie) : Point := Point.generator.multiple (tie.one.secretKey.val * tie.other.secretKey.val)

theorem point_eq (tie : Tie) (side : Side) :
    (tie.layer side).key.multiple (tie.layer side).secret.val = tie.point := by
  cases side with
  | one => rw [layer, tie.other_sound, Point.multiple_multiple Point.generator_onCurve, Nat.mul_comm, point]
  | other => rw [layer, tie.one_sound, Point.multiple_multiple Point.generator_onCurve, point]

end Tie

/-! ## Factors -/

namespace Cipher

/-- The factor is that of the shared point alone. -/
theorem sharedFactor_congr {key key' : Point} {own own' : Scalar}
    (h : key.multiple own.val = key'.multiple own'.val) : sharedFactor key own = sharedFactor key' own' := by
  rw [sharedFactor, sharedFactor, h]

theorem sharedFactor_eq_pointAtInfinity {key : Point} {own : Scalar} :
    sharedFactor key own = .error .pointAtInfinity ↔ key.multiple own.val = .infinity := by
  unfold sharedFactor
  cases key.multiple own.val with
  | infinity => simp
  | affine x y =>
    dsimp only
    split <;> simp

theorem sharedFactor_eq_zeroFactor {key : Point} {own : Scalar} :
    sharedFactor key own = .error .zeroFactor ↔
      ∃ x y, key.multiple own.val = .affine x y ∧ groupOrder ∣ x.val := by
  unfold sharedFactor
  cases key.multiple own.val with
  | infinity => simp
  | affine x y =>
    have zero : (Fin.ofNat groupOrder x.val : Scalar) = 0 ↔ groupOrder ∣ x.val := by
      rw [Fin.ext_iff, Fin.val_ofNat, Fin.val_zero, Nat.dvd_iff_mod_eq_zero]
    dsimp only
    split
    · rename_i none
      simpa using zero.1 none
    · rename_i some
      simpa using fun h => some (zero.2 h)

/-! ## Adding and removing layers -/

theorem encrypt_of_factor {key : Point} {own factor : Scalar} (shared : sharedFactor key own = .ok factor)
    (message : Scalar) : encrypt message key own = .ok (message * factor) := by
  rw [encrypt, shared, Except.map]

theorem decrypt_of_factor {key : Point} {own factor : Scalar} (shared : sharedFactor key own = .ok factor)
    (ciphertext : Scalar) : decrypt ciphertext key own = .ok (ciphertext * Residue.inverse factor) := by
  rw [decrypt, shared, Except.map]

/-- Adds layers one after another. -/
def addAll (layers : List Deck.Layer) (message : Scalar) : Except CipherError Scalar :=
  layers.foldlM (fun message layer => encrypt message layer.key layer.secret) message

/-- Removes layers one after another. -/
def removeAll (layers : List Deck.Layer) (ciphertext : Scalar) : Except CipherError Scalar :=
  layers.foldlM (fun ciphertext layer => decrypt ciphertext layer.key layer.secret) ciphertext

theorem addAll_eq {layers : List Deck.Layer} {factors : List Scalar}
    (has : List.Forall₂ Deck.Layer.Has layers factors) (message : Scalar) :
    addAll layers message = .ok (message * factors.prod) := by
  induction has generalizing message with
  | nil => simp [addAll, pure, Except.pure]
  | @cons layer factor layers factors has _ ih =>
    rw [addAll, List.foldlM_cons, encrypt_of_factor has, List.prod_cons, ← mul_assoc]
    exact ih (message * factor)

theorem removeAll_eq {layers : List Deck.Layer} {factors : List Scalar}
    (has : List.Forall₂ Deck.Layer.Has layers factors) (message : Scalar) :
    removeAll layers (message * factors.prod) = .ok message := by
  induction has generalizing message with
  | nil => simp [removeAll, pure, Except.pure]
  | @cons layer factor layers factors has _ ih =>
    have removed : decrypt (message * (factor :: factors).prod) layer.key layer.secret =
        .ok (message * factors.prod) := by
      rw [decrypt_of_factor has, List.prod_cons, mul_assoc, mul_right_comm,
        Residue.mul_inverse (sharedFactor_ne_zero has), one_mul]
    rw [removeAll, List.foldlM_cons, removed]
    exact ih message

end Cipher

/-! ## Peeling -/

namespace Deck.Layer

/-- The factor of a layer, or why there is none. -/
def factor? (layer : Deck.Layer) : Except CipherError Scalar := Cipher.sharedFactor layer.key layer.secret

theorem exists_has {layer : Deck.Layer} (h : layer.factor?.isOk = true) : ∃ factor, layer.Has factor :=
  Cipher.exists_factor_of_isOk h

end Deck.Layer

namespace Tie

/-- The ends of a tie come to the same factor, or fail alike. -/
theorem factor?_eq (tie : Tie) (side side' : Side) : (tie.layer side).factor? = (tie.layer side').factor? :=
  Cipher.sharedFactor_congr ((tie.point_eq side).trans (tie.point_eq side').symm)

/-- The factor of the tie, where it has one. -/
def weight (tie : Tie) : Scalar := (tie.layer .one).factor?.toOption.getD 0

theorem has_weight {tie : Tie} {factor : Scalar} (has : (tie.layer .one).Has factor) (side : Side) :
    (tie.layer side).Has tie.weight := by
  have same : (tie.layer side).factor? = .ok factor := (tie.factor?_eq side .one).trans has
  have weight : tie.weight = factor := by
    rw [Tie.weight, tie.factor?_eq .one side, same]
    rfl
  rw [weight]
  exact same

/-- The layers of some ties, each from one of its ends, have the factors of the ties. -/
theorem forall_has_weight {order : List (Tie × Side)}
    (sound : ∀ tie ∈ order.map (·.1), ∃ factor, (tie.layer .one).Has factor) :
    List.Forall₂ Deck.Layer.Has (order.map fun (tie, side) => tie.layer side)
      ((order.map (·.1)).map weight) := by
  induction order with
  | nil => exact .nil
  | cons first order ih =>
    obtain ⟨⟨factor, has⟩, rest⟩ := List.forall_mem_cons.1 sound
    exact .cons (has_weight has first.2) (ih rest)

/-- Layers that have been added tie after tie come off in any order, each from either end; and both ends of a
tie come to the same factor, or have no layer for the same reason. -/
theorem layers_peel_off :
    (∀ (ties : List Tie) (order : List (Tie × Side)) (message : Scalar), (order.map (·.1)).Perm ties →
      (∀ tie ∈ ties, ∃ factor, (tie.layer .one).Has factor) →
      ∃ ciphertext, Cipher.addAll (ties.map (·.layer .one)) message = .ok ciphertext ∧
        Cipher.removeAll (order.map fun (tie, side) => tie.layer side) ciphertext = .ok message) ∧
    ∀ tie : Tie,
      (tie.layer .one).factor? = (tie.layer .other).factor? ∧ ∀ side,
      ((tie.layer side).factor? = .error .pointAtInfinity ↔ tie.point = .infinity) ∧
      ((tie.layer side).factor? = .error .zeroFactor ↔ ∃ x y, tie.point = .affine x y ∧ groupOrder ∣ x.val) ∧
      ∀ e, (tie.layer side).factor? = .error e → ∀ message,
        Cipher.encrypt message (tie.layer side).key (tie.layer side).secret = .error e ∧
          Cipher.decrypt message (tie.layer side).key (tie.layer side).secret = .error e := by
  constructor
  · intro ties order message perm sound
    have added : List.Forall₂ Deck.Layer.Has (ties.map (·.layer .one)) (ties.map weight) := by
      have ends : (ties.map (·, Side.one)).map (·.1) = ties := by
        rw [List.map_map]
        exact List.map_id ties
      have all := forall_has_weight (ends.symm ▸ sound)
      simpa [Function.comp_def] using all
    have removed := forall_has_weight fun tie member => sound tie (perm.mem_iff.1 member)
    refine ⟨_, Cipher.addAll_eq added message, ?_⟩
    -- the factors of the removed layers are those of the added ones, in another order
    rw [← (perm.map weight).prod_eq]
    exact Cipher.removeAll_eq removed message
  · intro tie
    refine ⟨tie.factor?_eq .one .other, fun side => ⟨?_, ?_, ?_⟩⟩
    · rw [Deck.Layer.factor?, Cipher.sharedFactor_eq_pointAtInfinity, tie.point_eq]
    · rw [Deck.Layer.factor?, Cipher.sharedFactor_eq_zeroFactor, tie.point_eq]
    · intro e fails message
      rw [Deck.Layer.factor?] at fails
      rw [Cipher.encrypt, Cipher.decrypt, fails]
      exact ⟨rfl, rfl⟩

/-- Two layers come off in the order in which they were added, the second of them from its other end. -/
theorem layers_peel_off_two : ∃ ciphertext,
    Cipher.addAll [(ofSecrets 2 3).layer .one, (ofSecrets 5 7).layer .one] 11 = .ok ciphertext ∧
      Cipher.removeAll [(ofSecrets 2 3).layer .one, (ofSecrets 5 7).layer .other] ciphertext = .ok 11 := by
  have known : ∀ tie ∈ [ofSecrets 2 3, ofSecrets 5 7], (tie.layer .one).factor?.isOk = true := by decide +kernel
  exact layers_peel_off.1 [ofSecrets 2 3, ofSecrets 5 7] [(ofSecrets 2 3, .one), (ofSecrets 5 7, .other)] 11 (.refl _)
    fun tie member => Deck.Layer.exists_has (known tie member)

end Tie

end MentalPoker
