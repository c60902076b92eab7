/-
Decks hold distinct entries. A deck is checked once, when it is made of a list or taken up from a message;
shuffling it, turning cards into scalars and back, and adding and removing layers keep its entries distinct and
their number, and do not bring up a zero. A layer acts on a deck card by card.
-/
import MentalPoker.Proofs.Card.Code
import MentalPoker.Proofs.Card.Layer
import MentalPoker.Proofs.Card.Peeling
import MentalPoker.Random.Seeded
import Mathlib.Logic.Relation

namespace MentalPoker

/-! ## Decks and what is done to them -/

/-- A deck of cards, of scalars, or of entries of another type, which can be shuffled only. -/
inductive AnyDeck (α : Type) where
  | cards (deck : Deck Card)
  | scalars (deck : Deck Scalar)
  | others (deck : Deck α)

/-- The deck has been checked for repetitions, and perhaps for its size. -/
def Deck.Checked {β : Type} [DecidableEq β] (deck : Deck β) : Prop :=
  ∃ entries, Deck.ofList entries = .ok deck ∨ Deck.ofFullList entries = .ok deck

theorem Deck.Checked.nodup {β : Type} [DecidableEq β] {deck : Deck β} (checked : deck.Checked) :
    deck.entries.Nodup := by
  have of_list {entries : List β} (made : ofList entries = .ok deck) : deck.entries.Nodup := by
    rw [ofList] at made
    split at made
    · cases made
      assumption
    · cases made
  obtain ⟨entries, made | made⟩ := checked
  · exact of_list made
  · rw [ofFullList] at made
    split at made
    · exact of_list made
    · cases made

namespace AnyDeck

variable {α : Type}

def size : AnyDeck α → ℕ
  | cards deck => deck.size
  | scalars deck => deck.size
  | others deck => deck.size

/-- No two entries are equal. -/
def Distinct : AnyDeck α → Prop
  | cards deck => deck.entries.Nodup
  | scalars deck => deck.entries.Nodup
  | others deck => deck.entries.Nodup

/-- No scalar is zero. -/
def ZeroFree : AnyDeck α → Prop
  | scalars deck => 0 ∉ deck.entries
  | cards _ | others _ => True

/-- The deck in random order. -/
def shuffle {γ : Type} [RandomSource γ] (source : γ) : AnyDeck α → AnyDeck α
  | cards deck => cards (deck.shuffle source).1
  | scalars deck => scalars (deck.shuffle source).1
  | others deck => others (deck.shuffle source).1

/-- The deck is made of a list, is the plain deck, or is taken up from a message. -/
inductive Made [DecidableEq α] : AnyDeck α → Prop
  | cards {deck : Deck Card} (checked : deck.Checked) : Made (cards deck)
  | scalars {deck : Deck Scalar} (checked : deck.Checked) : Made (scalars deck)
  | others {deck : Deck α} (checked : deck.Checked) : Made (others deck)
  | plain : Made (.cards Deck.plain)
  | message {message : DeckMessage} {deck : Deck Scalar} (taken : message.deck = .ok deck) : Made (.scalars deck)

/-- What is done to a deck, if it succeeds. -/
inductive Step : AnyDeck α → AnyDeck α → Prop
  | shuffle {γ : Type} [RandomSource γ] (deck : AnyDeck α) (source : γ) : Step deck (deck.shuffle source)
  | encode (deck : Deck Card) : Step (cards deck) (scalars deck.encode)
  | decode {deck : Deck Scalar} {plain : Deck Card} (decoded : deck.decode = .ok plain) :
      Step (scalars deck) (cards plain)
  | encrypt {deck layered : Deck Scalar} {key : Point} {own : Scalar}
      (added : deck.encrypt key own = .ok layered) : Step (scalars deck) (scalars layered)
  | decrypt {deck bared : Deck Scalar} {key : Point} {own : Scalar}
      (removed : deck.decrypt key own = .ok bared) : Step (scalars deck) (scalars bared)

/-- What a deck passes on to the decks that come from it. -/
structure Keeps (deck other : AnyDeck α) : Prop where
  size : other.size = deck.size
  distinct : deck.Distinct → other.Distinct
  zeroFree : deck.ZeroFree → other.ZeroFree

theorem Keeps.refl (deck : AnyDeck α) : deck.Keeps deck := ⟨rfl, id, id⟩

theorem Keeps.trans {deck middle other : AnyDeck α} (first : deck.Keeps middle) (second : middle.Keeps other) :
    deck.Keeps other :=
  ⟨second.size.trans first.size, second.distinct ∘ first.distinct, second.zeroFree ∘ first.zeroFree⟩

/-! ## Single steps -/

theorem shuffle_keeps {γ : Type} [RandomSource γ] (source : γ) (deck : AnyDeck α) :
    deck.Keeps (deck.shuffle source) := by
  cases deck with
  | cards deck =>
    have perm := deck.shuffle_perm source
    exact ⟨perm.length_eq, perm.nodup_iff.2, id⟩
  | scalars deck =>
    have perm := deck.shuffle_perm source
    exact ⟨perm.length_eq, perm.nodup_iff.2, mt perm.mem_iff.1⟩
  | others deck =>
    have perm := deck.shuffle_perm source
    exact ⟨perm.length_eq, perm.nodup_iff.2, id⟩

theorem encode_keeps (deck : Deck Card) : (cards deck : AnyDeck α).Keeps (scalars deck.encode) := by
  refine ⟨List.length_map .., fun distinct => distinct.map Card.toScalar_injective, fun _ zero => ?_⟩
  obtain ⟨card, -, same⟩ := List.mem_map.1 zero
  exact card.toScalar_ne_zero same

theorem decode_keeps {deck : Deck Scalar} {plain : Deck Card} (decoded : deck.decode = .ok plain) :
    (scalars deck : AnyDeck α).Keeps (cards plain) := by
  obtain rfl := Deck.decode_eq_ok_iff.1 decoded
  exact ⟨(List.length_map ..).symm, List.Nodup.of_map Card.toScalar, fun _ => trivial⟩

/-- A factor that is not zero can be divided out again. -/
theorem times_keeps (deck : Deck Scalar) {factor : Scalar} (nonzero : factor ≠ 0) :
    (scalars deck : AnyDeck α).Keeps (scalars (deck.times factor)) := by
  have injective := Deck.mul_right_injective_of_ne_zero nonzero
  refine ⟨List.length_map .., fun distinct => distinct.map injective, fun zeroFree zero => ?_⟩
  obtain ⟨value, member, same⟩ := List.mem_map.1 zero
  have absent : value = 0 := injective (same.trans (Fin.zero_mul factor).symm)
  exact zeroFree (absent ▸ member)

theorem Step.keeps {deck other : AnyDeck α} (step : Step deck other) : deck.Keeps other := by
  cases step with
  | shuffle deck source => exact shuffle_keeps source deck
  | encode deck => exact encode_keeps deck
  | decode decoded => exact decode_keeps decoded
  | encrypt added =>
    obtain ⟨factor, shared, rfl⟩ := Deck.factor_of_encrypt added
    exact times_keeps _ (Cipher.sharedFactor_ne_zero shared)
  | decrypt removed =>
    obtain ⟨factor, shared, rfl⟩ := Deck.factor_of_decrypt removed
    exact times_keeps _ (Residue.inverse_ne_zero (Cipher.sharedFactor_ne_zero shared))

/-! ## Runs -/

/-- What is kept step by step is kept by every sequence of steps. -/
theorem keeps_of_reaches {deck other : AnyDeck α} (run : Relation.ReflTransGen Step deck other) :
    deck.Keeps other := by
  induction run with
  | refl => exact .refl deck
  | tail _ step ih => exact ih.trans step.keeps

theorem Made.distinct [DecidableEq α] {deck : AnyDeck α} (made : deck.Made) : deck.Distinct := by
  cases made with
  | cards checked => exact checked.nodup
  | scalars checked => exact checked.nodup
  | others checked => exact checked.nodup
  | plain => exact Deck.plain_full.2.of_map Card.toScalar
  | message taken => exact (DeckMessage.full_of_deck taken).2

end AnyDeck

/-! ## Layers card by card -/

namespace Cipher

variable {key : Point} {own : Scalar}

/-- The shared point has no coordinates, or its x coordinate is no factor. -/
def Degenerate (key : Point) (own : Scalar) : Prop :=
  key.multiple own.val = .infinity ∨ ∃ x y, key.multiple own.val = .affine x y ∧ groupOrder ∣ x.val

theorem degenerate_iff : Degenerate key own ↔ ∃ cause, sharedFactor key own = .error cause := by
  rw [Degenerate, ← sharedFactor_eq_pointAtInfinity, ← sharedFactor_eq_zeroFactor]
  constructor
  · rintro (infinite | zero)
    · exact ⟨_, infinite⟩
    · exact ⟨_, zero⟩
  · rintro ⟨cause, fails⟩
    cases cause with
    | pointAtInfinity => exact .inl fails
    | zeroFactor => exact .inr fails

end Cipher

namespace Deck

variable {deck other : Deck Scalar} {key : Point} {own : Scalar}

/-- Removing a layer undoes adding it, and the other way round. -/
theorem encrypt_eq_ok_iff_decrypt : deck.encrypt key own = .ok other ↔ other.decrypt key own = .ok deck := by
  constructor
  · intro added
    obtain ⟨factor, shared, rfl⟩ := factor_of_encrypt added
    rw [decrypt_eq shared, times_inverse (Cipher.sharedFactor_ne_zero shared)]
  · intro removed
    obtain ⟨factor, shared, rfl⟩ := factor_of_decrypt removed
    rw [encrypt_eq shared, times_times, mul_comm, ← times_times, times_inverse (Cipher.sharedFactor_ne_zero shared)]

theorem forall₂_iff_times {act : Scalar → Except CipherError Scalar} {factor : Scalar}
    (each : ∀ card, act card = .ok (card * factor)) :
    List.Forall₂ (fun card result => act card = .ok result) deck.entries other.entries ↔
      deck.times factor = other := by
  simp only [each, Except.ok.injEq]
  rw [← List.forall₂_map_left_iff (f := (· * factor)), List.forall₂_eq_eq_eq]
  exact ⟨congrArg mk, congrArg entries⟩

/-- A layer is added to each card on its own. -/
theorem encrypt_eq_ok_iff :
    deck.encrypt key own = .ok other ↔ ¬ Cipher.Degenerate key own ∧
      List.Forall₂ (fun card coded => Cipher.encrypt card key own = .ok coded) deck.entries other.entries := by
  rw [Cipher.degenerate_iff]
  cases shared : Cipher.sharedFactor key own with
  | error cause => simp [encrypt_eq_error shared]
  | ok factor =>
    rw [encrypt_eq shared, forall₂_iff_times (Cipher.encrypt_of_factor shared)]
    simp

/-- A layer is removed from each card on its own. -/
theorem decrypt_eq_ok_iff :
    deck.decrypt key own = .ok other ↔ ¬ Cipher.Degenerate key own ∧
      List.Forall₂ (fun coded card => Cipher.decrypt coded key own = .ok card) deck.entries other.entries := by
  rw [Cipher.degenerate_iff]
  cases shared : Cipher.sharedFactor key own with
  | error cause => simp [decrypt_eq_error shared]
  | ok factor =>
    rw [decrypt_eq shared, forall₂_iff_times (Cipher.decrypt_of_factor shared)]
    simp

theorem encrypt_fails_iff : (∃ e, deck.encrypt key own = .error e) ↔ Cipher.Degenerate key own := by
  rw [Cipher.degenerate_iff]
  cases shared : Cipher.sharedFactor key own with
  | error cause => simp [encrypt_eq_error shared]
  | ok factor => simp [encrypt_eq shared]

theorem decrypt_fails_iff : (∃ e, deck.decrypt key own = .error e) ↔ Cipher.Degenerate key own := by
  rw [Cipher.degenerate_iff]
  cases shared : Cipher.sharedFactor key own with
  | error cause => simp [decrypt_eq_error shared]
  | ok factor => simp [decrypt_eq shared]

end Deck

/-- Decks stay decks. Whatever is done to a deck, in whatever order and with whatever sources, points and
secrets, what comes out has as many entries, which are distinct because they were when the deck was made, and no
scalar that is zero unless there was one. A layer is added to and removed from each card on its own, the one
undoes the other, and both fail for a degenerate shared secret, whatever the deck, and only then. -/
theorem AnyDeck.deck_invariant :
    (∀ {α : Type} (start deck : AnyDeck α), Relation.ReflTransGen Step start deck →
      deck.size = start.size ∧ (∀ [DecidableEq α], start.Made → deck.Distinct) ∧
        (start.ZeroFree → deck.ZeroFree)) ∧
    ∀ (deck : Deck Scalar) (key : Point) (own : Scalar),
      (∀ other, (deck.encrypt key own = .ok other ↔ ¬ Cipher.Degenerate key own ∧
          List.Forall₂ (fun card coded => Cipher.encrypt card key own = .ok coded) deck.entries other.entries) ∧
        (deck.decrypt key own = .ok other ↔ ¬ Cipher.Degenerate key own ∧
          List.Forall₂ (fun coded card => Cipher.decrypt coded key own = .ok card) deck.entries other.entries) ∧
        (deck.encrypt key own = .ok other ↔ other.decrypt key own = .ok deck)) ∧
      ((∃ e, deck.encrypt key own = .error e) ↔ Cipher.Degenerate key own) ∧
      ((∃ e, deck.decrypt key own = .error e) ↔ Cipher.Degenerate key own) := by
  constructor
  · intro α start deck run
    have keeps := keeps_of_reaches run
    exact ⟨keeps.size, fun made => keeps.distinct made.distinct, keeps.zeroFree⟩
  · intro deck key own
    exact ⟨fun other => ⟨Deck.encrypt_eq_ok_iff, Deck.decrypt_eq_ok_iff, Deck.encrypt_eq_ok_iff_decrypt⟩,
      Deck.encrypt_fails_iff, Deck.decrypt_fails_iff⟩

/-- The plain deck, shuffled, turned into scalars and put under a layer, is 52 distinct scalars other than zero. -/
theorem AnyDeck.deck_invariant_shuffled : ∃ layered : Deck Scalar,
    Relation.ReflTransGen Step (.cards Deck.plain : AnyDeck Empty) (.scalars layered) ∧
      layered.size = 52 ∧ layered.entries.Nodup ∧ 0 ∉ layered.entries := by
  have known : (Deck.Layer.mk .generator 3).factor?.isOk = true := by decide +kernel
  obtain ⟨factor, shared⟩ := Deck.Layer.exists_has known
  let source : Seeded id := ⟨[], 0⟩
  have run : Relation.ReflTransGen Step (.cards Deck.plain : AnyDeck Empty)
      (.scalars ((Deck.plain.shuffle source).1.encode.times factor)) :=
    .tail (.tail (.single (.shuffle _ source)) (.encode _)) (.encrypt (Deck.encrypt_eq shared))
  obtain ⟨size, distinct, zeroFree⟩ := deck_invariant.1 _ _ run
  exact ⟨_, run, size, distinct .plain, zeroFree trivial⟩

end MentalPoker
