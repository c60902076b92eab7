/-
A shuffle moves places. What it does to a deck is decided by the number of entries and by the source, whatever the
entries are: it comes to the same whether they are replaced before or after it. So it does not matter either whether
cards are shuffled and then turned into scalars or the other way round, or on which side of a shuffle a layer is
added or removed.
-/
import MentalPoker.Game.Role
import MentalPoker.Proofs.Card.Layer

namespace MentalPoker

variable {α β γ : Type}

/-! ## Lists -/

namespace Shuffle

theorem fillGap_map (f : α → β) (xs : List α) (i : ℕ) : fillGap (xs.map f) i = (fillGap xs i).map f := by
  unfold fillGap
  rw [List.getLast?_map]
  cases xs.getLast? with
  | none => rfl
  | some last => simp only [Option.map_some, List.map_dropLast, List.map_set]

theorem arrange_map (f : α → β) (choices : List ℕ) (xs : List α) :
    arrange choices (xs.map f) = (arrange choices xs).map f := by
  induction choices generalizing xs with
  | nil => rfl
  | cons i choices ih =>
    unfold arrange
    rw [List.getElem?_map]
    cases xs[i]? with
    | none => rfl
    | some x => simp only [Option.map_some, fillGap_map, ih, List.map_cons]

/-- The choices are drawn for the number of entries, which stays the same. -/
theorem shuffle_map [RandomSource γ] (f : α → β) (xs : List α) (source : γ) :
    shuffle (xs.map f) source = ((shuffle xs source).1.map f, (shuffle xs source).2) := by
  unfold shuffle
  rw [List.length_map]
  simp only [arrange_map]

end Shuffle

/-! ## Decks -/

namespace Deck

/-- The deck with another entry in place of each. -/
def map (f : α → β) (deck : Deck α) : Deck β := ⟨deck.entries.map f⟩

theorem shuffle_map [RandomSource γ] (f : α → β) (deck : Deck α) (source : γ) :
    (deck.map f).shuffle source = ((deck.shuffle source).1.map f, (deck.shuffle source).2) := by
  unfold shuffle map
  rw [Shuffle.shuffle_map]

/-- The places of a deck, in order. -/
def places (size : ℕ) : Deck (Fin size) := ⟨List.finRange size⟩

/-- The entry at a place. -/
def entryAt (deck : Deck α) (place : Fin deck.size) : α := deck.entries.get place

theorem map_places (deck : Deck α) : (places deck.size).map deck.entryAt = deck :=
  congrArg mk (List.map_get_finRange deck.entries)

/-- A deck is shuffled as its places are. -/
theorem shuffle_places [RandomSource γ] (deck : Deck α) (source : γ) :
    deck.shuffle source = (((places deck.size).shuffle source).1.map deck.entryAt,
      ((places deck.size).shuffle source).2) := by
  rw [← shuffle_map, map_places]

/-! ## Layers -/

theorem times_eq_map (deck : Deck Scalar) (factor : Scalar) : deck.times factor = deck.map (· * factor) := rfl

theorem encode_eq_map (deck : Deck Card) : deck.encode = deck.map Card.toScalar := rfl

theorem encode_shuffle [RandomSource γ] (deck : Deck Card) (source : γ) :
    deck.encode.shuffle source = ((deck.shuffle source).1.encode, (deck.shuffle source).2) := by
  rw [encode_eq_map, shuffle_map, encode_eq_map]

theorem times_shuffle [RandomSource γ] (deck : Deck Scalar) (factor : Scalar) (source : γ) :
    (deck.times factor).shuffle source = ((deck.shuffle source).1.times factor, (deck.shuffle source).2) := by
  rw [times_eq_map, shuffle_map, times_eq_map]

/-- A layer is added before a shuffle or after it, to the same deck and with the same source left, or fails
both times. -/
theorem encrypt_shuffle [RandomSource γ] (deck : Deck Scalar) (key : Point) (own : Scalar) (source : γ) :
    (deck.encrypt key own).map (·.shuffle source) =
      ((deck.shuffle source).1.encrypt key own).map (·, (deck.shuffle source).2) := by
  cases shared : Cipher.sharedFactor key own with
  | error cause => rw [encrypt_eq_error shared, encrypt_eq_error shared, Except.map, Except.map]
  | ok factor => rw [encrypt_eq shared, encrypt_eq shared, Except.map, Except.map, times_shuffle]

theorem decrypt_shuffle [RandomSource γ] (deck : Deck Scalar) (key : Point) (own : Scalar) (source : γ) :
    (deck.decrypt key own).map (·.shuffle source) =
      ((deck.shuffle source).1.decrypt key own).map (·, (deck.shuffle source).2) := by
  cases shared : Cipher.sharedFactor key own with
  | error cause => rw [decrypt_eq_error shared, decrypt_eq_error shared, Except.map, Except.map]
  | ok factor => rw [decrypt_eq shared, decrypt_eq shared, Except.map, Except.map, times_shuffle]

end Deck

/-! ## Turns in the chain -/

namespace ShuffleInput

/-- The deck that a turn in the chain shuffles. -/
def deck : ShuffleInput → Deck Scalar
  | .plain => Deck.plain.encode
  | .published deck => deck

/-- Every turn in the chain shuffles a deck of scalars, although the first one shuffles cards. -/
theorem apply_deck [RandomSource γ] (input : ShuffleInput) (key : Point) (own : Scalar) (source : γ) :
    input.apply key own source =
      ((input.deck.shuffle source).1.encrypt key own, (input.deck.shuffle source).2) := by
  cases input with
  | plain =>
    rw [deck, Deck.encode_shuffle]
    rfl
  | published => rfl

/-- Plain and published decks take the same path. A shuffle makes of a deck with replaced entries what it makes of
the deck, the entries replaced, and leaves the same source: it orders places, by their number and the source alone.
So the first turn of a chain comes to what it would come to with the scalars of the plain deck taken from a message,
be it a deck or an error, with the same source left; and a layer can be added or removed on either side of a
shuffle. -/
theorem inputs_take_one_path [RandomSource γ] (source : γ) :
    (∀ {α β : Type} (f : α → β) (deck : Deck α),
      (deck.map f).shuffle source = ((deck.shuffle source).1.map f, (deck.shuffle source).2)) ∧
    (∀ {α : Type} (deck : Deck α), deck.shuffle source =
      (((Deck.places deck.size).shuffle source).1.map deck.entryAt,
        ((Deck.places deck.size).shuffle source).2)) ∧
    (∀ (key : Point) (own : Scalar),
      plain.apply key own source = (published Deck.plain.encode).apply key own source) ∧
    ∀ (deck : Deck Scalar) (key : Point) (own : Scalar),
      (deck.encrypt key own).map (·.shuffle source) =
        ((deck.shuffle source).1.encrypt key own).map (·, (deck.shuffle source).2) ∧
      (deck.decrypt key own).map (·.shuffle source) =
        ((deck.shuffle source).1.decrypt key own).map (·, (deck.shuffle source).2) := by
  refine ⟨fun f deck => Deck.shuffle_map f deck source, fun deck => Deck.shuffle_places deck source,
    fun key own => ?_, fun deck key own => ⟨?_, ?_⟩⟩
  · rw [apply_deck, apply_deck, deck, deck]
  · exact Deck.encrypt_shuffle deck key own source
  · exact Deck.decrypt_shuffle deck key own source

end ShuffleInput

end MentalPoker
