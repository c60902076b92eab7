/-
Decks on the wire. A full deck that is handed on is taken up as it is. Of a message with any texts, the deck
is the list of the values that its numerals denote: two spellings of one value are a repetition, and writing
the deck again gives the same numerals without their leading zeros. Of several faults the first bad numeral
counts, then the number of the cards, then a repetition.
-/
import MentalPoker.Proofs.Card.Distinct
import MentalPoker.Proofs.Wire.Numeral
import MentalPoker.Proofs.Wire.RoundTrip

namespace MentalPoker

namespace DeckMessage

/-! ## What is accepted -/

/-- The texts are the numerals of 52 different scalars. -/
structure ListsDeck (message : DeckMessage) : Prop where
  size : message.cards.length = 52
  fits : ∀ text ∈ message.cards, Residue.Fits groupOrder text
  distinct : (message.cards.map Decimal.value).Nodup

/-- Why a message hands on no deck. Its first bad numeral comes before its size, and that before a
repetition. -/
inductive Fault (message : DeckMessage) : DealError → Prop
  | numeral {before after : List String} {text : String} {e : DealError}
      (split : message.cards = before ++ text :: after) (fits : ∀ t ∈ before, Residue.Fits groupOrder t)
      (unfit : Residue.Unfit groupOrder text e) : Fault message e
  | size (fits : ∀ text ∈ message.cards, Residue.Fits groupOrder text) (size : message.cards.length ≠ 52) :
      Fault message (.deckSize message.cards.length 52)
  | repetition (fits : ∀ text ∈ message.cards, Residue.Fits groupOrder text) (size : message.cards.length = 52)
      (repeated : ¬ (message.cards.map Decimal.value).Nodup) : Fault message .duplicateCard

/-- The entries that numerals denote are as many as the numerals, and distinct if the values are. -/
theorem length_and_nodup_of_values {texts : List String} {entries : List Scalar}
    (values : texts.map Decimal.value = entries.map Fin.val) :
    texts.length = entries.length ∧ ((texts.map Decimal.value).Nodup ↔ entries.Nodup) := by
  refine ⟨by simpa using congrArg List.length values, ?_⟩
  rw [values]
  exact List.nodup_map_iff Fin.val_injective

/-- Numerals that all fit are read as the entries that have their values. -/
theorem exists_entries {texts : List String} (fits : ∀ text ∈ texts, Residue.Fits groupOrder text) :
    ∃ entries : List Scalar, texts.mapM Residue.read = .ok entries := by
  cases read : (texts.mapM Residue.read : Except DealError (List Scalar)) with
  | ok entries => exact ⟨entries, rfl⟩
  | error e =>
    obtain ⟨before, text, after, rfl, -, unfit⟩ := Residue.mapM_read_eq_error_iff.1 read
    exact absurd (fits text (by simp)) unfit.not_fits

theorem deck_of_error {message : DeckMessage} {e : DealError}
    (read : (message.cards.mapM Residue.read : Except DealError (List Scalar)) = .error e) :
    message.deck = .error e := by
  rw [deck, read]
  rfl

theorem deck_of_entries {message : DeckMessage} {entries : List Scalar}
    (read : message.cards.mapM Residue.read = .ok entries) :
    message.deck =
      if message.cards.length ≠ 52 then .error (.deckSize message.cards.length 52)
      else if (message.cards.map Decimal.value).Nodup then .ok ⟨entries⟩ else .error .duplicateCard := by
  obtain ⟨length, nodup⟩ := length_and_nodup_of_values (Residue.mapM_read_eq_ok_iff.1 read).2
  simp only [length, nodup, ← Deck.ofFullList_eq]
  rw [deck, read]
  rfl

theorem deck_eq_ok_iff {message : DeckMessage} {deck : Deck Scalar} :
    message.deck = .ok deck ↔
      message.ListsDeck ∧ deck.entries.map Fin.val = message.cards.map Decimal.value := by
  constructor
  · intro taken
    cases read : (message.cards.mapM Residue.read : Except DealError (List Scalar)) with
    | error e =>
      rw [deck_of_error read] at taken
      cases taken
    | ok entries =>
      obtain ⟨fits, values⟩ := Residue.mapM_read_eq_ok_iff.1 read
      rw [deck_of_entries read] at taken
      split_ifs at taken with size distinct
      cases taken
      exact ⟨⟨not_not.1 size, fits, distinct⟩, values.symm⟩
  · rintro ⟨⟨size, fits, distinct⟩, values⟩
    have read := Residue.mapM_read_eq_ok_iff.2 ⟨fits, values.symm⟩
    rw [deck_of_entries read, if_neg (not_not.2 size), if_pos distinct]

theorem deck_eq_error_iff {message : DeckMessage} {e : DealError} :
    message.deck = .error e ↔ message.Fault e := by
  constructor
  · intro refused
    cases read : (message.cards.mapM Residue.read : Except DealError (List Scalar)) with
    | error e' =>
      rw [deck_of_error read] at refused
      cases refused
      obtain ⟨before, text, after, split, fits, unfit⟩ := Residue.mapM_read_eq_error_iff.1 read
      exact .numeral split fits unfit
    | ok entries =>
      have fits := (Residue.mapM_read_eq_ok_iff.1 read).1
      rw [deck_of_entries read] at refused
      split_ifs at refused with size distinct
      · cases refused
        exact .size fits size
      · cases refused
        exact .repetition fits (not_not.1 size) distinct
  · intro fault
    cases fault with
    | numeral split fits unfit =>
      exact deck_of_error (Residue.mapM_read_eq_error_iff.2 ⟨_, _, _, split, fits, unfit⟩)
    | size fits size =>
      obtain ⟨entries, read⟩ := exists_entries fits
      rw [deck_of_entries read, if_pos size]
    | repetition fits size repeated =>
      obtain ⟨entries, read⟩ := exists_entries fits
      rw [deck_of_entries read, if_neg (not_not.2 size), if_neg repeated]

/-- A message that has the size of a deck is not refused for its size. -/
theorem Fault.ne_deckSize {message : DeckMessage} {e : DealError} (fault : message.Fault e) (needed : Nat) :
    e ≠ .deckSize 52 needed := by
  intro same
  cases fault with
  | numeral split fits unfit =>
    subst same
    cases unfit
  | size fits size =>
    injection same with length
    exact size length
  | repetition => cases same

/-! ## What is written -/

/-- The deck of a message is written as the message without leading zeros. -/
theorem ofDeck_of_deck {message : DeckMessage} {deck : Deck Scalar} (taken : message.deck = .ok deck) :
    ofDeck deck = ⟨message.cards.map Decimal.canonical⟩ := by
  obtain ⟨lists, values⟩ := deck_eq_ok_iff.1 taken
  have written : deck.entries.map Residue.write = (deck.entries.map Fin.val).map Decimal.write := by
    rw [List.map_map]
    rfl
  rw [ofDeck, written, values, List.map_map]
  exact congrArg mk (List.map_congr_left fun text member => Decimal.write_value (lists.fits text member).1)

/-- A deck that came about as decks do has no repetition that could be found. -/
theorem deck_ofDeck_of_reaches {α : Type} [DecidableEq α] {start : AnyDeck α} {deck : Deck Scalar}
    (made : start.Made) (run : Relation.ReflTransGen AnyDeck.Step start (.scalars deck)) :
    (ofDeck deck).deck = if deck.size ≠ 52 then .error (.deckSize deck.size 52) else .ok deck := by
  have distinct : deck.entries.Nodup := (AnyDeck.keeps_of_reaches run).distinct made.distinct
  rw [deck_ofDeck_eq, if_pos distinct]

/-- The wire format of decks. A message is read from its payload as it was, whatever texts it holds. A deck
that is handed on comes back if it is full; else its size is named, or, if entries are repeated, that; which
does not happen to a deck that was made, and perhaps shuffled, encoded, layered and bared again. The deck of any
message lists the values of 52 numerals below the group order, all different, and is written as these numerals
without leading zeros; every other message is refused for its first fault. -/
theorem deck_wire_format :
    (∀ message : DeckMessage, ofBytes message.toBytes = .ok message) ∧
    (∀ deck : Deck Scalar, (ofBytes (ofDeck deck).toBytes).bind DeckMessage.deck =
      if deck.size ≠ 52 then .error (.deckSize deck.size 52)
      else if deck.entries.Nodup then .ok deck else .error .duplicateCard) ∧
    (∀ {α : Type} [DecidableEq α] (start : AnyDeck α) (deck : Deck Scalar), start.Made →
      Relation.ReflTransGen AnyDeck.Step start (.scalars deck) →
        (ofBytes (ofDeck deck).toBytes).bind DeckMessage.deck =
          if deck.size ≠ 52 then .error (.deckSize deck.size 52) else .ok deck) ∧
    ∀ message : DeckMessage,
      (∀ deck, message.deck = .ok deck ↔
        message.ListsDeck ∧ deck.entries.map Fin.val = message.cards.map Decimal.value) ∧
      (∀ e, message.deck = .error e ↔ message.Fault e) ∧
      ∀ deck, message.deck = .ok deck → ofDeck deck = ⟨message.cards.map Decimal.canonical⟩ := by
  refine ⟨ofBytes_toBytes, fun deck => ?_, fun start deck made run => ?_,
    fun message => ⟨fun deck => deck_eq_ok_iff, fun e => deck_eq_error_iff, fun deck => ofDeck_of_deck⟩⟩
  · rw [ofBytes_toBytes]
    exact deck_ofDeck_eq deck
  · rw [ofBytes_toBytes]
    exact deck_ofDeck_of_reaches made run

/-- The numerals from 1 to 52, each with two leading zeros, list the bare cards, which come back when they are
handed on. -/
theorem deck_wire_format_padded :
    let message : DeckMessage := ⟨(List.range 52).map fun i => "00" ++ Decimal.write (i + 1)⟩
    (message.deck = .ok Deck.plain.encode ∧
      ofDeck Deck.plain.encode = ⟨message.cards.map Decimal.canonical⟩) ∧
    (AnyDeck.cards Deck.plain : AnyDeck Empty).Made ∧
      Relation.ReflTransGen AnyDeck.Step (.cards Deck.plain : AnyDeck Empty) (.scalars Deck.plain.encode) ∧
      (ofBytes (ofDeck Deck.plain.encode).toBytes).bind DeckMessage.deck = .ok Deck.plain.encode := by
  intro message
  obtain ⟨-, -, handed_on, messages⟩ := deck_wire_format
  have taken : message.deck = .ok Deck.plain.encode := by decide +kernel
  have encoded : Relation.ReflTransGen AnyDeck.Step (.cards Deck.plain : AnyDeck Empty)
      (.scalars Deck.plain.encode) := .single (.encode _)
  have size : Deck.plain.encode.size = 52 := by decide
  have back := handed_on _ _ .plain encoded
  rw [if_neg (not_not.2 size)] at back
  exact ⟨⟨taken, (messages message).2.2 _ taken⟩, .plain, encoded, back⟩

end DeckMessage

end MentalPoker
