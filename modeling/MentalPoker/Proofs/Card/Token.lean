/-
Cards as texts. A token is cut a byte before its end. That is a place between two characters exactly if the text ends
with a character of a single byte, as every token does, whose last character is the symbol of a suit. A text is hence
read as a card exactly if it is the card's token: in texts as in numbers, cards are read exactly as they are written.
-/
import MentalPoker.Proofs.Card.Code
import Mathlib.Data.String.Basic
import Mathlib.Tactic.Common

namespace MentalPoker

/-! ## Symbols -/

theorem Rank.find?_eq_some_iff {text : String} {rank : Rank} :
    all.find? (String.ofList ·.symbol = text) = some rank ↔ String.ofList rank.symbol = text :=
  find?_eq_some_iff_of_nodup (by decide +kernel) rank.mem_all

theorem Suit.find?_eq_some_iff {text : String} {suit : Suit} :
    all.find? (String.singleton ·.symbol = text) = some suit ↔ String.singleton suit.symbol = text :=
  find?_eq_some_iff_of_nodup (by decide +kernel) suit.mem_all

theorem Suit.utf8Size_symbol (suit : Suit) : suit.symbol.utf8Size = 1 := by cases suit <;> rfl

namespace Card

/-! ## The cut -/

theorem cut?_eq_some_iff {text : String} {cut : text.Pos} :
    cut? text = some cut ↔ cut.offset.byteIdx + 1 = text.utf8ByteSize := by
  constructor
  · intro found
    simp only [cut?] at found
    split_ifs at found with empty boundary
    cases found
    exact Nat.sub_add_cancel (Nat.pos_of_ne_zero empty)
  · intro before
    have place : (⟨text.utf8ByteSize - 1⟩ : String.Pos.Raw) = cut.offset :=
      String.Pos.Raw.ext (Nat.sub_eq_of_eq_add before.symm)
    simp only [cut?, place]
    rw [if_neg (by omega), dif_pos cut.isValid]

/-- A text is cut between two parts exactly if the second one is a single byte. -/
theorem exists_cut_iff {text front last : String} :
    (∃ cut, cut? text = some cut ∧ cut.Splits front last) ↔ text = front ++ last ∧ last.utf8ByteSize = 1 := by
  constructor
  · rintro ⟨cut, found, parts, offset⟩
    rw [cut?_eq_some_iff, offset, parts, String.utf8ByteSize_append, String.byteIdx_rawEndPos,
      Nat.add_left_cancel_iff] at found
    exact ⟨parts, found.symm⟩
  · rintro ⟨rfl, byte⟩
    have valid : front.rawEndPos.IsValid (front ++ last) :=
      String.Pos.Raw.isValid_iff_exists_append.2 ⟨front, last, rfl, rfl⟩
    refine ⟨⟨front.rawEndPos, valid⟩, cut?_eq_some_iff.2 ?_, rfl, rfl⟩
    rw [String.utf8ByteSize_append, byte, String.byteIdx_rawEndPos]

/-! ## Tokens -/

theorem token_eq (card : Card) :
    card.token = String.ofList card.rank.symbol ++ String.singleton card.suit.symbol := by
  rw [token, String.ofList_append, String.singleton_eq_ofList]

theorem ofToken?_eq_some_iff {text : String} {card : Card} : ofToken? text = some card ↔ text = card.token := by
  obtain ⟨rank, suit⟩ := card
  have parted : ofToken? text = some ⟨rank, suit⟩ ↔ ∃ cut, cut? text = some cut ∧
      cut.Splits (String.ofList rank.symbol) (String.singleton suit.symbol) := by
    simp only [ofToken?, bind, Option.bind_eq_some_iff, pure, Option.some.injEq, mk.injEq]
    constructor
    · rintro ⟨cut, found, rank', front, suit', last, rfl, rfl⟩
      rw [Rank.find?_eq_some_iff] at front
      rw [Suit.find?_eq_some_iff] at last
      exact ⟨cut, found, front ▸ last ▸ cut.splits⟩
    · rintro ⟨cut, found, parts⟩
      obtain ⟨front, last⟩ := parts.eq cut.splits
      exact ⟨cut, found, rank, Rank.find?_eq_some_iff.2 front, suit, Suit.find?_eq_some_iff.2 last, rfl, rfl⟩
  rw [parted, exists_cut_iff, token_eq, String.utf8ByteSize_singleton, Suit.utf8Size_symbol]
  exact and_iff_left rfl

theorem ofToken_eq_ok_iff {text : String} {card : Card} : ofToken text = .ok card ↔ text = card.token := by
  rw [← ofToken?_eq_some_iff, ofToken]
  cases ofToken? text <;> simp

/-- A text that is no card's token is refused as such, whether it can be cut or not. -/
theorem ofToken_eq_error_iff {text : String} {e : DealError} :
    ofToken text = .error e ↔ e = .unknownCard ∧ ¬ ∃ card : Card, text = card.token := by
  simp only [← ofToken?_eq_some_iff]
  rw [ofToken]
  cases ofToken? text <;> simp [eq_comm]

/-- A byte before the end of this text there is the middle of a character. -/
example : cut? "A♠" = none := by decide +kernel

end Card

/-- Cards are read exactly as they are written. A text is cut only where it falls into two texts, the second of a
single byte. It is read as a card if it is the card's token, and there is one reason to refuse any other text. A scalar
is read as a card if it is the card's, a place if it is the card's, and a deck of scalars as a deck of cards if it is
the code of that deck. A deck is refused, for the same reason as a text, exactly if an entry is not one of the numbers
from 1 to 52. -/
theorem cards_read_as_written :
    (∀ text front last : String, (∃ cut, Card.cut? text = some cut ∧ cut.Splits front last) ↔
      text = front ++ last ∧ last.utf8ByteSize = 1) ∧
    (∀ (text : String) (card : Card), Card.ofToken text = .ok card ↔ text = card.token) ∧
    (∀ (text : String) (e : DealError), Card.ofToken text = .error e ↔
      e = .unknownCard ∧ ¬ ∃ card : Card, text = card.token) ∧
    (∀ (value : Scalar) (card : Card), Card.ofScalar? value = some card ↔ value = card.toScalar) ∧
    (∀ (i : ℕ) (card : Card), Card.ofIndex? i = some card ↔ i = card.index) ∧
    (∀ (deck : Deck Scalar) (cards : Deck Card), deck.decode = .ok cards ↔ cards.encode = deck) ∧
    ∀ (deck : Deck Scalar) (e : DealError), deck.decode = .error e ↔
      e = .unknownCard ∧ ∃ value ∈ deck.entries, ¬ (1 ≤ value.val ∧ value.val ≤ 52) :=
  ⟨fun _ _ _ => Card.exists_cut_iff, fun _ _ => Card.ofToken_eq_ok_iff, fun _ _ => Card.ofToken_eq_error_iff,
    fun _ _ => Card.ofScalar?_eq_some_iff, fun _ _ => Card.ofIndex?_eq_some_iff,
    fun _ _ => Deck.decode_eq_ok_iff, fun _ _ => Deck.decode_eq_error_iff⟩

end MentalPoker
