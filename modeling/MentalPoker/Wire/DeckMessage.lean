/-
The payload that hands on a deck: a JSON object with the field `deck`, an array of numerals. A
message holds any texts; that they are the numerals of a full deck is checked when the deck is asked
for.
-/
import MentalPoker.Card.Deck
import MentalPoker.Json.Reader
import MentalPoker.Json.Writer
import MentalPoker.Wire.Numeral

namespace MentalPoker

structure DeckMessage where
  cards : List String
deriving DecidableEq

namespace DeckMessage

/-- The message that hands on a deck. -/
def ofDeck (deck : Deck Scalar) : DeckMessage := ⟨deck.entries.map Residue.write⟩

/-- The deck, if every text is a numeral below the modulus and they are 52 distinct values. Of
several faults the first bad numeral counts, then the size, then a repetition. -/
def deck (message : DeckMessage) : Except DealError (Deck Scalar) := do
  Deck.ofFullList (← message.cards.mapM Residue.read)

/-- The payload of a message. -/
def toBytes (message : DeckMessage) : Bytes :=
  Json.write (.object [(Bytes.ofString "deck", .array (message.cards.map .ofString))])

/-- The message of a payload. -/
def ofBytes (payload : Bytes) : Except DealError DeckMessage :=
  match parse? payload with
  | some message => .ok message
  | none => .error .malformedPayload
where
  parse? (payload : Bytes) : Option DeckMessage := do
    let [deck] ← (← Json.read? payload).fields? ["deck"] | none
    return ⟨← (← deck.items?).mapM Json.text?⟩

end DeckMessage

end MentalPoker
