/-
What a payload holds is what was put into it: a key announced by its holder and a deck handed on are
taken up unchanged by whoever reads the ledger.
-/
import MentalPoker.Proofs.Curve.Group
import MentalPoker.Proofs.Json.RoundTrip
import MentalPoker.Wire.DeckMessage
import MentalPoker.Wire.KeyMessage

namespace MentalPoker

/-! ## Numerals -/

theorem Residue.read_write {m : Nat} (a : Fin m) : Residue.read (Residue.write a) = .ok a := by
  simp [read, write, Decimal.read?_write]

/-! ## Texts in documents -/

namespace Json

theorem Textual.ofString (s : String) : (Json.ofString s).Textual := .string _

@[simp] theorem text?_ofString (s : String) : (Json.ofString s).text? = some s :=
  Bytes.toString?_ofString s

theorem mapM_text?_ofString (texts : List String) :
    (texts.map Json.ofString).mapM Json.text? = some texts := by
  induction texts with
  | nil => rfl
  | cons s texts ih => rw [List.map_cons, List.mapM_cons, text?_ofString, ih]; rfl

end Json

/-! ## Keys -/

namespace KeyMessage

/-- The document of a message is read as it was written. -/
theorem read?_toBytes (message : KeyMessage) :
    Json.read? message.toBytes = some (.object [(Bytes.ofString "publicKey",
      .object [(Bytes.ofString "x", .ofString message.x), (Bytes.ofString "y", .ofString message.y)])]) := by
  refine Json.read?_write (.object _ fun member h => ?_)
  simp only [List.mem_singleton] at h
  subst h
  refine .object _ fun member h => ?_
  simp only [List.mem_cons, List.not_mem_nil, or_false] at h
  rcases h with rfl | rfl <;> exact .ofString _

theorem ofBytes_toBytes (message : KeyMessage) : ofBytes message.toBytes = .ok message := by
  simp only [ofBytes, ofBytes.parse?, read?_toBytes]
  simp [Json.fields?, Bytes.toString?_ofString]

theorem point_ofPoint {p : Point} (affine : p ≠ .infinity) (onCurve : p.OnCurve)
    (inSubgroup : p.InSubgroup) : ∃ message, ofPoint p = .ok message ∧ message.point = .ok p := by
  cases p with
  | infinity => exact absurd rfl affine
  | affine x y =>
    refine ⟨_, rfl, ?_⟩
    simp only [point, Residue.read_write]
    exact if_pos ⟨onCurve, inSubgroup⟩

end KeyMessage

/-! ## Decks -/

/-- The deck has 52 entries and no two of them are equal. -/
def Deck.Full (deck : Deck Scalar) : Prop := deck.size = Deck.fullSize ∧ deck.entries.Nodup

instance (deck : Deck Scalar) : Decidable deck.Full := inferInstanceAs (Decidable (_ ∧ _))

theorem Deck.ofFullList_eq (entries : List Scalar) :
    ofFullList entries =
      if entries.length ≠ 52 then .error (.deckSize entries.length 52)
      else if entries.Nodup then .ok ⟨entries⟩ else .error .duplicateCard := by
  have size : fullSize = 52 := by decide
  rw [ofFullList, size]
  split <;> simp_all [ofList]

namespace DeckMessage

/-- The document of a message is read as it was written. -/
theorem read?_toBytes (message : DeckMessage) :
    Json.read? message.toBytes =
      some (.object [(Bytes.ofString "deck", .array (message.cards.map .ofString))]) := by
  refine Json.read?_write (.object _ fun member h => ?_)
  simp only [List.mem_singleton] at h
  subst h
  refine .array _ fun item h => ?_
  obtain ⟨s, -, rfl⟩ := List.mem_map.1 h
  exact .ofString s

theorem ofBytes_toBytes (message : DeckMessage) : ofBytes message.toBytes = .ok message := by
  simp only [ofBytes, ofBytes.parse?, read?_toBytes]
  simp [Json.fields?, Json.items?, Bytes.toString?_ofString, Json.mapM_text?_ofString,
    -List.mapM_map]

theorem mapM_read_write (entries : List Scalar) :
    (entries.map Residue.write).mapM (Residue.read (m := groupOrder)) = .ok entries := by
  induction entries with
  | nil => rfl
  | cons a entries ih => rw [List.map_cons, List.mapM_cons, Residue.read_write, ih]; rfl

/-- A deck that is handed on comes back, if it has 52 distinct entries. -/
theorem deck_ofDeck_eq (deck : Deck Scalar) :
    (ofDeck deck).deck =
      if deck.size ≠ 52 then .error (.deckSize deck.size 52)
      else if deck.entries.Nodup then .ok deck else .error .duplicateCard := by
  rw [DeckMessage.deck, ofDeck, mapM_read_write]
  exact Deck.ofFullList_eq deck.entries

theorem deck_ofDeck {deck : Deck Scalar} (full : deck.Full) : (ofDeck deck).deck = .ok deck := by
  have size : deck.size = 52 := full.1
  rw [deck_ofDeck_eq, if_neg (not_not.2 size), if_pos full.2]

/-- The deck of a message is full. -/
theorem full_of_deck {message : DeckMessage} {deck : Deck Scalar} (h : message.deck = .ok deck) : deck.Full := by
  simp only [DeckMessage.deck, bind, Except.bind] at h
  split at h
  · cases h
  · rw [Deck.ofFullList_eq] at h
    split_ifs at h with size distinct
    cases h
    exact ⟨not_not.1 size, distinct⟩

end DeckMessage

/-! ## Payloads -/

namespace Payload

/-- The key a payload announces. -/
def key (payload : Bytes) : Except DealError Point :=
  (KeyMessage.ofBytes payload).bind KeyMessage.point

/-- The deck a payload hands on. -/
def deck (payload : Bytes) : Except DealError (Deck Scalar) :=
  (DeckMessage.ofBytes payload).bind DeckMessage.deck

theorem key_toBytes (message : KeyMessage) : key message.toBytes = message.point := by
  rw [key, KeyMessage.ofBytes_toBytes]
  rfl

/-- The key of a payload is a point that a message announces, and not the one at infinity. -/
theorem point_of_key {payload : Bytes} {p : Point} (h : key payload = .ok p) :
    p ≠ .infinity ∧ p.OnCurve ∧ p.InSubgroup ∧ ∃ message : KeyMessage, message.point = .ok p := by
  rw [key] at h
  cases read : KeyMessage.ofBytes payload with
  | error e => simp [read, Except.bind] at h
  | ok message =>
    replace h : message.point = .ok p := by rwa [read] at h
    have announced := h
    simp only [KeyMessage.point, bind, Except.bind] at h
    split at h
    · cases h
    split at h
    · cases h
    split at h
    · rename_i valid
      cases h
      exact ⟨nofun, valid.1, valid.2, message, announced⟩
    · cases h

/-- A full deck is read from its payload as it is. -/
theorem deck_ofDeck {deck : Deck Scalar} (full : deck.Full) :
    Payload.deck (DeckMessage.ofDeck deck).toBytes = .ok deck := by
  rw [Payload.deck, DeckMessage.ofBytes_toBytes]
  exact DeckMessage.deck_ofDeck full

/-- The deck of a payload is full. -/
theorem full_of_deck {payload : Bytes} {deck : Deck Scalar} (h : Payload.deck payload = .ok deck) :
    deck.Full := by
  rw [Payload.deck] at h
  cases read : DeckMessage.ofBytes payload with
  | error e => simp [read, Except.bind] at h
  | ok message =>
    rw [read] at h
    exact DeckMessage.full_of_deck h

end Payload

/-! ## The keys of players -/

/-- The key of a pair is announced, unless it is the point at infinity. -/
theorem KeyPair.announces {secret : Scalar} (h : (ofSecret secret).publicKey ≠ .infinity) :
    ∃ message, KeyMessage.ofPoint (ofSecret secret).publicKey = .ok message :=
  let ⟨message, made, _⟩ :=
    KeyMessage.point_ofPoint h (ofSecret_onCurve secret) (ofSecret_inSubgroup secret)
  ⟨message, made⟩

/-- An announced key is read as it is. -/
theorem KeyPair.key_of_announced {secret : Scalar} {message : KeyMessage}
    (h : KeyMessage.ofPoint (ofSecret secret).publicKey = .ok message) :
    Payload.key message.toBytes = .ok (ofSecret secret).publicKey := by
  have affine : (ofSecret secret).publicKey ≠ .infinity := by
    intro infinite
    rw [infinite] at h
    cases h
  obtain ⟨other, made, point⟩ :=
    KeyMessage.point_ofPoint affine (ofSecret_onCurve secret) (ofSecret_inSubgroup secret)
  obtain rfl : message = other := by simpa using h.symm.trans made
  rw [Payload.key_toBytes, point]

end MentalPoker
