/-
Public keys on the wire. Every finite point of the subgroup comes back from its announcement, and an
announcement with any texts is accepted exactly if they are the numerals of coordinates that satisfy the
equation of the curve and belong to a point of the subgroup. No payload is both a key and a deck.
-/
import MentalPoker.Proofs.Wire.Numeral
import MentalPoker.Proofs.Wire.RoundTrip

namespace MentalPoker

/-! ## The equation of the curve -/

/-- The equation in terms of the numbers that the coordinates are. -/
theorem Point.onCurve_iff {x y : Coordinate} :
    (Point.affine x y).OnCurve ↔ y.val ^ 2 ≡ x.val ^ 3 + 7 [MOD fieldPrime] := by
  have seven : Residue.toZMod (7 : Coordinate) = 7 := Residue.toZMod_ofNat 7
  rw [← ZMod.natCast_eq_natCast_iff]
  push_cast
  change y * y = x * x * x + 7 ↔ Residue.toZMod y ^ 2 = Residue.toZMod x ^ 3 + 7
  rw [← Residue.toZMod_inj]
  simp only [Residue.toZMod_mul, Residue.toZMod_add, seven]
  ring_nf

namespace KeyMessage

/-! ## What is accepted -/

/-- The texts are the numerals of the coordinates. -/
structure Spells (message : KeyMessage) (x y : Coordinate) : Prop where
  x : Residue.Fits fieldPrime message.x ∧ Decimal.value message.x = x.val
  y : Residue.Fits fieldPrime message.y ∧ Decimal.value message.y = y.val

/-- The coordinates are those of a point of the curve that lies in the subgroup. -/
def Sound (x y : Coordinate) : Prop :=
  y.val ^ 2 ≡ x.val ^ 3 + 7 [MOD fieldPrime] ∧ (Point.affine x y).InSubgroup

instance (x y : Coordinate) : Decidable (Sound x y) := inferInstanceAs (Decidable (_ ∧ _))

/-- Why a message announces no point. What is wrong with `x` comes before what is wrong with `y`, and that
before the point. -/
inductive Fault (message : KeyMessage) : DealError → Prop
  | x {e : DealError} (unfit : Residue.Unfit fieldPrime message.x e) : Fault message e
  | y {e : DealError} (fits : Residue.Fits fieldPrime message.x) (unfit : Residue.Unfit fieldPrime message.y e) :
      Fault message e
  | point {x y : Coordinate} (spells : message.Spells x y) (unsound : ¬ Sound x y) : Fault message .invalidPoint

/-- The coordinates that a message spells are checked. -/
theorem point_of_spells {message : KeyMessage} {x y : Coordinate} (spells : message.Spells x y) :
    message.point = if Sound x y then .ok (.affine x y) else .error .invalidPoint := by
  simp only [Sound, ← Point.onCurve_iff]
  rw [point, Residue.read_eq_ok_iff.2 spells.x, Residue.read_eq_ok_iff.2 spells.y]
  rfl

/-- A message spells coordinates, or the first text that does not says why. -/
theorem spells_or_error (message : KeyMessage) :
    (∃ x y, message.Spells x y) ∨
      ∃ e, message.point = .error e ∧ (Residue.Unfit fieldPrime message.x e ∨
        Residue.Fits fieldPrime message.x ∧ Residue.Unfit fieldPrime message.y e) := by
  cases first : (Residue.read message.x : Except DealError Coordinate) with
  | error e =>
    refine .inr ⟨e, ?_, .inl (Residue.read_eq_error_iff.1 first)⟩
    rw [point, first]
    rfl
  | ok x =>
    have hx := Residue.read_eq_ok_iff.1 first
    cases second : (Residue.read message.y : Except DealError Coordinate) with
    | error e =>
      refine .inr ⟨e, ?_, .inr ⟨hx.1, Residue.read_eq_error_iff.1 second⟩⟩
      rw [point, first, second]
      rfl
    | ok y => exact .inl ⟨x, y, hx, Residue.read_eq_ok_iff.1 second⟩

theorem point_eq_ok_iff {message : KeyMessage} {p : Point} :
    message.point = .ok p ↔ ∃ x y, message.Spells x y ∧ Sound x y ∧ p = .affine x y := by
  constructor
  · intro announced
    obtain ⟨x, y, spells⟩ | ⟨e, fails, -⟩ := message.spells_or_error
    · rw [point_of_spells spells] at announced
      split_ifs at announced with sound
      cases announced
      exact ⟨x, y, spells, sound, rfl⟩
    · rw [fails] at announced
      cases announced
  · rintro ⟨x, y, spells, sound, rfl⟩
    rw [point_of_spells spells, if_pos sound]

theorem point_eq_error_iff {message : KeyMessage} {e : DealError} :
    message.point = .error e ↔ message.Fault e := by
  constructor
  · intro refused
    obtain ⟨x, y, spells⟩ | ⟨e', fails, unfit⟩ := message.spells_or_error
    · rw [point_of_spells spells] at refused
      split_ifs at refused with sound
      cases refused
      exact .point spells sound
    · rw [fails] at refused
      cases refused
      rcases unfit with unfit | ⟨fits, unfit⟩
      · exact .x unfit
      · exact .y fits unfit
  · intro fault
    cases fault with
    | x unfit =>
      rw [point, Residue.read_eq_error_iff.2 unfit]
      rfl
    | y fits unfit =>
      obtain ⟨x, first⟩ := Residue.exists_read_iff.2 fits
      rw [point, first, Residue.read_eq_error_iff.2 unfit]
      rfl
    | point spells unsound => rw [point_of_spells spells, if_neg unsound]

/-! ## What is announced -/

/-- A finite point of the subgroup comes back from its announcement. -/
theorem point_ofPoint_of_stands {p : Point} {P : CurvePoint} (stands : p.Stands P) (finite : P ≠ 0)
    (torsion : groupOrder • P = 0) :
    ∃ message, ofPoint p = .ok message ∧ (ofBytes message.toBytes).bind point = .ok p := by
  have affine : p ≠ .infinity := by
    rintro rfl
    exact finite (Point.stands_infinity_iff.1 stands)
  obtain ⟨message, made, announced⟩ :=
    point_ofPoint affine stands.onCurve ((stands.multiple_eq_infinity groupOrder).2 torsion)
  refine ⟨message, made, ?_⟩
  rw [ofBytes_toBytes]
  exact announced

/-- So does a multiple of the generator that is not the point at infinity. -/
theorem point_ofPoint_multiple {k : ℕ} (finite : ¬ groupOrder ∣ k) :
    ∃ message, ofPoint (Point.generator.multiple k) = .ok message ∧
      (ofBytes message.toBytes).bind point = .ok (Point.generator.multiple k) := by
  obtain ⟨P, stands, -, torsion⟩ := Point.exists_generator_stands
  refine point_ofPoint_of_stands (stands.multiple k) ?_ ?_
  · rwa [Ne, ← stands.multiple_eq_infinity, Point.multiple_generator_eq_infinity]
  · rw [smul_comm, torsion, nsmul_zero]

/-! ## Keys and decks -/

theorem ofBytes_deck (message : DeckMessage) : ofBytes message.toBytes = .error .malformedPayload := by
  simp only [ofBytes, ofBytes.parse?, DeckMessage.read?_toBytes]
  simp [Json.fields?, Bytes.toString?_ofString]

end KeyMessage

theorem DeckMessage.ofBytes_key (message : KeyMessage) : ofBytes message.toBytes = .error .malformedPayload := by
  simp only [ofBytes, ofBytes.parse?, KeyMessage.read?_toBytes]
  simp [Json.fields?, Bytes.toString?_ofString]

namespace KeyMessage

/-- The wire format of public keys. A message is read from its payload as it was, whatever texts it holds. A
finite point of the subgroup comes back from its announcement, so every public key does; the point at infinity
has none. The point of any message is that of the coordinates its texts are the numerals of, once it is on the
curve and in the subgroup; every other message is refused for its first fault. Keys and decks are never taken
for each other. -/
theorem key_wire_format :
    (∀ message : KeyMessage, ofBytes message.toBytes = .ok message) ∧
    ofPoint .infinity = .error .invalidPoint ∧
    (∀ (p : Point) (P : CurvePoint), p.Stands P → P ≠ 0 → groupOrder • P = 0 →
      ∃ message, ofPoint p = .ok message ∧ (ofBytes message.toBytes).bind point = .ok p) ∧
    (∀ k, ¬ groupOrder ∣ k → ∃ message, ofPoint (Point.generator.multiple k) = .ok message ∧
      (ofBytes message.toBytes).bind point = .ok (Point.generator.multiple k)) ∧
    (∀ (message : KeyMessage) (p : Point),
      message.point = .ok p ↔ ∃ x y, message.Spells x y ∧ Sound x y ∧ p = .affine x y) ∧
    (∀ (message : KeyMessage) (e : DealError), message.point = .error e ↔ message.Fault e) ∧
    ∀ (key : KeyMessage) (deck : DeckMessage),
      ofBytes deck.toBytes = .error .malformedPayload ∧
        DeckMessage.ofBytes key.toBytes = .error .malformedPayload :=
  ⟨ofBytes_toBytes, rfl, fun _ _ => point_ofPoint_of_stands, fun _ => point_ofPoint_multiple,
    fun _ _ => point_eq_ok_iff, fun _ _ => point_eq_error_iff,
    fun key deck => ⟨ofBytes_deck deck, DeckMessage.ofBytes_key key⟩⟩

/-- The generator and its double are announced. -/
theorem key_wire_format_generator :
    (∃ P : CurvePoint, Point.generator.Stands P ∧ P ≠ 0 ∧ groupOrder • P = 0 ∧
      ∃ message, ofPoint Point.generator = .ok message ∧
        (ofBytes message.toBytes).bind point = .ok Point.generator) ∧
    ¬ groupOrder ∣ 2 ∧ ∃ message, ofPoint (Point.generator.multiple 2) = .ok message ∧
      (ofBytes message.toBytes).bind point = .ok (Point.generator.multiple 2) := by
  obtain ⟨-, -, finite_points, multiples, -⟩ := key_wire_format
  obtain ⟨P, stands, finite, torsion⟩ := Point.exists_generator_stands
  have odd : ¬ groupOrder ∣ 2 := by decide
  exact ⟨⟨P, stands, finite, torsion, finite_points _ P stands finite torsion⟩, odd, multiples 2 odd⟩

end KeyMessage

end MentalPoker
