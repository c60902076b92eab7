/-
The payload that announces a public key: a JSON object with the field `publicKey`, whose fields `x`
and `y` are the coordinates as numerals. A message holds any two texts; that they are the
coordinates of a point is checked when the point is asked for.
-/
import MentalPoker.Json.Reader
import MentalPoker.Json.Writer
import MentalPoker.Wire.Numeral

namespace MentalPoker

structure KeyMessage where
  x : String
  y : String
deriving DecidableEq

namespace KeyMessage

/-- The message that announces a point. The point at infinity has no coordinates to announce. -/
def ofPoint : Point → Except DealError KeyMessage
  | .infinity => .error .invalidPoint
  | .affine x y => .ok ⟨Residue.write x, Residue.write y⟩

/-- The announced point, if it lies on the curve and in the subgroup of the group order. -/
def point (message : KeyMessage) : Except DealError Point := do
  let x ← Residue.read message.x
  let y ← Residue.read message.y
  let p := Point.affine x y
  if p.OnCurve ∧ p.InSubgroup then return p else throw .invalidPoint

/-- The payload of a message. -/
def toBytes (message : KeyMessage) : Bytes :=
  let field (name : String) (value : Json) := (Bytes.ofString name, value)
  let point := Json.object [field "x" (.ofString message.x), field "y" (.ofString message.y)]
  Json.write (.object [field "publicKey" point])

/-- The message of a payload. -/
def ofBytes (payload : Bytes) : Except DealError KeyMessage :=
  match parse? payload with
  | some message => .ok message
  | none => .error .malformedPayload
where
  parse? (payload : Bytes) : Option KeyMessage := do
    let [point] ← (← Json.read? payload).fields? ["publicKey"] | none
    let [x, y] ← point.fields? ["x", "y"] | none
    return ⟨← x.text?, ← y.text?⟩

end KeyMessage

end MentalPoker
