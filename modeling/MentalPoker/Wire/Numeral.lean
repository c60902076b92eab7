/-
Residues on the wire: decimal numerals, so that any reader of the ledger can take them up. A value
at or above the modulus is refused and not reduced.
-/
import MentalPoker.Error

namespace MentalPoker.Residue

variable {m : Nat}

/-- The numeral of a residue. -/
def write (a : Fin m) : String := Decimal.write a.val

/-- The residue of a numeral. -/
def read (text : String) : Except DealError (Fin m) :=
  match Decimal.read? text with
  | none => .error (.notDecimal text)
  | some n => if h : n < m then .ok ⟨n, h⟩ else .error (.outOfRange text)

end MentalPoker.Residue
