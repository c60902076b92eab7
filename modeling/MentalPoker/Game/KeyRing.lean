/-
The public keys a player has learned from others. The first key of a player is kept for good.
-/
import MentalPoker.Curve.Point
import MentalPoker.Ledger.Basic

namespace MentalPoker

structure KeyRing where
  /-- Each player at most once, in the order in which the keys were learned. -/
  entries : List (Address × Point)
deriving DecidableEq

namespace KeyRing

def empty : KeyRing := ⟨[]⟩

def size (ring : KeyRing) : Nat := ring.entries.length

def isEmpty (ring : KeyRing) : Bool := ring.entries.isEmpty

/-- The key of a player. -/
def get? (ring : KeyRing) (player : Address) : Option Point := ring.entries.lookup player

def contains (ring : KeyRing) (player : Address) : Bool := (ring.get? player).isSome

/-- Records a player's key, unless there is one; says whether it did. -/
def record (ring : KeyRing) (player : Address) (key : Point) : Bool × KeyRing :=
  if ring.contains player then (false, ring) else (true, ⟨ring.entries ++ [(player, key)]⟩)

end KeyRing

end MentalPoker
