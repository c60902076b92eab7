/-
Byte strings: the payloads, labels and digests of the protocol. A byte string is a list, so that
readers of payloads recurse on it. Text enters and leaves as UTF-8, numbers as little-endian words.
-/

namespace MentalPoker

/-- A byte string. -/
abbrev Bytes := List UInt8

namespace Bytes

/-! ## Text -/

/-- The UTF-8 bytes of a text. -/
def ofString (s : String) : Bytes := s.toByteArray.data.toList

/-- The text whose UTF-8 bytes these are, if there is one. -/
def toString? (bs : Bytes) : Option String := String.fromUTF8? ⟨bs.toArray⟩

theorem toString?_ofString (s : String) : toString? (ofString s) = some s := by
  have h : s.toByteArray.IsValidUTF8 := s.isValidUTF8
  simp [toString?, ofString, String.fromUTF8?, h, String.fromUTF8]

/-! ## Little-endian words -/

/-- The number whose little-endian bytes these are. -/
def toNat : Bytes → Nat
  | [] => 0
  | b :: bs => b.toNat + 256 * toNat bs

/-- The low `size` bytes of a number, least significant first. -/
def ofNat (n : Nat) : (size : Nat) → Bytes
  | 0 => []
  | size + 1 => UInt8.ofNat n :: ofNat (n / 256) size

/-! ## Hexadecimal -/

/-- The lower case hexadecimal digit of a number below sixteen. -/
def hexDigit (n : Nat) : Char :=
  if n < 10 then Char.ofNat ('0'.toNat + n) else Char.ofNat ('a'.toNat + (n - 10))

/-- The value of a hexadecimal digit of either case. -/
def hexValue? (c : Char) : Option Nat :=
  if '0' ≤ c ∧ c ≤ '9' then some (c.toNat - '0'.toNat)
  else if 'a' ≤ c ∧ c ≤ 'f' then some (c.toNat - 'a'.toNat + 10)
  else if 'A' ≤ c ∧ c ≤ 'F' then some (c.toNat - 'A'.toNat + 10)
  else none

/-- Two lower case digits a byte, high half first. -/
def toHex (bs : Bytes) : String :=
  String.ofList (bs.flatMap fun b => [hexDigit (b.toNat / 16), hexDigit (b.toNat % 16)])

/-- The bytes spelled by pairs of hexadecimal digits. -/
def ofHex? (s : String) : Option Bytes := go s.toList
where
  go : List Char → Option Bytes
    | [] => some []
    | high :: low :: rest => do
      let h ← hexValue? high
      let l ← hexValue? low
      return UInt8.ofNat (16 * h + l) :: (← go rest)
    | [_] => none

end Bytes

end MentalPoker
