/-
Writing JSON: without blanks, every character as it is, except that the quote, the backslash and the
control characters of ASCII are escaped.
-/
import MentalPoker.Json.Basic

namespace MentalPoker.Json

/-- The lower case hexadecimal digit of a number below sixteen. -/
def hexDigit (n : UInt8) : UInt8 := if n < 10 then 0x30 + n else 0x61 + (n - 10)

/-- How a byte of a string's content stands in its literal. -/
def escapeByte (b : UInt8) : Bytes :=
  if b = 0x22 then [0x5c, 0x22]
  else if b = 0x5c then [0x5c, 0x5c]
  else if b = 0x08 then [0x5c, 0x62]
  else if b = 0x0c then [0x5c, 0x66]
  else if b = 0x0a then [0x5c, 0x6e]
  else if b = 0x0d then [0x5c, 0x72]
  else if b = 0x09 then [0x5c, 0x74]
  else if b < 0x20 then [0x5c, 0x75, 0x30, 0x30, hexDigit (b / 16), hexDigit (b % 16)]
  else [b]

/-- The literal of a string. -/
def writeString (content : Bytes) : Bytes := [0x22] ++ content.flatMap escapeByte ++ [0x22]

mutual

/-- The bytes of a value. -/
def write : Json → Bytes
  | null => Bytes.ofString "null"
  | bool true => Bytes.ofString "true"
  | bool false => Bytes.ofString "false"
  | number literal => literal
  | string content => writeString content
  | array items => [0x5b] ++ writeItems items ++ [0x5d]
  | object members => [0x7b] ++ writeMembers members ++ [0x7d]

/-- The values, with commas between them. -/
def writeItems : List Json → Bytes
  | [] => []
  | [item] => write item
  | item :: next :: items => write item ++ [0x2c] ++ writeItems (next :: items)

/-- The members, with commas between them. -/
def writeMembers : List (Bytes × Json) → Bytes
  | [] => []
  | [(key, value)] => writeString key ++ [0x3a] ++ write value
  | (key, value) :: next :: members =>
    writeString key ++ [0x3a] ++ write value ++ [0x2c] ++ writeMembers (next :: members)

end

end MentalPoker.Json
