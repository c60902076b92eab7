/-
Reading JSON. `Json.read?` accepts a value with blanks around and inside it and nothing after it.
A string literal may hold any bytes but raw control characters; whether it denotes a text is decided
by who uses it.
-/
import MentalPoker.Json.Basic

namespace MentalPoker.Json

/-! ## Strings -/

/-- A part of a string literal: a byte that stands for itself, or an escaped UTF-16 unit. -/
inductive Piece where
  | byte (b : UInt8)
  | unit (u : Nat)

/-- The UTF-8 form of a number below `2 ^ 21`, surrogates included. -/
def utf8 (n : Nat) : Bytes :=
  if n < 0x80 then [UInt8.ofNat n]
  else if n < 0x800 then [UInt8.ofNat (0xc0 + n / 64), UInt8.ofNat (0x80 + n % 64)]
  else if n < 0x10000 then
    [UInt8.ofNat (0xe0 + n / 4096), UInt8.ofNat (0x80 + n / 64 % 64), UInt8.ofNat (0x80 + n % 64)]
  else
    [UInt8.ofNat (0xf0 + n / 262144), UInt8.ofNat (0x80 + n / 4096 % 64),
      UInt8.ofNat (0x80 + n / 64 % 64), UInt8.ofNat (0x80 + n % 64)]

/-- The bytes that the pieces denote: two units that form a surrogate pair are one character. -/
def content : List Piece → Bytes
  | [] => []
  | .byte b :: rest => b :: content rest
  | .unit high :: .unit low :: rest =>
    if 0xd800 ≤ high ∧ high < 0xdc00 ∧ 0xdc00 ≤ low ∧ low < 0xe000 then
      utf8 (0x10000 + (high - 0xd800) * 0x400 + (low - 0xdc00)) ++ content rest
    else utf8 high ++ content (.unit low :: rest)
  | .unit u :: rest => utf8 u ++ content rest

/-- The byte that the escape of one character stands for. -/
def simpleEscape? (b : UInt8) : Option UInt8 :=
  if b = 0x22 ∨ b = 0x5c ∨ b = 0x2f then some b
  else if b = 0x62 then some 0x08
  else if b = 0x66 then some 0x0c
  else if b = 0x6e then some 0x0a
  else if b = 0x72 then some 0x0d
  else if b = 0x74 then some 0x09
  else none

/-- The number spelled by four hexadecimal digits. -/
def unit? (a b c d : UInt8) : Option Nat := do
  let digit (x : UInt8) := Bytes.hexValue? (Char.ofUInt8 x)
  return (((← digit a) * 16 + (← digit b)) * 16 + (← digit c)) * 16 + (← digit d)

/-- The pieces of a literal up to its closing quote, and the input after it. -/
def readPieces : Bytes → Option (List Piece × Bytes)
  | [] => none
  | b :: input =>
    if b = 0x22 then some ([], input)
    else if b = 0x5c then
      match input with
      | [] => none
      | e :: input =>
        if e = 0x75 then
          match input with
          | a :: b :: c :: d :: input => do
            let u ← unit? a b c d
            let (pieces, input) ← readPieces input
            return (.unit u :: pieces, input)
          | _ => none
        else do
          let b ← simpleEscape? e
          let (pieces, input) ← readPieces input
          return (.byte b :: pieces, input)
    else if b < 0x20 then none
    else do
      let (pieces, input) ← readPieces input
      return (.byte b :: pieces, input)

/-- The content of a literal whose opening quote has been read. -/
def readString (input : Bytes) : Option (Bytes × Bytes) :=
  (readPieces input).map fun (pieces, input) => (content pieces, input)

/-! ## Numbers and words -/

def isDigit (b : UInt8) : Bool := 0x30 ≤ b && b ≤ 0x39

/-- One digit or more. -/
def readDigits (input : Bytes) : Option (Bytes × Bytes) :=
  let digits := input.takeWhile isDigit
  if digits.isEmpty then none else some (digits, input.drop digits.length)

/-- The digits before the point: a zero, or digits that do not start with one. -/
def readWhole (input : Bytes) : Option (Bytes × Bytes) := do
  let (digits, input) ← readDigits input
  if digits.head? = some 0x30 ∧ digits.length ≠ 1 then none else some (digits, input)

/-- A point and digits, if a point follows. -/
def readFraction : Bytes → Option (Bytes × Bytes)
  | 0x2e :: input => do
    let (digits, input) ← readDigits input
    return (0x2e :: digits, input)
  | input => some ([], input)

/-- The mark of an exponent, a sign that may be left out, and digits, if the mark follows. -/
def readExponent (input : Bytes) : Option (Bytes × Bytes) :=
  match input with
  | [] => some ([], [])
  | mark :: rest =>
    if mark = 0x65 ∨ mark = 0x45 then do
      let signs := rest.takeWhile fun b => b = 0x2b ∨ b = 0x2d
      if signs.length ≤ 1 then
        let (digits, rest) ← readDigits (rest.drop signs.length)
        return (mark :: signs ++ digits, rest)
      else none
    else some ([], input)

/-- A number as it is written. -/
def readNumber (input : Bytes) : Option (Bytes × Bytes) := do
  let sign : Bytes := if input.head? = some 0x2d then [0x2d] else []
  let (whole, input) ← readWhole (input.drop sign.length)
  let (fraction, input) ← readFraction input
  let (exponent, input) ← readExponent input
  return (sign ++ whole ++ fraction ++ exponent, input)

/-- A value that is spelled as a word. -/
def readWord (input : Bytes) : Option (Json × Bytes) :=
  let words : List (String × Json) := [("null", null), ("true", bool true), ("false", bool false)]
  words.findSome? fun (word, value) =>
    let spelling := Bytes.ofString word
    if spelling.isPrefixOf input then some (value, input.drop spelling.length) else none

/-! ## Values -/

/-- The input from its first byte on that is not a blank. -/
def skipBlanks (input : Bytes) : Bytes :=
  input.dropWhile fun b => b = 0x20 ∨ b = 0x0a ∨ b = 0x09 ∨ b = 0x0d

mutual

/-- A value, and the input after it. -/
def readValue : (fuel : Nat) → Bytes → Option (Json × Bytes)
  | 0, _ => none
  | fuel + 1, input =>
    match skipBlanks input with
    | [] => none
    | b :: rest =>
      if b = 0x22 then (readString rest).map fun (content, rest) => (string content, rest)
      else if b = 0x5b then
        match skipBlanks rest with
        | 0x5d :: rest => some (array [], rest)
        | rest => (readItems fuel rest).map fun (items, rest) => (array items, rest)
      else if b = 0x7b then
        match skipBlanks rest with
        | 0x7d :: rest => some (object [], rest)
        | rest => (readMembers fuel rest).map fun (members, rest) => (object members, rest)
      else if b = 0x2d ∨ isDigit b then
        (readNumber (b :: rest)).map fun (literal, rest) => (number literal, rest)
      else readWord (b :: rest)

/-- The items of an array up to its closing bracket. -/
def readItems : (fuel : Nat) → Bytes → Option (List Json × Bytes)
  | 0, _ => none
  | fuel + 1, input => do
    let (item, input) ← readValue fuel input
    match skipBlanks input with
    | 0x5d :: input => return ([item], input)
    | 0x2c :: input =>
      let (items, input) ← readItems fuel input
      return (item :: items, input)
    | _ => none

/-- The members of an object up to its closing brace. -/
def readMembers : (fuel : Nat) → Bytes → Option (List (Bytes × Json) × Bytes)
  | 0, _ => none
  | fuel + 1, input =>
    match skipBlanks input with
    | 0x22 :: input => do
      let (key, input) ← readString input
      match skipBlanks input with
      | 0x3a :: input =>
        let (value, input) ← readValue fuel input
        match skipBlanks input with
        | 0x7d :: input => return ([(key, value)], input)
        | 0x2c :: input =>
          let (members, input) ← readMembers fuel input
          return ((key, value) :: members, input)
        | _ => none
      | _ => none
    | _ => none

end

/-- The value of a document. Every value and every item takes a byte of the input, so that twice its
length is enough fuel. -/
def read? (input : Bytes) : Option Json := do
  let (value, rest) ← readValue (2 * input.length + 1) input
  if (skipBlanks rest).isEmpty then some value else none

end MentalPoker.Json
