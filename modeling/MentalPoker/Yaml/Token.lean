/-
YAML tokens. Indentation and the colons after simple keys decide where block collections start and
end; the tokens `blockMappingStart`, `key` and `blockEnd` record those decisions, so that the
grammar over tokens does not look at columns.
-/
import MentalPoker.Yaml.Scalar

namespace MentalPoker.Yaml

/-- How a scalar is written. -/
inductive Style where
  | plain | quoted | literal | folded
deriving DecidableEq

inductive Token where
  | version (major minor : Nat)
  | tagHandle (handle : String) (start : Bytes)
  | documentStart
  | documentEnd
  | blockSequenceStart
  | blockMappingStart
  | blockEnd
  | flowSequenceStart
  | flowSequenceEnd
  | flowMappingStart
  | flowMappingEnd
  | blockEntry
  | flowEntry
  | key
  | value
  | alias (name : String)
  | anchor (name : String)
  /-- A tag; one whose handle is empty stands for itself. -/
  | tag (handle : String) (suffix : Bytes)
  | scalar (text : String) (style : Style)
deriving DecidableEq

/-! ## Tags and directives -/

/-- A character of a tag's suffix. Commas and brackets may stand in a verbatim tag only. -/
def isTagChar (verbatim : Bool) (c : Char) : Bool :=
  isWordChar c || ";/?:@&=+$.%!~*'()".contains c || (verbatim && ",[]".contains c)

/-- How many bytes of a character's UTF-8 form follow the first one, going by its high bits. -/
def trailing? (lead : Nat) : Option Nat :=
  if lead < 0x80 then some 0
  else if lead < 0xc0 then none
  else if lead < 0xe0 then some 1
  else if lead < 0xf0 then some 2
  else if lead < 0xf8 then some 3
  else none

/-- The bytes of a tag's suffix, in which a percent sign and two hexadecimal digits stand for a
byte. Such bytes come in groups of the shape of a character, `pending` of which are still to come;
whether a group is a character's UTF-8 form is not looked at. -/
def unescape? : (pending : Nat) → List Char → Option Bytes
  | pending, '%' :: high :: low :: rest => do
    let b := 16 * (← Bytes.hexValue? high) + (← Bytes.hexValue? low)
    let pending ← match pending with
      | 0 => trailing? b
      | n + 1 => if 0x80 ≤ b ∧ b < 0xc0 then some n else none
    return UInt8.ofNat b :: (← unescape? pending rest)
  | 0, [] => some []
  | 0, c :: rest =>
    if c = '%' then none else (unescape? 0 rest).map (Bytes.ofString c.toString ++ ·)
  | _ + 1, _ => none

/-- What a tag's suffix stands for. A zero byte ends it. -/
def tagBytes? (suffix : List Char) : Option Bytes :=
  (unescape? 0 suffix).map (·.takeWhile (· ≠ 0))

/-- A handle: an exclamation mark and, if the second one follows, the word between the two. -/
def readHandle? (c : Cursor) : Option (String × Cursor) :=
  if c.peek? ≠ some '!' then none
  else
    let (word, after) := (c.advance 1).takeWhile isWordChar
    if after.peek? = some '!' then
      some (String.ofList ('!' :: word ++ ['!']), after.advance 1)
    else some (String.ofList ('!' :: word), after)

/-- A tag: verbatim between angle brackets, or a suffix after a handle. -/
def readTag? (flow : Bool) (c : Cursor) : Option (Token × Cursor) := do
  let (token, c) ←
    if c.rest.take 2 = ['!', '<'] then do
      let (suffix, c) := (c.advance 2).takeWhile (isTagChar true)
      if suffix.isEmpty ∨ c.peek? ≠ some '>' then none
      else some (Token.tag "" (← tagBytes? suffix), c.advance 1)
    else do
      let (handle, after) ← readHandle? c
      let (suffix, after) := after.takeWhile (isTagChar false)
      if handle.length > 1 ∧ handle.endsWith "!" then
        if suffix.isEmpty then none else some (Token.tag handle (← tagBytes? suffix), after)
      else
        let suffix ← tagBytes? (handle.toList.tail ++ suffix)
        some (if suffix.isEmpty then .tag "" (Bytes.ofString "!") else .tag "!" suffix, after)
  if isGap c.peek? ∨ (flow ∧ c.peek? = some ',') then return (token, c) else none

/-- A number of at most nine digits. -/
def readVersionNumber? (c : Cursor) : Option (Nat × Cursor) :=
  let (digits, c) := c.takeWhile Char.isDigit
  if digits.isEmpty ∨ 9 < digits.length then none else some (Nat.ofDigitChars 10 digits 0, c)

/-- A directive, which takes a whole line. -/
def readDirective? (c : Cursor) : Option (Token × Cursor) := do
  let (name, c) := (c.advance 1).takeWhile isWordChar
  if !isGap c.peek? then none
  let arguments := c.skipWhile isBlank
  let (token, c) ← match String.ofList name with
    | "YAML" => do
      let (major, c) ← readVersionNumber? arguments
      if c.peek? ≠ some '.' then none
      let (minor, c) ← readVersionNumber? (c.advance 1)
      some (Token.version major minor, c)
    | "TAG" => do
      let (handle, c) ← readHandle? arguments
      if handle ≠ "!" ∧ !(handle.length > 1 ∧ handle.endsWith "!") then none
      if !c.peek?.any isBlank then none
      let (start, c) := (c.skipWhile isBlank).takeWhile (isTagChar true)
      if start.isEmpty ∨ !isGap c.peek? then none
      some (Token.tagHandle handle (← tagBytes? start), c)
    | _ => none
  return (token, ← c.endOfLine?)

/-! ## The state of the tokenizer -/

/-- A place where a simple key may have started. -/
structure KeyStart where
  /-- The number of the token that would be the key. -/
  token : Nat
  place : Cursor
  /-- Whether nothing but a key may stand there. -/
  required : Bool

structure Tokenizer where
  cursor : Cursor
  tokens : Array Token
  /-- The column of the innermost block collection, `-1` outside of all. -/
  indent : Int
  /-- The columns of the collections around it, innermost first. -/
  outer : List Int
  /-- One entry for each flow collection around the place, and one for the block context. -/
  keys : List (Option KeyStart)
  /-- Whether a simple key may start here. -/
  keyAllowed : Bool

namespace Tokenizer

def start (text : String) : Tokenizer := ⟨.ofString text, #[], -1, [], [none], true⟩

def inFlow (t : Tokenizer) : Bool := t.keys.length > 1

def push (t : Tokenizer) (token : Token) : Tokenizer := { t with tokens := t.tokens.push token }

/-- Emits a token of `size` characters. -/
def take (t : Tokenizer) (token : Token) (size : Nat) : Tokenizer :=
  { t.push token with cursor := t.cursor.advance size }

/-! ### Indentation -/

/-- Ends the block collections that stand further right than `column`. -/
def unroll (t : Tokenizer) (column : Int) : Tokenizer :=
  if t.inFlow then t else go t.outer t
where
  go : List Int → Tokenizer → Tokenizer
    | [], t => t
    | parent :: outer, t =>
      if column < t.indent then go outer { t.push .blockEnd with indent := parent, outer := outer }
      else t

/-- Starts a block collection at `column` if it stands further right than the innermost one. Its
token goes before the token with number `place`. -/
def roll (t : Tokenizer) (column : Nat) (place : Nat) (token : Token) : Tokenizer :=
  if !t.inFlow ∧ t.indent < column then
    { t with tokens := t.tokens.insertIdxIfInBounds place token, indent := column
             outer := t.indent :: t.outer }
  else t

/-! ### Simple keys -/

/-- Whether the place of a key is near enough for its colon: on the same line, and at most 1024
bytes before. -/
def inReach (t : Tokenizer) (key : KeyStart) : Bool :=
  key.place.line == t.cursor.line && t.cursor.index ≤ key.place.index + 1024

/-- Gives up the key that may have started; a required one is missing its colon. -/
def dropKey? (t : Tokenizer) : Option Tokenizer :=
  match t.keys with
  | some key :: keys => if key.required then none else some { t with keys := none :: keys }
  | _ => some t

/-- Notes that a simple key may start here. -/
def noteKey? (t : Tokenizer) : Option Tokenizer :=
  if t.keyAllowed then do
    let required := !t.inFlow && t.indent == (t.cursor.column : Int)
    let t ← t.dropKey?
    return { t with keys := some ⟨t.tokens.size, t.cursor, required⟩ :: t.keys.tail }
  else some t

/-! ### Tokens -/

/-- The place of the next token: blanks, comments and breaks are skipped, and a byte order mark at
the start of a line. Tabs do not count as blanks where a key may start. -/
def skipGap : (fuel : Nat) → Tokenizer → Option Tokenizer
  | 0, _ => none
  | fuel + 1, t =>
    let c := if t.cursor.column = 0 ∧ t.cursor.peek? = some '\ufeff' then t.cursor.advance 1
      else t.cursor
    let c := c.skipWhile fun b => b == ' ' || ((t.inFlow || !t.keyAllowed) && b == '\t')
    let c := if c.peek? = some '#' then c.skipWhile (!isBreak ·) else c
    match c.readBreak? with
    | some (_, c) => skipGap fuel { t with cursor := c, keyAllowed := t.keyAllowed || !t.inFlow }
    | none => some { t with cursor := c }

/-- A directive or a document's mark, before which every collection ends. -/
def takeAtMargin? (t : Tokenizer) (token : Token) (after : Cursor) : Option Tokenizer := do
  let t ← (t.unroll (-1)).dropKey?
  return { t.push token with cursor := after, keyAllowed := false }

/-- The start of a flow collection, which may be a key. -/
def openFlow? (t : Tokenizer) (token : Token) : Option Tokenizer := do
  let t ← t.noteKey?
  return { t.take token 1 with keys := none :: t.keys, keyAllowed := true }

/-- The end of a flow collection. -/
def closeFlow? (t : Tokenizer) (token : Token) : Option Tokenizer := do
  let t ← t.dropKey?
  let keys := if t.inFlow then t.keys.tail else t.keys
  return { t.take token 1 with keys, keyAllowed := false }

/-- A sign that starts an entry of a block collection, where that is allowed, and of a flow
collection otherwise. -/
def takeEntry? (t : Tokenizer) (collection token : Token) (keyAfter : Bool) : Option Tokenizer := do
  if !t.inFlow ∧ !t.keyAllowed then none
  let t ← (t.roll t.cursor.column t.tokens.size collection).dropKey?
  return { t.take token 1 with keyAllowed := keyAfter }

/-- The sign of a value. If a simple key is in reach, it becomes one now. -/
def takeValue? (t : Tokenizer) : Option Tokenizer :=
  match t.keys with
  | some key :: keys =>
    if t.inReach key then
      let tokens := t.tokens.insertIdxIfInBounds key.token .key
      let t := { t with tokens, keys := none :: keys }
      let t := t.roll key.place.column key.token .blockMappingStart
      some { t.take .value 1 with keyAllowed := false }
    else if key.required then none
    else complex { t with keys := none :: keys }
  | _ => complex t
where
  complex (t : Tokenizer) : Option Tokenizer :=
    if !t.inFlow ∧ !t.keyAllowed then none
    else
      let t := t.roll t.cursor.column t.tokens.size .blockMappingStart
      some { t.take .value 1 with keyAllowed := !t.inFlow }

/-- An anchor's or an alias' name, after its sign. -/
def takeName? (t : Tokenizer) (token : String → Token) : Option Tokenizer := do
  let t ← t.noteKey?
  let (name, c) := (t.cursor.advance 1).takeWhile isWordChar
  if name.isEmpty ∨ !(isGap c.peek? ∨ c.peek?.any ("?:,]\x7d%@`".contains ·)) then none
  else return { t.push (token (String.ofList name)) with cursor := c, keyAllowed := false }

def takeTag? (t : Tokenizer) : Option Tokenizer := do
  let t ← t.noteKey?
  let (token, c) ← readTag? t.inFlow t.cursor
  return { t.push token with cursor := c, keyAllowed := false }

def takeBlock? (t : Tokenizer) (style : Style) : Option Tokenizer := do
  let t ← t.dropKey?
  let (text, c) ← readBlock (style = .folded) t.indent (t.cursor.advance 1)
  return { t.push (.scalar (String.ofList text) style) with cursor := c, keyAllowed := true }

def takeQuoted? (t : Tokenizer) : Option Tokenizer := do
  let t ← t.noteKey?
  let fuel := t.cursor.rest.length + 1
  let (text, c) ←
    if t.cursor.peek? = some '\'' then readSingleQuoted fuel (t.cursor.advance 1)
    else readDoubleQuoted fuel (t.cursor.advance 1)
  return { t.push (.scalar (String.ofList text) .quoted) with cursor := c, keyAllowed := false }

def takePlain? (t : Tokenizer) : Option Tokenizer := do
  let t ← t.noteKey?
  let plain ← readPlain t.inFlow (t.indent + 1) (t.cursor.rest.length + 1) t.cursor false
  return { t.push (.scalar (String.ofList plain.text) .plain) with
           cursor := plain.after, keyAllowed := plain.crossedLine }

/-- Whether a plain scalar may start with `c`, given the character after it. -/
def startsPlain (t : Tokenizer) (c : Char) (next : Option Char) : Bool :=
  (!isBlank c && !"-?:,[]\x7b\x7d#&*!|>'\"%@`".contains c)
    || (c == '-' && !next.any isBlank)
    || (!t.inFlow && (c == '?' || c == ':') && !isGap next)

/-- The token at a place that no gap starts at. -/
def next? (t : Tokenizer) (c : Char) (rest : List Char) : Option Tokenizer :=
  let gapAfter := isGap rest.head?
  if t.cursor.column = 0 ∧ c = '%' then do
    let (token, after) ← readDirective? t.cursor
    t.takeAtMargin? token after
  else if t.cursor.atMarker '-' then t.takeAtMargin? .documentStart (t.cursor.advance 3)
  else if t.cursor.atMarker '.' then t.takeAtMargin? .documentEnd (t.cursor.advance 3)
  else if c = '[' then t.openFlow? .flowSequenceStart
  else if c = '\x7b' then t.openFlow? .flowMappingStart
  else if c = ']' then t.closeFlow? .flowSequenceEnd
  else if c = '\x7d' then t.closeFlow? .flowMappingEnd
  else if c = ',' then do
    let t ← t.dropKey?
    return { t.take .flowEntry 1 with keyAllowed := true }
  else if c = '-' ∧ gapAfter then t.takeEntry? .blockSequenceStart .blockEntry true
  else if c = '?' ∧ (t.inFlow ∨ gapAfter) then t.takeEntry? .blockMappingStart .key !t.inFlow
  else if c = ':' ∧ (t.inFlow ∨ gapAfter) then t.takeValue?
  else if c = '*' then t.takeName? .alias
  else if c = '&' then t.takeName? .anchor
  else if c = '!' then t.takeTag?
  else if c = '|' ∧ !t.inFlow then t.takeBlock? .literal
  else if c = '>' ∧ !t.inFlow then t.takeBlock? .folded
  else if c = '\'' ∨ c = '"' then t.takeQuoted?
  else if t.startsPlain c rest.head? then t.takePlain?
  else none

/-- The tokenizer at the end of its text. Every token takes a character. -/
def finish? : (fuel : Nat) → Tokenizer → Option Tokenizer
  | 0, _ => none
  | fuel + 1, t => do
    let t ← skipGap (t.cursor.rest.length + 1) t
    let t := t.unroll t.cursor.column
    match t.cursor.rest with
    | [] => (t.unroll (-1)).dropKey?
    | c :: rest => finish? fuel (← t.next? c rest)

end Tokenizer

/-- The tokens of a text, if it holds allowed characters only and no malformed token. -/
def tokens? (text : String) : Option (List Token) :=
  if text.toList.all isAllowed then
    ((Tokenizer.start text).finish? (text.toList.length + 1)).map (·.tokens.toList)
  else none

end MentalPoker.Yaml
