/-
A place in a YAML text: what is left of it and where it stands. Lines are ended by a line feed, a
carriage return, both in a row, a next-line character or one of the two Unicode separators.
-/

namespace MentalPoker.Yaml

/-! ## Characters -/

/-- A space or a tab. -/
def isBlank (c : Char) : Bool := c == ' ' || c == '\t'

/-- A character that ends a line. -/
def isBreak (c : Char) : Bool :=
  c == '\n' || c == '\r' || c == '\u0085' || c == '\u2028' || c == '\u2029'

/-- A blank, a break or the end of the text. -/
def isGap : Option Char → Bool
  | none => true
  | some c => isBlank c || isBreak c

/-- A character of an anchor, a directive's name or a tag's handle. -/
def isWordChar (c : Char) : Bool := c.isAlphanum || c == '_' || c == '-'

/-- The characters a text may hold at all. -/
def isAllowed (c : Char) : Bool :=
  c == '\t' || c == '\n' || c == '\r' || c == '\u0085' || (' ' ≤ c && c ≤ '~')
    || ('\u00a0' ≤ c && c != '\ufffe' && c != '\uffff')

/-- The bytes that the UTF-8 form of characters takes. -/
def byteSize : List Char → Nat
  | [] => 0
  | c :: cs => c.utf8Size + byteSize cs

/-! ## Places -/

structure Cursor where
  rest : List Char
  /-- Bytes of the UTF-8 form before the place. -/
  index : Nat
  /-- Lines before the place. -/
  line : Nat
  /-- Characters between the start of the line and the place. -/
  column : Nat

namespace Cursor

/-- The start of a text. -/
def ofString (text : String) : Cursor := ⟨text.toList, 0, 0, 0⟩

def peek? (c : Cursor) : Option Char := c.rest.head?

/-- The place `n` characters on, none of which ends a line. -/
def advance (c : Cursor) (n : Nat) : Cursor :=
  { c with rest := c.rest.drop n, index := c.index + byteSize (c.rest.take n)
           column := c.column + n }

/-- The characters from here on that satisfy `p`, which no break does, and the place after them. -/
def takeWhile (c : Cursor) (p : Char → Bool) : List Char × Cursor :=
  let run := c.rest.takeWhile p
  (run, c.advance run.length)

def skipWhile (c : Cursor) (p : Char → Bool) : Cursor := (c.takeWhile p).2

/-- The start of the next line and the character the break counts as, if a break is next. -/
def readBreak? (c : Cursor) : Option (Char × Cursor) :=
  let next (rest : List Char) (size : Nat) : Cursor := ⟨rest, c.index + size, c.line + 1, 0⟩
  match c.rest with
  | '\r' :: '\n' :: rest => some ('\n', next rest 2)
  | b :: rest =>
    if b = '\u2028' ∨ b = '\u2029' then some (b, next rest b.utf8Size)
    else if isBreak b then some ('\n', next rest b.utf8Size)
    else none
  | [] => none

/-- Whether a line starts here that holds the three marks of a document's start or end. -/
def atMarker (c : Cursor) (mark : Char) : Bool :=
  c.column == 0 && c.rest.take 3 == [mark, mark, mark] && isGap (c.rest.drop 3).head?

/-- Whether a document's start or end is marked here. -/
def atDocumentMarker (c : Cursor) : Bool := c.atMarker '-' || c.atMarker '.'

/-- The place after blanks and a comment, which must be the end of the line. -/
def endOfLine? (c : Cursor) : Option Cursor :=
  let c := c.skipWhile isBlank
  let c := if c.peek? = some '#' then c.skipWhile (!isBreak ·) else c
  match c.readBreak? with
  | some (_, c) => some c
  | none => if c.rest.isEmpty then some c else none

end Cursor

/-! ## Gaps -/

/-- The white space between two words: the blanks before the first break, and the breaks. -/
structure Gap where
  blanks : List Char
  breaks : List Char

namespace Gap

/-- What a gap in a flowing text stands for: a line feed is a space, unless empty lines follow,
which then stand for themselves. -/
def fold (gap : Gap) : List Char :=
  match gap.breaks with
  | [] => gap.blanks
  | ['\n'] => [' ']
  | '\n' :: more => more
  | breaks => breaks

end Gap

/-- The gap at a place. Tabs that stand before column `tabsFrom` of a new line are refused. -/
def Cursor.readGap (tabsFrom : Int) : (fuel : Nat) → Cursor → Gap → Option (Gap × Cursor)
  | 0, _, _ => none
  | fuel + 1, c, gap =>
    match c.readBreak? with
    | some (b, c) => readGap tabsFrom fuel c { gap with breaks := gap.breaks ++ [b] }
    | none =>
      match c.peek? with
      | some b =>
        if !isBlank b then some (gap, c)
        else if gap.breaks.isEmpty then
          readGap tabsFrom fuel (c.advance 1) { gap with blanks := gap.blanks ++ [b] }
        else if b = '\t' ∧ (c.column : Int) < tabsFrom then none
        else readGap tabsFrom fuel (c.advance 1) gap
      | none => some (gap, c)

/-- The gap at a place, tabs being welcome everywhere. -/
def Cursor.gap (c : Cursor) : Option (Gap × Cursor) :=
  c.readGap 0 (c.rest.length + 1) ⟨[], []⟩

end MentalPoker.Yaml
