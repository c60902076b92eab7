/-
The texts of YAML scalars: plain words, quoted texts and indented blocks. Each reader gives the text
and the place after it, or nothing if the scalar is malformed.
-/
import MentalPoker.Bytes
import MentalPoker.Yaml.Cursor

namespace MentalPoker.Yaml

/-! ## Plain scalars -/

/-- A character that has a meaning of its own inside a flow collection. -/
def isFlowMark (c : Char) : Bool := c == ',' || c == '[' || c == ']' || c == '\x7b' || c == '\x7d'

/-- The characters up to the next gap or to a mark that ends a plain scalar. Inside a flow
collection a colon may not stand right before one of the marks. -/
def plainRun (flow : Bool) : List Char → Option (List Char)
  | [] => some []
  | c :: rest =>
    if isBlank c || isBreak c then some []
    else if flow && c == ':' && rest.head?.any (fun d => isFlowMark d || d == '?') then none
    else if c == ':' && isGap rest.head? then some []
    else if flow && isFlowMark c then some []
    else (plainRun flow rest).map (c :: ·)

/-- What reading a plain scalar gives. -/
structure Plain where
  text : List Char
  after : Cursor
  /-- Whether a line ended between the scalar's last character and the place after it. -/
  crossedLine : Bool

/-- A plain scalar, whose further lines stand at column `indent` or after it, or anywhere inside a
flow collection. -/
def readPlain (flow : Bool) (indent : Int) : (fuel : Nat) → Cursor → (crossed : Bool) → Option Plain
  | 0, _, _ => none
  | fuel + 1, c, crossed =>
    if c.atDocumentMarker || c.peek? == some '#' then some ⟨[], c, crossed⟩
    else do
      let run ← plainRun flow c.rest
      let c := c.advance run.length
      let crossed := crossed && run.isEmpty
      if c.rest.isEmpty || !isGap c.peek? then return ⟨run, c, crossed⟩
      let (gap, c) ← c.readGap indent (c.rest.length + 1) ⟨[], []⟩
      let crossed := crossed || !gap.breaks.isEmpty
      if !flow && (c.column : Int) < indent then return ⟨run, c, crossed⟩
      let more ← readPlain flow indent fuel c crossed
      let text := if more.text.isEmpty then run else run ++ gap.fold ++ more.text
      return { more with text }

/-! ## Quoted scalars -/

/-- A single-quoted text up to its closing quote. A quote inside it is written twice. -/
def readSingleQuoted : (fuel : Nat) → Cursor → Option (List Char × Cursor)
  | 0, _ => none
  | fuel + 1, c =>
    if c.atDocumentMarker then none
    else match c.rest with
      | [] => none
      | '\'' :: '\'' :: _ => (readSingleQuoted fuel (c.advance 2)).map fun (s, c) => ('\'' :: s, c)
      | '\'' :: _ => some ([], c.advance 1)
      | d :: _ =>
        if isGap (some d) then do
          let (gap, c) ← c.gap
          let (s, c) ← readSingleQuoted fuel c
          return (gap.fold ++ s, c)
        else (readSingleQuoted fuel (c.advance 1)).map fun (s, c) => (d :: s, c)

/-- The character spelled by hexadecimal digits. -/
def hexChar? (digits : List Char) : Option Char := do
  let n ← digits.foldlM (fun n d => do return 16 * n + (← Bytes.hexValue? d)) 0
  if h : n.isValidChar then return Char.ofNatAux n h else none

/-- The character that an escape stands for, given what follows the backslash, and the number of
characters the escape takes after it. -/
def escape? : List Char → Option (Char × Nat)
  | [] => none
  | c :: rest =>
    let spelled (size : Nat) : Option (Char × Nat) :=
      if size ≤ rest.length then (hexChar? (rest.take size)).map (·, size + 1) else none
    match c with
    | '0' => some ('\x00', 1)
    | 'a' => some ('\x07', 1)
    | 'b' => some ('\x08', 1)
    | 't' => some ('\t', 1)
    | '\t' => some ('\t', 1)
    | 'n' => some ('\n', 1)
    | 'v' => some ('\x0b', 1)
    | 'f' => some ('\x0c', 1)
    | 'r' => some ('\r', 1)
    | 'e' => some ('\x1b', 1)
    | ' ' => some (' ', 1)
    | '"' => some ('"', 1)
    | '/' => some ('/', 1)
    | '\\' => some ('\\', 1)
    | 'N' => some ('\u0085', 1)
    | '_' => some ('\u00a0', 1)
    | 'L' => some ('\u2028', 1)
    | 'P' => some ('\u2029', 1)
    | 'x' => spelled 2
    | 'u' => spelled 4
    | 'U' => spelled 8
    | _ => none

/-- A double-quoted text up to its closing quote. An escaped break and the blanks after it stand for
nothing, further breaks for themselves. -/
def readDoubleQuoted : (fuel : Nat) → Cursor → Option (List Char × Cursor)
  | 0, _ => none
  | fuel + 1, c =>
    if c.atDocumentMarker then none
    else match c.rest with
      | [] => none
      | '"' :: _ => some ([], c.advance 1)
      | '\\' :: rest =>
        match (c.advance 1).readBreak? with
        | some (_, c) => do
          let (gap, c) ← c.gap
          let (s, c) ← readDoubleQuoted fuel c
          return (gap.breaks ++ s, c)
        | none => do
          let (d, size) ← escape? rest
          let (s, c) ← readDoubleQuoted fuel (c.advance (size + 1))
          return (d :: s, c)
      | d :: _ =>
        if isGap (some d) then do
          let (gap, c) ← c.gap
          let (s, c) ← readDoubleQuoted fuel c
          return (gap.fold ++ s, c)
        else (readDoubleQuoted fuel (c.advance 1)).map fun (s, c) => (d :: s, c)

/-! ## Block scalars -/

/-- What becomes of the breaks at the end of a block. -/
inductive Chomping where
  | strip | clip | keep
deriving DecidableEq

/-- The marks after the sign of a block: chomping and indentation, either first, both optional. -/
def blockMarks : List Char → Option (Chomping × Option Nat × Nat)
  | sign :: rest =>
    if sign = '+' ∨ sign = '-' then
      let chomping := if sign = '+' then Chomping.keep else .strip
      match rest with
      | d :: _ => if d.isDigit then (digit? d).map fun n => (chomping, some n, 2)
                  else some (chomping, none, 1)
      | [] => some (chomping, none, 1)
    else if sign.isDigit then do
      let n ← digit? sign
      match rest with
      | '+' :: _ => return (.keep, some n, 2)
      | '-' :: _ => return (.strip, some n, 2)
      | _ => return (.clip, some n, 1)
    else some (.clip, none, 0)
  | [] => some (.clip, none, 0)
where
  /-- An indentation of zero is refused. -/
  digit? (d : Char) : Option Nat := if d = '0' then none else some (d.toNat - '0'.toNat)

/-- Indentation and empty lines before a line of a block. -/
structure Lead where
  breaks : List Char
  after : Cursor
  /-- The widest indentation met. -/
  widest : Nat

/-- Reads the lead of a line. While the block's indentation is not known, every space counts as
indentation. A tab may not stand in place of it. -/
def readLead (indent : Option Nat) : (fuel : Nat) → Cursor → Lead → Option Lead
  | 0, _, _ => none
  | fuel + 1, c, lead =>
    let spaces := (c.rest.takeWhile (· == ' ')).length
    let c := c.advance (match indent with
      | none => spaces
      | some n => min spaces (n - c.column))
    let lead := { lead with widest := max lead.widest c.column }
    if indent.all (c.column < ·) ∧ c.peek? = some '\t' then none
    else match c.readBreak? with
      | some (b, c) => readLead indent fuel c { lead with breaks := lead.breaks ++ [b] }
      | none => some { lead with after := c }

/-- The lines of a block from a place at its indentation on. `lead` are the breaks since the last
line, `wasBlank` says whether that line began with a blank. In a folded block a single break between
two lines that do not begin with a blank is a space, and before empty lines it is nothing. -/
def readBlockLines (folded : Bool) (indent : Nat) (chomping : Chomping) :
    (fuel : Nat) → Cursor → (last : List Char) → (lead : List Char) → (wasBlank : Bool) →
    Option (List Char × Cursor)
  | 0, _, _, _, _ => none
  | fuel + 1, c, last, lead, wasBlank =>
    if c.column = indent ∧ !c.rest.isEmpty then do
      let blank := c.peek?.any isBlank
      let joint :=
        if folded && last == ['\n'] && !wasBlank && !blank then
          if lead.isEmpty then [' '] else []
        else last
      let (line, c) := c.takeWhile (!isBreak ·)
      let (last, c) := match c.readBreak? with
        | some (b, c) => ([b], c)
        | none => ([], c)
      let next ← readLead (some indent) (c.rest.length + 1) c ⟨[], c, 0⟩
      let (text, c) ← readBlockLines folded indent chomping fuel next.after last next.breaks blank
      return (joint ++ lead ++ line ++ text, c)
    else
      let tail := match chomping with
        | .strip => []
        | .clip => last
        | .keep => last ++ lead
      some (tail, c)

/-- A block after its sign. `parent` is the indentation of the collection it stands in. -/
def readBlock (folded : Bool) (parent : Int) (c : Cursor) : Option (List Char × Cursor) := do
  let (chomping, increment, size) ← blockMarks c.rest
  let c ← (c.advance size).endOfLine?
  let given := increment.map fun n => (max parent 0).toNat + n
  let lead ← readLead given (c.rest.length + 1) c ⟨[], c, 0⟩
  let indent := given.getD (max (max lead.widest (parent + 1).toNat) 1)
  readBlockLines folded indent chomping (c.rest.length + 1) lead.after [] lead.breaks false

end MentalPoker.Yaml
