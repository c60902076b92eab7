/-
YAML documents as trees. The grammar runs over tokens. An anchor gives the node it stands before a
slot, and an alias refers to a slot; slots are numbered by the number of anchor names known so far,
and a slot holds what was anchored to it last.
-/
import MentalPoker.Yaml.Token

namespace MentalPoker.Yaml

structure Scalar where
  text : String
  style : Style
  /-- The full tag, if one is given. -/
  tag : Option Bytes
deriving DecidableEq

inductive Node where
  | scalar (s : Scalar)
  | alias (slot : Nat)
  | sequence (items : List Node)
  | mapping (entries : List (Node × Node))

/-- What is anchored to a slot: a scalar or a collection. -/
abbrev Anchored := Option Scalar

structure Document where
  /-- The node of the document, if there is one. -/
  root : Option Node
  /-- The slots in use; the first entry of a slot counts. -/
  slots : List (Nat × Anchored)

/-- The scalar of a node or of what it is an alias of. -/
def Document.scalar? (document : Document) : Node → Option Scalar
  | .scalar s => some s
  | .alias slot => (document.slots.lookup slot).join
  | _ => none

/-! ## The grammar -/

/-- What is left of the tokens, and what has been read of names. -/
structure Reading where
  rest : List Token
  /-- The handles of tags. -/
  handles : List (String × Bytes)
  /-- The slot of each anchor name. -/
  names : List (String × Nat)
  slots : List (Nat × Anchored)

namespace Reading

/-- Skips a token. -/
def skip (r : Reading) : Reading := { r with rest := r.rest.tail }

/-- Whether one of the tokens is next. -/
def sees (r : Reading) (tokens : List Token) : Bool := r.rest.head?.any (tokens.contains ·)

/-- Gives an anchored node a slot. -/
def record (r : Reading) (anchor : Option String) (target : Anchored) : Reading :=
  match anchor with
  | none => r
  | some name =>
    let slot := r.names.length
    { r with names := (name, slot) :: r.names.filter (·.1 ≠ name)
             slots := (slot, target) :: r.slots }

/-- The anchor and the tag before a node, in either order. -/
def properties (r : Reading) : Option String × Option (String × Bytes) × Reading :=
  match r.rest with
  | .anchor name :: .tag handle suffix :: rest
  | .tag handle suffix :: .anchor name :: rest =>
    (some name, some (handle, suffix), { r with rest })
  | .anchor name :: rest => (some name, none, { r with rest })
  | .tag handle suffix :: rest => (none, some (handle, suffix), { r with rest })
  | _ => (none, none, r)

/-- The full form of a tag, if its handle is known. -/
def fullTag? (r : Reading) (handle : String) (suffix : Bytes) : Option Bytes :=
  if handle.isEmpty then some suffix else (r.handles.lookup handle).map (· ++ suffix)

end Reading

/-- A node that is left out. -/
def emptyScalar : Node := .scalar ⟨"", .plain, none⟩

mutual

/-- A node. Block collections are allowed if `block`, a sequence at the indentation of the mapping
it is a value of if `indentless`. -/
def readNode (block indentless : Bool) : (fuel : Nat) → Reading → Option (Node × Reading)
  | 0, _ => none
  | fuel + 1, r =>
    match r.rest with
    | .alias name :: _ => (r.names.lookup name).map fun slot => (.alias slot, r.skip)
    | _ => do
      let (anchor, tag, r) := r.properties
      let tag ← match tag with
        | none => some none
        | some (handle, suffix) => (r.fullTag? handle suffix).map some
      let r' := r.record anchor none
      match r.rest with
      | .blockEntry :: _ =>
        if indentless then
          let (items, r) ← readIndentless fuel r'
          return (.sequence items, r)
        else leftOut anchor tag r
      | .scalar text style :: _ =>
        let s : Scalar := ⟨text, style, tag⟩
        return (.scalar s, (r.record anchor (some s)).skip)
      | .flowSequenceStart :: _ =>
        let (items, r) ← readFlowItems true fuel r'.skip
        return (.sequence items, r)
      | .flowMappingStart :: _ =>
        let (entries, r) ← readFlowEntries true fuel r'.skip
        return (.mapping entries, r)
      | .blockSequenceStart :: _ =>
        if block then
          let (items, r) ← readBlockItems fuel r'.skip
          return (.sequence items, r)
        else leftOut anchor tag r
      | .blockMappingStart :: _ =>
        if block then
          let (entries, r) ← readBlockEntries fuel r'.skip
          return (.mapping entries, r)
        else leftOut anchor tag r
      | _ => leftOut anchor tag r
where
  /-- A node of which only anchor or tag is there. -/
  leftOut (anchor : Option String) (tag : Option Bytes) (r : Reading) : Option (Node × Reading) :=
    if anchor.isNone ∧ tag.isNone then none
    else
      let s : Scalar := ⟨"", .plain, tag⟩
      some (.scalar s, r.record anchor (some s))

/-- The items of a block sequence. -/
def readBlockItems : (fuel : Nat) → Reading → Option (List Node × Reading)
  | 0, _ => none
  | fuel + 1, r =>
    match r.rest with
    | .blockEntry :: _ => do
      let (item, r) ←
        if r.skip.sees [.blockEntry, .blockEnd] then some (emptyScalar, r.skip)
        else readNode true false fuel r.skip
      let (items, r) ← readBlockItems fuel r
      return (item :: items, r)
    | .blockEnd :: _ => some ([], r.skip)
    | _ => none

/-- The items of a sequence that has no indentation of its own. -/
def readIndentless : (fuel : Nat) → Reading → Option (List Node × Reading)
  | 0, _ => none
  | fuel + 1, r =>
    match r.rest with
    | .blockEntry :: _ => do
      let (item, r) ←
        if r.skip.sees [.blockEntry, .key, .value, .blockEnd] then some (emptyScalar, r.skip)
        else readNode true false fuel r.skip
      let (items, r) ← readIndentless fuel r
      return (item :: items, r)
    | _ => some ([], r)

/-- The entries of a block mapping. -/
def readBlockEntries : (fuel : Nat) → Reading → Option (List (Node × Node) × Reading)
  | 0, _ => none
  | fuel + 1, r =>
    match r.rest with
    | .key :: _ => do
      let (key, r) ← readBlockPart fuel r.skip
      let (value, r) ←
        if r.sees [.value] then readBlockPart fuel r.skip else some (emptyScalar, r)
      let (entries, r) ← readBlockEntries fuel r
      return ((key, value) :: entries, r)
    | .blockEnd :: _ => some ([], r.skip)
    | _ => none

/-- A key or a value of a block mapping. -/
def readBlockPart : (fuel : Nat) → Reading → Option (Node × Reading)
  | 0, _ => none
  | fuel + 1, r =>
    if r.sees [.key, .value, .blockEnd] then some (emptyScalar, r) else readNode true true fuel r

/-- The items of a flow sequence; an item may be a mapping of one entry without braces. -/
def readFlowItems (first : Bool) : (fuel : Nat) → Reading → Option (List Node × Reading)
  | 0, _ => none
  | fuel + 1, r =>
    if r.sees [.flowSequenceEnd] then some ([], r.skip)
    else if !first ∧ !r.sees [.flowEntry] then none
    else
      let r := if first then r else r.skip
      if r.sees [.flowSequenceEnd] then some ([], r.skip)
      else do
        let (item, r) ←
          if r.sees [.key] then readFlowPair fuel r.skip else readNode false false fuel r
        let (items, r) ← readFlowItems false fuel r
        return (item :: items, r)

/-- The one entry of a mapping inside a flow sequence. If its key is left out, the token after the
sign of the key is passed over. -/
def readFlowPair : (fuel : Nat) → Reading → Option (Node × Reading)
  | 0, _ => none
  | fuel + 1, r => do
    let (key, r) ←
      if r.sees [.value, .flowEntry, .flowSequenceEnd] then some (emptyScalar, r.skip)
      else readNode false false fuel r
    let (value, r) ←
      if r.sees [.value] then
        if r.skip.sees [.flowEntry, .flowSequenceEnd] then some (emptyScalar, r.skip)
        else readNode false false fuel r.skip
      else some (emptyScalar, r)
    return (.mapping [(key, value)], r)

/-- The entries of a flow mapping. -/
def readFlowEntries (first : Bool) : (fuel : Nat) → Reading → Option (List (Node × Node) × Reading)
  | 0, _ => none
  | fuel + 1, r =>
    if r.sees [.flowMappingEnd] then some ([], r.skip)
    else if !first ∧ !r.sees [.flowEntry] then none
    else
      let r := if first then r else r.skip
      if r.sees [.flowMappingEnd] then some ([], r.skip)
      else do
        let (entry, r) ← readFlowEntry fuel r
        let (entries, r) ← readFlowEntries false fuel r
        return (entry :: entries, r)

/-- An entry of a flow mapping. Without the sign of a key it is a key alone. -/
def readFlowEntry : (fuel : Nat) → Reading → Option ((Node × Node) × Reading)
  | 0, _ => none
  | fuel + 1, r => do
    if r.sees [.key] then
      let r := r.skip
      let (key, r) ←
        if r.sees [.value, .flowEntry, .flowMappingEnd] then some (emptyScalar, r)
        else readNode false false fuel r
      let (value, r) ←
        if r.sees [.value] then
          if r.skip.sees [.flowEntry, .flowMappingEnd] then some (emptyScalar, r.skip)
          else readNode false false fuel r.skip
        else some (emptyScalar, r)
      return ((key, value), r)
    else
      let (key, r) ← readNode false false fuel r
      return ((key, emptyScalar), r)

end

/-! ## Documents -/

/-- The directives in front of a document: at most one version, which must be 1.1 or 1.2, and tag
handles, each at most once. -/
def readDirectives (version : Bool) : List Token → List (String × Bytes) →
    Option (List (String × Bytes) × List Token)
  | .version major minor :: rest, handles =>
    if version ∨ major ≠ 1 ∨ (minor ≠ 1 ∧ minor ≠ 2) then none
    else readDirectives true rest handles
  | .tagHandle handle start :: rest, handles =>
    if (handles.lookup handle).isSome then none
    else readDirectives version rest (handles ++ [(handle, start)])
  | rest, handles => some (handles, rest)

/-- The handles that are known without a directive. -/
def defaultHandles : List (String × Bytes) :=
  [("!", Bytes.ofString "!"), ("!!", Bytes.ofString "tag:yaml.org,2002:")]

/-- The document of a text that holds one document at most. -/
def Document.read? (text : String) : Option Document := do
  let tokens ← tokens? text
  if tokens.isEmpty then return ⟨none, []⟩
  let (handles, rest) ← readDirectives false tokens []
  let handles := handles ++ defaultHandles
  let content ←
    match rest with
    | .documentStart :: rest => some rest
    | _ => if rest.length = tokens.length then some rest else none
  let explicit := content.length < rest.length
  let reading : Reading := ⟨content, handles, [], []⟩
  let absent := explicit ∧ (content.isEmpty ∨ startsDocument content ∨ reading.sees [.documentEnd])
  let (root, reading) ←
    if absent then some (emptyScalar, reading)
    else readNode true false (3 * content.length + 3) reading
  if (reading.rest.dropWhile (· == .documentEnd)).isEmpty then
    return ⟨some root, reading.slots⟩
  else none
where
  /-- Whether the tokens start another document. -/
  startsDocument : List Token → Bool
    | .version .. :: _ | .tagHandle .. :: _ | .documentStart :: _ => true
    | _ => false

end MentalPoker.Yaml
