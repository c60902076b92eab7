/-
Configurations as YAML documents: a mapping of the settings, each of which may be left out. Other
keys are ignored; a setting that stands twice is refused, and so is one of the wrong form. An empty
document leaves all settings out.
-/
import MentalPoker.Config.Basic
import MentalPoker.Yaml.Node

namespace MentalPoker.Config

open Yaml (Node Document)

/-! ## Numbers -/

/-- The number of digits to a base of at most sixteen, at least one of them. -/
def digits? (base : Nat) (digits : List Char) : Option Nat :=
  if digits.isEmpty then none
  else digits.foldlM (fun n d => do
    let value ← Bytes.hexValue? d
    if value < base then some (base * n + value) else none) 0

/-- The number a text spells: decimal without leading zeros, or hexadecimal, octal or binary after
`0x`, `0o` or `0b`; a plus sign may stand before it. -/
def number? (text : String) : Option Nat := do
  let unsigned := match text.toList with
    | '+' :: rest => rest
    | chars => chars
  let n ← match unsigned with
    | '0' :: 'x' :: rest => digits? 16 rest
    | '0' :: 'o' :: rest => digits? 8 rest
    | '0' :: 'b' :: rest => digits? 2 rest
    | '0' :: _ :: _ => none
    | _ => digits? 10 unsigned
  if n ≤ maxSetting then some n else none

/-- The tag of whole numbers. -/
def numberTag : Bytes := Bytes.ofString "tag:yaml.org,2002:int"

/-- The number of a scalar. A quoted text is no number; a literal block is one if it is tagged so.
-/
def scalarNumber? (scalar : Yaml.Scalar) : Option Nat :=
  match scalar.style with
  | .plain => number? scalar.text
  | .literal => if scalar.tag = some numberTag then number? scalar.text else none
  | _ => none

/-! ## Settings -/

/-- The settings of a configuration by name: how a scalar changes each. -/
def settings : List (String × (Yaml.Scalar → Config → Option Config)) :=
  [("protocol_prefix", fun s c => some { c with protocolPrefix := s.text }),
    ("max_category_len", number fun n c => { c with maxCategoryLength := n }),
    ("min_players", number fun n c => { c with minPlayers := n }),
    ("cards_per_player", number fun n c => { c with cardsPerPlayer := n }),
    ("key_exchange_interval_ms", number fun n c => { c with keyExchangeInterval := .ofNat n }),
    ("shuffle_interval_ms", number fun n c => { c with shuffleInterval := .ofNat n }),
    ("decryption_interval_ms", number fun n c => { c with decryptionInterval := .ofNat n }),
    ("session_interval_ms", number fun n c => { c with sessionInterval := .ofNat n })]
where
  number (set : Nat → Config → Config) (s : Yaml.Scalar) (c : Config) : Option Config :=
    (scalarNumber? s).map fun n => set n c

/-- Takes over the entries of a mapping. `seen` are the settings that have been taken over. -/
def ofEntries? (document : Document) : List (Node × Node) → (seen : List String) → Config →
    Option Config
  | [], _, config => some config
  | (key, value) :: entries, seen, config => do
    let name := (← document.scalar? key).text
    match settings.lookup name with
    | none => ofEntries? document entries seen config
    | some set =>
      if name ∈ seen then none
      else ofEntries? document entries (name :: seen) (← set (← document.scalar? value) config)

/-- The settings of a document. -/
def ofDocument? (document : Document) : Option Config :=
  match document.root with
  | none => some default
  | some (.mapping entries) => ofEntries? document entries [] default
  | some (.scalar scalar) =>
    if scalar.text.isEmpty ∧ scalar.style = .plain then some default else none
  | _ => none

/-- The valid configuration that a text describes. -/
def ofText (text : String) : Except DealError Config :=
  match (Document.read? text).bind ofDocument? with
  | none => .error .malformedConfig
  | some config => config.validate

/-- The valid configuration that a file describes, given what the file holds, if there is one. -/
def ofFile (content : Option Bytes) : Except DealError Config :=
  match content.bind Bytes.toString? with
  | none => .error .unreadableFile
  | some text => ofText text

end MentalPoker.Config
