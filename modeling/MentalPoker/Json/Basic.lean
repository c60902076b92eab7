/-
JSON documents. A string is kept as the bytes its literal denotes: the escape of a lone surrogate
becomes the three bytes UTF-8 would give it, so that such a string is not the UTF-8 of any text, and
neither is one whose literal holds stray bytes. Numbers are kept as they are written.
-/
import MentalPoker.Bytes

namespace MentalPoker

inductive Json where
  | null
  | bool (value : Bool)
  | number (literal : Bytes)
  | string (content : Bytes)
  | array (items : List Json)
  | object (members : List (Bytes × Json))

namespace Json

/-- A string value. -/
def ofString (s : String) : Json := string (Bytes.ofString s)

/-- The text of a string value that denotes one. -/
def text? : Json → Option String
  | string content => Bytes.toString? content
  | _ => none

/-- The items of an array. -/
def items? : Json → Option (List Json)
  | array items => some items
  | _ => none

/-- The values of a record's fields. A record is an object that has each field once and may have
other members, or an array of the fields in order. The keys of the object must be texts. -/
def fields? (names : List String) : Json → Option (List Json)
  | array items => if items.length = names.length then some items else none
  | object members => do
    let members ← members.mapM fun (key, value) => do return (← Bytes.toString? key, value)
    names.mapM fun name =>
      match members.filter (·.1 = name) with
      | [(_, value)] => some value
      | _ => none
  | _ => none

end Json

end MentalPoker
