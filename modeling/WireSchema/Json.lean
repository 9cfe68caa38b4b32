import WireSchema.Decimal.Layout
import WireSchema.Text.Quoted

/-!
# JSON documents

A JSON document and its two printed forms: `compact`, without blanks and with keys in the order
given, and `pretty`, indented by two blanks.
-/

namespace WireSchema

/-- A JSON document. Objects keep the order of their keys. -/
inductive Json where
  | null
  | bool (value : Bool)
  | integer (value : Int)
  | number (value : Binary64)
  | string (value : String)
  | array (items : List Json)
  | object (fields : List (String × Json))

namespace Json

open Text (quote)

/-- A document that is neither an array nor an object. Numbers that are not finite have no JSON
form and are written as `null`. -/
def scalar : Json → String
  | .bool value => if value then "true" else "false"
  | .integer value => toString value
  | .number value => if value.isFinite then Decimal.Layout.json.write value else "null"
  | .string value => quote value
  | _ => "null"

/-! ## Compact form -/

mutual

/-- A document without blanks. -/
def compact : Json → String
  | .array items => "[" ++ ",".intercalate (compactItems items) ++ "]"
  | .object fields => "\x7b" ++ ",".intercalate (compactFields fields) ++ "\x7d"
  | other => other.scalar

/-- The items of an array without blanks. -/
def compactItems : List Json → List String
  | [] => []
  | item :: items => item.compact :: compactItems items

/-- The fields of an object without blanks. -/
def compactFields : List (String × Json) → List String
  | [] => []
  | (key, value) :: fields => (quote key ++ ":" ++ value.compact) :: compactFields fields

end

/-! ## Pretty form -/

/-- A new line with an indentation. -/
def newline (depth : Nat) : String :=
  "\n" ++ String.ofList (List.replicate (2 * depth) ' ')

/-- Entries between brackets, each on its own line; nothing stands between the brackets of an empty
list. -/
def bracket (opening closing : String) (depth : Nat) (entries : List String) : String :=
  if entries.isEmpty then opening ++ closing
  else
    opening ++ newline (depth + 1) ++ ("," ++ newline (depth + 1)).intercalate entries
      ++ newline depth ++ closing

mutual

/-- A document at a depth of indentation. -/
def prettyAt (depth : Nat) : Json → String
  | .array items => bracket "[" "]" depth (prettyItems (depth + 1) items)
  | .object fields => bracket "\x7b" "\x7d" depth (prettyFields (depth + 1) fields)
  | other => other.scalar

/-- The items of an array at a depth of indentation. -/
def prettyItems (depth : Nat) : List Json → List String
  | [] => []
  | item :: items => item.prettyAt depth :: prettyItems depth items

/-- The fields of an object at a depth of indentation. -/
def prettyFields (depth : Nat) : List (String × Json) → List String
  | [] => []
  | (key, value) :: fields =>
    (quote key ++ ": " ++ value.prettyAt depth) :: prettyFields depth fields

end

/-- An indented document. -/
def pretty (document : Json) : String :=
  document.prettyAt 0

/-! ## Order of keys -/

/-- Fields in the order of their keys. -/
def orderFields (fields : List (String × Json)) : List (String × Json) :=
  fields.mergeSort fun a b => a.1 ≤ b.1

mutual

/-- A document with the keys of every object in order. -/
def sortKeys : Json → Json
  | .array items => .array (sortItems items)
  | .object fields => .object (orderFields (sortFields fields))
  | other => other

/-- Items with the keys of every object in order. -/
def sortItems : List Json → List Json
  | [] => []
  | item :: items => item.sortKeys :: sortItems items

/-- Fields whose values have the keys of every object in order. -/
def sortFields : List (String × Json) → List (String × Json)
  | [] => []
  | (key, value) :: fields => (key, value.sortKeys) :: sortFields fields

end

end Json

end WireSchema
