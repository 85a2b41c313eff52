/-!
JSON documents as they are written: fields keep their order and may repeat, numbers keep their
spelling, and a string may lack a text because one of its escapes names half a surrogate pair.
-/

namespace ParseForest

inductive Json where
  | null
  | bool (value : Bool)
  | number (lexeme : String)
  | string (text : Option String)
  | array (items : List Json)
  | object (fields : List (Option String × Json))
  deriving Inhabited

namespace Json

def text (s : String) : Json := .string (some s)

def field (key : String) (value : Json) : Option String × Json := (some key, value)

def text? : Json → Option String
  | .string s => s
  | _ => none

def bool? : Json → Option Bool
  | .bool b => some b
  | _ => none

def valuesOf (key : String) (fields : List (Option String × Json)) : List Json :=
  fields.filterMap fun f => if f.1 = some key then some f.2 else none

/-- A reader and a printer of JSON. What is read into values of other types may nest `limit` levels
deep, not counting what is ignored. -/
structure Library where
  parse : String → Option Json
  print : Json → String
  limit : Nat

end Json

end ParseForest
