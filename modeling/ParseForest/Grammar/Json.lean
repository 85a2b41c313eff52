import ParseForest.Grammar.Basic
import ParseForest.Json.Parser
import ParseForest.Json.Printer

/-!
Grammars as JSON documents. A symbol is `"empty"` or an object of one field whose key names the kind
of symbol; productions and grammars are objects of named fields, or arrays of the same fields in
order. How documents are spelled is left to a `Json.Library`.
-/

namespace ParseForest

namespace Symbol

mutual
def toJson : Symbol → Json
  | .named .sort n => .object [Json.field "sort" (Json.text n)]
  | .named .lexical n => .object [Json.field "lex" (Json.text n)]
  | .named .keywords n => .object [Json.field "keywords" (Json.text n)]
  | .named .layout n => .object [Json.field "layouts" (Json.text n)]
  | .literal t => .object [Json.field "lit" (Json.text t)]
  | .caseless t => .object [Json.field "ci-lit" (Json.text t)]
  | .empty => Json.text "empty"
  | .optional s => .object [Json.field "opt" (toJson s)]
  | .repeated .plus s => .object [Json.field "iter-plus" (toJson s)]
  | .repeated .star s => .object [Json.field "iter-star" (toJson s)]
  | .separated .plus s seps =>
    .object [Json.field "iter-plus-seps" (.array [toJson s, .array (toJsonAll seps)])]
  | .separated .star s seps =>
    .object [Json.field "iter-star-seps" (.array [toJson s, .array (toJsonAll seps)])]
  | .applied n ps =>
    .object [Json.field "parameterized-sort" (.array [Json.text n, .array (toJsonAll ps)])]
  | .labelled l s => .object [Json.field "label" (.array [Json.text l, toJson s])]
  | .start s => .object [Json.field "start" (toJson s)]

def toJsonAll : List Symbol → List Json
  | [] => []
  | s :: ss => toJson s :: toJsonAll ss
end

/-- Reads a symbol of at most `depth` nested objects and arrays. -/
def ofJson? : Nat → Json → Option Symbol
  | _, .string (some "empty") => some .empty
  | depth + 1, .object [(some kind, content)] =>
    match kind, content with
    | "sort", .string n => n.map (.named .sort)
    | "lex", .string n => n.map (.named .lexical)
    | "keywords", .string n => n.map (.named .keywords)
    | "layouts", .string n => n.map (.named .layout)
    | "lit", .string t => t.map .literal
    | "ci-lit", .string t => t.map .caseless
    | "empty", .null => some .empty
    | "opt", s => .optional <$> ofJson? depth s
    | "iter-plus", s => .repeated .plus <$> ofJson? depth s
    | "iter-star", s => .repeated .star <$> ofJson? depth s
    | "start", s => .start <$> ofJson? depth s
    | kind, .array [first, second] =>
      match depth, kind, first, second with
      | depth + 1, "label", .string (some l), s => .labelled l <$> ofJson? depth s
      | depth + 2, "iter-plus-seps", s, .array seps =>
        return .separated .plus (← ofJson? (depth + 1) s) (← seps.mapM (ofJson? depth))
      | depth + 2, "iter-star-seps", s, .array seps =>
        return .separated .star (← ofJson? (depth + 1) s) (← seps.mapM (ofJson? depth))
      | depth + 2, "parameterized-sort", .string (some n), .array ps =>
        .applied n <$> ps.mapM (ofJson? depth)
      | _, _, _, _ => none
    | _, _ => none
  | _, _ => none

end Symbol

def Json.optionalField? (key : String) (fields : List (Option String × Json)) :
    Option (Option Json) :=
  match Json.valuesOf key fields with
  | [] => some none
  | [v] => some (some v)
  | _ => none

namespace Production

def toJson (p : Production) : Json :=
  .object <| [Json.field "def" p.defines.toJson]
    ++ (p.constructor.toList.map fun c => Json.field "constructor" (Json.text c))
    ++ [Json.field "symbols" (.array (Symbol.toJsonAll p.symbols))]
    ++ (if p.lexical then [Json.field "lexical" (.bool true)] else [])

def constructorOfJson? : Option Json → Option (Option String)
  | none | some .null => some none
  | some v => some <$> v.text?

def symbolsOfJson? (depth : Nat) : Option Json → Option (List Symbol)
  | none => some []
  | some (.array ss) => match depth with
    | 0 => none
    | depth + 1 => ss.mapM (Symbol.ofJson? depth)
  | some _ => none

def lexicalOfJson? : Option Json → Option Bool
  | none => some false
  | some v => v.bool?

def ofFields? (depth : Nat) (defines constructor symbols lexical : Option Json) :
    Option Production := do
  return {
    defines := ← Symbol.ofJson? depth (← defines)
    constructor := ← constructorOfJson? constructor
    symbols := ← symbolsOfJson? depth symbols
    lexical := ← lexicalOfJson? lexical }

def ofJson? : Nat → Json → Option Production
  | depth + 1, .array vs => do
    guard (vs.length ≤ 4)
    ofFields? depth vs[0]? vs[1]? vs[2]? vs[3]?
  | depth + 1, .object fields => do
    guard (fields.all (·.1.isSome))
    ofFields? depth
      (← Json.optionalField? "def" fields) (← Json.optionalField? "constructor" fields)
      (← Json.optionalField? "symbols" fields) (← Json.optionalField? "lexical" fields)
  | _, _ => none

end Production

inductive ProductionFault where
  | constructorOfNonSort (defines : Symbol)
  | emptyConstructor
  | symbolsOfRegular (defines : Symbol)
  deriving DecidableEq

def ProductionFault.message : ProductionFault → String
  | .constructorOfNonSort s => s!"constructor on non-sort symbol {s.render}"
  | .emptyConstructor => "empty constructor name"
  | .symbolsOfRegular s => s!"regular symbol {s.render} takes no right-hand side"

/-- Only sorts have constructors, constructors have a name, and list and optional symbols are not
made of other symbols. -/
def Production.fault? (p : Production) : Option ProductionFault :=
  let defines := p.defines.unlabelled
  if p.constructor.isSome && !(defines matches .named .sort _ | .applied ..) then
    some (.constructorOfNonSort defines)
  else if p.constructor = some "" then some .emptyConstructor
  else if (defines.isList || defines.isOptional) && !p.symbols.isEmpty then
    some (.symbolsOfRegular defines)
  else none

inductive GrammarError where
  | malformed
  | invalid (index : Nat) (fault : ProductionFault)
  deriving DecidableEq

def GrammarError.message : GrammarError → String
  | .malformed => "malformed grammar"
  | .invalid index fault => s!"invalid production #{index}: {fault.message}"

namespace Grammar

def toJson (g : Grammar) : Json :=
  .object [Json.field "name" (Json.text g.name),
    Json.field "productions" (.array (g.productions.map Production.toJson))]

def write (lib : Json.Library) (g : Grammar) : String := lib.print g.toJson

def productionsOfJson? : Nat → Json → Option (List Production)
  | depth + 1, .array ps => ps.mapM (Production.ofJson? depth)
  | _, _ => none

def readJson? : Nat → Json → Option (String × List Production)
  | depth + 1, .array [name, productions] =>
    return (← name.text?, ← productionsOfJson? depth productions)
  | depth + 1, .object fields => do
    guard (fields.all (·.1.isSome))
    let name ← match ← Json.optionalField? "name" fields with
      | none => some ""
      | some v => v.text?
    return (name, ← productionsOfJson? depth (← (← Json.optionalField? "productions" fields)))
  | _, _ => none

def addChecked (g : Grammar) (index : Nat) : List Production → Except GrammarError Grammar
  | [] => .ok g
  | p :: ps => match p.fault? with
    | some fault => .error (.invalid index fault)
    | none => (g.add p).1.addChecked (index + 1) ps

def read (lib : Json.Library) (text : String) : Except GrammarError Grammar :=
  match lib.parse text >>= readJson? lib.limit with
  | none => .error .malformed
  | some (name, productions) => (empty name).addChecked 0 productions

end Grammar

/-- The library of `Json.parse` and `Json.render`. -/
def Json.Library.plain : Json.Library where
  parse text := Json.parse text.toList
  print v := String.ofList (v.render 0)
  limit := 127

namespace Grammar

def render (g : Grammar) : String := g.write .plain

def ofText (text : String) : Except GrammarError Grammar := read .plain text

end Grammar

end ParseForest
