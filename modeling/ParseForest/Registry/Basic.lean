import ParseForest.Error
import ParseForest.Table

/-!
Registries of tree constructors. A registry knows the sorts, in order of definition, and for each
the constructors with the shapes of their arguments; it makes the trees, by a factory where one is
registered. Every sort has a constructor for tied readings, and lexical sorts have one for tokens.
-/

namespace ParseForest

abbrev Factory := Option Span → List (Arg Tree) → Tree

structure ConstructorEntry where
  shape : List ArgKind
  factory : Option Factory

structure SortEntry where
  lexical : Bool
  constructors : Table String ConstructorEntry

structure SortDefinition where
  name : String
  lexical : Bool
  constructors : List (String × List ArgKind)

structure Registry where
  sorts : Table String SortEntry

namespace Registry

def ambiguityName : String := "Ambiguity"

def lexicalName : String := "Lexical"

def empty : Registry := ⟨.empty⟩

end Registry

namespace SortEntry

/-- Defines a constructor; an earlier definition and its factory are forgotten. -/
def define (e : SortEntry) (name : String) (shape : List ArgKind) : SortEntry :=
  { e with constructors := e.constructors.insert name ⟨shape, none⟩ }

def defineNew (e : SortEntry) (name : String) (shape : List ArgKind) : SortEntry :=
  if e.constructors.contains name then e else e.define name shape

def withReserved (e : SortEntry) : SortEntry :=
  let e := e.defineNew Registry.ambiguityName [.list]
  if e.lexical then e.defineNew Registry.lexicalName [.text] else e

end SortEntry

namespace Registry

def sort? (r : Registry) (sort : String) : Option SortEntry := r.sorts.get? sort

def constructor? (r : Registry) (sort name : String) : Option ConstructorEntry :=
  (r.sort? sort).bind (·.constructors.get? name)

/-- Adds a sort, or makes a sort lexical; a lexical sort stays lexical. -/
def defineSort (r : Registry) (sort : String) (lexical : Bool) : Registry :=
  let e := (r.sort? sort).getD ⟨lexical, .empty⟩
  ⟨r.sorts.insert sort { e with lexical := e.lexical || lexical }.withReserved⟩

def updateSort (r : Registry) (sort : String) (update : SortEntry → SortEntry) : Registry :=
  match r.sort? sort with
  | some e => ⟨r.sorts.insert sort (update e)⟩
  | none => r

def defineConstructor (r : Registry) (sort name : String) (shape : List ArgKind) : Registry :=
  (r.defineSort sort false).updateSort sort (·.define name shape)

def define (r : Registry) (d : SortDefinition) : Registry :=
  d.constructors.foldl (fun r c => r.defineConstructor d.name c.1 c.2)
    (r.defineSort d.name d.lexical)

def register (r : Registry) (sort name : String) (factory : Factory) : Except Error Registry :=
  match r.constructor? sort name with
  | some c => .ok <| r.updateSort sort fun e =>
    { e with constructors := e.constructors.insert name { c with factory := some factory } }
  | none => .error (.defect (.unknownConstructor sort name))

def shape? (r : Registry) (sort name : String) : Option (List ArgKind) :=
  (·.shape) <$> r.constructor? sort name

def contains (r : Registry) (sort name : String) : Bool := (r.shape? sort name).isSome

def isLexical (r : Registry) (sort : String) : Bool := (r.sort? sort).any (·.lexical)

def defaultBody (name : String) (args : List (Arg Tree)) : Body Tree :=
  match args with
  | [.list ts] => if name = ambiguityName then .ambiguity ts else .application args
  | [.text s] => if name = lexicalName then .lexical s else .application args
  | _ => .application args

def build (e : ConstructorEntry) (sort name : String) (span : Option Span)
    (args : List (Arg Tree)) : Tree :=
  match e.factory with
  | some factory => factory span args
  | none => ⟨sort, name, span, .zero, defaultBody name args⟩

def make (r : Registry) (sort name : String) (span : Option Span) (args : List (Arg Tree))
    (cost : Cost) : Except Error Tree :=
  match r.constructor? sort name with
  | none => .error (.defect (.unknownConstructor sort name))
  | some e =>
    if e.shape = args.map Arg.kind then .ok ((build e sort name span args).withCost cost)
    else .error (.defect (.argumentMismatch sort name e.shape (args.map Arg.kind)))

def makeLexical (r : Registry) (sort : String) (span : Option Span) (text : String) :
    Except Error Tree :=
  r.make sort lexicalName span [.text text] .zero

def makeAmbiguity (r : Registry) (sort : String) (span : Option Span) (alternatives : List Tree)
    (cost : Cost) : Except Error Tree :=
  r.make sort ambiguityName span [.list alternatives] cost

end Registry

end ParseForest
