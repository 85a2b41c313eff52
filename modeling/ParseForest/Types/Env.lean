import ParseForest.Declaration.Basic
import ParseForest.Error
import ParseForest.Table

/-!
The types that a module declares: data types and synonyms with their parameters, constructors with
their fields, and keyword parameters. Declaring a thing again as it is changes nothing; where the
two declarations disagree the second is refused, except for keyword parameters, which it replaces.
-/

namespace ParseForest

structure Field where
  label : String
  type : Ty
  deriving DecidableEq

def Field.render (f : Field) : String := s!"{f.type.render} {f.label}"

structure Synonym where
  parameters : List Ty
  aliased : Ty
  deriving DecidableEq

structure Keyword where
  type : Ty
  default : Tree

/-- What keyword parameters belong to: all constructors of a data type, or one of them. -/
inductive KeywordOwner where
  | data (name : String)
  | constructor (data name : String)
  deriving DecidableEq

def KeywordOwner.render : KeywordOwner → String
  | data name => name
  | constructor owner name => s!"{owner}.{name}"

structure TypeEnv where
  moduleName : Option String
  dataTypes : Table String (List Ty)
  synonyms : Table String Synonym
  constructors : Table (String × String) (List Field)
  keywords : Table KeywordOwner (Table String Keyword)

namespace TypeEnv

def empty (moduleName : Option String) : TypeEnv := ⟨moduleName, .empty, .empty, .empty, .empty⟩

def localName? (env : TypeEnv) (name : QualifiedName) : Option String :=
  match name.qualifier? with
  | none => some name.name
  | some q => if env.moduleName = some q then some name.name else none

def dataType? (env : TypeEnv) (name : String) : Option Ty :=
  (env.dataTypes.get? name).map (.data name)

def synonym? (env : TypeEnv) (name : String) : Option Ty :=
  (env.synonyms.get? name).map fun s => .synonym name s.parameters s.aliased

def lookup? (env : TypeEnv) (name : QualifiedName) : Option Ty := do
  let name ← env.localName? name
  (env.dataType? name).or (env.synonym? name)

def constructorsOf (env : TypeEnv) (data : String) : List (String × List Field) :=
  env.constructors.entries.filterMap fun ((owner, name), fields) =>
    if owner = data then some (name, fields) else none

def keywordsOf (env : TypeEnv) (owner : KeywordOwner) : List (String × Keyword) :=
  ((env.keywords.get? owner).map (·.entries)).getD []

/-- Declares a data type. One that is there keeps its parameters; only their number has to agree. -/
def declareData (env : TypeEnv) (name : String) (parameters : List Ty) :
    Except Error (TypeEnv × Ty) :=
  if env.synonyms.contains name then .error (.redeclaredType name)
  else match env.dataTypes.get? name with
    | some ps =>
      if ps.length = parameters.length then .ok (env, .data name ps)
      else .error (.redeclaredType name)
    | none =>
      .ok ({ env with dataTypes := env.dataTypes.insert name parameters }, .data name parameters)

def declareSynonym (env : TypeEnv) (name : String) (parameters : List Ty) (aliased : Ty) :
    Except Error (TypeEnv × Ty) :=
  if env.dataTypes.contains name then .error (.redeclaredType name)
  else
    let type := Ty.synonym name parameters aliased
    match env.synonyms.get? name with
    | some s =>
      if s = ⟨parameters, aliased⟩ then .ok (env, type) else .error (.redeclaredType name)
    | none => .ok ({ env with synonyms := env.synonyms.insert name ⟨parameters, aliased⟩ }, type)

def repeatedLabel? (seen : List String) : List Field → Option String
  | [] => none
  | f :: fs => if f.label ∈ seen then some f.label else repeatedLabel? (f.label :: seen) fs

def declareConstructor (env : TypeEnv) (owner : Ty) (name : String) (fields : List Field) :
    Except Error TypeEnv :=
  match owner.declaredName? with
  | none => .error (.defect (.constructorOfNonData name owner))
  | some data => match repeatedLabel? [] fields with
    | some label => .error (.redeclaredField label name)
    | none => match env.constructors.get? (data, name) with
      | some existing =>
        if existing = fields then .ok env else .error (.redeclaredType name)
      | none => .ok { env with constructors := env.constructors.insert (data, name) fields }

/-- Declares keyword parameters; each replaces one of the same name. -/
def declareKeywords (env : TypeEnv) (owner : KeywordOwner) (parameters : List (String × Keyword)) :
    TypeEnv :=
  let declared := (env.keywords.get? owner).getD .empty
  { env with keywords := env.keywords.insert owner <|
      parameters.foldl (fun t p => t.insert p.1 p.2) declared }

def renderKeywords (env : TypeEnv) (owner : KeywordOwner) : String :=
  match env.keywordsOf owner with
  | [] => ""
  | ks =>
    " \x7b" ++ ", ".intercalate (ks.map fun (name, k) => s!"{k.type.render} {name}") ++ "\x7d"

def renderConstructor (env : TypeEnv) (data name : String) (fields : List Field) : String :=
  s!"  {name}(" ++ ", ".intercalate (fields.map Field.render) ++ ")"
    ++ env.renderKeywords (.constructor data name) ++ "\n"

def renderData (env : TypeEnv) (name : String) (parameters : List Ty) : String :=
  "data " ++ (Ty.data name parameters).render ++ env.renderKeywords (.data name) ++ "\n"
    ++ String.join ((env.constructorsOf name).map fun c => env.renderConstructor name c.1 c.2)

def renderSynonym (name : String) (s : Synonym) : String :=
  "alias " ++ (Ty.synonym name s.parameters s.aliased).render ++ " = " ++ s.aliased.render ++ "\n"

def render (env : TypeEnv) : String :=
  String.join (env.dataTypes.entries.map fun d => env.renderData d.1 d.2)
    ++ String.join (env.synonyms.entries.map fun s => renderSynonym s.1 s.2)

end TypeEnv

end ParseForest
