import ParseForest.Types.Env

/-!
Declaring with a journal: every definition is noted before it is made, so the journal also shows the
one that was refused. A refused definition leaves the types as they are.
-/

namespace ParseForest

inductive Definition where
  | data (name : String) (parameters : List Ty)
  | synonym (name : String) (parameters : List Ty) (aliased : Ty)
  | constructor (owner : Ty) (name : String) (fields : List Field)
  | keywords (owner : KeywordOwner) (parameters : List (String × Keyword))

def Definition.render : Definition → String
  | data name parameters => s!"adt {name}" ++ Ty.bracketed (Ty.renderAll parameters)
  | synonym name parameters aliased =>
    s!"alias {name}" ++ Ty.bracketed (Ty.renderAll parameters) ++ s!" = {aliased.render}"
  | constructor owner name fields =>
    s!"constructor {owner.render}.{name}(" ++ ", ".intercalate (fields.map Field.render) ++ ")"
  | keywords owner parameters =>
    s!"keywords {owner.render} \x7b" ++ ", ".intercalate (parameters.map (·.1)) ++ "\x7d"

structure Journal where
  env : TypeEnv
  definitions : Array Definition

def Journal.ofEnv (env : TypeEnv) : Journal := ⟨env, #[]⟩

abbrev Declare := EStateM Error Journal

namespace Declare

instance : MonadLift (Except Error) Declare where
  monadLift
    | .ok a => pure a
    | .error e => throw e

def env : Declare TypeEnv := return (← get).env

def note (d : Definition) : Declare Unit :=
  modify fun j => { j with definitions := j.definitions.push d }

def setEnv (env : TypeEnv) : Declare Unit := modify fun j => { j with env }

def data (name : String) (parameters : List Ty) : Declare Ty := do
  note (.data name parameters)
  let (env, type) ← (← env).declareData name parameters
  setEnv env
  return type

def synonym (name : String) (parameters : List Ty) (aliased : Ty) : Declare Ty := do
  note (.synonym name parameters aliased)
  let (env, type) ← (← env).declareSynonym name parameters aliased
  setEnv env
  return type

def constructor (owner : Ty) (name : String) (fields : List Field) : Declare Unit := do
  note (.constructor owner name fields)
  setEnv (← (← env).declareConstructor owner name fields)

def keywords (owner : KeywordOwner) (parameters : List (String × Keyword)) : Declare Unit := do
  note (.keywords owner parameters)
  setEnv ((← env).declareKeywords owner parameters)

end Declare

end ParseForest
