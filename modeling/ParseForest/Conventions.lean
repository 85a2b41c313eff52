import ParseForest.Text.Affix
import ParseForest.Text.Uppercase

/-!
Naming conventions of a front-end grammar: the sorts and constructors with a role of their own, and
the names under which sorts and constructors are registered.
-/

namespace ParseForest

structure Conventions where
  internalMark : String
  expressionSort : String
  /-- Registered as the expression sort, in any case of its letters. -/
  patternSort : String
  statementSort : String
  commandSort : String
  moduleSort : String
  preModuleSort : String
  /-- Applied sort whose derivations wrap literals that are never arguments. -/
  wrappedLiteralSort : String
  quotedConstructor : String
  typedQuotedConstructor : String
  holeConstructors : List String
  renamings : List (String × String)

namespace Conventions

def standard : Conventions where
  internalMark := "_"
  expressionSort := "Expression"
  patternSort := "Pattern"
  statementSort := "Statement"
  commandSort := "Command"
  moduleSort := "Module"
  preModuleSort := "PreModule"
  wrappedLiteralSort := "_WrappedLiteral"
  quotedConstructor := "ConcreteQuoted"
  typedQuotedConstructor := "ConcreteTypedQuoted"
  holeConstructors := ["MetaVariable", "TypedMetaVariable"]
  renamings := [("Mapping", "Mapping_Expression")]

def addHoleConstructor (c : Conventions) (name : String) : Conventions :=
  { c with holeConstructors := c.holeConstructors ++ [name] }

def addRenaming (c : Conventions) (sort key : String) : Conventions :=
  { c with renamings := c.renamings ++ [(sort, key)] }

def sortName (c : Conventions) (raw : String) : String := Text.withoutLeading c.internalMark raw

def sortKey (c : Conventions) (raw : String) : String :=
  let name := c.sortName raw
  if Text.sameLetters name c.patternSort then c.expressionSort
  else
    let name := Text.capitalize name
    (c.renamings.lookup name).getD name

def constructorKey (raw : String) : String := Text.capitalize raw

def isEmbeddingConstructor (c : Conventions) (name : String) : Bool :=
  name == c.quotedConstructor || name == c.typedQuotedConstructor

def isHoleConstructor (c : Conventions) (name : String) : Bool := c.holeConstructors.contains name

def isEmbeddingSort (c : Conventions) (raw : String) : Bool :=
  let name := c.sortName raw
  name == c.expressionSort || Text.sameLetters name c.patternSort

end Conventions

end ParseForest
