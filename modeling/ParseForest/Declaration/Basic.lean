import ParseForest.Symbol.Basic
import ParseForest.Tree.Basic
import ParseForest.Types.Builtin

/-!
Type declarations as they are written: names, type expressions whose names are not resolved yet, and
declarations of data types, with or without constructors, and of synonyms.
-/

namespace ParseForest

structure QualifiedName where
  qualifiers : List String
  name : String
  deriving DecidableEq

namespace QualifiedName

def ofParts? (parts : List String) : Option QualifiedName :=
  parts.getLast?.map fun name => ⟨parts.dropLast, name⟩

def ofParts (parts : List String) : Checked QualifiedName :=
  match ofParts? parts with
  | some name => .ok name
  | none => .error .emptyName

def parts (n : QualifiedName) : List String := n.qualifiers ++ [n.name]

def isQualified (n : QualifiedName) : Bool := !n.qualifiers.isEmpty

def joined (parts : List String) : String := "::".intercalate parts

def qualifier? (n : QualifiedName) : Option String :=
  if n.isQualified then some (joined n.qualifiers) else none

def render (n : QualifiedName) : String := joined n.parts

end QualifiedName

structure TypeReference (α : Type) where
  name : QualifiedName
  parameters : List α
  span : Option Span

structure TypeArgument (α : Type) where
  type : α
  label : Option String

inductive TypeExpr where
  | builtin (basic : Builtin)
  | structured (kind : Builtin) (arguments : List (TypeArgument TypeExpr))
  | user (reference : TypeReference TypeExpr)
  | typeVar (name : String) (bound : Option TypeExpr)
  | symbol (symbol : Symbol)

structure KeywordFormal where
  type : TypeExpr
  name : String
  default : Tree

structure Variant where
  name : String
  arguments : List (TypeArgument TypeExpr)
  keywords : List KeywordFormal

inductive Declaration where
  | data (type : TypeReference TypeExpr) (keywords : List KeywordFormal) (variants : List Variant)
  /-- A data type without constructors. -/
  | abstractData (type : TypeReference TypeExpr) (keywords : List KeywordFormal)
  | synonym (type : TypeReference TypeExpr) (base : TypeExpr)

end ParseForest
