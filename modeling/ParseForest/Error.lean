import ParseForest.Forest.Basic
import ParseForest.Tree.Basic
import ParseForest.Types.Basic

/-!
Errors of reading a forest and of evaluating declarations. Defects are disagreements between the
grammar, the registry and the trees; they are never the fault of the text that was parsed.
-/

namespace ParseForest

inductive Defect where
  | notRoot (node : NodeId) (sort : String) (content : Node)
  | noModuleHeader (node : NodeId)
  | listAsValue (node : NodeId)
  | notValue (node : NodeId) (content : Node)
  | unnamedProduction (node : NodeId) (production : Option Production)
  | unnamedSort (node : NodeId)
  | unknownConstructor (sort constructor : String)
  | argumentMismatch (sort constructor : String) (expected found : List ArgKind)
  | emptyHole (node : NodeId)
  | malformed (what : String) (sort constructor : String)
  | constructorOfNonData (name : String) (type : Ty)
  deriving DecidableEq

def renderKinds (kinds : List ArgKind) : String := ", ".intercalate (kinds.map ArgKind.render)

def Defect.message : Defect → String
  | notRoot node sort content => s!"{renderNodeId node} is not a {sort} root: {content.render}"
  | noModuleHeader node => s!"{renderNodeId node} has no module header"
  | listAsValue node => s!"build_value called on list {renderNodeId node}"
  | notValue node content => s!"unexpected {content.render} at {renderNodeId node}"
  | unnamedProduction node production =>
    s!"production of {renderNodeId node} has no constructor name: "
      ++ production.elim "" Production.render
  | unnamedSort node => s!"could not retrieve sort name of {renderNodeId node}"
  | unknownConstructor sort constructor => s!"no AST constructor {sort}.{constructor}"
  | argumentMismatch sort constructor expected found =>
    s!"{sort}.{constructor} expects ({renderKinds expected}), got ({renderKinds found})"
  | emptyHole node => s!"anti-quote {renderNodeId node} holds no expression"
  | malformed what sort constructor => s!"malformed {what}: {sort}.{constructor}"
  | constructorOfNonData name type =>
    s!"constructor {name} declared for non-data type {type.render}"

inductive Error where
  | expected (what : String) (span : Option Span)
  | ambiguous (node : NodeId) (span : Option Span)
  | ambiguousDeclaration (span : Option Span)
  | redeclaredType (name : String)
  | redeclaredField (field constructor : String)
  | qualifiedDeclaration (name : String)
  | undeclaredType (name : String)
  | defect (defect : Defect)
  | breach (breach : Breach)
  deriving DecidableEq

namespace Error

/-- Errors that rule out one reading and leave the others. -/
def isAmbiguity : Error → Bool
  | ambiguous .. | ambiguousDeclaration _ => true
  | _ => false

def isUndeclaredType : Error → Bool
  | undeclaredType _ => true
  | _ => false

def renderAt : Option Span → Checked String
  | none => .ok ""
  | some s => (" at " ++ ·) <$> s.render

/-- The text of an error. A span without an end within the number range cannot be shown. -/
def message : Error → Checked String
  | expected what span => (s!"syntax error: expected {what}" ++ ·) <$> renderAt span
  | ambiguous node span => (s!"ambiguous code at {renderNodeId node}" ++ ·) <$> renderAt span
  | ambiguousDeclaration span => ("ambiguous declaration" ++ ·) <$> renderAt span
  | redeclaredType name => .ok s!"redeclared type `{name}`"
  | redeclaredField field constructor =>
    .ok s!"redeclared field `{field}` in constructor `{constructor}`"
  | qualifiedDeclaration name => .ok s!"declaration of `{name}` may not be qualified"
  | undeclaredType name => .ok s!"undeclared type `{name}`"
  | defect d => .ok s!"implementation error: {d.message}"
  | breach b => .error b

end Error

end ParseForest
