import ParseForest.Declaration.Basic
import ParseForest.Error
import ParseForest.Symbol.OfTree

/-!
Declarations spelled by trees. What is not a type declaration is skipped among the toplevels of a
module; a declaration that is tied with other readings, or has not the shape of one, is an error.
Main definition: `Declaration.collect`.
-/

namespace ParseForest

def Tree.malformed {α : Type} (t : Tree) (what : String) : Except Error α :=
  .error (.defect (.malformed what t.sort t.constructor))

def Tree.requireNode (t : Tree) (i : Nat) (what : String) : Except Error t.Part :=
  match t.nodePart? i with
  | some s => .ok s
  | none => t.malformed what

def Tree.requireList (t : Tree) (i : Nat) (what : String) : Except Error (List t.Part) :=
  match t.listPart? i with
  | some ts => .ok ts
  | none => t.malformed what

/-- The text of a name, without the backslash that keeps it from being a keyword. -/
def Tree.requireName (t : Tree) : Except Error String :=
  match t.text? with
  | some s => .ok (Text.withoutLeading "\\" s)
  | none => t.malformed "name"

def QualifiedName.ofTree (t : Tree) : Except Error QualifiedName := do
  if !t.is "QualifiedName" "Default" then t.malformed "qualified name"
  else
    let parts ← (← t.requireList 0 "qualified name").mapM fun s => s.1.requireName
    match ofParts? parts with
    | some name => return name
    | none => t.malformed "qualified name"

def Builtin.ofTree (t : Tree) : Except Error Builtin :=
  match ofConstructor? t.constructor with
  | some b => .ok b
  | none => t.malformed "basic type"

mutual
def TypeExpr.ofTree (t : Tree) : Except Error TypeExpr := do
  if t.sort ≠ "Type" then t.malformed "type"
  else
    let ⟨inner, _⟩ ← t.requireNode 0 "type"
    match t.constructor with
    | "Basic" => return .builtin (← Builtin.ofTree inner)
    | "Structured" =>
      let kind ← Builtin.ofTree (← inner.requireNode 0 "structured type").1
      let arguments ← (← inner.requireList 1 "structured type").mapM fun ⟨s, _⟩ =>
        TypeArgument.ofTree s
      return .structured kind arguments
    | "User" => return .user (← TypeReference.ofTree inner)
    | "Variable" =>
      let (name, bound) ← TypeExpr.variableOfTree inner
      return .typeVar name bound
    | "Symbol" => match Symbol.ofTypeTree? t with
      | some s => return .symbol s
      | none => t.malformed "symbol type"
    | "Bracket" => TypeExpr.ofTree inner
    | _ => t.malformed "type"
termination_by sizeOf t

def TypeReference.ofTree (t : Tree) : Except Error (TypeReference TypeExpr) := do
  let name ← QualifiedName.ofTree (← t.requireNode 0 "user type").1
  match t.constructor with
  | "Name" => return ⟨name, [], t.span⟩
  | "Parametric" =>
    let parameters ← (← t.requireList 1 "user type").mapM fun ⟨s, _⟩ => TypeExpr.ofTree s
    return ⟨name, parameters, t.span⟩
  | _ => t.malformed "user type"
termination_by sizeOf t

def TypeExpr.variableOfTree (t : Tree) : Except Error (String × Option TypeExpr) := do
  let name ← (← t.requireNode 0 "type variable").1.requireName
  match t.constructor with
  | "Free" => return (name, none)
  | "Bounded" =>
    let ⟨bound, _⟩ ← t.requireNode 1 "type variable"
    return (name, some (← TypeExpr.ofTree bound))
  | _ => t.malformed "type variable"
termination_by sizeOf t

def TypeArgument.ofTree (t : Tree) : Except Error (TypeArgument TypeExpr) := do
  let ⟨type, _⟩ ← t.requireNode 0 "type argument"
  let type ← TypeExpr.ofTree type
  match t.constructor with
  | "Default" => return ⟨type, none⟩
  | "Named" => return ⟨type, some (← (← t.requireNode 1 "type argument").1.requireName)⟩
  | _ => t.malformed "type argument"
termination_by sizeOf t
end

def KeywordFormal.ofTree (t : Tree) : Except Error KeywordFormal := do
  if !t.is "KeywordFormal" "Default" then t.malformed "keyword formal"
  else
    let type ← TypeExpr.ofTree (← t.requireNode 0 "keyword formal").1
    let name ← (← t.requireNode 1 "keyword formal").1.requireName
    return ⟨type, name, (← t.requireNode 2 "keyword formal").1⟩

def KeywordFormal.listOfTree (block : Tree) (what : String) :
    Except Error (List KeywordFormal) := do
  (← block.requireList 0 what).mapM fun s => KeywordFormal.ofTree s.1

def KeywordFormal.commonOfTree (block : Tree) : Except Error (List KeywordFormal) :=
  if block.constructor = "Present" then listOfTree block "keyword parameters" else .ok []

def Variant.ofTree (t : Tree) : Except Error Variant := do
  if !t.is "Variant" "NAryConstructor" then t.malformed "variant"
  else
    let ⟨block, _⟩ ← t.requireNode 2 "variant"
    let name ← (← t.requireNode 0 "variant").1.requireName
    let arguments ← (← t.requireList 1 "variant").mapM fun s => TypeArgument.ofTree s.1
    let keywords ← if block.constructor = "Default" then
        KeywordFormal.listOfTree block "keyword formals"
      else pure []
    return ⟨name, arguments, keywords⟩

namespace Declaration

def ofTree? (t : Tree) : Except Error (Option Declaration) := do
  if t.sort ≠ "Declaration" then t.malformed "declaration"
  else if t.isAmbiguity then throw (.ambiguousDeclaration t.span)
  else match t.constructor with
    | "Data" =>
      let type ← TypeReference.ofTree (← t.requireNode 2 "data declaration").1
      let keywords ← KeywordFormal.commonOfTree (← t.requireNode 3 "data declaration").1
      let variants ← (← t.requireList 4 "data declaration").mapM fun s => Variant.ofTree s.1
      return some (.data type keywords variants)
    | "DataAbstract" =>
      let type ← TypeReference.ofTree (← t.requireNode 2 "data declaration").1
      let keywords ← KeywordFormal.commonOfTree (← t.requireNode 3 "data declaration").1
      return some (.abstractData type keywords)
    | "Alias" =>
      let type ← TypeReference.ofTree (← t.requireNode 2 "alias declaration").1
      let base ← TypeExpr.ofTree (← t.requireNode 3 "alias declaration").1
      return some (.synonym type base)
    | _ => return none

def ofToplevel? (t : Tree) : Except Error (Option Declaration) := do
  if t.sort = "Toplevel" ∧ t.isAmbiguity then throw (.ambiguousDeclaration t.span)
  else if !t.is "Toplevel" "GivenVisibility" then return none
  else ofTree? (← t.requireNode 0 "toplevel").1

def collect (toplevels : List Tree) : Except Error (List Declaration) := do
  return (← toplevels.mapM ofToplevel?).filterMap id

end Declaration

end ParseForest
