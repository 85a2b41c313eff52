import ParseForest.Build.Session

/-!
Which children of a forest node count. Layout never does. Arguments of a constructor leave out
literals, wrapped literals and empty derivations; the elements of a list are found by stepping over
its separators.
-/

namespace ParseForest

namespace Checked

def filter {α : Type} (property : α → Checked Bool) : List α → Checked (List α)
  | [] => .ok []
  | a :: as => do
    let holds ← property a
    let rest ← filter property as
    return if holds then a :: rest else rest

end Checked

/-- Every member that comes after `gap` others, beginning after `skipped` members. -/
def everyAfter {α : Type} (gap : Nat) : Nat → List α → List α
  | _, [] => []
  | 0, a :: as => a :: everyAfter gap gap as
  | skipped + 1, _ :: as => everyAfter gap skipped as

inductive Slot where
  | run
  | choice
  | optional (held : Option NodeId)
  | single

def Forest.slot (f : Forest) (id : NodeId) : Checked Slot := do
  match ← f.node id with
  | .list .. => return .run
  | .ambiguity (first :: _) => return if ← f.isList first then .choice else .single
  | .optional _ child => return .optional child
  | _ => return .single

namespace Builder

def sortOf (b : Builder) (id : NodeId) : Checked String :=
  b.conventions.sortName <$> b.forest.sortName id

def sortKey (b : Builder) (id : NodeId) : Except Error String :=
  match b.forest.sortName id with
  | .error e => .error (.breach e)
  | .ok "" => .error (.defect (.unnamedSort id))
  | .ok raw => .ok (b.conventions.sortKey raw)

/-- Literals, wrapped literals and empty derivations. -/
def isNoise (b : Builder) (id : NodeId) : Checked Bool := do
  if ← b.forest.isLiteral id then return true
  if ← b.forest.isEmptyNode id then return true
  b.forest.hasProduction id fun p => match p.defines with
    | .applied name _ => name == b.conventions.wrappedLiteralSort
    | _ => false

def isArgument (b : Builder) (id : NodeId) : Checked Bool := do
  if ← b.forest.isLayout id then return false
  return !(← b.isNoise id)

def arguments (b : Builder) (id : NodeId) : Checked (List NodeId) := do
  Checked.filter b.isArgument (← b.forest.children id)

def visibleChildren (b : Builder) (id : NodeId) : Checked (List NodeId) := do
  Checked.filter (fun c => (!·) <$> b.forest.isLayout c) (← b.forest.children id)

def elements (b : Builder) (id : NodeId) : Checked (List NodeId) := do
  let gap := (← b.forest.production? id).elim 0 (·.defines.visibleSeparators.length)
  return everyAfter gap 0 (← b.visibleChildren id)

def isEmbedding (b : Builder) (id : NodeId) : Checked Bool := do
  if b.conventions.isEmbeddingSort (← b.forest.sortName id) then
    return (← b.forest.constructor? id).any b.conventions.isEmbeddingConstructor
  else return false

end Builder

end ParseForest
