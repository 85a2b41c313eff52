import ParseForest.Forest.Basic

/-!
Questions about forest nodes: the production behind a node, the kinds that follow from it, the sort
a node belongs to and the text it covers. A cluster has the sort and the text of its first
alternative. Sort and text follow the derivation; `depthLimit` levels are enough for every node of a
forest without cycles, wherever its numbers lie.
-/

namespace ParseForest.Forest

def children (f : Forest) (id : NodeId) : Checked (List NodeId) := (·.children) <$> f.node id

def alternatives (f : Forest) (id : NodeId) : Checked (List NodeId) :=
  (·.alternatives) <$> f.node id

def production? (f : Forest) (id : NodeId) : Checked (Option Production) := do
  match (← f.node id).production? with
  | some prod => some <$> f.grammar.production prod
  | none => return none

def hasProduction (f : Forest) (id : NodeId) (property : Production → Bool) : Checked Bool :=
  (·.any property) <$> f.production? id

def isDerivation (f : Forest) (id : NodeId) : Checked Bool := (·.isDerivation) <$> f.node id
def isList (f : Forest) (id : NodeId) : Checked Bool := (·.isList) <$> f.node id
def isAmbiguity (f : Forest) (id : NodeId) : Checked Bool := (·.isAmbiguity) <$> f.node id

/-- A cluster of lists, told by its first alternative. -/
def isAmbiguousList (f : Forest) (id : NodeId) : Checked Bool := do
  match (← f.node id).alternatives with
  | first :: _ => f.isList first
  | [] => return false

def isLexical (f : Forest) (id : NodeId) : Checked Bool := do
  if ← f.isDerivation id then f.hasProduction id (·.isLexical) else return false

def isLiteral (f : Forest) (id : NodeId) : Checked Bool := do
  match ← f.node id with
  | .literal .. => return true
  | .derivation .. => f.hasProduction id fun p => p.isLiteral || p.isCaseless
  | _ => return false

def isLayout (f : Forest) (id : NodeId) : Checked Bool := f.hasProduction id (·.isLayout)

def isEmptyNode (f : Forest) (id : NodeId) : Checked Bool := f.hasProduction id (·.isEmpty)

def constructor? (f : Forest) (id : NodeId) : Checked (Option String) :=
  (·.bind (·.constructor)) <$> f.production? id

/-- Levels that a traversal may descend. A path that meets no node twice has at most `size` nodes;
one more level tells that the node after them does not exist. -/
def depthLimit (f : Forest) : Nat := f.size + 1

def sortNameWithin (f : Forest) : Nat → NodeId → Checked String
  | 0, _ => .error .endlessDerivation
  | depth + 1, id => do
    match ← f.node id with
    | .ambiguity [] => return ""
    | .ambiguity (first :: _) => f.sortNameWithin depth first
    | _ => return (← f.production? id).elim "" (·.sortName)

def sortName (f : Forest) (id : NodeId) : Checked String := f.sortNameWithin f.depthLimit id

def yieldWithin (f : Forest) : Nat → NodeId → Checked String
  | 0, _ => .error .endlessDerivation
  | depth + 1, id => do
    match ← f.node id with
    | .char code => return (Text.charOfCode code).toString
    | .literal text _ | .recovery text => return text
    | .derivation _ children | .list _ children _ =>
      return String.join (← children.mapM (f.yieldWithin depth))
    | .optional _ none => return ""
    | .optional _ (some child) => f.yieldWithin depth child
    | .ambiguity [] => return ""
    | .ambiguity (first :: _) => f.yieldWithin depth first
    | .cycle .. => return ""

def yieldText (f : Forest) (id : NodeId) : Checked String := f.yieldWithin f.depthLimit id

def location (f : Forest) (id : NodeId) : Checked (Option Location) := do
  match ← f.span id, f.lines with
  | some span, some lines =>
    return some ⟨f.source, span, lines.position span.offset, lines.position (← span.stop)⟩
  | _, _ => return none

end ParseForest.Forest
