import ParseForest.Build.Fragment

/-!
Reading of whole forests: the value of any node, and the entry points that look for a root of an
expected sort. Main definitions: `value`, `convert`, `convertModule`.
-/

namespace ParseForest.Builder

open Build

def read (b : Builder) (below : Descent) (node : NodeId) : Build (Option Tree) := do
  record (.enter node (← b.forest.sortName node))
  match ← b.forest.node node with
  | .ambiguity _ => b.cluster below node
  | .derivation .. =>
    if ← b.forest.isLexical node then b.token node
    else if ← b.isEmbedding node then b.fragment below node
    else b.derivation below node
  | .cycle .. | .recovery _ =>
    record (.drop node)
    return none
  | .list .. => defect (.listAsValue node)
  | other => defect (.notValue node other)

def descend (b : Builder) (below : Descent) : Descent :=
  ⟨b.read below, b.run below, b.choice below, b.image below⟩

/-- Levels that a reading may descend before a result is kept. There are four ways to read each
node, and one more level tells that a node does not exist. A node that is read again in the same way
with the same results at hand is read for ever. -/
def levelLimit (b : Builder) : Nat := 4 * b.forest.size + 1

/-- Reading that descends at most `depth` levels, and at most `fresh` of them while there are `kept`
results. With more results the levels count anew: a derivation that contains itself can still have a
value, since its quoted fragments and their anti-quotes are read differently. -/
def descent (b : Builder) : (depth fresh kept : Nat) → Descent
  | 0, _, _ => .ended
  | depth + 1, fresh, kept => .inSession fun s =>
    if s.results.size = kept then
      match fresh with
      | 0 => .ended
      | fresh + 1 => b.descend (b.descent depth fresh kept)
    else b.descend (b.descent depth b.levelLimit s.results.size)

def value (b : Builder) (node : NodeId) : Build (Option Tree) :=
  (b.descent (b.levelLimit * b.levelLimit) b.levelLimit 0).value node

def expectedAt {α : Type} (b : Builder) (sort : String) (node : NodeId) : Build α := do
  throw (.expected sort ((← b.forest.span node).or (← get).lastSuccess))

def valueAt (b : Builder) (sort : String) (node : NodeId) : Build Tree := do
  match ← b.value node with
  | some tree => return tree
  | none => b.expectedAt sort node

def isRootOf (b : Builder) (sort : String) (node : NodeId) : Checked Bool := do
  match ← b.forest.node node with
  | .derivation .. | .ambiguity _ => return (← b.sortOf node) == sort
  | _ => return false

def findRoot? (b : Builder) (sort : String) : List NodeId → Checked (Option NodeId)
  | [] => .ok none
  | node :: nodes => do
    if ← b.forest.isLayout node then b.findRoot? sort nodes
    else if ← b.isRootOf sort node then return some node
    else b.findRoot? sort nodes

def firstValue? (b : Builder) (sort : String) : List NodeId → Build (Option Tree)
  | [] => return none
  | alt :: alts => do
    if (← b.sortOf alt) == sort then
      match ← b.value alt with
      | some tree => return some tree
      | none => b.firstValue? sort alts
    else b.firstValue? sort alts

/-- The tree of a sort rooted at a node. Start symbols and derivations of other sorts are wrappers,
and their children are searched; of an ambiguous root the first alternative with a value wins. -/
def convertWithin (b : Builder) (sort : String) : Nat → NodeId → Build Tree
  | 0, _ => throw (.breach .endlessDerivation)
  | depth + 1, node => do
    match ← b.forest.node node with
    | .derivation prod children =>
      if (← b.sortOf node) == sort && !(← b.forest.grammar.production prod).defines.isStart then
        b.valueAt sort node
      else match ← b.findRoot? sort children with
        | none => b.expectedAt sort node
        | some inner =>
          if ← b.forest.isAmbiguity inner then b.valueAt sort inner
          else b.convertWithin sort depth inner
    | .ambiguity alternatives =>
      match ← b.firstValue? sort alternatives with
      | some tree => return tree
      | none => b.expectedAt sort node
    | other => defect (.notRoot node sort other)

def convert (b : Builder) (sort : String) (node : NodeId) : Build Tree :=
  b.convertWithin sort b.forest.depthLimit node

def moduleReadings (b : Builder) (found : List NodeId) : List NodeId → Checked (List NodeId)
  | [] => .ok found
  | node :: nodes => do
    let sort ← b.sortOf node
    if sort == b.conventions.moduleSort || sort == b.conventions.preModuleSort then
      if found.isEmpty then b.moduleReadings [node] nodes else return found ++ [node]
    else b.moduleReadings found nodes

def headerModule (b : Builder) (node : NodeId) : Build Tree := do
  let some header := (← b.arguments node).head? | defect (.noModuleHeader node)
  let header ← b.valueAt "Header" header
  let span ← b.forest.span node
  let body ← b.registry.make "Body" "Toplevels" span [.list []] .zero
  b.registry.make b.conventions.moduleSort "Default" span [.node header, .node body] header.cost

def convertModuleAt (b : Builder) (root node : NodeId) : Build Tree := do
  let sort ← b.sortOf node
  if sort == b.conventions.moduleSort then b.valueAt sort node
  else if sort == b.conventions.preModuleSort then b.headerModule node
  else b.convert b.conventions.moduleSort root

/-- The module rooted at a node. An ambiguous root may have only one reading as a module. -/
def convertModule (b : Builder) (root : NodeId) : Build Tree := do
  match ← b.forest.node root with
  | .derivation .. => b.convertModuleAt root root
  | .ambiguity alternatives =>
    match ← b.moduleReadings [] alternatives with
    | [] => b.convert b.conventions.moduleSort root
    | [node] => b.convertModuleAt root node
    | _ => throw (.ambiguous root (← b.forest.span root))
  | _ => b.convert b.conventions.moduleSort root

end ParseForest.Builder
