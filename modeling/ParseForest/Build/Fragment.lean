import ParseForest.Build.Value
import ParseForest.Symbol.Matching
import ParseForest.Symbol.OfTree

/-!
Quoted fragments. A fragment is the image of its pattern, node by node, layout and literals
included; an anti-quote in it is read as a value, which has to fit the symbol that stands in its
place. A fragment with tied images is ambiguous.
-/

namespace ParseForest.Builder

open Build

/-- The quoted pattern: the first argument of the plain form, the last of the typed one. -/
def pattern? (b : Builder) (node : NodeId) : Checked (Option NodeId) := do
  if ← b.forest.isEmptyNode node then return none
  let name := (← b.forest.constructor? node).getD ""
  let arguments ← b.arguments node
  return if name = b.conventions.quotedConstructor then arguments.head? else arguments.getLast?

def fragment (b : Builder) (below : Descent) (node : NodeId) : Build (Option Tree) :=
  once .fragments node do
    record (.lift node)
    let some pattern ← b.pattern? node | return none
    let some tree ← below.image pattern | return none
    let span ← b.forest.span pattern
    let cost := { tree.cost with fragments := 1, fragmentSize := span.elim 0 (·.length) }
    if cost.ambiguous then throw (.ambiguous pattern span)
    return some (tree.withCost cost)

def imageNode (b : Builder) (node : NodeId) (body : Body Tree) (cost : Cost) : Build Tree := do
  return .image b.conventions.expressionSort (← b.forest.span node) body cost

def imageLeaf (b : Builder) (node : NodeId) (leaf : Leaf) : Build (Option Tree) :=
  some <$> b.imageNode node (.token leaf) .zero

def imagesOf (below : Descent) (trees : List Tree) (total : Cost) :
    List NodeId → Build (Option (List Tree × Cost))
  | [] => return some (trees, total)
  | child :: children => do
    match ← below.image child with
    | none => return none
    | some tree => imagesOf below (trees ++ [tree]) (← total.add tree.cost) children

def imageOver (b : Builder) (below : Descent) (node : NodeId) (shape : Shape)
    (children : List NodeId) (injections : Nat) : Build (Option Tree) := do
  match ← imagesOf below [] .zero children with
  | none => return none
  | some (trees, total) =>
    some <$> b.imageNode node (.image shape trees) (← total.add { Cost.zero with injections })

def offerImages (below : Descent) :
    List NodeId → Survivors Tree → Build (Survivors Tree)
  | [], survivors => return survivors
  | alt :: alts, survivors => do
    match ← below.image alt with
    | none => offerImages below alts survivors
    | some tree => offerImages below alts (survivors.offer tree tree.cost)

def imageCluster (b : Builder) (below : Descent) (node : NodeId) (alternatives : List NodeId) :
    Build (Option Tree) := do
  let survivors ← offerImages below alternatives .none
  record (.rank node alternatives.length survivors.count)
  match survivors.items with
  | [] => return none
  | [tree] => return some tree
  | trees =>
    some <$> b.imageNode node (.image .ambiguity trees) (survivors.cost.withAmbiguous true)

/-- Does a value fit an anti-quote in the place of `expected`? A typed variable may also stand for
an element or for a list of what is expected, a guarded pattern for exactly that; values that
declare no symbol fit anywhere. -/
def fitsHole (b : Builder) (expected : Symbol) (tree : Tree) : Bool :=
  let declared? := tree.nodeArg? 0 >>= Symbol.ofTypeTree?
  if tree.is b.conventions.expressionSort "TypedVariable" then
    declared?.any (·.fits expected)
  else if tree.is b.conventions.expressionSort "Guarded" then
    declared?.any (·.matching expected)
  else true

/-- The values of alternatives that fit an anti-quote. Fragments directly inside are left out. -/
def fittingValues (b : Builder) (below : Descent) (expected : Symbol) :
    List NodeId → Build (List Tree)
  | [] => return []
  | alt :: alts => do
    if ← b.isEmbedding alt then b.fittingValues below expected alts
    else
      let tree? ← below.value alt
      let trees ← b.fittingValues below expected alts
      return (tree?.filter (b.fitsHole expected)).toList ++ trees

def holeValue (b : Builder) (below : Descent) (node : NodeId) (expected : Symbol) :
    Build (Option Tree) := do
  let some held := (← b.arguments node).getLast? | defect (.emptyHole node)
  let trees ← match ← b.forest.node held with
    | .ambiguity alternatives => b.fittingValues below expected alternatives
    | _ => pure ((← below.value held).filter (b.fitsHole expected)).toList
  match trees with
  | [] =>
    record (.rejectHole node)
    return none
  | [tree] => return some tree
  | tree :: _ =>
    some <$> b.registry.makeAmbiguity b.conventions.expressionSort (← b.forest.span node) trees
      (tree.cost.withAmbiguous true)

def hole (b : Builder) (below : Descent) (node : NodeId) (expected : Symbol) :
    Build (Option Tree) := do
  return (← b.holeValue below node expected).map fun tree =>
    tree.withCost { Cost.zero with ambiguous := tree.cost.ambiguous, holes := 1 }

def image (b : Builder) (below : Descent) (node : NodeId) : Build (Option Tree) :=
  once .fragments node do
    match ← b.forest.node node with
    | .derivation prod children =>
      let p ← b.forest.grammar.production prod
      if p.constructor.any b.conventions.isHoleConstructor then b.hole below node p.defines
      else if p.isLexical || p.isLayout then
        b.imageLeaf node (.lexical prod (← b.forest.yieldText node))
      else if p.isLiteral || p.isCaseless then
        b.imageLeaf node (.literal prod (← b.forest.yieldText node))
      else
        b.imageOver below node (.derivation prod) children (if p.isInjection then 1 else 0)
    | .list prod children _ =>
      let p ← b.forest.grammar.production prod
      let isRun := p.defines.isNonEmptyList && !children.isEmpty
      b.imageOver below node (.list prod) children (if isRun then 1 else 0)
    | .optional prod child => b.imageOver below node (.optional prod) child.toList 0
    | .literal text prod => b.imageLeaf node (.literal prod text)
    | .char code => b.imageLeaf node (.char code)
    | .ambiguity alternatives => b.imageCluster below node alternatives
    | .cycle .. | .recovery _ => return none

end ParseForest.Builder
