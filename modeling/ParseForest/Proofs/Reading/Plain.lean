import ParseForest.Build.Roots

/-!
Reading without a session: the recursion that reads a forest, with nothing kept, so a node is read
again wherever it is met. It has no state, and a failure is all that can come out besides a result.
Main definition: `Plain.descent`.
-/

namespace ParseForest

namespace Plain

local instance : MonadLift Checked (Except Error) := ⟨Except.mapError .breach⟩

structure Descent where
  value : NodeId → Except Error (Option Tree)
  run : NodeId → Except Error (Option (List Tree))
  choice : NodeId → Except Error (Option (List Tree))
  image : NodeId → Except Error (Option Tree)

namespace Descent

def ended : Descent where
  value _ := .error (.breach .endlessDerivation)
  run _ := .error (.breach .endlessDerivation)
  choice _ := .error (.breach .endlessDerivation)
  image _ := .error (.breach .endlessDerivation)

end Descent

def attempt {α : Type} : Except Error α → Except Error (Except Error α)
  | .ok a => .ok (.ok a)
  | .error e => if e.isAmbiguity then .ok (.error e) else .error e

def collect {α β : Type} (step : α → Except Error (Option β)) :
    List α → Except Error (Option (List β))
  | [] => return some []
  | a :: as => do
    match ← step a with
    | none => return none
    | some b => return (← collect step as).map (b :: ·)

variable (b : Builder)

def token (node : NodeId) : Except Error (Option Tree) := do
  let sort ← b.sortKey node
  some <$> b.registry.makeLexical sort (← b.forest.span node) (← b.forest.yieldText node)

def part (below : Descent) (element : NodeId) : Except Error (Option (List Tree)) := do
  match ← b.forest.slot element with
  | .choice => below.choice element
  | .run => below.run element
  | .optional _ | .single => return (← below.value element).map ([·])

def run (below : Descent) (node : NodeId) : Except Error (Option (List Tree)) := do
  return (← collect (part b below) (← b.elements node)).map List.flatten

def offerRuns (below : Descent) :
    List NodeId → Survivors (List Tree) → Except Error (Survivors (List Tree))
  | [], survivors => return survivors
  | alt :: alts, survivors => do
    match ← below.run alt with
    | none => offerRuns below alts survivors
    | some items => offerRuns below alts (survivors.offer items (← Cost.sum (items.map (·.cost))))

def choice (below : Descent) (node : NodeId) : Except Error (Option (List Tree)) := do
  let alternatives ← b.forest.alternatives node
  let survivors ← offerRuns below alternatives .none
  match survivors.items with
  | [] => return none
  | [items] => return some items
  | _ => throw (.ambiguous node (← b.forest.span node))

def argument (below : Descent) (child : NodeId) : Except Error (Option (Arg Tree)) := do
  match ← b.forest.slot child with
  | .run => return (← below.run child).map .list
  | .choice => return (← below.choice child).map .list
  | .optional none => return some (.list [])
  | .optional (some held) => return (← below.value held).map fun t => .list [t]
  | .single => return (← below.value child).map .node

def applyTo (below : Descent) (args : List (Arg Tree)) (total : Cost) :
    List NodeId → Except Error (Option (List (Arg Tree) × Cost))
  | [] => return some (args, total)
  | child :: children => do
    match ← argument b below child with
    | none => return none
    | some arg => applyTo below (args ++ [arg]) (← total.add (← arg.cost)) children

def constructorOf (node : NodeId) : Except Error String := do
  match ← b.forest.constructor? node with
  | some name => return Conventions.constructorKey name
  | none => throw (.defect (.unnamedProduction node (← b.forest.production? node)))

def derivation (below : Descent) (node : NodeId) : Except Error (Option Tree) := do
  let name ← constructorOf b node
  let sort ← b.sortKey node
  match ← applyTo b below [] .zero (← b.arguments node) with
  | none => return none
  | some (args, cost) => return some (← b.registry.make sort name (← b.forest.span node) args cost)

def offerValues (below : Descent) :
    List NodeId → Survivors Tree → Option Error → Except Error (Survivors Tree × Option Error)
  | [], survivors, ambiguity => return (survivors, ambiguity)
  | alt :: alts, survivors, ambiguity => do
    match ← attempt (below.value alt) with
    | .ok none => offerValues below alts survivors ambiguity
    | .ok (some tree) => offerValues below alts (survivors.offer tree tree.cost) ambiguity
    | .error e => offerValues below alts survivors (some e)

def cluster (below : Descent) (node : NodeId) : Except Error (Option Tree) := do
  let alternatives ← b.forest.alternatives node
  let (survivors, ambiguity) ← offerValues below alternatives .none none
  match survivors.items, ambiguity with
  | [], some e => throw e
  | [], none => return none
  | [tree], _ => return some tree
  | trees, _ =>
    let sort ← b.sortKey node
    some <$> b.registry.makeAmbiguity sort (← b.forest.span node) trees
      (survivors.cost.withAmbiguous true)

def fragment (below : Descent) (node : NodeId) : Except Error (Option Tree) := do
  let some pattern ← b.pattern? node | return none
  let some tree ← below.image pattern | return none
  let span ← b.forest.span pattern
  let cost := { tree.cost with fragments := 1, fragmentSize := span.elim 0 (·.length) }
  if cost.ambiguous then throw (.ambiguous pattern span)
  return some (tree.withCost cost)

def imageNode (node : NodeId) (body : Body Tree) (cost : Cost) : Except Error Tree := do
  return .image b.conventions.expressionSort (← b.forest.span node) body cost

def imageLeaf (node : NodeId) (leaf : Leaf) : Except Error (Option Tree) :=
  some <$> imageNode b node (.token leaf) .zero

def imagesOf (below : Descent) (trees : List Tree) (total : Cost) :
    List NodeId → Except Error (Option (List Tree × Cost))
  | [] => return some (trees, total)
  | child :: children => do
    match ← below.image child with
    | none => return none
    | some tree => imagesOf below (trees ++ [tree]) (← total.add tree.cost) children

def imageOver (below : Descent) (node : NodeId) (shape : Shape) (children : List NodeId)
    (injections : Nat) : Except Error (Option Tree) := do
  match ← imagesOf below [] .zero children with
  | none => return none
  | some (trees, total) =>
    some <$> imageNode b node (.image shape trees) (← total.add { Cost.zero with injections })

def offerImages (below : Descent) :
    List NodeId → Survivors Tree → Except Error (Survivors Tree)
  | [], survivors => return survivors
  | alt :: alts, survivors => do
    match ← below.image alt with
    | none => offerImages below alts survivors
    | some tree => offerImages below alts (survivors.offer tree tree.cost)

def imageCluster (below : Descent) (node : NodeId) (alternatives : List NodeId) :
    Except Error (Option Tree) := do
  let survivors ← offerImages below alternatives .none
  match survivors.items with
  | [] => return none
  | [tree] => return some tree
  | trees => some <$> imageNode b node (.image .ambiguity trees) (survivors.cost.withAmbiguous true)

def fittingValues (below : Descent) (expected : Symbol) :
    List NodeId → Except Error (List Tree)
  | [] => return []
  | alt :: alts => do
    if ← b.isEmbedding alt then fittingValues below expected alts
    else
      let tree? ← below.value alt
      let trees ← fittingValues below expected alts
      return (tree?.filter (b.fitsHole expected)).toList ++ trees

def holeValue (below : Descent) (node : NodeId) (expected : Symbol) :
    Except Error (Option Tree) := do
  let some held := (← b.arguments node).getLast? | throw (.defect (.emptyHole node))
  let trees ← match ← b.forest.node held with
    | .ambiguity alternatives => fittingValues b below expected alternatives
    | _ => pure ((← below.value held).filter (b.fitsHole expected)).toList
  match trees with
  | [] => return none
  | [tree] => return some tree
  | tree :: _ =>
    some <$> b.registry.makeAmbiguity b.conventions.expressionSort (← b.forest.span node) trees
      (tree.cost.withAmbiguous true)

def hole (below : Descent) (node : NodeId) (expected : Symbol) : Except Error (Option Tree) := do
  return (← holeValue b below node expected).map fun tree =>
    tree.withCost { Cost.zero with ambiguous := tree.cost.ambiguous, holes := 1 }

def image (below : Descent) (node : NodeId) : Except Error (Option Tree) := do
  match ← b.forest.node node with
  | .derivation prod children =>
    let p ← b.forest.grammar.production prod
    if p.constructor.any b.conventions.isHoleConstructor then hole b below node p.defines
    else if p.isLexical || p.isLayout then
      imageLeaf b node (.lexical prod (← b.forest.yieldText node))
    else if p.isLiteral || p.isCaseless then
      imageLeaf b node (.literal prod (← b.forest.yieldText node))
    else
      imageOver b below node (.derivation prod) children (if p.isInjection then 1 else 0)
  | .list prod children _ =>
    let p ← b.forest.grammar.production prod
    let isRun := p.defines.isNonEmptyList && !children.isEmpty
    imageOver b below node (.list prod) children (if isRun then 1 else 0)
  | .optional prod child => imageOver b below node (.optional prod) child.toList 0
  | .literal text prod => imageLeaf b node (.literal prod text)
  | .char code => imageLeaf b node (.char code)
  | .ambiguity alternatives => imageCluster b below node alternatives
  | .cycle .. | .recovery _ => return none

def read (below : Descent) (node : NodeId) : Except Error (Option Tree) := do
  let _ ← b.forest.sortName node
  match ← b.forest.node node with
  | .ambiguity _ => cluster b below node
  | .derivation .. =>
    if ← b.forest.isLexical node then token b node
    else if ← b.isEmbedding node then fragment b below node
    else derivation b below node
  | .cycle .. | .recovery _ => return none
  | .list .. => throw (.defect (.listAsValue node))
  | other => throw (.defect (.notValue node other))

def descend (below : Descent) : Descent :=
  ⟨read b below, run b below, choice b below, image b below⟩

def descent : (depth : Nat) → Descent
  | 0 => .ended
  | depth + 1 => descend b (descent depth)

end Plain

def Builder.plain (b : Builder) : Plain.Descent := Plain.descent b b.forest.depthLimit

end ParseForest
