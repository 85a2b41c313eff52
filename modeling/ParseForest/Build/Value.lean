import ParseForest.Build.Selection

/-!
Values of forest nodes. A derivation becomes a constructor applied to the values of its children,
and is filtered out with any of them. A cluster keeps the cheapest of its readings; tied readings
stay together under an ambiguity node, but a list cannot hold them and is ambiguous.
-/

namespace ParseForest.Builder

open Build

def token (b : Builder) (node : NodeId) : Build (Option Tree) :=
  once .tokens node do
    let sort ← b.sortKey node
    some <$> b.registry.makeLexical sort (← b.forest.span node) (← b.forest.yieldText node)

def part (b : Builder) (below : Descent) (element : NodeId) : Build (Option (List Tree)) := do
  match ← b.forest.slot element with
  | .choice => below.choice element
  | .run => below.run element
  | .optional _ | .single => return (← below.value element).map ([·])

def run (b : Builder) (below : Descent) (node : NodeId) : Build (Option (List Tree)) := do
  return (← collect (b.part below) (← b.elements node)).map List.flatten

def offerRuns (below : Descent) :
    List NodeId → Survivors (List Tree) → Build (Survivors (List Tree))
  | [], survivors => return survivors
  | alt :: alts, survivors => do
    match ← below.run alt with
    | none => offerRuns below alts survivors
    | some items => offerRuns below alts (survivors.offer items (← Cost.sum (items.map (·.cost))))

def choice (b : Builder) (below : Descent) (node : NodeId) : Build (Option (List Tree)) := do
  let alternatives ← b.forest.alternatives node
  let survivors ← offerRuns below alternatives .none
  record (.rank node alternatives.length survivors.count)
  match survivors.items with
  | [] => return none
  | [items] => return some items
  | _ => throw (.ambiguous node (← b.forest.span node))

def argument (b : Builder) (below : Descent) (child : NodeId) : Build (Option (Arg Tree)) := do
  match ← b.forest.slot child with
  | .run => return (← below.run child).map .list
  | .choice => return (← below.choice child).map .list
  | .optional none => return some (.list [])
  | .optional (some held) => return (← below.value held).map fun t => .list [t]
  | .single => return (← below.value child).map .node

def applyTo (b : Builder) (below : Descent) (args : List (Arg Tree)) (total : Cost) :
    List NodeId → Build (Option (List (Arg Tree) × Cost))
  | [] => return some (args, total)
  | child :: children => do
    match ← b.argument below child with
    | none => return none
    | some arg => b.applyTo below (args ++ [arg]) (← total.add (← arg.cost)) children

def constructorOf (b : Builder) (node : NodeId) : Build String := do
  match ← b.forest.constructor? node with
  | some name => return Conventions.constructorKey name
  | none => defect (.unnamedProduction node (← b.forest.production? node))

def derivation (b : Builder) (below : Descent) (node : NodeId) : Build (Option Tree) :=
  once .derivations node do
    let name ← b.constructorOf node
    let sort ← b.sortKey node
    match ← b.applyTo below [] .zero (← b.arguments node) with
    | none =>
      record (.drop node)
      return none
    | some (args, cost) =>
      let tree ← b.registry.make sort name (← b.forest.span node) args cost
      modify fun s => { s with lastSuccess := tree.span.or s.lastSuccess }
      return some tree

/-- Offers the readings of alternatives. A reading that is ambiguous itself is passed over, and the
last such error kept. -/
def offerValues (below : Descent) :
    List NodeId → Survivors Tree → Option Error → Build (Survivors Tree × Option Error)
  | [], survivors, ambiguity => return (survivors, ambiguity)
  | alt :: alts, survivors, ambiguity => do
    match ← attempt (below.value alt) with
    | .ok none => offerValues below alts survivors ambiguity
    | .ok (some tree) => offerValues below alts (survivors.offer tree tree.cost) ambiguity
    | .error e => offerValues below alts survivors (some e)

def cluster (b : Builder) (below : Descent) (node : NodeId) : Build (Option Tree) :=
  once .clusters node do
    let alternatives ← b.forest.alternatives node
    let (survivors, ambiguity) ← offerValues below alternatives .none none
    record (.rank node alternatives.length survivors.count)
    match survivors.items, ambiguity with
    | [], some e => throw e
    | [], none => return none
    | [tree], _ => return some tree
    | trees, _ =>
      let sort ← b.sortKey node
      some <$> b.registry.makeAmbiguity sort (← b.forest.span node) trees
        (survivors.cost.withAmbiguous true)

end ParseForest.Builder
