import ParseForest.Grammar.Basic
import ParseForest.Position
import ParseForest.Text.Quoted

/-!
Parse forests: the shared and possibly ambiguous derivations that a parser hands over. Nodes are
numbered in order of construction and refer to each other and to productions by number. Every
construction leaves the earlier nodes as they are; one that breaks its contract leaves no trace.
-/

namespace ParseForest

abbrev NodeId := Nat

def renderNodeId (id : NodeId) : String := s!"#{id}"

inductive Node where
  | char (code : Nat)
  | literal (text : String) (prod : ProdId)
  | derivation (prod : ProdId) (children : List NodeId)
  /-- A repetition. A partial one is still to be spliced into the list around it. -/
  | list (prod : ProdId) (children : List NodeId) (isPartial : Bool)
  | optional (prod : ProdId) (child : Option NodeId)
  | ambiguity (alternatives : List NodeId)
  /-- Where a derivation that contains itself was cut off. -/
  | cycle (depth : Nat) (prod : ProdId)
  | recovery (text : String)
  deriving DecidableEq

namespace Node

def children : Node → List NodeId
  | derivation _ cs | list _ cs _ => cs
  | optional _ c => c.toList
  | _ => []

def alternatives : Node → List NodeId
  | ambiguity alts => alts
  | _ => []

def production? : Node → Option ProdId
  | literal _ p | derivation p _ | list p _ _ | optional p _ | cycle _ p => some p
  | _ => none

def isDerivation (n : Node) : Bool := n matches derivation ..
def isList (n : Node) : Bool := n matches list ..
def isAmbiguity (n : Node) : Bool := n matches ambiguity _

def renderIds (ids : List NodeId) : String :=
  "[" ++ ", ".intercalate (ids.map fun id => s!"NodeId({id})") ++ "]"

def render : Node → String
  | char code => s!"Char({code})"
  | literal text prod =>
    "Literal \x7b text: " ++ Text.quoted text ++ s!", prod: ProdId({prod}) \x7d"
  | derivation prod children =>
    s!"Appl \x7b prod: ProdId({prod}), children: " ++ renderIds children ++ " \x7d"
  | list prod children isPartial =>
    s!"List \x7b prod: ProdId({prod}), children: " ++ renderIds children
      ++ s!", partial: {isPartial} \x7d"
  | optional prod none => s!"Opt \x7b prod: ProdId({prod}), child: None \x7d"
  | optional prod (some child) =>
    s!"Opt \x7b prod: ProdId({prod}), child: Some(NodeId({child})) \x7d"
  | ambiguity alternatives => "Amb \x7b alternatives: " ++ renderIds alternatives ++ " \x7d"
  | cycle depth prod => s!"Cycle \x7b depth: {depth}, prod: ProdId({prod}) \x7d"
  | recovery text => "Recovery \x7b text: " ++ Text.quoted text ++ " \x7d"

end Node

structure Entry where
  node : Node
  span : Option Span

structure Forest where
  grammar : Grammar
  entries : Array Entry
  source : String
  lines : Option LineTable

namespace Forest

def empty (grammar : Grammar) : Forest := ⟨grammar, #[], "<input>", none⟩

def withInput (f : Forest) (source text : String) : Forest :=
  { f with source, lines := some (.ofText text) }

def size (f : Forest) : Nat := f.entries.size

def entry (f : Forest) (id : NodeId) : Checked Entry :=
  match f.entries[id]? with
  | some e => .ok e
  | none => .error (.missingNode id f.size)

def node (f : Forest) (id : NodeId) : Checked Node := (·.node) <$> f.entry id

def span (f : Forest) (id : NodeId) : Checked (Option Span) := (·.span) <$> f.entry id

def addProduction (f : Forest) (p : Production) : Forest × ProdId :=
  ({ f with grammar := (f.grammar.add p).1 }, (f.grammar.add p).2)

def push (f : Forest) (n : Node) : Forest × NodeId :=
  ({ f with entries := f.entries.push ⟨n, none⟩ }, f.size)

def addChar (f : Forest) (code : Nat) : Forest × NodeId := f.push (.char code)

def addLiteral (f : Forest) (text : String) (prod : ProdId) : Forest × NodeId :=
  f.push (.literal text prod)

def addCycle (f : Forest) (depth : Nat) (prod : ProdId) : Forest × NodeId :=
  f.push (.cycle depth prod)

def addRecovery (f : Forest) (text : String) : Forest × NodeId := f.push (.recovery text)

/-- What stands in a complete list of `prod` for one child: the items of a partial list of that
production, anything else itself. -/
def splice (f : Forest) (prod : ProdId) (child : NodeId) : Checked (List NodeId) := do
  match ← f.node child with
  | .list p items true => return if p = prod then items else [child]
  | _ => return [child]

def addPartialList (f : Forest) (children : List NodeId) (prod : ProdId) : Forest × NodeId :=
  f.push (.list prod children true)

def addList (f : Forest) (children : List NodeId) (prod : ProdId) : Checked (Forest × NodeId) := do
  let items ← children.mapM (f.splice prod)
  return f.push (.list prod items.flatten false)

/-- A derivation of `prod`. List and optional productions have a shape of their own. -/
def addDerivation (f : Forest) (children : List NodeId) (prod : ProdId) :
    Checked (Forest × NodeId) := do
  let p ← f.grammar.production prod
  if p.isList then
    f.addList children prod
  else if p.isOptional then
    match children with
    | [] | [_] => return f.push (.optional prod children.head?)
    | _ => throw (.optionalChildren children.length)
  else
    return f.push (.derivation prod children)

def insertId (id : NodeId) : List NodeId → List NodeId
  | [] => [id]
  | x :: xs => if id < x then id :: x :: xs else if id = x then x :: xs else x :: insertId id xs

def distinct (ids : List NodeId) : List NodeId := ids.foldr insertId []

/-- A cluster of alternatives; a single one stands for itself. -/
def addAmbiguity (f : Forest) (alternatives : List NodeId) : Checked (Forest × NodeId) :=
  match distinct alternatives with
  | [] => .error .noAlternative
  | [only] => .ok (f, only)
  | alts => .ok (f.push (.ambiguity alts))

def addChars (f : Forest) (text : List Char) : Forest × List NodeId :=
  (text.foldl (fun f c => (f.addChar c.toNat).1) f, List.range' f.size text.length)

def setSpan (f : Forest) (id : NodeId) (span : Span) : Checked Forest := do
  let e ← f.entry id
  return { f with entries := f.entries.setIfInBounds id { e with span := some span } }

end Forest

end ParseForest
