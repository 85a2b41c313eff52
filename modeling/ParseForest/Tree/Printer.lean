import ParseForest.Tree.Basic
import ParseForest.Text.Quoted

/-!
Trees as indented text, one node to a line and two spaces for each level. A line names the sort and
the constructor, then the text of a token, and on request the span and the cost.
-/

namespace ParseForest

def Body.label {α : Type} : Body α → String
  | .lexical s | .token (.lexical _ s) | .token (.literal _ s) => " " ++ Text.quoted s
  | .token (.char code) => " " ++ Text.quotedChar (Text.charOfCode code)
  | _ => ""

namespace Tree

structure Detail where
  spans : Bool
  costs : Bool

def indent (level : Nat) : String := String.ofList (List.replicate (2 * level) ' ')

def Detail.span (d : Detail) : Option Span → Checked String
  | some s => if d.spans then (" @" ++ ·) <$> s.render else .ok ""
  | none => .ok ""

def Detail.cost (d : Detail) (c : Cost) : String := if d.costs then s!" [{c.render}]" else ""

mutual
def render (d : Detail) (level : Nat) : Tree → Checked String
  | ⟨sort, constructor, span, cost, body⟩ => do
    let line := indent level ++ sort ++ "." ++ constructor ++ body.label
      ++ (← d.span span) ++ d.cost cost ++ "\n"
    return line ++ (← renderBody d (level + 1) body)

def renderBody (d : Detail) (level : Nat) : Body Tree → Checked String
  | .application args => renderArgs d level args
  | .lexical _ | .token _ => .ok ""
  | .ambiguity ts | .image _ ts => renderAll d level ts

def renderArgs (d : Detail) (level : Nat) : List (Arg Tree) → Checked String
  | [] => .ok ""
  | a :: as => do return (← renderArg d level a) ++ (← renderArgs d level as)

def renderArg (d : Detail) (level : Nat) : Arg Tree → Checked String
  | .node t => render d level t
  | .text s => .ok (indent level ++ Text.quoted s ++ "\n")
  | .list [] => .ok (indent level ++ "[]\n")
  | .list (t :: ts) => do
    return indent level ++ "[\n" ++ (← render d (level + 1) t) ++ (← renderAll d (level + 1) ts)
      ++ indent level ++ "]\n"

def renderAll (d : Detail) (level : Nat) : List Tree → Checked String
  | [] => .ok ""
  | t :: ts => do return (← render d level t) ++ (← renderAll d level ts)
end

def dump (t : Tree) (d : Detail) : Checked String := t.render d 0

end Tree

end ParseForest
