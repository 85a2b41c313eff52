import ParseForest.Forest.Basic

/-!
What happens while a forest is read: one event for each decision, and one for each node that is
entered.
-/

namespace ParseForest

inductive Memory where
  | clusters
  | derivations
  | tokens
  | fragments
  deriving DecidableEq

def Memory.label : Memory → String
  | clusters => "amb"
  | derivations => "sort"
  | tokens => "lex"
  | fragments => "lift"

inductive Event where
  | enter (node : NodeId) (sort : String)
  | hit (node : NodeId) (memory : Memory)
  | drop (node : NodeId)
  | rank (node : NodeId) (alternatives survivors : Nat)
  | lift (node : NodeId)
  | rejectHole (node : NodeId)
  deriving DecidableEq

namespace Event

def render : Event → String
  | enter node sort => s!"enter {renderNodeId node} {sort}"
  | hit node memory => s!"hit   {renderNodeId node} {memory.label}"
  | drop node => s!"drop  {renderNodeId node}"
  | rank node alternatives survivors =>
    s!"amb   {renderNodeId node} {alternatives} -> {survivors}"
  | lift node => s!"lift  {renderNodeId node}"
  | rejectHole node => s!"hole  {renderNodeId node} rejected"

def isDecision : Event → Bool
  | enter .. => false
  | _ => true

end Event

end ParseForest
