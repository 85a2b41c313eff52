/-!
Broken contracts: an identifier that the forest or grammar never issued, a node shape that no
parser hands over, or a number past the 32-bit range. They stop the operation that meets them.
-/

namespace ParseForest

inductive Breach where
  | missingNode (id nodes : Nat)
  | missingProduction (id : Nat) (grammar : String)
  | noAlternative
  | optionalChildren (count : Nat)
  | overflow
  | reversedSpan (start stop : Nat)
  | emptyName
  | endlessDerivation
  deriving DecidableEq

def Breach.message : Breach → String
  | .missingNode id nodes =>
    s!"Forest: node #{id} not found ({nodes} nodes; ids must come from the same forest)"
  | .missingProduction id grammar =>
    s!"Grammar: production {id} not found in `{grammar}` " ++
      "(forest nodes must reference productions of their own grammar)"
  | .noAlternative => "Forest: ambiguity node needs at least one alternative"
  | .optionalChildren count => s!"Forest: optional node takes at most one child, got {count}"
  | .overflow => "attempt to add with overflow"
  | .reversedSpan start stop => s!"span start {start} is after end {stop}"
  | .emptyName => "QualifiedName: needs at least one part"
  | .endlessDerivation => "Forest: derivation contains itself"

abbrev Checked := Except Breach

/-- Counts and offsets stay below this bound; identifiers are not bounded. -/
def wordLimit : Nat := 4294967296

def addWord (a b : Nat) : Checked Nat :=
  if a + b < wordLimit then .ok (a + b) else .error .overflow

theorem addWord_eq_ok_iff {a b c : Nat} : addWord a b = .ok c ↔ a + b < wordLimit ∧ c = a + b := by
  unfold addWord
  split
  · grind
  · grind

end ParseForest
