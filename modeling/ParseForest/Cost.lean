import ParseForest.Breach

/-!
Costs of derivations and the choice between them. The cheaper of two derivations has fewer
injections, then less text inside quoted fragments, then fewer fragments, then fewer holes. An open
ambiguity is recorded in a cost but does not count in the comparison.
-/

namespace ParseForest

structure Cost where
  ambiguous : Bool
  /-- Derivations inside quoted fragments that only rename what they hold. -/
  injections : Nat
  holes : Nat
  fragments : Nat
  fragmentSize : Nat
  deriving DecidableEq

namespace Cost

def zero : Cost := ⟨false, 0, 0, 0, 0⟩

def add (a b : Cost) : Checked Cost := do
  return {
    ambiguous := a.ambiguous || b.ambiguous
    injections := ← addWord a.injections b.injections
    holes := ← addWord a.holes b.holes
    fragments := ← addWord a.fragments b.fragments
    fragmentSize := ← addWord a.fragmentSize b.fragmentSize }

def sum (costs : List Cost) : Checked Cost := costs.foldlM add zero

/-- Compares two derivations of one cluster; the smaller is preferred. -/
def rank (a b : Cost) : Ordering :=
  (compare a.injections b.injections).then <|
    (compare a.fragmentSize b.fragmentSize).then <|
      (compare a.fragments b.fragments).then <| compare a.holes b.holes

def withAmbiguous (c : Cost) (ambiguous : Bool) : Cost := { c with ambiguous }

def renderCount (name : String) (count : Nat) : List String :=
  if count = 0 then [] else [s!"{name}={count}"]

def render (c : Cost) : String :=
  let parts := (if c.ambiguous then ["ambiguous"] else []) ++ renderCount "inj" c.injections
    ++ renderCount "holes" c.holes ++ renderCount "fragments" c.fragments
    ++ renderCount "size" c.fragmentSize
  if parts.isEmpty then "-" else " ".intercalate parts

end Cost

/-- The cheapest of the candidates offered so far, in the order of their offers, and the cost of the
first of them. -/
structure Survivors (α : Type) where
  best : Option Cost
  items : List α

namespace Survivors

def none {α : Type} : Survivors α := ⟨.none, []⟩

def offer {α : Type} (s : Survivors α) (item : α) (cost : Cost) : Survivors α :=
  match s.best with
  | .none => ⟨some cost, [item]⟩
  | some best => match cost.rank best with
    | .lt => ⟨some cost, [item]⟩
    | .eq => ⟨some best, s.items ++ [item]⟩
    | .gt => s

def cost {α : Type} (s : Survivors α) : Cost := s.best.getD .zero

def count {α : Type} (s : Survivors α) : Nat := s.items.length

end Survivors

end ParseForest
