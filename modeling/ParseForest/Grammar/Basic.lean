import ParseForest.Breach
import ParseForest.Production

/-!
Grammars: a named table of productions that only grows. A production is stored once, and its place
in the table is its identifier.
-/

namespace ParseForest

abbrev ProdId := Nat

structure Grammar where
  name : String
  productions : List Production
  nodup : productions.Nodup

namespace Grammar

def empty (name : String) : Grammar := ⟨name, [], .nil⟩

/-- The grammar with a production, and the identifier of that production; one already present
keeps its place. -/
def add (g : Grammar) (p : Production) : Grammar × ProdId :=
  if h : p ∈ g.productions then
    (g, g.productions.idxOf p)
  else
    (⟨g.name, g.productions ++ [p], by
      refine List.nodup_append.2 ⟨g.nodup, by simp, ?_⟩
      rintro a ha b hb rfl
      exact h (List.mem_singleton.1 hb ▸ ha)⟩, g.productions.length)

def get? (g : Grammar) (id : ProdId) : Option Production := g.productions[id]?

def production (g : Grammar) (id : ProdId) : Checked Production :=
  match g.get? id with
  | some p => .ok p
  | none => .error (.missingProduction id g.name)

def size (g : Grammar) : Nat := g.productions.length

theorem get?_add_self (g : Grammar) (p : Production) : (g.add p).1.get? (g.add p).2 = some p := by
  unfold add get?
  split
  next h =>
    have h := List.idxOf_lt_length_of_mem h
    simp [List.getElem?_eq_getElem h, List.getElem_idxOf h]
  next => simp

theorem get?_add_of_lt {g : Grammar} {id : ProdId} (p : Production) (h : id < g.size) :
    (g.add p).1.get? id = g.get? id := by
  unfold add get?
  split
  · rfl
  · exact List.getElem?_append_left h

end Grammar

end ParseForest
