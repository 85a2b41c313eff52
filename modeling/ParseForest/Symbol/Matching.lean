import ParseForest.Symbol.Basic

/-!
Matching of symbols as a quoted pattern sees them: a declared type names a nonterminal without
saying how it was defined, and field labels do not count. Two symbols match when they have the same
outline. Main statement: `matching_iff`.
-/

namespace ParseForest

/-- Sorts, lexical classes and keyword classes of one name are the same nonterminal. -/
def NameClass.outline : NameClass → NameClass
  | .layout => .layout
  | _ => .sort

namespace Symbol

mutual
/-- What matching sees of a symbol. Separators are kept as they are, the layout among them
left out. -/
def outline : Symbol → Symbol
  | .named c n => .named c.outline n
  | .literal t => .literal t
  | .caseless t => .caseless t
  | .empty => .empty
  | .optional s => .optional (outline s)
  | .repeated r s => .repeated r (outline s)
  | .separated r s seps => .separated r (outline s) (seps.filter (!·.isLayout))
  | .applied n ps => .applied n (outlines ps)
  | .labelled _ s => outline s
  | .start s => .start (outline s)

def outlines : List Symbol → List Symbol
  | [] => []
  | s :: ss => outline s :: outlines ss
end

theorem outlines_eq_map (ss : List Symbol) : outlines ss = ss.map outline := by
  induction ss with
  | nil => rfl
  | cons s ss ih => simp [outlines, ih]

def matching (s t : Symbol) : Bool := s.outline == t.outline

theorem matching_iff {s t : Symbol} : s.matching t = true ↔ s.outline = t.outline := by
  simp [matching]

/-- A declared symbol fits an expected one if they match, or if one is the element of the other. -/
def fits (declared expected : Symbol) : Bool :=
  declared.matching expected
    || declared.element?.any (·.matching expected)
    || expected.element?.any (·.matching declared)

end Symbol

end ParseForest
