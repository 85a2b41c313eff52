import ParseForest.Symbol.Basic
import ParseForest.Types.Builtin

/-!
Resolved types. A data type or a synonym carries the parameters it is applied to, and a synonym also
the type it stands for.
-/

namespace ParseForest

inductive Ty where
  | builtin (basic : Builtin)
  | structured (kind : Builtin) (args : List Ty)
  | data (name : String) (parameters : List Ty)
  | synonym (name : String) (parameters : List Ty) (aliased : Ty)
  | parameter (name : String) (bound : Ty)
  | nonterminal (symbol : Symbol)

namespace Ty

/-- The type of all values, which bounds a variable without a bound of its own. -/
def value : Ty := .builtin .value

mutual
def same : Ty → Ty → Bool
  | .builtin b, .builtin b' => b == b'
  | .structured k ts, .structured k' ts' => k == k' && sameAll ts ts'
  | .data n ts, .data n' ts' => n == n' && sameAll ts ts'
  | .synonym n ts t, .synonym n' ts' t' => n == n' && sameAll ts ts' && same t t'
  | .parameter n t, .parameter n' t' => n == n' && same t t'
  | .nonterminal s, .nonterminal s' => s == s'
  | _, _ => false
termination_by structural t => t

def sameAll : List Ty → List Ty → Bool
  | [], [] => true
  | t :: ts, t' :: ts' => same t t' && sameAll ts ts'
  | _, _ => false
termination_by structural t => t
end

mutual
theorem same_iff : ∀ t u : Ty, same t u = true ↔ t = u
  | .builtin _, u => by cases u <;> simp [same]
  | .structured _ ts, u => by cases u <;> simp [same, sameAll_iff ts]
  | .data _ ts, u => by cases u <;> simp [same, sameAll_iff ts]
  | .synonym _ ts t, u => by cases u <;> simp [same, sameAll_iff ts, same_iff t, and_assoc]
  | .parameter _ t, u => by cases u <;> simp [same, same_iff t]
  | .nonterminal _, u => by cases u <;> simp [same]

theorem sameAll_iff : ∀ ts us : List Ty, sameAll ts us = true ↔ ts = us
  | [], us => by cases us <;> simp [sameAll]
  | t :: ts, us => by cases us <;> simp [sameAll, same_iff t, sameAll_iff ts]
end

instance : DecidableEq Ty := fun t u => decidable_of_iff _ (same_iff t u)

def declaredName? : Ty → Option String
  | .data n _ | .synonym n _ _ => some n
  | _ => none

def parameters : Ty → List Ty
  | .data _ ps | .synonym _ ps _ => ps
  | _ => []

def instantiate (t : Ty) (parameters : List Ty) : Ty :=
  match t with
  | .data n _ => .data n parameters
  | .synonym n _ aliased => .synonym n parameters aliased
  | t => t

def bracketed (parts : List String) : String := "[" ++ ", ".intercalate parts ++ "]"

def bracketedArgs (parts : List String) : String := if parts.isEmpty then "" else bracketed parts

mutual
def render : Ty → String
  | .builtin b => b.keyword
  | .structured k ts => k.keyword ++ bracketedArgs (renderAll ts)
  | .data n ts => n ++ bracketedArgs (renderAll ts)
  | .synonym n ts _ => n ++ bracketedArgs (renderAll ts)
  | .parameter n bound => if bound = value then s!"&{n}" else s!"&{n} <: {render bound}"
  | .nonterminal s => s.render

def renderAll : List Ty → List String
  | [] => []
  | t :: ts => render t :: renderAll ts
end

end Ty

end ParseForest
