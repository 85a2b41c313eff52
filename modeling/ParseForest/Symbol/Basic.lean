import ParseForest.Text.Quoted

/-!
Symbols of a grammar: named classes, literals, regular operators over other symbols, and the field
labels and start markers that may wrap them. Every question about the kind of a symbol, except
whether it is a start marker, looks through field labels.
-/

namespace ParseForest

inductive NameClass where
  | sort
  | lexical
  | keywords
  | layout
  deriving DecidableEq

inductive Repetition where
  | star
  | plus
  deriving DecidableEq

def Repetition.mark : Repetition → String
  | .star => "*"
  | .plus => "+"

inductive Symbol where
  | named (cls : NameClass) (name : String)
  | literal (text : String)
  | caseless (text : String)
  | empty
  | optional (element : Symbol)
  | repeated (repetition : Repetition) (element : Symbol)
  | separated (repetition : Repetition) (element : Symbol) (separators : List Symbol)
  /-- A sort applied to parameters, such as `Foo[Bar]`. -/
  | applied (name : String) (parameters : List Symbol)
  | labelled (label : String) (symbol : Symbol)
  | start (symbol : Symbol)

namespace Symbol

mutual
def same : Symbol → Symbol → Bool
  | .named c n, .named c' n' => c == c' && n == n'
  | .literal t, .literal t' => t == t'
  | .caseless t, .caseless t' => t == t'
  | .empty, .empty => true
  | .optional s, .optional s' => same s s'
  | .repeated r s, .repeated r' s' => r == r' && same s s'
  | .separated r s ss, .separated r' s' ss' => r == r' && same s s' && sameAll ss ss'
  | .applied n ss, .applied n' ss' => n == n' && sameAll ss ss'
  | .labelled l s, .labelled l' s' => l == l' && same s s'
  | .start s, .start s' => same s s'
  | _, _ => false

def sameAll : List Symbol → List Symbol → Bool
  | [], [] => true
  | s :: ss, s' :: ss' => same s s' && sameAll ss ss'
  | _, _ => false
end

mutual
theorem same_iff : ∀ s t : Symbol, same s t = true ↔ s = t
  | .named .., t => by cases t <;> simp [same]
  | .literal _, t => by cases t <;> simp [same]
  | .caseless _, t => by cases t <;> simp [same]
  | .empty, t => by cases t <;> simp [same]
  | .optional s, t => by cases t <;> simp [same, same_iff s]
  | .repeated _ s, t => by cases t <;> simp [same, same_iff s]
  | .separated _ s ss, t => by cases t <;> simp [same, same_iff s, sameAll_iff ss, and_assoc]
  | .applied _ ss, t => by cases t <;> simp [same, sameAll_iff ss]
  | .labelled _ s, t => by cases t <;> simp [same, same_iff s]
  | .start s, t => by cases t <;> simp [same, same_iff s]

theorem sameAll_iff : ∀ ss ts : List Symbol, sameAll ss ts = true ↔ ss = ts
  | [], ts => by cases ts <;> simp [sameAll]
  | s :: ss, ts => by cases ts <;> simp [sameAll, same_iff s, sameAll_iff ss]
end

instance : DecidableEq Symbol := fun s t => decidable_of_iff _ (same_iff s t)

def unlabelled : Symbol → Symbol
  | .labelled _ s => unlabelled s
  | s => s

/-- Name of a named symbol, looked up through field labels and start markers. -/
def name? : Symbol → Option String
  | .named _ n | .applied n _ => some n
  | .labelled _ s | .start s => name? s
  | _ => none

def isLiteral (s : Symbol) : Bool := s.unlabelled matches .literal _
def isCaseless (s : Symbol) : Bool := s.unlabelled matches .caseless _
def isLayout (s : Symbol) : Bool := s.unlabelled matches .named .layout _
def isEmpty (s : Symbol) : Bool := s.unlabelled matches .empty
def isLexical (s : Symbol) : Bool := s.unlabelled matches .named .lexical _ | .named .keywords _
def isOptional (s : Symbol) : Bool := s.unlabelled matches .optional _
def isStart (s : Symbol) : Bool := s matches .start _
def isList (s : Symbol) : Bool := s.unlabelled matches .repeated .. | .separated ..

def isNonEmptyList (s : Symbol) : Bool :=
  s.unlabelled matches .repeated .plus _ | .separated .plus _ _

def isNonterminal (s : Symbol) : Bool :=
  s.unlabelled matches .named .sort _ | .named .lexical _ | .named .keywords _ | .applied ..

def element? (s : Symbol) : Option Symbol :=
  match s.unlabelled with
  | .optional e | .repeated _ e | .separated _ e _ => some e
  | _ => none

def separators (s : Symbol) : List Symbol :=
  match s.unlabelled with
  | .separated _ _ seps => seps
  | _ => []

/-- The separators that stand in the text, without the layout around them. -/
def visibleSeparators (s : Symbol) : List Symbol := s.separators.filter (!·.isLayout)

mutual
def render : Symbol → String
  | .named _ n => n
  | .literal t => Text.quoted t
  | .caseless t => s!"'{t}'"
  | .empty => "()"
  | .optional s => s!"{render s}?"
  | .repeated r s => render s ++ r.mark
  | .separated r s seps => "\x7b" ++ render s ++ renderSeparators seps ++ "\x7d" ++ r.mark
  | .applied n ps => n ++ "[" ++ ", ".intercalate (renderAll ps) ++ "]"
  | .labelled l s => s!"{render s} {l}"
  | .start s => s!"start[{render s}]"

def renderAll : List Symbol → List String
  | [] => []
  | s :: ss => render s :: renderAll ss

def renderSeparators : List Symbol → String
  | [] => ""
  | s :: ss => (if s.isLayout then "" else " " ++ render s) ++ renderSeparators ss
end

end Symbol

end ParseForest
