import ParseForest.Symbol.Basic

/-! Productions of a grammar: a defined symbol, the symbols that make it up, and the constructor
that names the derivation. -/

namespace ParseForest

structure Production where
  defines : Symbol
  constructor : Option String
  symbols : List Symbol
  /-- Token-level, whatever symbol is defined. -/
  lexical : Bool
  deriving DecidableEq

namespace Production

def sortName (p : Production) : String := p.defines.name?.getD ""

def arity (p : Production) : Nat := p.symbols.length

def isLexical (p : Production) : Bool := p.lexical || p.defines.isLexical
def isLiteral (p : Production) : Bool := p.defines.isLiteral
def isCaseless (p : Production) : Bool := p.defines.isCaseless
def isLayout (p : Production) : Bool := p.defines.isLayout
def isEmpty (p : Production) : Bool := p.defines.isEmpty
def isList (p : Production) : Bool := p.defines.isList
def isOptional (p : Production) : Bool := p.defines.isOptional

/-- A production of one nonterminal, which only renames what it derives. -/
def isInjection (p : Production) : Bool :=
  !p.isLexical && match p.symbols with
    | [s] => s.isNonterminal
    | _ => false

def render (p : Production) : String :=
  p.defines.render ++ (p.constructor.elim "" ("." ++ ·)) ++ " =" ++
    String.join (p.symbols.map (" " ++ ·.render))

end Production

end ParseForest
