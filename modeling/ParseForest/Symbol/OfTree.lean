import ParseForest.Symbol.Basic
import ParseForest.Text.Affix
import ParseForest.Tree.Basic

/-!
Symbols spelled by trees: symbol trees say how a symbol is built, and type trees name one either by
such a tree or as a user type. Literals are spelled with their quotes.
-/

namespace ParseForest.Symbol

/-- The text of a quoted literal; a text without quotes stands for itself. -/
def unquoted (s : String) : String :=
  ((Text.between? '"' s).orElse fun _ => Text.between? '\'' s).getD s

def ofSymbolTree? (t : Tree) : Option Symbol := do
  let inner (i : Nat) : Option Symbol := do
    let ⟨s, _⟩ ← t.nodePart? i
    ofSymbolTree? s
  if t.sort = "Sym" then
    match t.constructor with
    | "Nonterminal" => return .named .sort (← t.textArg? 0)
    | "Parametrized" =>
      let parameters ← (← t.listPart? 1).mapM fun ⟨s, _⟩ => ofSymbolTree? s
      return .applied (← t.textArg? 0) parameters
    | "Iter" => return .repeated .plus (← inner 0)
    | "IterStar" => return .repeated .star (← inner 0)
    | "IterSep" => return .separated .plus (← inner 0) [← inner 1]
    | "IterStarSep" => return .separated .star (← inner 0) [← inner 1]
    | "Optional" => return .optional (← inner 0)
    | "Labeled" => return .labelled (← t.textArg? 1) (← inner 0)
    | "Literal" => return .literal (unquoted (← t.textArg? 0))
    | "CaseInsensitiveLiteral" => return .caseless (unquoted (← t.textArg? 0))
    | "Empty" => return .empty
    | _ => none
  else none
termination_by sizeOf t

def lastPart? (name : Tree) : Option String := do
  (← (← name.listArg? 0).getLast?).text?

def ofTypeTree? (t : Tree) : Option Symbol :=
  match t.sort, t.constructor with
  | "Type", "Symbol" => t.nodeArg? 0 >>= ofSymbolTree?
  | "Type", "Bracket" => do
    let ⟨s, _⟩ ← t.nodePart? 0
    ofTypeTree? s
  | "Type", "User" => do
    let ⟨user, _⟩ ← t.nodePart? 0
    let name ← user.nodeArg? 0 >>= lastPart?
    match user.constructor with
    | "Name" => return .named .sort name
    | "Parametric" =>
      let parameters ← (← user.listPart? 1).mapM fun ⟨s, _⟩ => ofTypeTree? s
      return .applied name parameters
    | _ => none
  | _, _ => none
termination_by sizeOf t

end ParseForest.Symbol
