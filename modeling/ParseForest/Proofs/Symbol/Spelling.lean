import ParseForest.Registry.Basic
import ParseForest.Symbol.OfTree

/-!
Symbols as trees. A symbol tree says how a symbol is built, but has no word for start markers, for
named symbols that are no sorts, and for lists with other than one separator; every other symbol is
read from what it is spelled as. Main statements: `ofSymbolTree?_toTree`, `expressible_iff`.
-/

namespace ParseForest

namespace Tree

variable {t : Tree} {i : Nat}

def applied (sort constructor : String) (args : List (Arg Tree)) : Tree :=
  ⟨sort, constructor, none, .zero, .application args⟩

def word (sort text : String) : Tree := ⟨sort, Registry.lexicalName, none, .zero, .lexical text⟩

theorem exists_listPart? {ts : List Tree} (h : t.listArg? i = some ts) {m : Type → Type} [Monad m]
    [LawfulMonad m] {α : Type} (read : Tree → m α) :
    ∃ ps, t.listPart? i = some ps ∧ ps.mapM (fun s => read s.1) = ts.mapM read := by
  rw [← map_listPart?] at h
  obtain ⟨ps, hps, rfl⟩ := Option.map_eq_some_iff.1 h
  exact ⟨ps, hps, (List.mapM_map ..).symm⟩

theorem nodePart?_bind {α : Type} (k : Tree → Option α) :
    (t.nodePart? i >>= fun p => k p.1) = t.nodeArg? i >>= k := by
  rw [← map_nodePart?]
  cases t.nodePart? i <;> rfl

theorem listPart?_bind {α β : Type} (read : Tree → Option α) (k : List α → Option β) :
    (t.listPart? i >>= fun ps => ps.mapM (fun p => read p.1) >>= k) =
      t.listArg? i >>= fun ts => ts.mapM read >>= k := by
  rw [← map_listPart?]
  cases t.listPart? i with
  | none => rfl
  | some ps => exact congrArg (· >>= k) (List.mapM_map ..).symm

end Tree

namespace Symbol

mutual
/-- Symbols that symbol trees can spell. -/
def Expressible : Symbol → Prop
  | .named cls _ => cls = .sort
  | .literal _ | .caseless _ | .empty => True
  | .optional s | .repeated _ s | .labelled _ s => s.Expressible
  | .separated _ s seps => s.Expressible ∧ seps.length = 1 ∧ AllExpressible seps
  | .applied _ ss => AllExpressible ss
  | .start _ => False

def AllExpressible : List Symbol → Prop
  | [] => True
  | s :: ss => s.Expressible ∧ AllExpressible ss
end

def spelledWith (quote : Char) (text : String) : String :=
  String.ofList (quote :: text.toList ++ [quote])

mutual
/-- What is said beyond expressible symbols is left out. -/
def toTree : Symbol → Tree
  | .named _ n => .applied "Sym" "Nonterminal" [.node (.word "Nonterminal" n)]
  | .applied n ss =>
    .applied "Sym" "Parametrized" [.node (.word "Nonterminal" n), .list (toTrees ss)]
  | .repeated .plus s => .applied "Sym" "Iter" [.node s.toTree]
  | .repeated .star s => .applied "Sym" "IterStar" [.node s.toTree]
  | .separated .plus s seps =>
    .applied "Sym" "IterSep" (.node s.toTree :: (toTrees seps).map .node)
  | .separated .star s seps =>
    .applied "Sym" "IterStarSep" (.node s.toTree :: (toTrees seps).map .node)
  | .optional s => .applied "Sym" "Optional" [.node s.toTree]
  | .labelled l s => .applied "Sym" "Labeled" [.node s.toTree, .node (.word "NonterminalLabel" l)]
  | .literal t => .applied "Sym" "Literal" [.node (.word "StringConstant" (spelledWith '"' t))]
  | .caseless t => .applied "Sym" "CaseInsensitiveLiteral"
    [.node (.word "CaseInsensitiveStringConstant" (spelledWith '\'' t))]
  | .empty => .applied "Sym" "Empty" []
  | .start s => s.toTree

def toTrees : List Symbol → List Tree
  | [] => []
  | s :: ss => s.toTree :: toTrees ss
end

theorem unquoted_spelledWith {quote : Char} (h : quote = '"' ∨ quote = '\'') (text : String) :
    unquoted (spelledWith quote text) = text := by
  rcases h with rfl | rfl <;> simp [unquoted, spelledWith, Text.between?]

mutual
theorem ofSymbolTree?_toTree (s : Symbol) (h : s.Expressible) :
    ofSymbolTree? s.toTree = some s := by
  match s with
  | .named cls n =>
    cases h
    rw [toTree, ofSymbolTree?]
    rfl
  | .literal t =>
    rw [toTree, ofSymbolTree?]
    exact congrArg (some ∘ literal) (unquoted_spelledWith (.inl rfl) t)
  | .caseless t =>
    rw [toTree, ofSymbolTree?]
    exact congrArg (some ∘ caseless) (unquoted_spelledWith (.inr rfl) t)
  | .empty =>
    rw [toTree, ofSymbolTree?]
    rfl
  | .optional s =>
    rw [toTree, ofSymbolTree?]
    show (ofSymbolTree? s.toTree >>= fun s => some (optional s)) = _
    rw [ofSymbolTree?_toTree s h]
    rfl
  | .repeated .plus s =>
    rw [toTree, ofSymbolTree?]
    show (ofSymbolTree? s.toTree >>= fun s => some (repeated .plus s)) = _
    rw [ofSymbolTree?_toTree s h]
    rfl
  | .repeated .star s =>
    rw [toTree, ofSymbolTree?]
    show (ofSymbolTree? s.toTree >>= fun s => some (repeated .star s)) = _
    rw [ofSymbolTree?_toTree s h]
    rfl
  | .labelled l s =>
    rw [toTree, ofSymbolTree?]
    show (ofSymbolTree? s.toTree >>= fun s => some (labelled l s)) = _
    rw [ofSymbolTree?_toTree s h]
    rfl
  | .separated r s [sep] =>
    rw [Expressible, AllExpressible] at h
    have hs := ofSymbolTree?_toTree s h.1
    have hsep := ofSymbolTree?_toTree sep h.2.2.1
    have hread : (ofSymbolTree? s.toTree >>= fun s => ofSymbolTree? sep.toTree >>= fun sep =>
        some (separated r s [sep])) = some (separated r s [sep]) := by
      rw [hs, hsep]
      rfl
    cases r
    all_goals
      rw [toTree, ofSymbolTree?]
      exact hread
  | .separated _ _ [] | .separated _ _ (_ :: _ :: _) =>
    rw [Expressible] at h
    cases h.2.1
  | .applied n ss =>
    have hlist : (applied n ss).toTree.listArg? 1 = some (toTrees ss) := rfl
    obtain ⟨ps, hps, hread⟩ := Tree.exists_listPart? hlist ofSymbolTree?
    rw [mapM_ofSymbolTree?_toTrees ss h] at hread
    rw [ofSymbolTree?]
    show (Tree.listPart? _ 1 >>= fun ps => ps.mapM (fun p => ofSymbolTree? p.1) >>= fun ss =>
      some (applied n ss)) = _
    rw [hps]
    exact congrArg (· >>= fun ss => some (applied n ss)) hread

theorem mapM_ofSymbolTree?_toTrees (ss : List Symbol) (h : AllExpressible ss) :
    (toTrees ss).mapM ofSymbolTree? = some ss := by
  match ss with
  | [] => rfl
  | s :: ss =>
    rw [AllExpressible] at h
    simp [toTrees, ofSymbolTree?_toTree s h.1, mapM_ofSymbolTree?_toTrees ss h.2]
end

theorem AllExpressible.of_mapM {α : Type} {read : α → Option Symbol} {as : List α}
    {ss : List Symbol} (h : as.mapM read = some ss)
    (has : ∀ a ∈ as, ∀ s, read a = some s → s.Expressible) : AllExpressible ss := by
  induction as generalizing ss with
  | nil =>
    cases h
    trivial
  | cons a as ih =>
    simp only [List.mapM_cons, Option.bind_eq_bind, Option.pure_def, Option.bind_eq_some_iff,
      Option.some.injEq] at h
    obtain ⟨s, hs, ss, hss, rfl⟩ := h
    obtain ⟨ha, has⟩ := List.forall_mem_cons.1 has
    exact ⟨ha s hs, ih hss has⟩

theorem expressible_of_ofSymbolTree? {t : Tree} {s : Symbol} (h : ofSymbolTree? t = some s) :
    s.Expressible := by
  have inner {i : Nat} {s : Symbol}
      (h : ∃ p, t.nodePart? i = some p ∧ ofSymbolTree? p.1 = some s) : s.Expressible := by
    obtain ⟨p, -, hs⟩ := h
    have := p.2
    exact expressible_of_ofSymbolTree? hs
  rw [ofSymbolTree?] at h
  split at h
  case isFalse => cases h
  case isTrue =>
    simp only [Option.bind_eq_bind, Option.pure_def] at h
    split at h
    case h_12 => cases h
    case h_11 =>
      cases h
      trivial
    all_goals
      simp only [Option.bind_eq_some_iff, Option.some.injEq] at h
    case h_1 | h_9 | h_10 =>
      obtain ⟨_, -, rfl⟩ := h
      trivial
    case h_2 =>
      obtain ⟨ps, -, ss, hss, _, -, rfl⟩ := h
      refine AllExpressible.of_mapM hss fun p _ s hs => ?_
      have := p.2
      exact expressible_of_ofSymbolTree? hs
    case h_3 | h_4 | h_7 =>
      obtain ⟨s, hs, rfl⟩ := h
      rw [Expressible]
      exact inner hs
    case h_5 | h_6 =>
      obtain ⟨s, hs, sep, hsep, rfl⟩ := h
      exact ⟨inner hs, rfl, inner hsep, trivial⟩
    case h_8 =>
      obtain ⟨_, -, s, hs, rfl⟩ := h
      rw [Expressible]
      exact inner hs
termination_by sizeOf t

theorem expressible_iff {s : Symbol} : s.Expressible ↔ ∃ t, ofSymbolTree? t = some s :=
  ⟨fun h => ⟨_, ofSymbolTree?_toTree s h⟩, fun ⟨_, h⟩ => expressible_of_ofSymbolTree? h⟩

def ofUserTree? (user : Tree) : Option Symbol := do
  let name ← user.nodeArg? 0 >>= lastPart?
  match user.constructor with
  | "Name" => return .named .sort name
  | "Parametric" => return .applied name (← (← user.listArg? 1).mapM ofTypeTree?)
  | _ => none

theorem ofTypeTree?_eq (t : Tree) : ofTypeTree? t =
    match t.sort, t.constructor with
    | "Type", "Symbol" => t.nodeArg? 0 >>= ofSymbolTree?
    | "Type", "Bracket" => t.nodeArg? 0 >>= ofTypeTree?
    | "Type", "User" => t.nodeArg? 0 >>= ofUserTree?
    | _, _ => none := by
  rw [ofTypeTree?, eq_comm, ← Tree.nodePart?_bind ofTypeTree?, ← Tree.nodePart?_bind ofUserTree?]
  apply Eq.trans
  · -- Only one side is rewritten: what is left of the two unfolds to the same term.
    simp only [ofUserTree?, ← Tree.listPart?_bind]
    rfl
  · rfl

theorem ofTypeTree?_toTree {s : Symbol} (h : s.Expressible) :
    ofTypeTree? (.applied "Type" "Symbol" [.node s.toTree]) = some s := by
  rw [ofTypeTree?_eq]
  exact ofSymbolTree?_toTree s h

end Symbol

end ParseForest
