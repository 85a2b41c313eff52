import ParseForest.Cost
import ParseForest.Grammar.Basic
import ParseForest.Span

/-!
Abstract trees. A node has a sort and a constructor, the span it was built from, its cost, and one
of five bodies: arguments, the text of a token, tied alternatives, or, inside a quoted fragment, the
image of a forest node, with children or without.
-/

namespace ParseForest

inductive ArgKind where
  | node
  | list
  | text
  deriving DecidableEq

def ArgKind.render : ArgKind → String
  | .node => "node"
  | .list => "list"
  | .text => "text"

inductive Arg (α : Type) where
  | node (tree : α)
  | list (items : List α)
  | text (text : String)

namespace Arg

variable {α : Type}

def kind : Arg α → ArgKind
  | node _ => .node
  | list _ => .list
  | text _ => .text

def node? : Arg α → Option α
  | node t => some t
  | _ => none

def list? : Arg α → Option (List α)
  | list ts => some ts
  | _ => none

def text? : Arg α → Option String
  | text s => some s
  | _ => none

def trees : Arg α → List α
  | node t => [t]
  | list ts => ts
  | text _ => []

end Arg

inductive Shape where
  | derivation (prod : ProdId)
  | list (prod : ProdId)
  | optional (prod : ProdId)
  | ambiguity
  deriving DecidableEq

inductive Leaf where
  | lexical (prod : ProdId) (text : String)
  | literal (prod : ProdId) (text : String)
  | char (code : Nat)
  deriving DecidableEq

inductive Body (α : Type) where
  | application (args : List (Arg α))
  | lexical (text : String)
  | ambiguity (alternatives : List α)
  | image (shape : Shape) (children : List α)
  | token (leaf : Leaf)

namespace Body

variable {α : Type}

def subtrees : Body α → List α
  | application args => args.flatMap Arg.trees
  | lexical _ => []
  | ambiguity alts => alts
  | image _ cs => cs
  | token _ => []

def isImage : Body α → Bool
  | image .. | token _ => true
  | _ => false

def isAmbiguity : Body α → Bool
  | ambiguity _ | image .ambiguity _ => true
  | _ => false

def imageConstructor : Body α → String
  | image (.derivation _) _ => "ConcreteAppl"
  | image (.list _) _ => "ConcreteList"
  | image (.optional _) _ => "ConcreteOptional"
  | image .ambiguity _ => "ConcreteAmb"
  | token (.lexical ..) => "ConcreteLexical"
  | token (.literal ..) => "ConcreteLiteral"
  | token (.char _) => "ConcreteChar"
  | _ => ""

end Body

structure Tree where
  sort : String
  constructor : String
  span : Option Span
  cost : Cost
  body : Body Tree

namespace Tree

def image (sort : String) (span : Option Span) (body : Body Tree) (cost : Cost) : Tree :=
  ⟨sort, body.imageConstructor, span, cost, body⟩

def is (t : Tree) (sort constructor : String) : Bool :=
  t.sort == sort && t.constructor == constructor

def withCost (t : Tree) (cost : Cost) : Tree := { t with cost }

def args (t : Tree) : List (Arg Tree) :=
  match t.body with
  | .application args => args
  | _ => []

def arg? (t : Tree) (i : Nat) : Option (Arg Tree) := t.args[i]?

def nodeArg? (t : Tree) (i : Nat) : Option Tree := t.arg? i >>= Arg.node?

def listArg? (t : Tree) (i : Nat) : Option (List Tree) := t.arg? i >>= Arg.list?

def text? (t : Tree) : Option String :=
  match t.body with
  | .lexical s | .token (.lexical _ s) | .token (.literal _ s) => some s
  | _ => none

def textArg? (t : Tree) (i : Nat) : Option String := t.nodeArg? i >>= text?

def alternatives (t : Tree) : List Tree :=
  match t.body with
  | .ambiguity alts | .image .ambiguity alts => alts
  | _ => []

def isAmbiguity (t : Tree) : Bool := t.body.isAmbiguity

def isImage (t : Tree) : Bool := t.body.isImage

theorem sizeOf_lt_of_mem_trees {a : Arg Tree} {s : Tree} (h : s ∈ a.trees) :
    sizeOf s < sizeOf a := by
  cases a with
  | node t => cases List.mem_singleton.1 h; simp
  | list ts =>
    have : s ∈ ts := h
    have := List.sizeOf_lt_of_mem this
    simp
    omega
  | text _ => cases h

theorem sizeOf_lt_of_mem_args {t : Tree} {a : Arg Tree} (h : a ∈ t.args) :
    sizeOf a < sizeOf t := by
  obtain ⟨sort, constructor, span, cost, body⟩ := t
  cases body with
  | application args =>
    have : a ∈ args := h
    have := List.sizeOf_lt_of_mem this
    simp
    omega
  | _ => cases h

theorem sizeOf_lt_of_nodeArg? {t s : Tree} {i : Nat} (h : t.nodeArg? i = some s) :
    sizeOf s < sizeOf t := by
  obtain ⟨a, ha, hs⟩ := Option.bind_eq_some_iff.1 h
  refine Nat.lt_trans (sizeOf_lt_of_mem_trees ?_) (sizeOf_lt_of_mem_args (List.mem_of_getElem? ha))
  cases a <;> simp_all [Arg.node?, Arg.trees]

theorem sizeOf_lt_of_listArg? {t s : Tree} {i : Nat} {ts : List Tree}
    (h : t.listArg? i = some ts) (hs : s ∈ ts) : sizeOf s < sizeOf t := by
  obtain ⟨a, ha, hts⟩ := Option.bind_eq_some_iff.1 h
  refine Nat.lt_trans (sizeOf_lt_of_mem_trees ?_) (sizeOf_lt_of_mem_args (List.mem_of_getElem? ha))
  cases a <;> simp_all [Arg.list?, Arg.trees]

abbrev Part (t : Tree) : Type := { s : Tree // sizeOf s < sizeOf t }

def nodePart? (t : Tree) (i : Nat) : Option t.Part :=
  match h : t.nodeArg? i with
  | some s => some ⟨s, sizeOf_lt_of_nodeArg? h⟩
  | none => none

def listPart? (t : Tree) (i : Nat) : Option (List t.Part) :=
  match h : t.listArg? i with
  | some ts => some (ts.attach.map fun s => ⟨s.1, sizeOf_lt_of_listArg? h s.2⟩)
  | none => none

theorem map_nodePart? (t : Tree) (i : Nat) : (t.nodePart? i).map (·.1) = t.nodeArg? i := by
  unfold nodePart?
  split <;> simp_all

theorem map_listPart? (t : Tree) (i : Nat) :
    (t.listPart? i).map (·.map (·.1)) = t.listArg? i := by
  unfold listPart?
  split
  next ts h =>
    rw [Option.map_some, List.map_map]
    exact (congrArg some (List.attach_map_subtype_val ts)).trans h.symm
  next h => simp [h]

mutual
def same : Tree → Tree → Bool
  | ⟨s, c, p, k, b⟩, ⟨s', c', p', k', b'⟩ =>
    s == s' && c == c' && p == p' && k == k' && sameBody b b'
termination_by structural t => t

def sameBody : Body Tree → Body Tree → Bool
  | .application as, .application bs => sameArgs as bs
  | .lexical s, .lexical s' => s == s'
  | .ambiguity ts, .ambiguity ts' => sameTrees ts ts'
  | .image h ts, .image h' ts' => h == h' && sameTrees ts ts'
  | .token l, .token l' => l == l'
  | _, _ => false
termination_by structural t => t

def sameArgs : List (Arg Tree) → List (Arg Tree) → Bool
  | [], [] => true
  | a :: as, b :: bs => sameArg a b && sameArgs as bs
  | _, _ => false
termination_by structural t => t

def sameArg : Arg Tree → Arg Tree → Bool
  | .node t, .node t' => same t t'
  | .list ts, .list ts' => sameTrees ts ts'
  | .text s, .text s' => s == s'
  | _, _ => false
termination_by structural t => t

def sameTrees : List Tree → List Tree → Bool
  | [], [] => true
  | t :: ts, t' :: ts' => same t t' && sameTrees ts ts'
  | _, _ => false
termination_by structural t => t
end

mutual
theorem same_iff : ∀ t u : Tree, same t u = true ↔ t = u
  | ⟨s, c, p, k, b⟩, ⟨s', c', p', k', b'⟩ => by simp [same, sameBody_iff b, and_assoc]

theorem sameBody_iff : ∀ b c : Body Tree, sameBody b c = true ↔ b = c
  | .application as, c => by cases c <;> simp [sameBody, sameArgs_iff as]
  | .lexical _, c => by cases c <;> simp [sameBody]
  | .ambiguity ts, c => by cases c <;> simp [sameBody, sameTrees_iff ts]
  | .image _ ts, c => by cases c <;> simp [sameBody, sameTrees_iff ts]
  | .token _, c => by cases c <;> simp [sameBody]

theorem sameArgs_iff : ∀ as bs : List (Arg Tree), sameArgs as bs = true ↔ as = bs
  | [], bs => by cases bs <;> simp [sameArgs]
  | a :: as, bs => by cases bs <;> simp [sameArgs, sameArg_iff a, sameArgs_iff as]

theorem sameArg_iff : ∀ a b : Arg Tree, sameArg a b = true ↔ a = b
  | .node t, b => by cases b <;> simp [sameArg, same_iff t]
  | .list ts, b => by cases b <;> simp [sameArg, sameTrees_iff ts]
  | .text _, b => by cases b <;> simp [sameArg]

theorem sameTrees_iff : ∀ ts us : List Tree, sameTrees ts us = true ↔ ts = us
  | [], us => by cases us <;> simp [sameTrees]
  | t :: ts, us => by cases us <;> simp [sameTrees, same_iff t, sameTrees_iff ts]
end

instance : DecidableEq Tree := fun t u => decidable_of_iff _ (same_iff t u)

end Tree

def Arg.cost : Arg Tree → Checked Cost
  | .node t => .ok t.cost
  | .list ts => Cost.sum (ts.map Tree.cost)
  | .text _ => .ok .zero

end ParseForest
