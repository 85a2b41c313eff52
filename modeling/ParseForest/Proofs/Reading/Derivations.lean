import Mathlib.Data.List.Forall2
import ParseForest.Build.Selection
import ParseForest.Proofs.Success

/-!
Complete derivations of a forest and the trees they spell. A derivation follows the arguments of
constructors, the elements of lists and what optionals hold, chooses one alternative at every
cluster, and ends at tokens. There is none through a cycle or through recovered text.
-/

namespace ParseForest

open Success

namespace Forest

/-- The part that a node takes in its parent. -/
inductive Fits (f : Forest) : Node → Slot → Prop
  | run {prod : ProdId} {cs : List NodeId} {isPartial : Bool} :
    Fits f (.list prod cs isPartial) .run
  | choice {first : NodeId} {rest : List NodeId} (list : f.isList first = .ok true) :
    Fits f (.ambiguity (first :: rest)) .choice
  | optional {prod : ProdId} {held : Option NodeId} : Fits f (.optional prod held) (.optional held)
  | single {node : Node} (notList : node.isList = false)
    (notOptional : ∀ prod held, node ≠ .optional prod held) : Fits f node .single

theorem fits_of_slot {f : Forest} {id : NodeId} {s : Slot} (h : f.slot id = .ok s) :
    ∃ node, f.node id = .ok node ∧ f.Fits node s := by
  obtain ⟨node, hn, h⟩ := bind_eq_ok.1 h
  refine ⟨node, hn, ?_⟩
  cases node with
  | list prod cs isPartial =>
    cases pure_eq_ok.1 h
    exact .run
  | optional prod held =>
    cases pure_eq_ok.1 h
    exact .optional
  | ambiguity alts =>
    cases alts with
    | nil =>
      cases pure_eq_ok.1 h
      exact .single rfl nofun
    | cons first rest =>
      obtain ⟨isList, hl, h⟩ := bind_eq_ok.1 h
      cases isList with
      | true =>
        cases pure_eq_ok.1 h
        exact .choice hl
      | false =>
        cases pure_eq_ok.1 h
        exact .single rfl nofun
  | _ =>
    cases pure_eq_ok.1 h
    exact .single rfl nofun

end Forest

namespace Builder

variable (b : Builder)

mutual
/-- A complete derivation of the node spells the tree, costs left out. -/
inductive Derives : NodeId → Tree → Prop
  | token {n : NodeId} {prod : ProdId} {cs : List NodeId} {sort text : String} {span : Option Span}
    (node : b.forest.node n = .ok (.derivation prod cs))
    (lexical : b.forest.isLexical n = .ok true) (sortKey : b.sortKey n = .ok sort)
    (spanned : b.forest.span n = .ok span) (yield : b.forest.yieldText n = .ok text) :
    Derives n ⟨sort, Registry.lexicalName, span, .zero, .lexical text⟩
  | derivation {n : NodeId} {prod : ProdId} {cs args : List NodeId} {sort name : String}
    {span : Option Span} {as : List (Arg Tree)}
    (node : b.forest.node n = .ok (.derivation prod cs))
    (contextFree : b.forest.isLexical n = .ok false) (sortKey : b.sortKey n = .ok sort)
    (named : b.forest.constructor? n = .ok (some name)) (spanned : b.forest.span n = .ok span)
    (arguments : b.arguments n = .ok args) (h : List.Forall₂ DerivesArg args as) :
    Derives n ⟨sort, Conventions.constructorKey name, span, .zero, .application as⟩
  | choice {n alt : NodeId} {alts : List NodeId} {u : Tree}
    (node : b.forest.node n = .ok (.ambiguity alts)) (mem : alt ∈ alts) (h : Derives alt u) :
    Derives n u

inductive DerivesArg : NodeId → Arg Tree → Prop
  | node {n : NodeId} {u : Tree} (h : Derives n u) : DerivesArg n (.node u)
  | list {n : NodeId} {us : List Tree} (h : DerivesRun n us) : DerivesArg n (.list us)
  | absent {n : NodeId} {prod : ProdId} (node : b.forest.node n = .ok (.optional prod none)) :
    DerivesArg n (.list [])
  | present {n held : NodeId} {prod : ProdId} {u : Tree}
    (node : b.forest.node n = .ok (.optional prod (some held))) (h : Derives held u) :
    DerivesArg n (.list [u])

inductive DerivesRun : NodeId → List Tree → Prop
  | items {n : NodeId} {prod : ProdId} {cs es : List NodeId} {isPartial : Bool}
    {uss : List (List Tree)} (node : b.forest.node n = .ok (.list prod cs isPartial))
    (elements : b.elements n = .ok es) (h : List.Forall₂ DerivesPart es uss) :
    DerivesRun n uss.flatten

inductive DerivesPart : NodeId → List Tree → Prop
  | item {n : NodeId} {u : Tree} (h : Derives n u) : DerivesPart n [u]
  | run {n : NodeId} {us : List Tree} (h : DerivesRun n us) : DerivesPart n us
end

variable {b} {n : NodeId}

theorem derives_of_ambiguity {alts : List NodeId} (hn : b.forest.node n = .ok (.ambiguity alts))
    {u : Tree} : b.Derives n u ↔ ∃ alt ∈ alts, b.Derives alt u := by
  constructor
  · intro h
    cases h with
    | token node => cases hn.symm.trans node
    | derivation node => cases hn.symm.trans node
    | choice node mem h =>
      cases hn.symm.trans node
      exact ⟨_, mem, h⟩
  · rintro ⟨alt, mem, h⟩
    exact .choice hn mem h

theorem derives_of_token {prod : ProdId} {cs : List NodeId} {sort text : String}
    {span : Option Span} (hn : b.forest.node n = .ok (.derivation prod cs))
    (hl : b.forest.isLexical n = .ok true) (hk : b.sortKey n = .ok sort)
    (hs : b.forest.span n = .ok span) (ht : b.forest.yieldText n = .ok text) {u : Tree} :
    b.Derives n u ↔ u = ⟨sort, Registry.lexicalName, span, .zero, .lexical text⟩ := by
  constructor
  · intro h
    cases h with
    | token _ _ sortKey spanned yield =>
      cases hk.symm.trans sortKey
      cases hs.symm.trans spanned
      cases ht.symm.trans yield
      rfl
    | derivation _ contextFree => cases hl.symm.trans contextFree
    | choice node => cases hn.symm.trans node
  · rintro rfl
    exact .token hn hl hk hs ht

theorem derives_of_derivation {prod : ProdId} {cs args : List NodeId} {sort name : String}
    {span : Option Span} (hn : b.forest.node n = .ok (.derivation prod cs))
    (hl : b.forest.isLexical n = .ok false) (hk : b.sortKey n = .ok sort)
    (hc : b.forest.constructor? n = .ok (some name)) (hs : b.forest.span n = .ok span)
    (ha : b.arguments n = .ok args) {u : Tree} :
    b.Derives n u ↔ ∃ as, List.Forall₂ b.DerivesArg args as ∧
      u = ⟨sort, Conventions.constructorKey name, span, .zero, .application as⟩ := by
  constructor
  · intro h
    cases h with
    | token _ lexical => cases hl.symm.trans lexical
    | derivation _ _ sortKey named spanned arguments h =>
      cases hk.symm.trans sortKey
      cases hc.symm.trans named
      cases hs.symm.trans spanned
      cases ha.symm.trans arguments
      exact ⟨_, h, rfl⟩
    | choice node => cases hn.symm.trans node
  · rintro ⟨as, h, rfl⟩
    exact .derivation hn hl hk hc hs ha h

theorem not_derives {node : Node} (hn : b.forest.node n = .ok node)
    (hd : node.isDerivation = false) (ha : node.isAmbiguity = false) (u : Tree) :
    ¬ b.Derives n u := by
  intro h
  cases h with
  | token node =>
    cases hn.symm.trans node
    cases hd
  | derivation node =>
    cases hn.symm.trans node
    cases hd
  | choice node =>
    cases hn.symm.trans node
    cases ha

theorem derivesRun_iff {prod : ProdId} {cs es : List NodeId} {isPartial : Bool}
    (hn : b.forest.node n = .ok (.list prod cs isPartial)) (he : b.elements n = .ok es)
    {us : List Tree} :
    b.DerivesRun n us ↔ ∃ uss, List.Forall₂ b.DerivesPart es uss ∧ us = uss.flatten := by
  constructor
  · rintro ⟨_, elements, h⟩
    cases he.symm.trans elements
    exact ⟨_, h, rfl⟩
  · rintro ⟨uss, h, rfl⟩
    exact .items hn he h

theorem not_derivesRun {node : Node} (hn : b.forest.node n = .ok node)
    (hl : node.isList = false) (us : List Tree) : ¬ b.DerivesRun n us := by
  rintro ⟨node, _, _⟩
  cases hn.symm.trans node
  cases hl

theorem derivesPart_of_list {prod : ProdId} {cs : List NodeId} {isPartial : Bool}
    (hn : b.forest.node n = .ok (.list prod cs isPartial)) {us : List Tree} :
    b.DerivesPart n us ↔ b.DerivesRun n us := by
  constructor
  · intro h
    cases h with
    | item h => exact absurd h (not_derives hn rfl rfl _)
    | run h => exact h
  · exact .run

theorem derivesPart_of_item {node : Node} (hn : b.forest.node n = .ok node)
    (hl : node.isList = false) {us : List Tree} :
    b.DerivesPart n us ↔ ∃ u, b.Derives n u ∧ us = [u] := by
  constructor
  · intro h
    cases h with
    | item h => exact ⟨_, h, rfl⟩
    | run h => exact absurd h (not_derivesRun hn hl _)
  · rintro ⟨u, h, rfl⟩
    exact .item h

theorem derivesArg_of_list {prod : ProdId} {cs : List NodeId} {isPartial : Bool}
    (hn : b.forest.node n = .ok (.list prod cs isPartial)) {a : Arg Tree} :
    b.DerivesArg n a ↔ ∃ us, b.DerivesRun n us ∧ a = .list us := by
  constructor
  · intro h
    cases h with
    | node h => exact absurd h (not_derives hn rfl rfl _)
    | list h => exact ⟨_, h, rfl⟩
    | absent node => cases hn.symm.trans node
    | present node => cases hn.symm.trans node
  · rintro ⟨us, h, rfl⟩
    exact .list h

theorem derivesArg_of_absent {prod : ProdId}
    (hn : b.forest.node n = .ok (.optional prod none)) {a : Arg Tree} :
    b.DerivesArg n a ↔ a = .list [] := by
  constructor
  · intro h
    cases h with
    | node h => exact absurd h (not_derives hn rfl rfl _)
    | list h => exact absurd h (not_derivesRun hn rfl _)
    | absent node => rfl
    | present node => cases hn.symm.trans node
  · rintro rfl
    exact .absent hn

theorem derivesArg_of_present {prod : ProdId} {held : NodeId}
    (hn : b.forest.node n = .ok (.optional prod (some held))) {a : Arg Tree} :
    b.DerivesArg n a ↔ ∃ u, b.Derives held u ∧ a = .list [u] := by
  constructor
  · intro h
    cases h with
    | node h => exact absurd h (not_derives hn rfl rfl _)
    | list h => exact absurd h (not_derivesRun hn rfl _)
    | absent node => cases hn.symm.trans node
    | present node h =>
      cases hn.symm.trans node
      exact ⟨_, h, rfl⟩
  · rintro ⟨u, h, rfl⟩
    exact .present hn h

theorem derivesArg_of_single {node : Node} (hn : b.forest.node n = .ok node)
    (hl : node.isList = false) (ho : ∀ prod held, node ≠ .optional prod held) {a : Arg Tree} :
    b.DerivesArg n a ↔ ∃ u, b.Derives n u ∧ a = .node u := by
  constructor
  · intro h
    cases h with
    | node h => exact ⟨_, h, rfl⟩
    | list h => exact absurd h (not_derivesRun hn hl _)
    | absent node => exact absurd (Except.ok.inj (hn.symm.trans node)) (ho _ _)
    | present node => exact absurd (Except.ok.inj (hn.symm.trans node)) (ho _ _)
  · rintro ⟨u, h, rfl⟩
    exact .node h

end Builder

end ParseForest
