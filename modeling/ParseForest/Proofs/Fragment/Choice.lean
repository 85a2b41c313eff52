import Mathlib.Algebra.Ring.Nat
import Mathlib.Data.List.Forall2
import ParseForest.Proofs.Cost.Optimum
import ParseForest.Proofs.Forest.Yield
import ParseForest.Proofs.Fragment.Quotation

/-!
The images that a quoted pattern can have: one for each choice of an alternative at every cluster
that is met on the way down. A choice weighs as many injections as its image has. Main definitions:
`Choice`, `Builder.Admits`, `Builder.mirror`.
-/

namespace ParseForest

open Success

/-- What the image of a node is made of. Tokens have no parts, and `cut` nodes have no image. -/
inductive View where
  | leaf (leaf : Leaf)
  | branch (shape : Shape) (children : List NodeId) (injections : Nat)
  | cluster (alternatives : List NodeId)
  | cut

def View.parts : View → List NodeId
  | branch _ children _ => children
  | cluster alternatives => alternatives
  | leaf _ | cut => []

def View.within (bound : NodeId → Nat) (whole : Nat) : View → Bool
  | branch _ children injections => (children.map bound).sum + injections ≤ whole
  | cluster alternatives => alternatives.all fun alt => bound alt ≤ whole
  | leaf _ | cut => true

/-- One alternative for each cluster, at every place where an image meets it. -/
inductive Choice where
  | leaf (node : NodeId) (leaf : Leaf)
  | branch (node : NodeId) (shape : Shape) (injections : Nat) (parts : List Choice)
  | alternative (node : NodeId) (index : Nat) (chosen : Choice)

namespace Choice

mutual
/-- Injections in the image, counted at every place where they occur. -/
def weight : Choice → Nat
  | leaf _ _ => 0
  | branch _ _ injections parts => weightAll parts + injections
  | alternative _ _ chosen => weight chosen
termination_by structural c => c

def weightAll : List Choice → Nat
  | [] => 0
  | c :: cs => weight c + weightAll cs
termination_by structural cs => cs
end

theorem weightAll_append (cs ds : List Choice) :
    weightAll (cs ++ ds) = weightAll cs + weightAll ds := by
  induction cs with
  | nil => simp only [List.nil_append, weightAll, Nat.zero_add]
  | cons c cs ih => simp only [List.cons_append, weightAll, ih, Nat.add_assoc]

end Choice

namespace Builder

variable (b : Builder)

def view (n : NodeId) : Checked View := do
  match ← b.forest.node n with
  | .derivation prod children =>
    let p ← b.forest.grammar.production prod
    if p.isLexical || p.isLayout then
      return .leaf (.lexical prod (← b.forest.yieldText n))
    else if p.isLiteral || p.isCaseless then
      return .leaf (.literal prod (← b.forest.yieldText n))
    else
      return .branch (.derivation prod) children (if p.isInjection then 1 else 0)
  | .list prod children _ =>
    let p ← b.forest.grammar.production prod
    return .branch (.list prod) children
      (if p.defines.isNonEmptyList && !children.isEmpty then 1 else 0)
  | .optional prod child => return .branch (.optional prod) child.toList 0
  | .literal text prod => return .leaf (.literal prod text)
  | .char code => return .leaf (.char code)
  | .ambiguity alternatives => return .cluster alternatives
  | .cycle .. | .recovery _ => return .cut

/-- The choice leads to an image of the node: nothing that it meets is cut off. -/
inductive Admits : NodeId → Choice → Prop
  | leaf {n : NodeId} {l : Leaf} (view : b.view n = .ok (.leaf l)) : Admits n (.leaf n l)
  | branch {n : NodeId} {shape : Shape} {cs : List NodeId} {k : Nat} {ps : List Choice}
    (view : b.view n = .ok (.branch shape cs k)) (parts : List.Forall₂ Admits cs ps) :
    Admits n (.branch n shape k ps)
  | alternative {n alt : NodeId} {alts : List NodeId} {i : Nat} {c : Choice}
    (view : b.view n = .ok (.cluster alts)) (at_index : alts[i]? = some alt) (h : Admits alt c) :
    Admits n (.alternative n i c)

def imageTree (n : NodeId) (body : Body Tree) (injections : Nat) : Tree :=
  .image b.conventions.expressionSort (b.forest.spanOf n) body (.ofInjections injections)

mutual
def mirror : Choice → Tree
  | .leaf n l => b.imageTree n (.token l) 0
  | .branch n shape injections parts =>
    b.imageTree n (.image shape (mirrorAll parts)) (Choice.weightAll parts + injections)
  | .alternative _ _ chosen => mirror chosen
termination_by structural c => c

def mirrorAll : List Choice → List Tree
  | [] => []
  | c :: cs => mirror c :: mirrorAll cs
termination_by structural cs => cs
end

/-- No node that a pattern mirrors is an anti-quote. -/
def HoleFree (p : NodeId) : Prop := ∀ m, b.Reaches p m → b.isHoleAt m = false

/-- The counts stay in their range: those of images of nodes of the pattern, and those of the first
parts of one, even if a later part has no image. -/
structure CostsFit (p : NodeId) : Prop where
  whole : ∀ m c, b.Reaches p m → b.Admits m c → c.weight < wordLimit
  leading : ∀ m shape cs k first ps, b.Reaches p m → b.view m = .ok (.branch shape cs k) →
    first <+: cs → List.Forall₂ b.Admits first ps → Choice.weightAll ps < wordLimit

variable {b} {n : NodeId}

theorem mirrorAll_append (cs ds : List Choice) :
    b.mirrorAll (cs ++ ds) = b.mirrorAll cs ++ b.mirrorAll ds := by
  induction cs with
  | nil => rfl
  | cons c cs ih => simp only [List.cons_append, mirrorAll, ih]

section Admits

variable {c : Choice}

theorem admits_of_leaf {l : Leaf} (hv : b.view n = .ok (.leaf l)) :
    b.Admits n c ↔ .leaf n l = c := by
  constructor
  · intro h
    cases h with
    | leaf view =>
      cases hv.symm.trans view
      rfl
    | branch view => cases hv.symm.trans view
    | alternative view => cases hv.symm.trans view
  · rintro rfl
    exact .leaf hv

theorem admits_of_branch {shape : Shape} {cs : List NodeId} {k : Nat}
    (hv : b.view n = .ok (.branch shape cs k)) :
    b.Admits n c ↔ ∃ ps, List.Forall₂ b.Admits cs ps ∧ .branch n shape k ps = c := by
  constructor
  · intro h
    cases h with
    | leaf view => cases hv.symm.trans view
    | branch view parts =>
      cases hv.symm.trans view
      exact ⟨_, parts, rfl⟩
    | alternative view => cases hv.symm.trans view
  · rintro ⟨ps, h, rfl⟩
    exact .branch hv h

theorem admits_of_cluster {alts : List NodeId} (hv : b.view n = .ok (.cluster alts)) :
    b.Admits n c ↔ ∃ i alt d, alts[i]? = some alt ∧ b.Admits alt d ∧ .alternative n i d = c := by
  constructor
  · intro h
    cases h with
    | leaf view => cases hv.symm.trans view
    | branch view => cases hv.symm.trans view
    | alternative view at_index h =>
      cases hv.symm.trans view
      exact ⟨_, _, _, at_index, h, rfl⟩
  · rintro ⟨i, alt, d, hi, h, rfl⟩
    exact .alternative hv hi h

theorem not_admits_of_cut (hv : b.view n = .ok .cut) : ¬ b.Admits n c := by
  intro h
  cases h with
  | leaf view => cases hv.symm.trans view
  | branch view => cases hv.symm.trans view
  | alternative view => cases hv.symm.trans view

end Admits

theorem holeFree_of_closed (nodes : List NodeId) {p : NodeId} (hp : p ∈ nodes)
    (step : ∀ m ∈ nodes, ∀ c ∈ b.mirrored m, c ∈ nodes)
    (apart : ∀ m ∈ nodes, b.isHoleAt m = false) : b.HoleFree p :=
  fun m hr => apart m (hr.mem hp step)

def BoundedBy (b : Builder) (bound : NodeId → Nat) : Prop :=
  ∀ m < b.forest.size, (b.view m).toOption.all (·.within bound (bound m)) = true

instance (bound : NodeId → Nat) : Decidable (b.BoundedBy bound) := by
  unfold BoundedBy
  infer_instance

theorem lt_of_view {v : View} (hv : b.view n = .ok v) : n < b.forest.size := by
  obtain ⟨node, hn, _⟩ := bind_eq_ok.1 hv
  exact (Forest.node_eq_ok.1 hn).choose

theorem BoundedBy.within {bound : NodeId → Nat} (h : b.BoundedBy bound) {v : View}
    (hv : b.view n = .ok v) : v.within bound (bound n) = true := by
  have hn := h n (lt_of_view hv)
  rw [hv] at hn
  exact hn

mutual
theorem weight_le_bound {bound : NodeId → Nat} (hb : b.BoundedBy bound) :
    ∀ (c : Choice) {m : NodeId}, b.Admits m c → c.weight ≤ bound m
  | .leaf n l, m, _ => Nat.zero_le _
  | .branch n shape k ps, m, h => by
    cases h with
    | branch view parts =>
      have hw := of_decide_eq_true (hb.within view)
      have hp := weightAll_le_bound hb ps parts
      rw [Choice.weight]
      omega
  | .alternative n i c, m, h => by
    cases h with
    | alternative view at_index h =>
      have hw := List.all_eq_true.1 (hb.within view) _ (List.mem_of_getElem? at_index)
      exact Nat.le_trans (weight_le_bound hb c h) (of_decide_eq_true hw)

theorem weightAll_le_bound {bound : NodeId → Nat} (hb : b.BoundedBy bound) :
    ∀ (ps : List Choice) {cs : List NodeId}, List.Forall₂ b.Admits cs ps →
      Choice.weightAll ps ≤ (cs.map bound).sum
  | [], _, h => Nat.zero_le _
  | p :: ps, _, h => by
    cases h with
    | cons hp hps =>
      have hw := weight_le_bound hb p hp
      have hs := weightAll_le_bound hb ps hps
      rw [Choice.weightAll, List.map_cons, List.sum_cons]
      omega
end

theorem costsFit_of_bound (bound : NodeId → Nat) (hb : b.BoundedBy bound)
    (fits : ∀ m < b.forest.size, bound m < wordLimit) (p : NodeId) : b.CostsFit p := by
  constructor
  · intro m c _ hc
    refine Nat.lt_of_le_of_lt (weight_le_bound hb c hc) (fits m ?_)
    cases hc with
    | leaf view => exact lt_of_view view
    | branch view => exact lt_of_view view
    | alternative view => exact lt_of_view view
  · intro m shape cs k first ps _ hv hfirst hps
    obtain ⟨rest, rfl⟩ := hfirst
    have hw := of_decide_eq_true (hb.within hv)
    rw [List.map_append, List.sum_append] at hw
    have hp := weightAll_le_bound hb ps hps
    have hl := fits m (lt_of_view hv)
    omega

end Builder

end ParseForest
