import ParseForest.Proofs.Fragment.Lifting

/-!
The text of a quoted fragment. A fragment without anti-quotes has a leaf for every token, literal
and character of its pattern, layout included, so its leaves spell the text that the pattern covers,
whichever alternatives were chosen on the way. Main statement: `yieldText_of_value`.
-/

namespace ParseForest

open Build Success

/-- The text that a leaf stands for. -/
def Leaf.text : Leaf → String
  | lexical _ text | literal _ text => text
  | char code => (Text.charOfCode code).toString

namespace Tree

mutual
def leaves : Tree → List Leaf
  | ⟨_, _, _, _, body⟩ => bodyLeaves body
termination_by structural t => t

def bodyLeaves : Body Tree → List Leaf
  | .application args => argsLeaves args
  | .lexical _ => []
  | .ambiguity ts | .image _ ts => treesLeaves ts
  | .token leaf => [leaf]
termination_by structural b => b

def argsLeaves : List (Arg Tree) → List Leaf
  | [] => []
  | a :: as => argLeaves a ++ argsLeaves as
termination_by structural as => as

def argLeaves : Arg Tree → List Leaf
  | .node t => leaves t
  | .list ts => treesLeaves ts
  | .text _ => []
termination_by structural a => a

def treesLeaves : List Tree → List Leaf
  | [] => []
  | t :: ts => leaves t ++ treesLeaves ts
termination_by structural ts => ts
end

def spelled (t : Tree) : String := String.join (t.leaves.map Leaf.text)

theorem treesLeaves_eq (ts : List Tree) : treesLeaves ts = ts.flatMap leaves := by
  induction ts with
  | nil => rfl
  | cons t ts ih => rw [treesLeaves, ih, List.flatMap_cons]

@[simp] theorem spelled_withCost (t : Tree) (cost : Cost) :
    (t.withCost cost).spelled = t.spelled := by
  cases t
  rfl

theorem spelled_leaf (sort : String) (span : Option Span) (l : Leaf) (cost : Cost) :
    (image sort span (.token l) cost).spelled = l.text := by
  simp [spelled, image, leaves, bodyLeaves]

theorem spelled_image (sort : String) (span : Option Span) (shape : Shape) (ts : List Tree)
    (cost : Cost) :
    (image sort span (.image shape ts) cost).spelled = String.join (ts.map spelled) := by
  have hleaves : (image sort span (.image shape ts) cost).leaves = ts.flatMap leaves :=
    treesLeaves_eq ts
  rw [spelled, hleaves]
  induction ts with
  | nil => rfl
  | cons t ts ih =>
    rw [List.flatMap_cons, List.map_append, String.join_append, ih (treesLeaves_eq ts),
      List.map_cons, String.join_cons, spelled]

end Tree

namespace Forest

def SameYields (f : Forest) : Prop :=
  ∀ (id : Nat) (h : id < f.entries.size), ∀ a ∈ f.entries[id].node.alternatives,
    ∀ a' ∈ f.entries[id].node.alternatives, f.yieldText a = f.yieldText a'

instance (f : Forest) : Decidable f.SameYields := by
  unfold SameYields
  infer_instance

variable {f : Forest} {n alt : NodeId} {alts : List NodeId}

theorem SameYields.yieldText (hs : f.SameYields) (hf : f.Acyclic)
    (hn : f.node n = .ok (.ambiguity alts)) (halt : alt ∈ alts) :
    f.yieldText n = f.yieldText alt := by
  obtain ⟨hlt, hnode⟩ := node_eq_ok.1 hn
  have hsame := hs n hlt
  rw [hnode] at hsame
  cases alts with
  | nil => cases halt
  | cons first rest =>
    rw [hf.yieldText_of_ambiguity hn]
    exact hsame first List.mem_cons_self alt halt

end Forest

def View.Covers (f : Forest) (n : NodeId) : View → Prop
  | leaf l => f.yieldText n = .ok l.text
  | branch _ parts _ => f.yieldText n = String.join <$> parts.mapM f.yieldText
  | cluster alternatives => ∀ alt ∈ alternatives, f.yieldText n = f.yieldText alt
  | cut => True

namespace Builder

section Patterns

variable {b : Builder} (hf : b.forest.Acyclic) (hs : b.forest.SameYields)
include hf hs

theorem covers_of_view {n : NodeId} {v : View} (hv : b.view n = .ok v) : v.Covers b.forest n := by
  obtain ⟨node, hnode, hv⟩ := bind_eq_ok.1 hv
  cases node with
  | derivation prod cs =>
    obtain ⟨p, -, hv⟩ := bind_eq_ok.1 hv
    split at hv
    · obtain ⟨text, htext, hv⟩ := bind_eq_ok.1 hv
      cases pure_eq_ok.1 hv
      exact htext
    · split at hv
      · obtain ⟨text, htext, hv⟩ := bind_eq_ok.1 hv
        cases pure_eq_ok.1 hv
        exact htext
      · cases pure_eq_ok.1 hv
        exact hf.yieldText_of_derivation hnode
  | list prod cs isPartial =>
    obtain ⟨p, -, hv⟩ := bind_eq_ok.1 hv
    cases pure_eq_ok.1 hv
    exact hf.yieldText_of_list hnode
  | optional prod child =>
    cases pure_eq_ok.1 hv
    exact hf.yieldText_of_optional hnode
  | literal | char =>
    cases pure_eq_ok.1 hv
    exact bind_of_ok hnode _
  | ambiguity alts =>
    cases pure_eq_ok.1 hv
    exact fun alt halt => hs.yieldText hf hnode halt
  | cycle | recovery =>
    cases pure_eq_ok.1 hv
    trivial

omit hf hs in
theorem mapM_yieldText {nodes : List NodeId} {ts : List Tree}
    (parts : List.Forall₂ b.Mirrors nodes ts)
    (below : ∀ c ∈ nodes, ∀ t, b.Mirrors c t → b.forest.yieldText c = .ok t.spelled) :
    nodes.mapM b.forest.yieldText = .ok (ts.map Tree.spelled) := by
  induction parts with
  | nil => rfl
  | cons head tail ih =>
    obtain ⟨hhead, htail⟩ := List.forall_mem_cons.1 below
    rw [List.mapM_cons, hhead _ head, ih htail]
    rfl

theorem yieldText_of_mirrors {p : NodeId} (hh : b.HoleFree p) {m : NodeId} {t : Tree}
    (hm : b.Reaches p m) (h : b.Mirrors m t) : b.forest.yieldText m = .ok t.spelled := by
  induction m using Nat.strongRecOn generalizing t with
  | ind m ih =>
    have below : ∀ c ∈ b.mirrored m, ∀ t, b.Mirrors c t →
        b.forest.yieldText c = .ok t.spelled := by
      intro c hc t ht
      exact ih c (mirrored_lt hf hc) (hm.tail hc) ht
    cases h with
    | hole node production isHole =>
      have hole := (isHoleAt_of_derivation node production).trans isHole
      exact absurd ((hh m hm).symm.trans hole) Bool.false_ne_true
    | leaf _ view =>
      rw [imageTree, Tree.spelled_leaf]
      exact covers_of_view hf hs view
    | branch notHole view parts =>
      have hcovers := covers_of_view hf hs view
      rw [mirrored_of_view notHole view] at below
      rw [hcovers, mapM_yieldText parts below, Tree.spelled_image]
      rfl
    | @alternative _ alt _ _ view mem h =>
      have hcovers := covers_of_view hf hs view
      have halt : alt ∈ b.mirrored m := by
        rw [mirrored_of_view (hh m hm) view]
        exact mem
      rw [hcovers alt mem]
      exact below alt halt _ h

omit hs in
/-- The images that are reached from a pattern without anti-quotes mirror their nodes. -/
theorem mirrors_of_reached {p : NodeId} (hh : b.HoleFree p) (hp : p < b.forest.size) {m : NodeId}
    {t : Tree} (hm : b.Reaches p m) (h : b.plain.image m = .ok (some t))
    (hflag : t.cost.ambiguous = false) : b.Mirrors m t := by
  induction m using Nat.strongRecOn generalizing t with
  | ind m ih =>
    have hlt : m < b.forest.size := Nat.lt_of_le_of_lt (hm.le hf) hp
    rw [(plain_eq hf hlt).2.2.2] at h
    refine mirrors_of_parts hlt (hh m hm) (fun c hc u hu hflag => ?_) h hflag
    exact ih c (mirrored_lt hf hc) (hm.tail hc) hu hflag

/-- The leaves of a quoted fragment spell the text that its pattern covers, with its layout. -/
theorem yieldText_of_value {e p : NodeId} (hq : b.Quotes e p) (hh : b.HoleFree p) {r : Tree}
    (h : (b.value e).outcome .initial = .ok (some r)) :
    b.forest.yieldText p = .ok r.spelled := by
  have hlt : p < b.forest.size := Nat.lt_trans (hf.lt_of_pattern hq.2) hq.1.lt
  rw [(computes_value_of_quotes hf hq hh .initial allKept_empty).1, fragment_eq_settle hq.2 hlt]
    at h
  obtain ⟨t?, ht, h⟩ := bind_eq_ok.1 h
  obtain ⟨t, rfl, hflag, rfl⟩ := withCost_of_settle h
  rw [Tree.spelled_withCost]
  exact yieldText_of_mirrors hf hs hh .refl (mirrors_of_reached hf hh hlt .refl ht hflag)

end Patterns

def quotedBlock : Builder where
  forest := {
    grammar := ⟨"Quoted", [⟨.named .lexical "Id", none, [], true⟩,
      ⟨.named .layout "LAYOUT", none, [], false⟩, ⟨.literal ",", none, [], false⟩,
      ⟨.named .sort "Expression", some "var", [.named .lexical "Id"], false⟩,
      ⟨.named .sort "Expression", some "pair", [.named .lexical "Id", .named .lexical "Id"], false⟩,
      ⟨.separated .plus (.named .sort "Expression") [.literal ","], none, [], false⟩,
      ⟨.optional (.named .sort "Expression"), none, [], false⟩,
      ⟨.named .sort "Expression", some "block", [], false⟩,
      ⟨.named .sort "Expression", some "ConcreteQuoted", [.named .sort "Expression"], false⟩],
      by decide⟩
    entries := #[⟨.char 120, none⟩, ⟨.char 121, none⟩, ⟨.derivation 0 [0], none⟩,
      ⟨.derivation 0 [1], none⟩, ⟨.derivation 0 [0, 1], none⟩, ⟨.derivation 3 [4], none⟩,
      ⟨.derivation 4 [2, 3], none⟩, ⟨.ambiguity [5, 6], none⟩, ⟨.char 32, none⟩,
      ⟨.derivation 1 [8], none⟩, ⟨.literal "," 2, none⟩, ⟨.list 5 [7, 9, 10, 9, 7] false, none⟩,
      ⟨.optional 6 none, none⟩, ⟨.char 0xD800, none⟩, ⟨.derivation 7 [11, 9, 12, 13], none⟩,
      ⟨.derivation 8 [14], none⟩]
    source := "<input>"
    lines := none }
  registry := .empty
  conventions := .standard

theorem yieldText_of_value_quotedBlock :
    let leaf (l : Leaf) := Tree.image "Expression" none (.token l) .zero
    let pair := Tree.image "Expression" none
      (.image (.derivation 4) [leaf (.lexical 0 "x"), leaf (.lexical 0 "y")]) .zero
    let blank := leaf (.lexical 1 " ")
    let list := Tree.image "Expression" none
      (.image (.list 5) [pair, blank, leaf (.literal 2 ","), blank, pair]) (.ofInjections 1)
    let absent := Tree.image "Expression" none (.image (.optional 6) []) .zero
    let block := Tree.image "Expression" none
      (.image (.derivation 7) [list, blank, absent, leaf (.char 0xD800)]) ⟨false, 1, 0, 1, 0⟩
    (quotedBlock.value 15).outcome .initial = .ok (some block) ∧
      block.spelled = "xy , xy \uFFFD" ∧
      quotedBlock.forest.yieldText 14 = .ok block.spelled := by
  intro leaf pair blank list absent block
  have hread : (quotedBlock.value 15).outcome .initial = .ok (some block) := by decide +kernel
  have free : quotedBlock.HoleFree 14 :=
    holeFree_of_closed [14, 11, 9, 12, 13, 7, 10, 5, 6, 4, 2, 3] (by decide) (by decide +kernel)
      (by decide +kernel)
  refine ⟨hread, by decide +kernel, ?_⟩
  exact yieldText_of_value (e := 15) (by decide +kernel) (by decide +kernel) (by decide +kernel)
    free hread

end Builder

end ParseForest
