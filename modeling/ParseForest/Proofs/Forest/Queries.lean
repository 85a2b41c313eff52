import ParseForest.Build.Roots
import ParseForest.Proofs.Forest.Construction

/-!
In a forest that is well built every question about a node of it has an answer. Which answer it is
does not matter here. Main statements: `WellBuilt.sortName`, `WellBuilt.arguments`,
`WellBuilt.elements`.
-/

namespace ParseForest

open Success

namespace Checked

variable {α β : Type}

def Succeeds (x : Checked α) : Prop := ∃ a, x = .ok a

theorem succeeds_pure (a : α) : Succeeds (pure a : Checked α) := ⟨a, rfl⟩

theorem Succeeds.bind {x : Checked α} {f : α → Checked β} (hx : Succeeds x)
    (hf : ∀ a, x = .ok a → Succeeds (f a)) : Succeeds (x >>= f) := by
  obtain ⟨a, ha⟩ := hx
  rw [bind_of_ok ha]
  exact hf a ha

theorem Succeeds.map {x : Checked α} (hx : Succeeds x) (f : α → β) : Succeeds (f <$> x) := by
  obtain ⟨a, rfl⟩ := hx
  exact ⟨f a, rfl⟩

theorem succeeds_filter {property : α → Checked Bool} {as : List α}
    (h : ∀ a ∈ as, Succeeds (property a)) : Succeeds (filter property as) := by
  induction as with
  | nil => exact ⟨[], rfl⟩
  | cons a as ih =>
    refine (h a List.mem_cons_self).bind fun holds _ => ?_
    refine (ih fun a' ha' => h a' (List.mem_cons_of_mem _ ha')).bind fun rest _ => ?_
    exact succeeds_pure _

end Checked

open Checked

namespace Forest.WellBuilt

section Nodes

variable {f : Forest} (hf : f.WellBuilt) {id c : NodeId} {n : Node}
include hf

theorem child_lt (hn : f.node id = .ok n) (hc : c ∈ n.children) : c < f.size :=
  hf.acyclic.child_lt hn hc

theorem alternative_lt (hn : f.node id = .ok n) (hc : c ∈ n.alternatives) : c < f.size :=
  hf.acyclic.alternative_lt hn hc

theorem grammar_production (hn : f.node id = .ok n) {p : ProdId} (hp : n.production? = some p) :
    Succeeds (f.grammar.production p) := by
  have hlt : p < f.grammar.size := hf.named id n hn p hp
  exact ⟨_, Grammar.production_eq_ok.2 (List.getElem?_eq_getElem hlt)⟩

theorem production? (hid : id < f.size) : Succeeds (f.production? id) := by
  refine Succeeds.bind (node_of_lt hid) fun n hn => ?_
  cases hp : n.production? with
  | none => exact succeeds_pure _
  | some p => exact (hf.grammar_production hn hp).map _

theorem hasProduction (hid : id < f.size) (property : Production → Bool) :
    Succeeds (f.hasProduction id property) :=
  (hf.production? hid).map _

theorem constructor? (hid : id < f.size) : Succeeds (f.constructor? id) :=
  (hf.production? hid).map _

theorem isLexical (hid : id < f.size) : Succeeds (f.isLexical id) := by
  refine (Succeeds.map (node_of_lt hid) _).bind fun isDerivation _ => ?_
  cases isDerivation with
  | true => exact hf.hasProduction hid _
  | false => exact succeeds_pure _

theorem isLiteral (hid : id < f.size) : Succeeds (f.isLiteral id) := by
  refine Succeeds.bind (node_of_lt hid) fun n _ => ?_
  cases n with
  | derivation => exact hf.hasProduction hid _
  | _ => exact succeeds_pure _

theorem sortNameWithin {depth : Nat} (hid : id < f.size) (hd : id < depth) :
    Succeeds (f.sortNameWithin depth id) := by
  induction depth generalizing id with
  | zero => exact absurd hd (Nat.not_lt_zero id)
  | succ depth ih =>
    unfold Forest.sortNameWithin
    refine Succeeds.bind (node_of_lt hid) fun n hn => ?_
    have named : Succeeds (do return (← f.production? id).elim "" (·.sortName)) :=
      (hf.production? hid).bind fun _ _ => succeeds_pure _
    match n, hn with
    | .ambiguity [], _ => exact succeeds_pure _
    | .ambiguity (first :: rest), hn =>
      have hfirst : first ∈ (Node.ambiguity (first :: rest)).alternatives := List.mem_cons_self
      have hlt := hf.acyclic.lt_of_alternative hn hfirst
      exact ih (hf.alternative_lt hn hfirst) (Nat.lt_of_lt_of_le hlt (Nat.le_of_lt_succ hd))
    | .char _, _ | .literal .., _ | .derivation .., _ | .list .., _ | .optional .., _
    | .cycle .., _ | .recovery _, _ => exact named

theorem sortName (hid : id < f.size) : Succeeds (f.sortName id) :=
  hf.sortNameWithin hid (Nat.lt_succ_of_lt hid)

theorem slot (hid : id < f.size) : Succeeds (f.slot id) := by
  refine Succeeds.bind (node_of_lt hid) fun n hn => ?_
  match n, hn with
  | .ambiguity (first :: _), hn =>
    have hlt := hf.alternative_lt (c := first) hn List.mem_cons_self
    exact (Succeeds.map (node_of_lt hlt) _).bind fun _ _ => succeeds_pure _
  | .ambiguity [], _ | .list .., _ | .optional .., _ | .char _, _ | .literal .., _
  | .derivation .., _ | .cycle .., _ | .recovery _, _ => exact succeeds_pure _

end Nodes

section Selection

variable {b : Builder} (hf : b.forest.WellBuilt) {id : NodeId}
include hf

theorem sortOf (hid : id < b.forest.size) : Succeeds (b.sortOf id) := (hf.sortName hid).map _

theorem isNoise (hid : id < b.forest.size) : Succeeds (b.isNoise id) := by
  refine (hf.isLiteral hid).bind fun isLiteral _ => ?_
  cases isLiteral with
  | true => exact succeeds_pure _
  | false =>
    refine (hf.hasProduction hid _).bind fun isEmpty _ => ?_
    cases isEmpty with
    | true => exact succeeds_pure _
    | false => exact hf.hasProduction hid _

theorem isArgument (hid : id < b.forest.size) : Succeeds (b.isArgument id) := by
  refine (hf.hasProduction hid _).bind fun isLayout _ => ?_
  cases isLayout with
  | true => exact succeeds_pure _
  | false => exact (hf.isNoise hid).bind fun _ _ => succeeds_pure _

theorem children_lt {cs : List NodeId} (h : b.forest.children id = .ok cs) :
    ∀ c ∈ cs, c < b.forest.size := by
  obtain ⟨n, hn, rfl⟩ := children_eq_ok.1 h
  exact fun c hc => hf.child_lt hn hc

theorem arguments (hid : id < b.forest.size) : Succeeds (b.arguments id) := by
  refine (Succeeds.map (node_of_lt hid) _).bind fun cs hcs => ?_
  exact succeeds_filter fun c hc => hf.isArgument (hf.children_lt hcs c hc)

theorem visibleChildren (hid : id < b.forest.size) : Succeeds (b.visibleChildren id) := by
  refine (Succeeds.map (node_of_lt hid) _).bind fun cs hcs => ?_
  exact succeeds_filter fun c hc => (hf.hasProduction (hf.children_lt hcs c hc) _).map _

theorem elements (hid : id < b.forest.size) : Succeeds (b.elements id) := by
  refine (hf.production? hid).bind fun p _ => ?_
  exact (hf.visibleChildren hid).bind fun _ _ => succeeds_pure _

theorem isEmbedding (hid : id < b.forest.size) : Succeeds (b.isEmbedding id) := by
  refine (hf.sortName hid).bind fun raw _ => ?_
  split
  · exact (hf.constructor? hid).bind fun _ _ => succeeds_pure _
  · exact succeeds_pure _

theorem pattern? (hid : id < b.forest.size) : Succeeds (b.pattern? id) := by
  refine (hf.hasProduction hid _).bind fun isEmpty _ => ?_
  cases isEmpty with
  | true => exact succeeds_pure _
  | false =>
    refine (hf.constructor? hid).bind fun name _ => ?_
    exact (hf.arguments hid).bind fun _ _ => succeeds_pure _

theorem isRootOf (sort : String) (hid : id < b.forest.size) : Succeeds (b.isRootOf sort id) := by
  refine Succeeds.bind (node_of_lt hid) fun n _ => ?_
  cases n with
  | derivation | ambiguity => exact (hf.sortOf hid).bind fun _ _ => succeeds_pure _
  | _ => exact succeeds_pure _

theorem findRoot? (sort : String) {ids : List NodeId} (hids : ∀ id ∈ ids, id < b.forest.size) :
    Succeeds (b.findRoot? sort ids) := by
  induction ids with
  | nil => exact succeeds_pure _
  | cons id ids ih =>
    have hid := hids id List.mem_cons_self
    have hrest := ih fun id' hid' => hids id' (List.mem_cons_of_mem _ hid')
    refine (hf.hasProduction hid _).bind fun isLayout _ => ?_
    cases isLayout with
    | true => exact hrest
    | false =>
      refine (hf.isRootOf sort hid).bind fun found _ => ?_
      cases found with
      | true => exact succeeds_pure _
      | false => exact hrest

theorem moduleReadings (found : List NodeId) {ids : List NodeId}
    (hids : ∀ id ∈ ids, id < b.forest.size) : Succeeds (b.moduleReadings found ids) := by
  induction ids generalizing found with
  | nil => exact succeeds_pure _
  | cons id ids ih =>
    have hrest := fun found => ih found fun id' hid' => hids id' (List.mem_cons_of_mem _ hid')
    refine (hf.sortOf (hids id List.mem_cons_self)).bind fun sort _ => ?_
    split
    · split
      · exact hrest _
      · exact succeeds_pure _
    · exact hrest _

end Selection

end Forest.WellBuilt

theorem Builder.root_of_findRoot? {b : Builder} {sort : String} {ids : List NodeId} {root : NodeId}
    (h : b.findRoot? sort ids = .ok (some root)) :
    root ∈ ids ∧ b.isRootOf sort root = .ok true := by
  induction ids with
  | nil => cases h
  | cons id ids ih =>
    obtain ⟨isLayout, -, h⟩ := bind_eq_ok.1 h
    cases isLayout with
    | true => exact ⟨List.mem_cons_of_mem _ (ih h).1, (ih h).2⟩
    | false =>
      obtain ⟨found, hfound, h⟩ := bind_eq_ok.1 h
      cases found with
      | true =>
        cases pure_eq_ok.1 h
        exact ⟨List.mem_cons_self, hfound⟩
      | false => exact ⟨List.mem_cons_of_mem _ (ih h).1, (ih h).2⟩

end ParseForest
