import Mathlib.Logic.Relation
import ParseForest.Build.Selection
import ParseForest.Proofs.Forest.Acyclic

/-!
Forests that are the same but for the layout among the children of derivations and lists. Tokens are
the same altogether, since their text includes their layout. Such forests give the same answer to
every question about a node. Main statements: `SameButLayout.sortName`,
`SameButLayout.filter_children`, `SameButLayout.yieldText`.
-/

namespace ParseForest

open Success

/-- The node without its children, if it is a derivation or a list. -/
def Node.bare : Node → Node
  | derivation prod _ => derivation prod []
  | list prod _ isPartial => list prod [] isPartial
  | n => n

namespace Forest

def isLayoutAt (f : Forest) (id : NodeId) : Bool :=
  match f.isLayout id with
  | .ok isLayout => isLayout
  | .error _ => false

theorem isLayout_of_isLayoutAt {f : Forest} {id : NodeId} (h : f.isLayoutAt id = true) :
    f.isLayout id = .ok true := by
  unfold isLayoutAt at h
  split at h
  next hok => rw [hok, h]
  next => cases h

def showing (f : Forest) (ids : List NodeId) : List NodeId := ids.filter (!f.isLayoutAt ·)

theorem showing_append_cons {f : Forest} {c : NodeId} (hc : f.isLayoutAt c = false)
    (before after : List NodeId) :
    f.showing (before ++ c :: after) = f.showing before ++ c :: f.showing after := by
  rw [showing, List.filter_append, List.filter_cons_of_pos (by rw [hc]; rfl)]
  rfl

/-- The nodes are equal, or derivations or lists of one production with the same children, layout
aside. -/
inductive Alike (f : Forest) : Node → Node → Prop
  | same (n : Node) : Alike f n n
  | derivation (prod : ProdId) {cs cs' : List NodeId} (children : f.showing cs = f.showing cs') :
    Alike f (.derivation prod cs) (.derivation prod cs')
  | list (prod : ProdId) (isPartial : Bool) {cs cs' : List NodeId}
    (children : f.showing cs = f.showing cs') :
    Alike f (.list prod cs isPartial) (.list prod cs' isPartial)

def below (f : Forest) (id : NodeId) : List NodeId :=
  match f.node id with
  | .ok n => n.children ++ n.alternatives
  | .error _ => []

def Within (f : Forest) : NodeId → NodeId → Prop :=
  Relation.ReflTransGen fun m c => c ∈ f.below m

/-- The forests have the same nodes over one grammar, but for the layout among the children of
derivations and lists outside of tokens. -/
structure SameButLayout (f g : Forest) : Prop where
  grammar : g.grammar = f.grammar
  size : g.size = f.size
  span : ∀ id, g.span id = f.span id
  node : ∀ id n m, f.node id = .ok n → g.node id = .ok m → f.Alike n m
  tokens : ∀ t id, f.isLexical t = .ok true → f.Within t id → g.node id = f.node id

theorem node_eq_error {f : Forest} {id : NodeId} {breach : Breach} :
    f.node id = .error breach ↔ f.size ≤ id ∧ breach = .missingNode id f.size := by
  unfold node entry size
  by_cases h : id < f.entries.size
  · simp [h, Functor.map, Except.map, Nat.not_le.2 h]
  · simp [h, Functor.map, Except.map, Nat.not_lt.1 h, eq_comm]

theorem filter_showing {f : Forest} {property : NodeId → Checked Bool}
    (hp : ∀ c, f.isLayout c = .ok true → property c = .ok false) (cs : List NodeId) :
    Checked.filter property (f.showing cs) = Checked.filter property cs := by
  induction cs with
  | nil => rfl
  | cons c cs ih =>
    by_cases hc : f.isLayoutAt c = true
    · rw [showing, List.filter_cons_of_neg (by simp [hc]), Checked.filter,
        bind_of_ok (hp c (isLayout_of_isLayoutAt hc))]
      exact ih.trans (bind_pure _).symm
    · rw [showing, List.filter_cons_of_pos (by simp [hc]), Checked.filter, Checked.filter]
      rw [showing] at ih
      rw [ih]

namespace Alike

variable {f : Forest} {n m : Node} (h : f.Alike n m)
include h

theorem production? : m.production? = n.production? := by cases h <;> rfl

theorem alternatives : m.alternatives = n.alternatives := by cases h <;> rfl

theorem isDerivation : m.isDerivation = n.isDerivation := by cases h <;> rfl

theorem isList : m.isList = n.isList := by cases h <;> rfl

theorem isAmbiguity : m.isAmbiguity = n.isAmbiguity := by cases h <;> rfl

theorem showing : f.showing m.children = f.showing n.children := by
  cases h with
  | same => rfl
  | derivation _ children => exact children.symm
  | list _ _ children => exact children.symm

end Alike

theorem alike_iff {f : Forest} {n m : Node} :
    f.Alike n m ↔ n.bare = m.bare ∧ f.showing n.children = f.showing m.children := by
  refine ⟨fun h => ⟨by cases h <;> rfl, h.showing.symm⟩, fun ⟨hb, hs⟩ => ?_⟩
  cases n with
  | derivation prod cs =>
    cases m <;> cases hb
    exact .derivation prod hs
  | list prod cs isPartial =>
    cases m <;> cases hb
    exact .list prod isPartial hs
  | _ =>
    cases m <;> cases hb
    exact .same _

instance (f : Forest) (n m : Node) : Decidable (f.Alike n m) := decidable_of_iff _ alike_iff.symm

theorem Within.mem {f : Forest} {t id : NodeId} {ids : List NodeId} (h : f.Within t id)
    (ht : t ∈ ids) (step : ∀ m ∈ ids, ∀ c ∈ f.below m, c ∈ ids) : id ∈ ids := by
  induction h with
  | refl => exact ht
  | tail _ hc ih => exact step _ ih _ hc

theorem lt_of_isLexical {f : Forest} {id : NodeId} {isLexical : Bool}
    (h : f.isLexical id = .ok isLexical) : id < f.size := by
  obtain ⟨_, hd, -⟩ := bind_eq_ok.1 h
  obtain ⟨_, hn, -⟩ := map_eq_ok.1 hd
  exact (node_eq_ok.1 hn).choose

theorem span_congr {f g : Forest} (h : g.entries.map (·.span) = f.entries.map (·.span))
    (id : NodeId) : g.span id = f.span id := by
  have hsize : g.entries.size = f.entries.size := by
    rw [← Array.size_map, h, Array.size_map]
  have hspan : g.entries[id]?.map (·.span) = f.entries[id]?.map (·.span) := by
    rw [← Array.getElem?_map, h, Array.getElem?_map]
  unfold span entry size
  rw [hsize]
  cases hf : f.entries[id]? with
  | none =>
    rw [hf, Option.map_none, Option.map_eq_none_iff] at hspan
    rw [hspan]
  | some e =>
    rw [hf, Option.map_some, Option.map_eq_some_iff] at hspan
    obtain ⟨e', hg, he⟩ := hspan
    rw [hg]
    exact congrArg Except.ok he

theorem sameButLayout_of_closed {f g : Forest} (ids : List NodeId)
    (grammar : g.grammar = f.grammar)
    (spans : g.entries.map (·.span) = f.entries.map (·.span))
    (nodes : ∀ id < f.size,
      (do return decide (f.Alike (← f.node id) (← g.node id)) : Checked Bool) = .ok true)
    (start : ∀ t < f.size, f.isLexical t = .ok true → t ∈ ids)
    (step : ∀ m ∈ ids, ∀ c ∈ f.below m, c ∈ ids)
    (same : ∀ m ∈ ids, g.node m = f.node m) : f.SameButLayout g where
  grammar := grammar
  size := by rw [size, ← Array.size_map, spans, Array.size_map, size]
  span := span_congr spans
  node id n m hf hg := by
    have ha := nodes id (node_eq_ok.1 hf).choose
    rw [hf, hg] at ha
    exact of_decide_eq_true (Except.ok.inj ha)
  tokens t id ht hid := same id (hid.mem (start t (lt_of_isLexical ht) ht) step)

namespace SameButLayout

variable {f g : Forest} (h : f.SameButLayout g)
include h

theorem node_cases (id : NodeId) :
    (∃ n m, f.node id = .ok n ∧ g.node id = .ok m ∧ f.Alike n m) ∨
      ∃ breach, f.node id = .error breach ∧ g.node id = .error breach := by
  cases hf : f.node id with
  | ok n =>
    cases hg : g.node id with
    | ok m => exact .inl ⟨n, m, rfl, rfl, h.node id n m hf hg⟩
    | error breach =>
      obtain ⟨hle, -⟩ := node_eq_error.1 hg
      obtain ⟨hlt, -⟩ := node_eq_ok.1 hf
      rw [h.size] at hle
      exact absurd hle (Nat.not_le.2 hlt)
  | error breach =>
    obtain ⟨hle, rfl⟩ := node_eq_error.1 hf
    exact .inr ⟨_, rfl, node_eq_error.2 ⟨h.size ▸ hle, h.size ▸ rfl⟩⟩

theorem bind_node {α : Type} {k l : Node → Checked α}
    (hk : ∀ n m, f.Alike n m → l m = k n) (id : NodeId) : g.node id >>= l = f.node id >>= k := by
  obtain ⟨n, m, hf, hg, ha⟩ | ⟨breach, hf, hg⟩ := h.node_cases id
  · rw [bind_of_ok hf, bind_of_ok hg, hk n m ha]
  · rw [hf, hg]
    rfl

theorem map_node {α : Type} {k : Node → α} (hk : ∀ n m, f.Alike n m → k m = k n) (id : NodeId) :
    k <$> g.node id = k <$> f.node id := by
  obtain ⟨n, m, hf, hg, ha⟩ | ⟨breach, hf, hg⟩ := h.node_cases id
  · rw [hf, hg]
    exact congrArg Except.ok (hk n m ha)
  · rw [hf, hg]

theorem alternatives (id : NodeId) : g.alternatives id = f.alternatives id :=
  h.map_node (fun _ _ ha => ha.alternatives) id

theorem isDerivation (id : NodeId) : g.isDerivation id = f.isDerivation id :=
  h.map_node (fun _ _ ha => ha.isDerivation) id

theorem isList (id : NodeId) : g.isList id = f.isList id :=
  h.map_node (fun _ _ ha => ha.isList) id

theorem isAmbiguity (id : NodeId) : g.isAmbiguity id = f.isAmbiguity id :=
  h.map_node (fun _ _ ha => ha.isAmbiguity) id

theorem production? (id : NodeId) : g.production? id = f.production? id := by
  refine h.bind_node (fun n m ha => ?_) id
  rw [ha.production?, h.grammar]

theorem hasProduction (id : NodeId) (property : Production → Bool) :
    g.hasProduction id property = f.hasProduction id property := by
  rw [Forest.hasProduction, h.production?, Forest.hasProduction]

theorem isLayout (id : NodeId) : g.isLayout id = f.isLayout id := h.hasProduction id _

theorem isEmptyNode (id : NodeId) : g.isEmptyNode id = f.isEmptyNode id := h.hasProduction id _

theorem constructor? (id : NodeId) : g.constructor? id = f.constructor? id := by
  rw [Forest.constructor?, h.production?, Forest.constructor?]

theorem isLexical (id : NodeId) : g.isLexical id = f.isLexical id := by
  rw [Forest.isLexical, h.isDerivation, h.hasProduction, Forest.isLexical]

theorem isLiteral (id : NodeId) : g.isLiteral id = f.isLiteral id := by
  refine h.bind_node (fun n m ha => ?_) id
  cases ha with
  | same =>
    cases n with
    | derivation => exact h.hasProduction id _
    | _ => rfl
  | derivation => exact h.hasProduction id _
  | list => rfl

theorem sortNameWithin (depth : Nat) (id : NodeId) :
    g.sortNameWithin depth id = f.sortNameWithin depth id := by
  induction depth generalizing id with
  | zero => rfl
  | succ depth ih =>
    have named : (do return (← g.production? id).elim "" (·.sortName)) =
        (do return (← f.production? id).elim "" (·.sortName)) := by
      rw [h.production?]
    refine h.bind_node (fun n m ha => ?_) id
    cases ha with
    | same =>
      match n with
      | .ambiguity [] => rfl
      | .ambiguity (first :: _) => exact ih first
      | .char _ | .literal .. | .derivation .. | .list .. | .optional .. | .cycle ..
      | .recovery _ => exact named
    | derivation | list => exact named

theorem sortName (id : NodeId) : g.sortName id = f.sortName id := by
  rw [Forest.sortName, Forest.depthLimit, h.size]
  exact h.sortNameWithin _ id

theorem slot (id : NodeId) : g.slot id = f.slot id := by
  refine h.bind_node (fun n m ha => ?_) id
  cases ha with
  | same =>
    match n with
    | .ambiguity (first :: _) => simp only [h.isList]
    | .ambiguity [] | .char _ | .literal .. | .derivation .. | .list .. | .optional ..
    | .cycle .. | .recovery _ => rfl
  | derivation | list => rfl

theorem yieldWithin {t : NodeId} (ht : f.isLexical t = .ok true) (depth : Nat) {id : NodeId}
    (hid : f.Within t id) : g.yieldWithin depth id = f.yieldWithin depth id := by
  induction depth generalizing id with
  | zero => rfl
  | succ depth ih =>
    have hnode := h.tokens t id ht hid
    unfold Forest.yieldWithin
    rw [hnode]
    refine bind_congr_ok fun n hn => ?_
    have below : ∀ c ∈ n.children ++ n.alternatives,
        g.yieldWithin depth c = f.yieldWithin depth c :=
      fun c hc => ih (hid.tail (by rw [Forest.below, hn]; exact hc))
    match n with
    | .derivation _ cs | .list _ cs _ =>
      have texts : cs.mapM (g.yieldWithin depth) = cs.mapM (f.yieldWithin depth) :=
        mapM_congr fun c hc => below c (List.mem_append_left _ hc)
      dsimp only
      rw [texts]
    | .optional _ (some c) => exact below c (List.mem_append_left _ (List.mem_singleton_self c))
    | .ambiguity (first :: _) => exact below first List.mem_cons_self
    | .char _ | .literal .. | .optional _ none | .ambiguity [] | .cycle .. | .recovery _ => rfl

theorem filter_children {property : NodeId → Checked Bool}
    (hp : ∀ c, f.isLayout c = .ok true → property c = .ok false) (id : NodeId) :
    g.children id >>= Checked.filter property = f.children id >>= Checked.filter property := by
  obtain ⟨n, m, hf, hg, ha⟩ | ⟨breach, hf, hg⟩ := h.node_cases id
  · rw [Forest.children, Forest.children, hf, hg]
    calc Checked.filter property m.children
        = Checked.filter property (f.showing m.children) := (filter_showing hp _).symm
      _ = Checked.filter property (f.showing n.children) := by rw [ha.showing]
      _ = Checked.filter property n.children := filter_showing hp _
  · rw [Forest.children, Forest.children, hf, hg]

theorem yieldText {t : NodeId} (ht : f.isLexical t = .ok true) :
    g.yieldText t = f.yieldText t := by
  rw [Forest.yieldText, Forest.depthLimit, h.size]
  exact h.yieldWithin ht _ .refl

end SameButLayout

end Forest

end ParseForest
