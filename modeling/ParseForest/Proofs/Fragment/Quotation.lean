import Mathlib.Control.Monad.Basic
import Mathlib.Logic.Relation
import ParseForest.Proofs.Forest.Acyclic

/-!
Where quoted fragments lie in a forest: the derivations that are read as fragments, and the nodes
whose images such a fragment is made of. Anti-quotes and tokens end the descent of an image.
-/

namespace ParseForest

theorem Grammar.production_eq_ok {g : Grammar} {id : ProdId} {p : Production} :
    g.production id = .ok p ↔ g.get? id = some p := by
  unfold Grammar.production
  cases g.get? id <;> simp

def Production.isToken (p : Production) : Bool :=
  p.isLexical || p.isLayout || p.isLiteral || p.isCaseless

theorem Production.isToken_of_lexical {p : Production} (h : (p.isLexical || p.isLayout) = true) :
    p.isToken = true := by
  rw [isToken, h, Bool.true_or, Bool.true_or]

theorem Production.isToken_eq {p : Production} (h : (p.isLexical || p.isLayout) = false) :
    p.isToken = (p.isLiteral || p.isCaseless) := by
  rw [isToken, h, Bool.false_or]

namespace Builder

/-- The node is a derivation that is read as a quoted fragment. -/
def Embeds (b : Builder) (node : NodeId) : Prop :=
  b.forest.isDerivation node = .ok true ∧ b.forest.isLexical node = .ok false ∧
    b.isEmbedding node = .ok true

instance (b : Builder) (node : NodeId) : Decidable (b.Embeds node) := by
  unfold Embeds
  infer_instance

/-- The first node is read as a fragment with the second as its pattern. -/
def Quotes (b : Builder) (e p : NodeId) : Prop := b.Embeds e ∧ b.pattern? e = .ok (some p)

instance (b : Builder) (e p : NodeId) : Decidable (b.Quotes e p) := by
  unfold Quotes
  infer_instance

def Unquoted (b : Builder) : Prop := ∀ node, ¬ b.Embeds node

def isHole (b : Builder) (p : Production) : Bool :=
  p.constructor.any b.conventions.isHoleConstructor

def isHoleAt (b : Builder) (node : NodeId) : Bool :=
  match b.forest.node node with
  | .ok (.derivation prod _) => (b.forest.grammar.get? prod).any b.isHole
  | _ => false

def mirrored (b : Builder) (node : NodeId) : List NodeId :=
  match b.forest.node node with
  | .ok (.derivation prod children) => match b.forest.grammar.get? prod with
    | some p => if b.isHole p || p.isToken then [] else children
    | none => []
  | .ok n => n.children ++ n.alternatives
  | .error _ => []

/-- The image of `pattern` has the image of `node` in it, or is that image. -/
def Reaches (b : Builder) (pattern node : NodeId) : Prop :=
  Relation.ReflTransGen (fun m c => c ∈ b.mirrored m) pattern node

/-- The node lies in a quoted pattern, outside of its anti-quotes. -/
def Quoted (b : Builder) (node : NodeId) : Prop :=
  ∃ e p, b.Quotes e p ∧ b.Reaches p node

/-- No quoted pattern has a fragment in it other than in an anti-quote. -/
def QuotesApart (b : Builder) : Prop := ∀ node, b.Quoted node → ¬ b.Embeds node

variable {b : Builder} {n : NodeId}

theorem Embeds.node (h : b.Embeds n) : ∃ prod cs, b.forest.node n = .ok (.derivation prod cs) := by
  obtain ⟨node, hn, hd⟩ := Success.map_eq_ok.1 h.1
  cases node with
  | derivation prod cs => exact ⟨prod, cs, hn⟩
  | _ => cases hd

theorem Embeds.lt (h : b.Embeds n) : n < b.forest.size := by
  obtain ⟨_, _, hn⟩ := h.node
  exact (Forest.node_eq_ok.1 hn).choose

instance : Decidable b.Unquoted :=
  decidable_of_iff (∀ node < b.forest.size, ¬ b.Embeds node)
    ⟨fun h node he => h node he.lt he, fun h node _ => h node⟩

theorem embeds_of_node {prod : ProdId} {cs : List NodeId}
    (hn : b.forest.node n = .ok (.derivation prod cs)) (hl : b.forest.isLexical n = .ok false)
    (he : b.isEmbedding n = .ok true) : b.Embeds n := by
  refine ⟨?_, hl, he⟩
  simp only [Forest.isDerivation, hn]
  rfl

theorem isHoleAt_of_derivation {prod : ProdId} {cs : List NodeId} {p : Production}
    (hn : b.forest.node n = .ok (.derivation prod cs)) (hp : b.forest.grammar.get? prod = some p) :
    b.isHoleAt n = b.isHole p := by
  simp [isHoleAt, hn, hp]

theorem mirrored_of_derivation {prod : ProdId} {cs : List NodeId} {p : Production}
    (hn : b.forest.node n = .ok (.derivation prod cs)) (hp : b.forest.grammar.get? prod = some p)
    (hole : b.isHole p = false) (token : p.isToken = false) : b.mirrored n = cs := by
  simp [mirrored, hn, hp, hole, token]

theorem mirrored_of_token {prod : ProdId} {cs : List NodeId} {p : Production}
    (hn : b.forest.node n = .ok (.derivation prod cs)) (hp : b.forest.grammar.get? prod = some p)
    (token : p.isToken = true) : b.mirrored n = [] := by
  simp [mirrored, hn, hp, token]

theorem mirrored_of_list {prod : ProdId} {cs : List NodeId} {isPartial : Bool}
    (hn : b.forest.node n = .ok (.list prod cs isPartial)) : b.mirrored n = cs := by
  simp [mirrored, hn, Node.children, Node.alternatives]

theorem mirrored_of_optional {prod : ProdId} {child : Option NodeId}
    (hn : b.forest.node n = .ok (.optional prod child)) : b.mirrored n = child.toList := by
  simp [mirrored, hn, Node.children, Node.alternatives]

theorem mirrored_of_ambiguity {alts : List NodeId}
    (hn : b.forest.node n = .ok (.ambiguity alts)) : b.mirrored n = alts := by
  simp [mirrored, hn, Node.children, Node.alternatives]

theorem mirrored_lt (hf : b.forest.Acyclic) {c : NodeId} (hc : c ∈ b.mirrored n) : c < n := by
  unfold mirrored at hc
  split at hc
  next prod cs hn =>
    have hm : c ∈ cs := by
      split at hc
      · split at hc
        · cases hc
        · exact hc
      · cases hc
    exact hf.lt_of_child hn hm
  next node _ hn =>
    rcases List.mem_append.1 hc with hc | hc
    · exact hf.lt_of_child hn hc
    · exact hf.lt_of_alternative hn hc
  next => cases hc

theorem Quoted.mirrored {c : NodeId} (h : b.Quoted n) (hc : c ∈ b.mirrored n) : b.Quoted c := by
  obtain ⟨e, p, hp, hr⟩ := h
  exact ⟨e, p, hp, hr.tail hc⟩

theorem Quotes.quoted {p : NodeId} (h : b.Quotes n p) : b.Quoted p := ⟨n, p, h, .refl⟩

theorem Reaches.mem {p m : NodeId} {nodes : List NodeId} (h : b.Reaches p m) (hp : p ∈ nodes)
    (step : ∀ m ∈ nodes, ∀ c ∈ b.mirrored m, c ∈ nodes) : m ∈ nodes := by
  induction h with
  | refl => exact hp
  | tail _ hc ih => exact step _ ih _ hc

theorem quotesApart_of_closed (hf : b.forest.Acyclic) (nodes : List NodeId)
    (start : ∀ e < b.forest.size, ∀ p < b.forest.size, b.Quotes e p → p ∈ nodes)
    (step : ∀ m ∈ nodes, ∀ c ∈ b.mirrored m, c ∈ nodes)
    (apart : ∀ m ∈ nodes, ¬ b.Embeds m) : b.QuotesApart := by
  rintro m ⟨e, p, hp, hr⟩
  have hlt : p < b.forest.size := Nat.lt_trans (hf.lt_of_pattern hp.2) hp.1.lt
  exact apart m (hr.mem (start e hp.1.lt p hlt hp) step)

end Builder

end ParseForest
