import ParseForest.Proofs.Forest.Yield
import ParseForest.Proofs.Fragment.Quotation

/-!
Forests as they are built, call by call, from identifiers that were handed out before. A call adds
one node or one production, finds a node that is there, sets one span, or breaks its contract.
Whatever is built refers to earlier nodes and to known productions only, and later calls leave it as
it is. Main statements: `Forest.change_of_construct`, `Site.Sound.after`, `Site.grows_after`,
`Site.entry_after`.
-/

namespace ParseForest

open Success

/-- A call on a forest that is being built. The calls for cycles and clusters inside of lists are
those for cycles and clusters. -/
inductive Construction where
  | production (p : Production)
  | char (code : Nat)
  | literal (text : String) (prod : ProdId)
  | derivation (children : List NodeId) (prod : ProdId)
  | partialList (children : List NodeId) (prod : ProdId)
  | list (children : List NodeId) (prod : ProdId)
  | ambiguity (alternatives : List NodeId)
  | cycle (depth : Nat) (prod : ProdId)
  | recovery (text : String)
  | span (id : NodeId) (span : Span)

namespace Construction

def nodes : Construction → List NodeId
  | derivation cs _ | partialList cs _ | list cs _ | ambiguity cs => cs
  | span id _ => [id]
  | _ => []

def productions : Construction → List ProdId
  | literal _ p | derivation _ p | partialList _ p | list _ p | cycle _ p => [p]
  | _ => []

end Construction

inductive Issue where
  | node (id : NodeId)
  | production (id : ProdId)
  | nothing

namespace Issue

def nodes : Issue → List NodeId
  | node id => [id]
  | _ => []

def productions : Issue → List ProdId
  | production id => [id]
  | _ => []

end Issue

namespace Forest

def issueNode (r : Forest × NodeId) : Forest × Issue := (r.1, .node r.2)

def construct (f : Forest) : Construction → Checked (Forest × Issue)
  | .production p => return ((f.addProduction p).1, .production (f.addProduction p).2)
  | .char code => return issueNode (f.addChar code)
  | .literal text prod => return issueNode (f.addLiteral text prod)
  | .derivation cs prod => issueNode <$> f.addDerivation cs prod
  | .partialList cs prod => return issueNode (f.addPartialList cs prod)
  | .list cs prod => issueNode <$> f.addList cs prod
  | .ambiguity alts => issueNode <$> f.addAmbiguity alts
  | .cycle depth prod => return issueNode (f.addCycle depth prod)
  | .recovery text => return issueNode (f.addRecovery text)
  | .span id span => return (← f.setSpan id span, .nothing)

/-- Everything that a node refers to is there, and a cluster has alternatives to choose from. -/
structure Admits (f : Forest) (n : Node) : Prop where
  below : ∀ c ∈ n.children ++ n.alternatives, c < f.size
  named : ∀ p ∈ n.production?, p < f.grammar.size
  clusters : ∀ alts, n = .ambiguity alts → 2 ≤ alts.length ∧ alts.Pairwise (· < ·)

/-- Nodes refer to earlier nodes and to productions of the grammar, and clusters are of two or more
alternatives in increasing order. -/
structure WellBuilt (f : Forest) : Prop where
  acyclic : f.Acyclic
  named : ∀ id n, f.node id = .ok n → ∀ p ∈ n.production?, p < f.grammar.size
  clusters : ∀ id alts, f.node id = .ok (.ambiguity alts) →
    2 ≤ alts.length ∧ alts.Pairwise (· < ·)

section Distinct

theorem mem_insertId {x id : NodeId} {ids : List NodeId} :
    x ∈ insertId id ids ↔ x = id ∨ x ∈ ids := by
  induction ids with
  | nil => simp [insertId]
  | cons y ys ih =>
    unfold insertId
    split
    · exact List.mem_cons
    · split
      next h => simp [h]
      next => rw [List.mem_cons, ih, List.mem_cons, or_left_comm]

theorem pairwise_insertId (id : NodeId) {ids : List NodeId} (h : ids.Pairwise (· < ·)) :
    (insertId id ids).Pairwise (· < ·) := by
  induction ids with
  | nil => exact List.pairwise_singleton _ _
  | cons y ys ih =>
    obtain ⟨hy, hys⟩ := List.pairwise_cons.1 h
    unfold insertId
    split
    next hlt =>
      refine List.pairwise_cons.2 ⟨List.forall_mem_cons.2 ⟨hlt, fun z hz => ?_⟩, h⟩
      exact Nat.lt_trans hlt (hy z hz)
    next hle =>
      split
      next => exact h
      next hne =>
        refine List.pairwise_cons.2 ⟨fun z hz => ?_, ih hys⟩
        rcases mem_insertId.1 hz with rfl | hz
        · exact Nat.lt_of_le_of_ne (Nat.not_lt.1 hle) (Ne.symm hne)
        · exact hy z hz

theorem mem_distinct {x : NodeId} {ids : List NodeId} : x ∈ distinct ids ↔ x ∈ ids := by
  induction ids with
  | nil => rfl
  | cons id ids ih => rw [distinct, List.foldr_cons, mem_insertId, List.mem_cons, ← ih, distinct]

theorem pairwise_distinct (ids : List NodeId) : (distinct ids).Pairwise (· < ·) := by
  induction ids with
  | nil => exact .nil
  | cons id ids ih => exact pairwise_insertId id ih

end Distinct

section Push

variable {f : Forest} {n : Node} {id : NodeId}

theorem size_push : (f.push n).1.size = f.size + 1 := Array.size_push ..

theorem entry_push_of_lt (h : id < f.size) : (f.push n).1.entry id = f.entry id := by
  have hpush : (f.entries.push ⟨n, none⟩)[id]? = f.entries[id]? := by
    exact Array.getElem?_push.trans (if_neg (Nat.ne_of_lt h))
  unfold entry push
  simp only [hpush, Array.getElem?_eq_getElem h]

theorem node_push_of_lt (h : id < f.size) : (f.push n).1.node id = f.node id := by
  rw [node, node, entry_push_of_lt h]

theorem node_push_self : (f.push n).1.node f.size = .ok n := by
  have hpush : (f.entries.push ⟨n, none⟩)[f.size]? = some ⟨n, none⟩ := Array.getElem?_push_size
  unfold node entry push
  simp only [hpush]
  rfl

theorem node_push {m : Node} (h : (f.push n).1.node id = .ok m) :
    f.node id = .ok m ∨ id = f.size ∧ m = n := by
  obtain ⟨hlt, -⟩ := node_eq_ok.1 h
  rcases Nat.lt_succ_iff_lt_or_eq.1 (Nat.lt_of_lt_of_eq hlt size_push) with hlt | rfl
  · exact .inl ((node_push_of_lt hlt).symm.trans h)
  · rw [node_push_self] at h
    cases h
    exact .inr ⟨rfl, rfl⟩

end Push

section SetSpan

variable {f f' : Forest} {id other : NodeId} {span : Span}

theorem setSpan_eq_ok : f.setSpan id span = .ok f' ↔ ∃ e, f.entry id = .ok e ∧
    f' = { f with entries := f.entries.setIfInBounds id { e with span := some span } } := by
  simp only [setSpan, bind_eq_ok, pure_eq_ok]
  exact exists_congr fun e => and_congr_right fun _ => eq_comm

theorem entry_eq_ok {e : Entry} :
    f.entry id = .ok e ↔ ∃ h : id < f.entries.size, f.entries[id] = e := by
  unfold entry
  by_cases h : id < f.entries.size
  · simp [h]
  · simp [h]

theorem entry_setSpan_of_ne (h : f.setSpan id span = .ok f') (hne : other ≠ id) :
    f'.entry other = f.entry other := by
  obtain ⟨e, -, rfl⟩ := setSpan_eq_ok.1 h
  simp only [entry, size, Array.getElem?_setIfInBounds_ne (Ne.symm hne), Array.size_setIfInBounds]

theorem node_setSpan (h : f.setSpan id span = .ok f') : f'.node other = f.node other := by
  by_cases hne : other = id
  · subst hne
    obtain ⟨e, he, rfl⟩ := setSpan_eq_ok.1 h
    obtain ⟨hlt, hentry⟩ := entry_eq_ok.1 he
    simp [node, entry, hlt, hentry, Functor.map, Except.map]
  · rw [node, node, entry_setSpan_of_ne h hne]

theorem grammar_setSpan (h : f.setSpan id span = .ok f') : f'.grammar = f.grammar := by
  obtain ⟨e, -, rfl⟩ := setSpan_eq_ok.1 h
  rfl

theorem size_setSpan (h : f.setSpan id span = .ok f') : f'.size = f.size := by
  obtain ⟨e, -, rfl⟩ := setSpan_eq_ok.1 h
  exact Array.size_setIfInBounds

end SetSpan

/-- All that a successful call can do to a forest, and what it hands out. -/
inductive Change (f : Forest) : Construction → Forest → Issue → Prop
  | production (p : Production) :
    Change f (.production p) (f.addProduction p).1 (.production (f.addProduction p).2)
  | push {c : Construction} {n : Node} (admitted : f.Admits n) :
    Change f c (f.push n).1 (.node f.size)
  | found {c : Construction} {id : NodeId} (passed : id ∈ c.nodes) : Change f c f (.node id)
  | span {id : NodeId} {span : Span} {f' : Forest} (set : f.setSpan id span = .ok f') :
    Change f (.span id span) f' .nothing

section Construct

variable {f f' : Forest} {c : Construction} {i : Issue}

structure Knows (f : Forest) (c : Construction) : Prop where
  nodes : ∀ id ∈ c.nodes, id < f.size
  productions : ∀ p ∈ c.productions, p < f.grammar.size

theorem lt_of_splice (hf : f.Acyclic) {prod : ProdId} {child : NodeId} {items : List NodeId}
    (h : f.splice prod child = .ok items) (hc : child < f.size) : ∀ c ∈ items, c < f.size := by
  obtain ⟨n, hn, h⟩ := bind_eq_ok.1 h
  have kept : ∀ c ∈ [child], c < f.size := List.forall_mem_singleton.2 hc
  split at h
  next p members =>
    have h := pure_eq_ok.1 h
    split at h
    · subst h
      exact fun c hm => Nat.lt_trans (hf.lt_of_child hn hm) hc
    · exact h ▸ kept
  next => exact pure_eq_ok.1 h ▸ kept

theorem lt_of_splices (hf : f.Acyclic) {prod : ProdId} {cs : List NodeId}
    {itemss : List (List NodeId)} (h : cs.mapM (f.splice prod) = .ok itemss)
    (hcs : ∀ c ∈ cs, c < f.size) : ∀ c ∈ itemss.flatten, c < f.size := by
  intro c hc
  obtain ⟨items, hmem, hc⟩ := List.mem_flatten.1 hc
  obtain ⟨child, hchild, hsplice⟩ := mem_of_mapM h hmem
  exact lt_of_splice hf hsplice (hcs child hchild) c hc

theorem addDerivation_cases {cs : List NodeId} {prod : ProdId} {r : Forest × NodeId}
    (h : f.addDerivation cs prod = .ok r) :
    f.addList cs prod = .ok r ∨ ∃ n, (n = .derivation prod cs ∨ n = .optional prod cs.head?) ∧
      n.children = cs ∧ r = f.push n := by
  obtain ⟨p, -, h⟩ := bind_eq_ok.1 h
  split at h
  · exact .inl h
  · split at h
    · split at h
      · exact .inr ⟨_, .inr rfl, rfl, (pure_eq_ok.1 h).symm⟩
      · exact .inr ⟨_, .inr rfl, rfl, (pure_eq_ok.1 h).symm⟩
      · cases h
    · exact .inr ⟨_, .inl rfl, rfl, (pure_eq_ok.1 h).symm⟩

theorem addAmbiguity_cases {alts : List NodeId} {r : Forest × NodeId}
    (h : f.addAmbiguity alts = .ok r) :
    (∃ only, distinct alts = [only] ∧ r = (f, only)) ∨
      2 ≤ (distinct alts).length ∧ r = f.push (.ambiguity (distinct alts)) := by
  unfold addAmbiguity at h
  split at h
  · cases h
  next only hd =>
    cases h
    exact .inl ⟨only, hd, rfl⟩
  next hnil hone =>
    cases h
    refine .inr ⟨?_, rfl⟩
    match hd : distinct alts with
    | [] => exact absurd hd hnil
    | [only] => exact absurd hd (hone only)
    | _ :: _ :: _ => simp

theorem admits_of_production {n : Node} {prod : ProdId} (hn : n.production? = some prod)
    (hcs : ∀ c ∈ n.children, c < f.size) (hp : prod < f.grammar.size) : f.Admits n where
  below c hc := by
    rcases List.mem_append.1 hc with hc | hc
    · exact hcs c hc
    · cases n with
      | ambiguity => cases hn
      | _ => cases hc
  named p hm := by
    cases hn.symm.trans hm
    exact hp
  clusters := by
    rintro alts rfl
    cases hn

theorem admits_of_bare {n : Node} (hn : n.production? = none) (hcs : n.children = [])
    (ha : n.isAmbiguity = false) : f.Admits n where
  below c hc := by
    cases n with
    | ambiguity => cases ha
    | char | recovery => cases hc
    | _ => cases hn
  named p hm := by
    cases hn.symm.trans hm
  clusters := by
    rintro alts rfl
    cases ha

theorem change_of_addList (hf : f.Acyclic) {cs : List NodeId} {prod : ProdId}
    (hcs : ∀ c ∈ cs, c < f.size) (hp : prod < f.grammar.size)
    (h : issueNode <$> f.addList cs prod = .ok (f', i)) : f.Change c f' i := by
  obtain ⟨r, hr, h⟩ := map_eq_ok.1 h
  obtain ⟨itemss, hitems, hr⟩ := bind_eq_ok.1 hr
  cases pure_eq_ok.1 hr
  cases h
  exact .push (admits_of_production rfl (lt_of_splices hf hitems hcs) hp)

theorem change_of_addDerivation (hf : f.Acyclic) {cs : List NodeId} {prod : ProdId}
    (hcs : ∀ c ∈ cs, c < f.size) (hp : prod < f.grammar.size)
    (h : issueNode <$> f.addDerivation cs prod = .ok (f', i)) : f.Change c f' i := by
  obtain ⟨r, hr, h⟩ := map_eq_ok.1 h
  rcases addDerivation_cases hr with hlist | ⟨n, hn, hchildren, rfl⟩
  · exact change_of_addList hf hcs hp (map_eq_ok.2 ⟨r, hlist, h⟩)
  · cases h
    have hprod : n.production? = some prod := by
      rcases hn with rfl | rfl <;> rfl
    exact .push (admits_of_production hprod (hchildren ▸ hcs) hp)

theorem change_of_addAmbiguity {alts : List NodeId} (halts : ∀ a ∈ alts, a < f.size)
    (hc : c.nodes = alts) (h : issueNode <$> f.addAmbiguity alts = .ok (f', i)) :
    f.Change c f' i := by
  obtain ⟨r, hr, h⟩ := map_eq_ok.1 h
  rcases addAmbiguity_cases hr with ⟨only, hd, rfl⟩ | ⟨hlength, rfl⟩
  · cases h
    exact .found (hc ▸ mem_distinct.1 (hd ▸ List.mem_singleton_self only))
  · cases h
    refine .push ⟨fun a ha => halts a (mem_distinct.1 ha), nofun, ?_⟩
    rintro _ ⟨⟩
    exact ⟨hlength, pairwise_distinct alts⟩

theorem change_of_construct (hf : f.Acyclic) (hk : f.Knows c)
    (h : f.construct c = .ok (f', i)) : f.Change c f' i := by
  cases c with
  | production p =>
    cases pure_eq_ok.1 h
    exact .production p
  | char | recovery =>
    cases pure_eq_ok.1 h
    exact .push (admits_of_bare rfl rfl rfl)
  | literal text prod =>
    cases pure_eq_ok.1 h
    exact .push (admits_of_production rfl nofun (hk.productions prod (List.mem_singleton_self _)))
  | derivation cs prod =>
    exact change_of_addDerivation hf hk.nodes (hk.productions prod (List.mem_singleton_self _)) h
  | partialList cs prod =>
    cases pure_eq_ok.1 h
    have hprod := hk.productions prod (List.mem_singleton_self _)
    exact .push (admits_of_production rfl hk.nodes hprod)
  | list cs prod =>
    exact change_of_addList hf hk.nodes (hk.productions prod (List.mem_singleton_self _)) h
  | ambiguity alts => exact change_of_addAmbiguity hk.nodes rfl h
  | cycle depth prod =>
    cases pure_eq_ok.1 h
    exact .push (admits_of_production rfl nofun (hk.productions prod (List.mem_singleton_self _)))
  | span id span =>
    obtain ⟨g, hg, h⟩ := bind_eq_ok.1 h
    cases pure_eq_ok.1 h
    exact .span hg

theorem fails_iff_of_ok {α : Type} {x : Checked α} {a : α} {P : Prop} (hx : x = .ok a)
    (hP : ¬ P) : (∃ e, x = .error e) ↔ P :=
  iff_of_false (fun ⟨_, h⟩ => nomatch hx.symm.trans h) hP

theorem exists_splice (prod : ProdId) {child : NodeId} (hc : child < f.size) :
    ∃ items, f.splice prod child = .ok items := by
  obtain ⟨n, hn⟩ := node_of_lt hc
  rw [splice, bind_of_ok hn]
  split
  · exact ⟨_, rfl⟩
  · exact ⟨_, rfl⟩

theorem exists_addList {cs : List NodeId} (prod : ProdId) (hcs : ∀ c ∈ cs, c < f.size) :
    ∃ r, f.addList cs prod = .ok r := by
  obtain ⟨items, hitems⟩ := exists_mapM fun c hc => exists_splice prod (hcs c hc)
  exact ⟨_, bind_eq_ok.2 ⟨items, hitems, rfl⟩⟩

theorem distinct_eq_nil {ids : List NodeId} : distinct ids = [] ↔ ids = [] := by
  constructor
  · intro h
    exact List.eq_nil_iff_forall_not_mem.2 fun x hx => nomatch h ▸ mem_distinct.2 hx
  · rintro rfl
    rfl

theorem addAmbiguity_fails_iff {alts : List NodeId} :
    (∃ e, f.addAmbiguity alts = .error e) ↔ alts = [] := by
  rw [← distinct_eq_nil, addAmbiguity]
  split
  next h => simp [h]
  next h => simp [h]
  next h _ => exact fails_iff_of_ok rfl h

theorem addDerivation_fails_iff {cs : List NodeId} {prod : ProdId} {p : Production}
    (hcs : ∀ c ∈ cs, c < f.size) (hp : f.grammar.get? prod = some p) :
    (∃ e, f.addDerivation cs prod = .error e) ↔
      p.isList = false ∧ p.isOptional = true ∧ 2 ≤ cs.length := by
  unfold addDerivation
  rw [bind_of_ok (Grammar.production_eq_ok.2 hp)]
  cases p.isList with
  | true =>
    obtain ⟨r, hr⟩ := exists_addList prod hcs
    exact fails_iff_of_ok hr (by simp)
  | false =>
    cases p.isOptional with
    | true =>
      match cs with
      | [] => exact fails_iff_of_ok rfl (by simp)
      | [_] => exact fails_iff_of_ok rfl (by simp)
      | _ :: _ :: _ => exact iff_of_true ⟨_, rfl⟩ (by simp)
    | false => exact fails_iff_of_ok rfl (by simp)

theorem map_fails_iff {α β : Type} {x : Checked α} {g : α → β} :
    (∃ e, g <$> x = .error e) ↔ ∃ e, x = .error e := by
  cases x <;> simp [Functor.map, Except.map]

theorem construct_fails_iff (hk : f.Knows c) :
    (∃ e, f.construct c = .error e) ↔ c = .ambiguity [] ∨ ∃ cs prod p, c = .derivation cs prod ∧
      f.grammar.get? prod = some p ∧ p.isList = false ∧ p.isOptional = true ∧ 2 ≤ cs.length := by
  cases c with
  | derivation cs prod =>
    have hlt : prod < f.grammar.size := hk.productions prod (List.mem_singleton_self _)
    have hcs : ∀ c ∈ cs, c < f.size := hk.nodes
    have hp : f.grammar.get? prod = some f.grammar.productions[prod] :=
      List.getElem?_eq_getElem hlt
    rw [construct, map_fails_iff, addDerivation_fails_iff hcs hp]
    constructor
    · exact fun h => .inr ⟨cs, prod, _, rfl, hp, h⟩
    · rintro (h | ⟨_, _, p, h, hp', hfails⟩)
      · cases h
      · cases h
        cases hp.symm.trans hp'
        exact hfails
  | list cs prod =>
    have hcs : ∀ c ∈ cs, c < f.size := hk.nodes
    obtain ⟨r, hr⟩ := exists_addList prod hcs
    exact fails_iff_of_ok (map_eq_ok.2 ⟨r, hr, rfl⟩) (by simp)
  | ambiguity alts =>
    rw [construct, map_fails_iff, addAmbiguity_fails_iff]
    constructor
    · rintro rfl
      exact .inl rfl
    · rintro (h | ⟨_, _, _, h, _⟩)
      · cases h
        rfl
      · cases h
  | span id span =>
    have hentry := entry_eq_ok.2 ⟨hk.nodes id (List.mem_singleton_self _), rfl⟩
    have hset : f.setSpan id span = .ok _ := setSpan_eq_ok.2 ⟨_, hentry, rfl⟩
    exact fails_iff_of_ok (bind_eq_ok.2 ⟨_, hset, rfl⟩) (by simp)
  | _ => exact fails_iff_of_ok rfl (by simp)

end Construct

structure Grows (f f' : Forest) : Prop where
  size : f.size ≤ f'.size
  node : ∀ id < f.size, f'.node id = f.node id
  productions : f.grammar.size ≤ f'.grammar.size
  production : ∀ p < f.grammar.size, f'.grammar.get? p = f.grammar.get? p

namespace Grows

theorem refl (f : Forest) : f.Grows f :=
  ⟨Nat.le_refl _, fun _ _ => rfl, Nat.le_refl _, fun _ _ => rfl⟩

theorem trans {f g h : Forest} (hfg : f.Grows g) (hgh : g.Grows h) : f.Grows h where
  size := Nat.le_trans hfg.size hgh.size
  node id hid := (hgh.node id (Nat.lt_of_lt_of_le hid hfg.size)).trans (hfg.node id hid)
  productions := Nat.le_trans hfg.productions hgh.productions
  production p hp :=
    (hgh.production p (Nat.lt_of_lt_of_le hp hfg.productions)).trans (hfg.production p hp)

end Grows

section Changes

variable {f f' : Forest} {c : Construction} {i : Issue}

theorem wellBuilt_empty (g : Grammar) : (empty g).WellBuilt where
  acyclic := nofun
  named _ _ hn := nomatch (node_eq_ok.1 hn).choose
  clusters _ _ hn := nomatch (node_eq_ok.1 hn).choose

theorem Acyclic.push {n : Node} (hf : f.Acyclic)
    (hn : ∀ c ∈ n.children ++ n.alternatives, c < f.size) : (f.push n).1.Acyclic :=
  acyclic_iff.2 fun id m hm => by
    rcases node_push hm with hold | ⟨rfl, rfl⟩
    · exact acyclic_iff.1 hf id m hold
    · exact hn

theorem WellBuilt.push {n : Node} (hf : f.WellBuilt) (hn : f.Admits n) :
    (f.push n).1.WellBuilt where
  acyclic := hf.acyclic.push hn.below
  named id m hm := by
    rcases node_push hm with hold | ⟨rfl, rfl⟩
    · exact hf.named id m hold
    · exact hn.named
  clusters id alts hm := by
    rcases node_push hm with hold | ⟨rfl, rfl⟩
    · exact hf.clusters id alts hold
    · exact hn.clusters alts rfl

theorem size_add_le (g : Grammar) (p : Production) : g.size ≤ (g.add p).1.size := by
  unfold Grammar.add
  split
  · exact Nat.le_refl _
  · simp [Grammar.size]

theorem WellBuilt.addProduction (hf : f.WellBuilt) (p : Production) :
    (f.addProduction p).1.WellBuilt where
  acyclic := hf.acyclic
  named id n hn q hq := Nat.lt_of_lt_of_le (hf.named id n hn q hq) (size_add_le f.grammar p)
  clusters := hf.clusters

theorem WellBuilt.setSpan {id : NodeId} {span : Span} (hf : f.WellBuilt)
    (h : f.setSpan id span = .ok f') : f'.WellBuilt := by
  have hgrammar := grammar_setSpan h
  constructor
  · exact acyclic_iff.2 fun id n hn => acyclic_iff.1 hf.acyclic id n (node_setSpan h ▸ hn)
  · exact fun id n hn => hgrammar ▸ hf.named id n (node_setSpan h ▸ hn)
  · exact fun id alts hn => hf.clusters id alts (node_setSpan h ▸ hn)

theorem Change.wellBuilt (hf : f.WellBuilt) (h : f.Change c f' i) : f'.WellBuilt := by
  cases h with
  | production p => exact hf.addProduction p
  | push hn => exact hf.push hn
  | found => exact hf
  | span set => exact hf.setSpan set

theorem grows_push (f : Forest) (n : Node) : f.Grows (f.push n).1 :=
  ⟨size_push ▸ Nat.le_succ _, fun _ hid => node_push_of_lt hid, Nat.le_refl _, fun _ _ => rfl⟩

theorem grows_addProduction (f : Forest) (p : Production) : f.Grows (f.addProduction p).1 :=
  ⟨Nat.le_refl _, fun _ _ => rfl, size_add_le _ p, fun _ hq => Grammar.get?_add_of_lt p hq⟩

theorem grows_setSpan {id : NodeId} {span : Span} (h : f.setSpan id span = .ok f') :
    f.Grows f' := by
  have hg := grammar_setSpan h
  exact ⟨Nat.le_of_eq (size_setSpan h).symm, fun _ _ => node_setSpan h,
    Nat.le_of_eq (congrArg _ hg.symm), fun _ _ => hg ▸ rfl⟩

theorem grows_addList {cs : List NodeId} {prod : ProdId} {r : Forest × NodeId}
    (h : f.addList cs prod = .ok r) : f.Grows r.1 := by
  obtain ⟨items, -, h⟩ := bind_eq_ok.1 h
  cases pure_eq_ok.1 h
  exact grows_push f _

theorem grows_addDerivation {cs : List NodeId} {prod : ProdId} {r : Forest × NodeId}
    (h : f.addDerivation cs prod = .ok r) : f.Grows r.1 := by
  rcases addDerivation_cases h with hlist | ⟨n, -, -, rfl⟩
  · exact grows_addList hlist
  · exact grows_push f n

theorem grows_addAmbiguity {alts : List NodeId} {r : Forest × NodeId}
    (h : f.addAmbiguity alts = .ok r) : f.Grows r.1 := by
  rcases addAmbiguity_cases h with ⟨only, -, rfl⟩ | ⟨-, rfl⟩
  · exact .refl f
  · exact grows_push f _

theorem grows_construct (h : f.construct c = .ok (f', i)) : f.Grows f' := by
  cases c with
  | production p =>
    cases pure_eq_ok.1 h
    exact grows_addProduction f p
  | derivation cs prod =>
    obtain ⟨r, hr, ⟨⟩⟩ := map_eq_ok.1 h
    exact grows_addDerivation hr
  | list cs prod =>
    obtain ⟨r, hr, ⟨⟩⟩ := map_eq_ok.1 h
    exact grows_addList hr
  | ambiguity alts =>
    obtain ⟨r, hr, ⟨⟩⟩ := map_eq_ok.1 h
    exact grows_addAmbiguity hr
  | span id span =>
    obtain ⟨g, hg, h⟩ := bind_eq_ok.1 h
    cases pure_eq_ok.1 h
    exact grows_setSpan hg
  | _ =>
    cases pure_eq_ok.1 h
    exact grows_push f _

theorem Change.entry (h : f.Change c f' i) {id : NodeId} (hid : id < f.size)
    (hc : ∀ span, c ≠ .span id span) : f'.entry id = f.entry id := by
  cases h with
  | production => rfl
  | push => exact entry_push_of_lt hid
  | found => rfl
  | @span id' span _ set =>
    refine entry_setSpan_of_ne set ?_
    rintro rfl
    exact hc span rfl

theorem Change.issued (h : f.Change c f' i) (hk : f.Knows c) :
    (∀ id ∈ i.nodes, id < f'.size) ∧ ∀ p ∈ i.productions, p < f'.grammar.size := by
  cases h with
  | production p =>
    refine ⟨nofun, List.forall_mem_singleton.2 ?_⟩
    obtain ⟨hlt, -⟩ := List.getElem?_eq_some_iff.1 (f.grammar.get?_add_self p)
    exact hlt
  | push => exact ⟨List.forall_mem_singleton.2 (size_push ▸ Nat.lt_succ_self _), nofun⟩
  | found passed => exact ⟨List.forall_mem_singleton.2 (hk.nodes _ passed), nofun⟩
  | span => exact ⟨nofun, nofun⟩

end Changes

end Forest

/-- A forest that is being built, with the identifiers that were handed out. The productions that
it was begun with count as handed out. -/
structure Site where
  forest : Forest
  nodes : List NodeId
  productions : List ProdId

namespace Site

def new (g : Grammar) : Site := ⟨.empty g, [], List.range g.size⟩

def perform (s : Site) (c : Construction) : Site :=
  match s.forest.construct c with
  | .ok (f, i) => ⟨f, s.nodes ++ i.nodes, s.productions ++ i.productions⟩
  | .error _ => s

def after (s : Site) (cs : List Construction) : Site := cs.foldl perform s

/-- The call passes nothing but what was handed out. -/
def Permits (s : Site) (c : Construction) : Prop :=
  (∀ id ∈ c.nodes, id ∈ s.nodes) ∧ ∀ p ∈ c.productions, p ∈ s.productions

def PermitsAll : Site → List Construction → Prop
  | _, [] => True
  | s, c :: cs => s.Permits c ∧ (s.perform c).PermitsAll cs

instance (s : Site) (c : Construction) : Decidable (s.Permits c) := by
  unfold Permits
  infer_instance

instance : ∀ (s : Site) (cs : List Construction), Decidable (s.PermitsAll cs)
  | _, [] => .isTrue trivial
  | s, c :: cs =>
    have := instDecidablePermitsAll (s.perform c) cs
    inferInstanceAs (Decidable (_ ∧ _))

structure Sound (s : Site) : Prop where
  wellBuilt : s.forest.WellBuilt
  nodes : ∀ id ∈ s.nodes, id < s.forest.size
  productions : ∀ p ∈ s.productions, p < s.forest.grammar.size

theorem sound_new (g : Grammar) : (new g).Sound :=
  ⟨Forest.wellBuilt_empty g, nofun, fun _ hp => List.mem_range.1 hp⟩

variable {s : Site} {c : Construction} {cs : List Construction} {id : NodeId} {p : ProdId}

theorem Sound.knows (hs : s.Sound) (hc : s.Permits c) : s.forest.Knows c :=
  ⟨fun id hid => hs.nodes id (hc.1 id hid), fun p hp => hs.productions p (hc.2 p hp)⟩

theorem perform_cases (hs : s.Sound) (hc : s.Permits c) :
    (∃ f i, s.forest.Change c f i ∧
      s.perform c = ⟨f, s.nodes ++ i.nodes, s.productions ++ i.productions⟩) ∨
    (∃ e, s.forest.construct c = .error e) ∧ s.perform c = s := by
  unfold perform
  cases h : s.forest.construct c with
  | ok r =>
    exact .inl ⟨r.1, r.2, Forest.change_of_construct hs.wellBuilt.acyclic (hs.knows hc) h, rfl⟩
  | error e => exact .inr ⟨⟨e, rfl⟩, rfl⟩

theorem grows_perform (s : Site) (c : Construction) : s.forest.Grows (s.perform c).forest := by
  unfold perform
  split
  next h => exact Forest.grows_construct h
  next => exact .refl _

theorem grows_after (s : Site) (cs : List Construction) : s.forest.Grows (s.after cs).forest := by
  induction cs generalizing s with
  | nil => exact .refl _
  | cons c cs ih => exact (grows_perform s c).trans (ih (s.perform c))

theorem Sound.perform (hs : s.Sound) (hc : s.Permits c) : (s.perform c).Sound := by
  have hgrows := grows_perform s c
  obtain ⟨f, i, hf, h⟩ | ⟨-, h⟩ := perform_cases hs hc
  · obtain ⟨hnodes, hproductions⟩ := hf.issued (hs.knows hc)
    rw [h] at hgrows ⊢
    constructor
    · exact hf.wellBuilt hs.wellBuilt
    · refine List.forall_mem_append.2 ⟨fun id hid => ?_, hnodes⟩
      exact Nat.lt_of_lt_of_le (hs.nodes id hid) hgrows.size
    · refine List.forall_mem_append.2 ⟨fun p hp => ?_, hproductions⟩
      exact Nat.lt_of_lt_of_le (hs.productions p hp) hgrows.productions
  · rw [h]
    exact hs

theorem Sound.after (hs : s.Sound) (hcs : s.PermitsAll cs) : (s.after cs).Sound := by
  induction cs generalizing s with
  | nil => exact hs
  | cons c cs ih => exact ih (hs.perform hcs.1) hcs.2

theorem wellBuilt_after {g : Grammar} (hcs : (new g).PermitsAll cs) :
    ((new g).after cs).forest.WellBuilt :=
  ((sound_new g).after hcs).wellBuilt

theorem entry_after (hs : s.Sound) (hcs : s.PermitsAll cs) (hid : id < s.forest.size)
    (hspan : ∀ span, .span id span ∉ cs) :
    (s.after cs).forest.entry id = s.forest.entry id := by
  induction cs generalizing s with
  | nil => rfl
  | cons c cs ih =>
    have hstep : (s.perform c).forest.entry id = s.forest.entry id := by
      obtain ⟨f, i, hf, h⟩ | ⟨-, h⟩ := perform_cases hs hcs.1
      · rw [h]
        exact hf.entry hid fun span hc => hspan span (hc ▸ List.mem_cons_self)
      · rw [h]
    have hlt := Nat.lt_of_lt_of_le hid (grows_perform s c).size
    have hrest : ∀ span, .span id span ∉ cs := fun span hm =>
      hspan span (List.mem_cons_of_mem _ hm)
    exact (ih (hs.perform hcs.1) hcs.2 hlt hrest).trans hstep

end Site

end ParseForest
