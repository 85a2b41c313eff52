import ParseForest.Proofs.Fragment.Optimality
import ParseForest.Proofs.Reading.Flags
import ParseForest.Proofs.Reading.Transparency

/-!
What the value of a quoted fragment is made of. It mirrors one derivation of its pattern, in which
every anti-quote holds the value of an expression that fits its place, and its cost counts the
injections and the anti-quotes of that derivation. Main statement: `mirrors_of_value`.
-/

namespace ParseForest

open Build Success

namespace Builder

variable (b : Builder)

def declared? (v : Tree) : Option Symbol := v.nodeArg? 0 >>= Symbol.ofTypeTree?

/-- What a value declares goes with the symbol that stands in its place. -/
structure Suits (expected : Symbol) (v : Tree) : Prop where
  typed : v.is b.conventions.expressionSort "TypedVariable" = true →
    ∃ s, declared? v = some s ∧ (s.matching expected = true ∨
      (∃ e, s.element? = some e ∧ e.matching expected = true) ∨
        ∃ e, expected.element? = some e ∧ e.matching s = true)
  guarded : v.is b.conventions.expressionSort "Guarded" = true →
    ∃ s, declared? v = some s ∧ s.matching expected = true

/-- The node is no fragment, and its value can be held in the place of the symbol. -/
structure Candidate (expected : Symbol) (n : NodeId) (v : Tree) : Prop where
  apart : b.isEmbedding n = .ok false
  value : (b.value n).outcome .initial = .ok (some v)
  suits : b.Suits expected v

/-- The value is held in an anti-quote: it is that of its last argument, or of the only candidate
among the alternatives of that. -/
inductive Fills (n : NodeId) (expected : Symbol) (v : Tree) : Prop
  | value {arguments : List NodeId} {held : NodeId} (args : b.arguments n = .ok arguments)
    (last : arguments.getLast? = some held)
    (single : ∀ alts, b.forest.node held ≠ .ok (.ambiguity alts))
    (value : (b.value held).outcome .initial = .ok (some v)) (suits : b.Suits expected v)
  | candidate {arguments before after : List NodeId} {held alt : NodeId}
    (args : b.arguments n = .ok arguments) (last : arguments.getLast? = some held)
    (cluster : b.forest.node held = .ok (.ambiguity (before ++ alt :: after)))
    (chosen : b.Candidate expected alt v)
    (only : ∀ a ∈ before ++ after, ∀ u, ¬ b.Candidate expected a u)

/-- The tree mirrors one derivation of the node: one alternative of every cluster that is met, with
the value of an expression in every anti-quote. Costs count injections and anti-quotes. -/
inductive Mirrors : NodeId → Tree → Prop
  | hole {n : NodeId} {prod : ProdId} {children : List NodeId} {p : Production} {v : Tree}
    (node : b.forest.node n = .ok (.derivation prod children))
    (production : b.forest.grammar.get? prod = some p) (isHole : b.isHole p = true)
    (fills : b.Fills n p.defines v) : Mirrors n (v.withCost ⟨false, 0, 1, 0, 0⟩)
  | leaf {n : NodeId} {l : Leaf} (notHole : b.isHoleAt n = false)
    (view : b.view n = .ok (.leaf l)) : Mirrors n (b.imageTree n (.token l) 0)
  | branch {n : NodeId} {shape : Shape} {nodes : List NodeId} {own : Nat} {ts : List Tree}
    (notHole : b.isHoleAt n = false) (view : b.view n = .ok (.branch shape nodes own))
    (parts : List.Forall₂ Mirrors nodes ts) :
    Mirrors n (.image b.conventions.expressionSort (b.forest.spanOf n) (.image shape ts)
      ⟨false, (ts.map (·.cost.injections)).sum + own, (ts.map (·.cost.holes)).sum, 0, 0⟩)
  | alternative {n alt : NodeId} {alts : List NodeId} {t : Tree}
    (view : b.view n = .ok (.cluster alts)) (mem : alt ∈ alts) (h : Mirrors alt t) : Mirrors n t

variable {b} {n : Nat} {expected : Symbol} {v t : Tree}

theorem fits_iff {s : Symbol} : s.fits expected = true ↔ s.matching expected = true ∨
    (∃ e, s.element? = some e ∧ e.matching expected = true) ∨
      ∃ e, expected.element? = some e ∧ e.matching s = true := by
  simp only [Symbol.fits, Bool.or_eq_true, Option.any_eq_true, or_assoc]

theorem fitsHole_iff : b.fitsHole expected v = true ↔ b.Suits expected v := by
  unfold fitsHole
  split
  next htyped =>
    have hother : ¬ v.is b.conventions.expressionSort "Guarded" = true := by
      simp only [Tree.is, Bool.and_eq_true, beq_iff_eq] at htyped ⊢
      rw [htyped.2]
      exact fun h => absurd h.2 (by decide)
    simp only [Option.any_eq_true, fits_iff]
    exact ⟨fun h => ⟨fun _ => h, fun hguarded => absurd hguarded hother⟩, fun h => h.typed htyped⟩
  next htyped =>
    split
    next hguarded =>
      simp only [Option.any_eq_true]
      exact ⟨fun h => ⟨fun h' => absurd h' htyped, fun _ => h⟩, fun h => h.guarded hguarded⟩
    next hguarded =>
      exact ⟨fun _ => ⟨fun h => absurd h htyped, fun h => absurd h hguarded⟩, fun _ => rfl⟩

theorem Mirrors.cost {n : NodeId} {t : Tree} :
    b.Mirrors n t → t.cost = ⟨false, t.cost.injections, t.cost.holes, 0, 0⟩
  | .hole .. => rfl
  | .leaf .. => rfl
  | .branch .. => rfl
  | .alternative _ _ h => h.cost

theorem exists_of_isHoleAt (h : b.isHoleAt n = true) : ∃ prod children p,
    b.forest.node n = .ok (.derivation prod children) ∧
      b.forest.grammar.get? prod = some p ∧ b.isHole p = true := by
  unfold isHoleAt at h
  split at h
  next prod children hnode =>
    obtain ⟨p, hp, hhole⟩ := (Option.any_eq_true _ _).1 h
    exact ⟨prod, children, p, hnode, hp, hhole⟩
  next => cases h

theorem image_eq_hole {prod : ProdId} {children : List NodeId} {p : Production}
    (hnode : b.forest.node n = .ok (.derivation prod children))
    (hp : b.forest.grammar.get? prod = some p) (isHole : b.isHole p = true) (y : Plain.Descent) :
    Plain.image b y n = Plain.hole b y n p.defines := by
  refine (mapError_bind_of_ok hnode _ _).trans ?_
  refine (mapError_bind_of_ok (Grammar.production_eq_ok.2 hp) _ _).trans ?_
  exact if_pos isHole

section Holes

variable {y : Plain.Descent} (hy : ∀ n, (b.value n).outcome .initial = y.value n)
include hy

theorem fittingValues_cons {a : NodeId} {alts : List NodeId} {vs : List Tree}
    (h : Plain.fittingValues b y expected (a :: alts) = .ok vs) :
    (∃ v rest, vs = v :: rest ∧ b.Candidate expected a v ∧
      Plain.fittingValues b y expected alts = .ok rest) ∨
      (∀ u, ¬ b.Candidate expected a u) ∧ Plain.fittingValues b y expected alts = .ok vs := by
  obtain ⟨isEmbedding, he, h⟩ := bind_eq_ok.1 h
  have he := mapError_eq_ok.1 he
  cases isEmbedding with
  | true =>
    refine .inr ⟨fun u hu => ?_, h⟩
    cases he.symm.trans hu.apart
  | false =>
    obtain ⟨t?, ht, h⟩ := bind_eq_ok.1 h
    obtain ⟨rest, hrest, h⟩ := bind_eq_ok.1 h
    cases pure_eq_ok.1 h
    have hnone (hfilter : t?.filter (b.fitsHole expected) = none) :
        ∀ u, ¬ b.Candidate expected a u := by
      intro u hu
      cases ht.symm.trans ((hy a).symm.trans hu.value)
      rw [Option.filter_some, if_pos (fitsHole_iff.2 hu.suits)] at hfilter
      cases hfilter
    cases hfilter : t?.filter (b.fitsHole expected) with
    | none => exact .inr ⟨hnone hfilter, hrest⟩
    | some v =>
      obtain ⟨hv, hfits⟩ := Option.filter_eq_some_iff.1 hfilter
      have hvalue : (b.value a).outcome .initial = .ok (some v) := (hy a).trans (hv ▸ ht)
      exact .inl ⟨v, rest, rfl, ⟨he, hvalue, fitsHole_iff.1 hfits⟩, hrest⟩

theorem not_candidate_of_fittingValues {alts : List NodeId}
    (h : Plain.fittingValues b y expected alts = .ok []) :
    ∀ a ∈ alts, ∀ u, ¬ b.Candidate expected a u := by
  induction alts with
  | nil => nofun
  | cons a alts ih =>
    rcases fittingValues_cons hy h with ⟨_, _, hvs, _⟩ | ⟨ha, h⟩
    · cases hvs
    · exact List.forall_mem_cons.2 ⟨ha, ih h⟩

theorem exists_candidate_of_fittingValues {alts : List NodeId}
    (h : Plain.fittingValues b y expected alts = .ok [v]) :
    ∃ before alt after, alts = before ++ alt :: after ∧ b.Candidate expected alt v ∧
      ∀ a ∈ before ++ after, ∀ u, ¬ b.Candidate expected a u := by
  induction alts with
  | nil => cases h
  | cons a alts ih =>
    rcases fittingValues_cons hy h with ⟨_, _, hvs, ha, h⟩ | ⟨ha, h⟩
    · cases hvs
      exact ⟨[], a, alts, rfl, ha, not_candidate_of_fittingValues hy h⟩
    · obtain ⟨before, alt, after, rfl, halt, honly⟩ := ih h
      exact ⟨a :: before, alt, after, rfl, halt, List.forall_mem_cons.2 ⟨ha, honly⟩⟩

theorem fills_of_holeValue (h : Plain.holeValue b y n expected = .ok (some v))
    (hflag : v.cost.ambiguous = false) : b.Fills n expected v := by
  obtain ⟨arguments, hargs, h⟩ := bind_eq_ok.1 h
  have hargs : b.arguments n = .ok arguments := mapError_eq_ok.1 hargs
  cases hlast : arguments.getLast? with
  | none =>
    rw [hlast] at h
    cases h
  | some held =>
    rw [hlast] at h
    obtain ⟨node, hnode, h⟩ := bind_eq_ok.1 h
    have hnode : b.forest.node held = .ok node := mapError_eq_ok.1 hnode
    have untied {span : Except Error (Option Span)} {trees : List Tree} {cost : Cost} :
        (span >>= fun span => some <$> b.registry.makeAmbiguity b.conventions.expressionSort span
          trees (cost.withAmbiguous true)) ≠ .ok (some v) := by
      intro h
      obtain ⟨_, _, h⟩ := bind_eq_ok.1 h
      obtain ⟨u, hu, he⟩ := map_eq_ok.1 h
      cases he
      rw [Registry.make_cost hu] at hflag
      cases hflag
    have single (hsingle : ∀ alts, b.forest.node held ≠ .ok (.ambiguity alts)) {t? : Option Tree}
        (ht : y.value held = .ok t?) (hv : (t?.filter (b.fitsHole expected)).toList = [v]) :
        b.Fills n expected v := by
      obtain ⟨rfl, hfits⟩ := Option.filter_eq_some_iff.1 (Option.toList_eq_singleton_iff.1 hv)
      exact .value hargs hlast hsingle ((hy held).trans ht) (fitsHole_iff.1 hfits)
    cases node with
    | ambiguity alts =>
      obtain ⟨trees, htrees, h⟩ := bind_eq_ok.1 h
      match trees with
      | [] => cases h
      | [t] =>
        cases h
        obtain ⟨before, alt, after, rfl, halt, honly⟩ := exists_candidate_of_fittingValues hy htrees
        exact .candidate hargs hlast hnode halt honly
      | _ :: _ :: _ => exact absurd h untied
    | _ =>
      obtain ⟨t?, ht, h⟩ := bind_eq_ok.1 h
      obtain ⟨trees, htrees, h⟩ := bind_eq_ok.1 h
      have htrees := pure_eq_ok.1 htrees
      refine single (fun alts ha => ?_) ht ?_
      · cases hnode.symm.trans ha
      · match trees with
        | [] => cases h
        | [t] =>
          cases h
          exact htrees
        | _ :: _ :: _ => exact absurd h untied

theorem mirrors_of_hole {prod : ProdId} {children : List NodeId} {p : Production}
    (hnode : b.forest.node n = .ok (.derivation prod children))
    (hp : b.forest.grammar.get? prod = some p) (isHole : b.isHole p = true)
    (h : Plain.hole b y n p.defines = .ok (some t)) (hflag : t.cost.ambiguous = false) :
    b.Mirrors n t := by
  obtain ⟨v?, hv, h⟩ := bind_eq_ok.1 h
  obtain ⟨v, rfl, rfl⟩ := Option.map_eq_some_iff.1 (pure_eq_ok.1 h)
  have hflag : v.cost.ambiguous = false := hflag
  rw [hflag]
  exact .hole hnode hp isHole (fills_of_holeValue hy hv hflag)

end Holes

section Images

variable {y : Plain.Descent}

theorem mirrors_of_imagesOf {nodes : List NodeId} {trees ts : List Tree} {total cost : Cost}
    (below : ∀ c ∈ nodes, ∀ t, y.image c = .ok (some t) → t.cost.ambiguous = false →
      b.Mirrors c t)
    (h : Plain.imagesOf y trees total nodes = .ok (some (ts, cost)))
    (hflag : cost.ambiguous = false) :
    ∃ us, List.Forall₂ b.Mirrors nodes us ∧ ts = trees ++ us ∧ total.ambiguous = false ∧
      cost = ⟨false, total.injections + (us.map (·.cost.injections)).sum,
        total.holes + (us.map (·.cost.holes)).sum, total.fragments, total.fragmentSize⟩ := by
  induction nodes generalizing trees total with
  | nil =>
    cases pure_eq_ok.1 h
    exact ⟨[], .nil, (List.append_nil ts).symm, hflag, by simp [← hflag]⟩
  | cons c nodes ih =>
    obtain ⟨t?, ht, h⟩ := bind_eq_ok.1 h
    cases t? with
    | none => cases h
    | some t =>
      obtain ⟨total', htotal', h⟩ := bind_eq_ok.1 h
      have htotal' := Cost.eq_of_add (mapError_eq_ok.1 htotal')
      -- Only the flag of the whole sum is known; that of this summand follows from the rest.
      obtain ⟨us, hus, rfl, hflag', hcost⟩ :=
        ih (fun d hd => below d (List.mem_cons_of_mem c hd)) h
      rw [htotal', Bool.or_eq_false_iff] at hflag'
      have hc := below c List.mem_cons_self t ht hflag'.2
      have hfree := hc.cost
      refine ⟨t :: us, .cons hc hus, List.append_assoc .., hflag'.1, ?_⟩
      rw [hcost, htotal', hfree]
      simp [Nat.add_assoc]

theorem mem_of_offerImages {alts : List NodeId} {s s' : Survivors Tree}
    (h : Plain.offerImages y alts s = .ok s') (ht : t ∈ s'.items) :
    t ∈ s.items ∨ ∃ a ∈ alts, y.image a = .ok (some t) := by
  induction alts generalizing s with
  | nil =>
    cases pure_eq_ok.1 h
    exact .inl ht
  | cons a alts ih =>
    obtain ⟨u?, hu, h⟩ := bind_eq_ok.1 h
    have later : (∃ a ∈ alts, y.image a = .ok (some t)) →
        ∃ a' ∈ a :: alts, y.image a' = .ok (some t) :=
      fun ⟨a', ha', h⟩ => ⟨a', List.mem_cons_of_mem a ha', h⟩
    cases u? with
    | none => exact (ih h).imp_right later
    | some u =>
      rcases ih h with hs | halts
      · rcases Survivors.mem_offer hs with hs | rfl
        · exact .inl hs
        · exact .inr ⟨a, List.mem_cons_self, hu⟩
      · exact .inr (later halts)

variable (hlt : n < b.forest.size)
include hlt

theorem mirrors_of_imageOver {shape : Shape} {nodes : List NodeId} {own : Nat}
    (hole : b.isHoleAt n = false) (hv : b.view n = .ok (.branch shape nodes own))
    (below : ∀ c ∈ nodes, ∀ t, y.image c = .ok (some t) → t.cost.ambiguous = false →
      b.Mirrors c t)
    (h : Plain.imageOver b y n shape nodes own = .ok (some t)) (hflag : t.cost.ambiguous = false) :
    b.Mirrors n t := by
  obtain ⟨images?, himages, h⟩ := bind_eq_ok.1 h
  match images? with
  | none => cases h
  | some (ts, total) =>
    obtain ⟨cost, hcost, h⟩ := bind_eq_ok.1 h
    have hcost := Cost.eq_of_add (mapError_eq_ok.1 hcost)
    rw [imageNode_eq hlt] at h
    cases h
    have htotal : total.ambiguous = false := by
      rw [Tree.image, hcost, Bool.or_eq_false_iff] at hflag
      exact hflag.1
    obtain ⟨us, hus, rfl, -, rfl⟩ := mirrors_of_imagesOf below himages htotal
    have hbranch := Mirrors.branch hole hv hus
    rw [hcost]
    simpa [Cost.zero] using hbranch

theorem mirrors_of_imageCluster {alts : List NodeId} (hv : b.view n = .ok (.cluster alts))
    (below : ∀ a ∈ alts, ∀ t, y.image a = .ok (some t) → t.cost.ambiguous = false →
      b.Mirrors a t)
    (h : Plain.imageCluster b y n alts = .ok (some t)) (hflag : t.cost.ambiguous = false) :
    b.Mirrors n t := by
  obtain ⟨s, hs, h⟩ := bind_eq_ok.1 h
  match hi : s.items with
  | [] =>
    rw [hi] at h
    cases h
  | [u] =>
    rw [hi] at h
    cases h
    rcases mem_of_offerImages hs (hi ▸ List.mem_singleton_self t) with hnone | ⟨a, ha, hat⟩
    · cases hnone
    · exact .alternative hv ha (below a ha t hat hflag)
  | _ :: _ :: _ =>
    rw [hi] at h
    dsimp only at h
    rw [imageNode_eq hlt] at h
    cases h
    cases hflag

theorem mirrors_of_parts (hole : b.isHoleAt n = false)
    (below : ∀ c ∈ b.mirrored n, ∀ t, y.image c = .ok (some t) → t.cost.ambiguous = false →
      b.Mirrors c t)
    (h : Plain.image b y n = .ok (some t)) (hflag : t.cost.ambiguous = false) : b.Mirrors n t := by
  rw [image_eq_imageBy hole] at h
  obtain ⟨v, hv, h⟩ := bind_eq_ok.1 h
  have hv : b.view n = .ok v := mapError_eq_ok.1 hv
  rw [mirrored_of_view hole hv] at below
  cases v with
  | leaf l =>
    rw [imageBy, Plain.imageLeaf, imageNode_eq hlt] at h
    cases h
    exact .leaf hole hv
  | branch shape nodes own => exact mirrors_of_imageOver hlt hole hv below h hflag
  | cluster alts => exact mirrors_of_imageCluster hlt hv below h hflag
  | cut => cases h

end Images

theorem mirrors_of_image (hf : b.forest.Acyclic) (hq : b.QuotesApart)
    (hlt : n < b.forest.size) (h : b.plain.image n = .ok (some t))
    (hflag : t.cost.ambiguous = false) : b.Mirrors n t := by
  have hy : ∀ m, (b.value m).outcome .initial = b.plain.value m :=
    fun m => (computes_value hf hq m .initial allKept_empty).1
  induction n using Nat.strongRecOn generalizing t with
  | ind n ih =>
    rw [(plain_eq hf hlt).2.2.2] at h
    cases hole : b.isHoleAt n with
    | true =>
      obtain ⟨prod, children, p, hnode, hp, isHole⟩ := exists_of_isHoleAt hole
      rw [image_eq_hole hnode hp isHole] at h
      exact mirrors_of_hole hy hnode hp isHole h hflag
    | false =>
      refine mirrors_of_parts hlt hole (fun c hc u hu hflag => ?_) h hflag
      have hcn : c < n := mirrored_lt hf hc
      exact ih c hcn (Nat.lt_trans hcn hlt) hu hflag

theorem read_of_embeds (he : b.Embeds n) (y : Plain.Descent) :
    Plain.read b y n = Plain.fragment b y n := by
  obtain ⟨prod, children, hnode⟩ := he.node
  obtain ⟨name, hname, _⟩ := bind_eq_ok.1 he.2.2
  refine (mapError_bind_of_ok hname _ _).trans ?_
  refine (mapError_bind_of_ok hnode _ _).trans ?_
  refine (mapError_bind_of_ok he.2.1 _ _).trans ?_
  exact mapError_bind_of_ok he.2.2 _ _

theorem withCost_of_settle {p : NodeId} {t? : Option Tree} {r : Tree}
    (h : b.settle p t? = .ok (some r)) :
    ∃ t, t? = some t ∧ t.cost.ambiguous = false ∧ r = t.withCost ⟨false, t.cost.injections,
      t.cost.holes, 1, (b.forest.spanOf p).elim 0 (·.length)⟩ := by
  cases t? with
  | none => cases h
  | some t =>
    rw [settle] at h
    split at h
    next => cases h
    next hflag =>
      have hflag := Bool.eq_false_iff.2 hflag
      cases h
      refine ⟨t, rfl, hflag, ?_⟩
      rw [← hflag]

/-- The value of a quoted fragment is one mirrored derivation of its pattern, at the cost of its
injections and anti-quotes and of one fragment of that length. No choice is left open in it. -/
theorem mirrors_of_value (hf : b.forest.Acyclic) (hq : b.QuotesApart)
    (hr : b.registry.WithoutFactories) {e p : NodeId} (hquotes : b.Quotes e p) {r : Tree}
    (h : (b.value e).outcome .initial = .ok (some r)) :
    (∃ t, b.Mirrors p t ∧ r = t.withCost ⟨false, t.cost.injections, t.cost.holes, 1,
        (b.forest.spanOf p).elim 0 (·.length)⟩) ∧
      ∀ s, r.Contains s → ¬ s.IsTie := by
  have hlt : p < b.forest.size := Nat.lt_trans (hf.lt_of_pattern hquotes.2) hquotes.1.lt
  have hread : b.Answers (b.sessionAfter []) r (.value e) := h
  have hties : r.TiesFlagged := (sustains_tiesFlagged hr).of_answers hread
  rw [(computes_value hf hq e .initial allKept_empty).1, (plain_eq hf hquotes.1.lt).1,
    read_of_embeds hquotes.1, fragment_eq_settle hquotes.2 hlt] at h
  obtain ⟨t?, ht, h⟩ := bind_eq_ok.1 h
  obtain ⟨t, rfl, hflag, rfl⟩ := withCost_of_settle h
  exact ⟨⟨t, mirrors_of_image hf hq hlt ht hflag, rfl⟩, fun s hs htie => nomatch hties s hs htie⟩

/-- A quoted pair of two anti-quotes for the sort `S`: the first holds a typed variable that
declares `S*`, the second a guarded pattern that declares `S`. -/
def declaringHoles : Builder where
  forest := {
    grammar := ⟨"Declaring", [⟨.named .lexical "Id", none, [], true⟩,
      ⟨.named .sort "Sym", some "nonterminal", [.named .lexical "Id"], false⟩,
      ⟨.named .sort "Sym", some "iterStar", [.named .sort "Sym"], false⟩,
      ⟨.named .sort "Type", some "symbol", [.named .sort "Sym"], false⟩,
      ⟨.named .sort "Expression", some "typedVariable",
        [.named .sort "Type", .named .lexical "Id"], false⟩,
      ⟨.named .sort "Expression", some "guarded",
        [.named .sort "Type", .named .sort "Expression"], false⟩,
      ⟨.named .sort "S", some "MetaVariable", [.named .sort "Expression"], false⟩,
      ⟨.named .sort "S", some "pair", [.named .sort "S", .named .sort "S"], false⟩,
      ⟨.named .sort "Expression", some "ConcreteQuoted", [.named .sort "S"], false⟩], by decide⟩
    entries := #[⟨.char 83, none⟩, ⟨.derivation 0 [0], none⟩, ⟨.derivation 1 [1], none⟩,
      ⟨.derivation 2 [2], none⟩, ⟨.derivation 3 [3], none⟩, ⟨.derivation 3 [2], none⟩,
      ⟨.derivation 4 [4, 1], none⟩, ⟨.derivation 5 [5, 6], none⟩, ⟨.derivation 6 [6], none⟩,
      ⟨.derivation 6 [7], none⟩, ⟨.derivation 7 [8, 9], none⟩, ⟨.derivation 8 [10], none⟩]
    source := "<input>"
    lines := none }
  registry := (((Registry.empty.define ⟨"Id", true, []⟩).define
    ⟨"Sym", false, [("Nonterminal", [.node]), ("IterStar", [.node])]⟩).define
    ⟨"Type", false, [("Symbol", [.node])]⟩).define
    ⟨"Expression", false, [("TypedVariable", [.node, .node]), ("Guarded", [.node, .node])]⟩
  conventions := .standard

def typedVariable : Tree :=
  let id : Tree := ⟨"Id", "Lexical", none, .zero, .lexical "S"⟩
  let sort : Tree := ⟨"Sym", "Nonterminal", none, .zero, .application [.node id]⟩
  let sorts : Tree := ⟨"Sym", "IterStar", none, .zero, .application [.node sort]⟩
  ⟨"Expression", "TypedVariable", none, .zero, .application
    [.node ⟨"Type", "Symbol", none, .zero, .application [.node sorts]⟩, .node id]⟩

def guardedPattern : Tree :=
  let id : Tree := ⟨"Id", "Lexical", none, .zero, .lexical "S"⟩
  let sort : Tree := ⟨"Sym", "Nonterminal", none, .zero, .application [.node id]⟩
  ⟨"Expression", "Guarded", none, .zero, .application
    [.node ⟨"Type", "Symbol", none, .zero, .application [.node sort]⟩, .node typedVariable]⟩

/-- The anti-quote in the second place of one quoted pair holds the value of its variable. In the
other pair a typed variable and a guarded pattern are held, of which the first suits the elements
of what it declares but no other sort, and the second its own sort only. -/
theorem mirrors_quotedPair :
    (let x := Tree.image "Expression" none (.token (.lexical 0 "x")) .zero
    let id : Tree := ⟨"Id", "Lexical", none, .zero, .lexical "x"⟩
    let hole : Tree := ⟨"Expression", "Var", none, ⟨false, 0, 1, 0, 0⟩, .application [.node id]⟩
    let var := Tree.image "Expression" none (.image (.derivation 1) [x]) (.ofInjections 1)
    let pair :=
      Tree.image "Expression" none (.image (.derivation 3) [var, hole]) ⟨false, 1, 1, 1, 0⟩
    (quotedPair.value 5).outcome .initial = .ok (some pair) ∧
      (∃ t, quotedPair.Mirrors 4 t ∧
        pair = t.withCost ⟨false, t.cost.injections, t.cost.holes, 1, 0⟩) ∧
      ∀ s, pair.Contains s → ¬ s.IsTie) ∧
    (let typed := typedVariable.withCost ⟨false, 0, 1, 0, 0⟩
    let guarded := guardedPattern.withCost ⟨false, 0, 1, 0, 0⟩
    let pair :=
      Tree.image "Expression" none (.image (.derivation 7) [typed, guarded]) ⟨false, 0, 2, 1, 0⟩
    (declaringHoles.value 11).outcome .initial = .ok (some pair) ∧
      (∃ t, declaringHoles.Mirrors 10 t ∧
        pair = t.withCost ⟨false, t.cost.injections, t.cost.holes, 1, 0⟩) ∧
      ∀ s, pair.Contains s → ¬ s.IsTie) ∧
    (declared? typedVariable = some (.repeated .star (.named .sort "S")) ∧
      declaringHoles.Suits (.named .sort "S") typedVariable ∧
      ¬ declaringHoles.Suits (.named .sort "T") typedVariable) ∧
    declared? guardedPattern = some (.named .sort "S") ∧
      declaringHoles.Suits (.named .sort "S") guardedPattern ∧
      ¬ declaringHoles.Suits (.repeated .star (.named .sort "S")) guardedPattern := by
  refine ⟨?_, ?_, ⟨by decide +kernel, ?_, ?_⟩, by decide +kernel, ?_, ?_⟩
  · intro x id hole var pair
    have hread : (quotedPair.value 5).outcome .initial = .ok (some pair) := by
      decide +kernel
    have hf : quotedPair.forest.Acyclic := by decide +kernel
    have hq : quotedPair.QuotesApart :=
      quotesApart_of_closed hf [4, 2, 3, 1] (by decide +kernel) (by decide +kernel)
        (by decide +kernel)
    have hr : quotedPair.registry.WithoutFactories :=
      (Registry.withoutFactories_empty.define _).define _
    exact ⟨hread, mirrors_of_value hf hq hr (e := 5) (p := 4) (by decide +kernel) hread⟩
  · intro typed guarded pair
    have hread : (declaringHoles.value 11).outcome .initial = .ok (some pair) := by
      decide +kernel
    have hf : declaringHoles.forest.Acyclic := by decide +kernel
    have hq : declaringHoles.QuotesApart :=
      quotesApart_of_closed hf [10, 8, 9] (by decide +kernel) (by decide +kernel)
        (by decide +kernel)
    have hr : declaringHoles.registry.WithoutFactories :=
      (((Registry.withoutFactories_empty.define _).define _).define _).define _
    exact ⟨hread, mirrors_of_value hf hq hr (e := 11) (p := 10) (by decide +kernel) hread⟩
  all_goals
    rw [← fitsHole_iff]
    decide +kernel

end Builder

end ParseForest
