import ParseForest.Proofs.Cost.Survivors
import ParseForest.Proofs.Reading.Covers
import ParseForest.Proofs.Reading.Derivations
import ParseForest.Proofs.Reading.Transparency
import ParseForest.Proofs.Registry.Factories
import ParseForest.Proofs.Tree.Resolution

/-!
No reading is lost and none is invented. Without fragments nothing costs anything, so every cluster
keeps all of its readings, and the ways to resolve the value of a node are its complete derivations.
-/

namespace ParseForest

open Build Success

namespace Forest

def NoListClusters (f : Forest) : Prop :=
  ∀ (id : Nat) (h : id < f.entries.size), ∀ alt ∈ f.entries[id].node.alternatives,
    f.isList alt ≠ .ok true

instance (f : Forest) : Decidable f.NoListClusters := by
  unfold NoListClusters
  infer_instance

theorem NoListClusters.not_list {f : Forest} (h : f.NoListClusters) {n alt : NodeId}
    {alts : List NodeId} (hn : f.node n = .ok (.ambiguity alts)) (ha : alt ∈ alts) :
    f.isList alt ≠ .ok true := by
  obtain ⟨hlt, hnode⟩ := node_eq_ok.1 hn
  refine h n hlt alt ?_
  rw [hnode]
  exact ha

end Forest

/-- No production has the constructor of tied readings. -/
def Grammar.NoAmbiguityConstructor (g : Grammar) : Prop :=
  ∀ p ∈ g.productions, ∀ name ∈ p.constructor,
    Conventions.constructorKey name ≠ Registry.ambiguityName

instance (g : Grammar) : Decidable g.NoAmbiguityConstructor := by
  unfold Grammar.NoAmbiguityConstructor
  infer_instance

theorem Registry.meets_make {r : Registry} (hr : r.WithoutFactories) (sort name : String)
    (span : Option Span) (args : List (Arg Tree)) (cost : Cost) :
    Meets (fun t => t = ⟨sort, name, span, cost, defaultBody name args⟩)
      (r.make sort name span args cost) := by
  unfold make
  cases hc : r.constructor? sort name with
  | none => exact rfl
  | some c =>
    dsimp only
    split
    · simp only [build, hr.factory hc]
      exact rfl
    · exact rfl

/-- Nothing that the argument holds costs anything, and it is no text. -/
def Arg.IsFree (a : Arg Tree) : Prop := a.text? = none ∧ ∀ t ∈ a.trees, t.cost.IsFree

theorem Arg.IsFree.cost {a : Arg Tree} (h : a.IsFree) {c : Cost} (hc : a.cost = .ok c) :
    c.IsFree := by
  cases a with
  | node t =>
    cases hc
    exact h.2 t (List.mem_singleton_self t)
  | list ts =>
    refine Cost.isFree_of_sum (fun d hd => ?_) hc
    obtain ⟨t, ht, rfl⟩ := List.mem_map.1 hd
    exact h.2 t ht
  | text s =>
    cases hc
    exact Cost.isFree_zero

abbrev CoversTree (D : Tree → Prop) : Option Tree → Prop := Covers Tree.Resolves (·.cost.IsFree) D

abbrev CoversTrees (D : List Tree → Prop) : Option (List Tree) → Prop :=
  Covers (List.Forall₂ Tree.Resolves) (fun ts => ∀ t ∈ ts, t.cost.IsFree) D

abbrev CoversArg (D : Arg Tree → Prop) : Option (Arg Tree) → Prop :=
  Covers (Arg.Rel Tree.Resolves) Arg.IsFree D

namespace Builder

/-- The ways to read a node with the given descent are the complete derivations. -/
structure Covering (b : Builder) (x : Plain.Descent) : Prop where
  value : ∀ n, Meets (CoversTree (b.Derives n)) (x.value n)
  run : ∀ n prod cs isPartial, b.forest.node n = .ok (.list prod cs isPartial) →
    Meets (CoversTrees (b.DerivesRun n)) (x.run n)

variable {b : Builder} {x : Plain.Descent} {n : NodeId}

theorem meets_sortKey (b : Builder) (n : NodeId) :
    Meets (fun sort => b.sortKey n = .ok sort) (b.sortKey n) := by
  unfold sortKey
  split
  · exact rfl
  · exact rfl
  · exact rfl

theorem meets_constructorOf (b : Builder) (n : NodeId) :
    Meets (fun name => ∃ raw, b.forest.constructor? n = .ok (some raw) ∧
      name = Conventions.constructorKey raw) (Plain.constructorOf b n) := by
  refine meets_bind (meets_checked _) fun raw? hr => ?_
  cases raw? with
  | none => exact meets_bind (meets_checked _) fun _ _ => rfl
  | some raw => exact ⟨raw, hr, rfl⟩

theorem constructorKey_ne (hg : b.forest.grammar.NoAmbiguityConstructor) {raw : String}
    (h : b.forest.constructor? n = .ok (some raw)) :
    Conventions.constructorKey raw ≠ Registry.ambiguityName := by
  obtain ⟨p?, hp, h⟩ := map_eq_ok.1 h
  obtain ⟨p, rfl, h⟩ := Option.bind_eq_some_iff.1 h
  obtain ⟨node, _, hp⟩ := bind_eq_ok.1 hp
  split at hp
  · obtain ⟨q, hq, hp⟩ := map_eq_ok.1 hp
    cases hp
    exact hg p (List.mem_of_getElem? (Grammar.production_eq_ok.1 hq)) raw h
  · cases hp

theorem spanned_of_node {node : Node} (hn : b.forest.node n = .ok node) :
    ∃ span, b.forest.span n = .ok span := by
  obtain ⟨entry, he, _⟩ := map_eq_ok.1 hn
  exact ⟨entry.span, map_eq_ok.2 ⟨entry, he, rfl⟩⟩

namespace Covering

variable (h : b.Covering x) (hl : b.forest.NoListClusters)
include h hl

theorem part (n : NodeId) : Meets (CoversTrees (b.DerivesPart n)) (Plain.part b x n) := by
  have single {node : Node} (hn : b.forest.node n = .ok node) (hi : node.isList = false) :
      Meets (CoversTrees (b.DerivesPart n)) (do return (← x.value n).map ([·])) := by
    refine meets_bind (h.value n) fun found hf => ?_
    refine hf.map (f := fun t => [t]) (fun t ht => ?_) (fun u => [u])
      (fun t us => forall₂_singleton_left) fun us => derivesPart_of_item hn hi
    exact List.forall_mem_singleton.2 ht
  refine meets_bind (meets_checked _) fun slot hs => ?_
  obtain ⟨node, hn, fits⟩ := Forest.fits_of_slot hs
  cases fits with
  | run =>
    have hd : b.DerivesPart n = b.DerivesRun n := funext fun us => propext (derivesPart_of_list hn)
    rw [hd]
    exact h.run n _ _ _ hn
  | choice list => exact absurd list (hl.not_list hn List.mem_cons_self)
  | optional => exact single hn rfl
  | single notList _ => exact single hn notList

theorem readRun {prod : ProdId} {cs : List NodeId} {isPartial : Bool}
    (hn : b.forest.node n = .ok (.list prod cs isPartial)) :
    Meets (CoversTrees (b.DerivesRun n)) (Plain.run b x n) := by
  refine meets_bind (meets_checked _) fun es hes => ?_
  refine meets_bind (meets_collect fun e _ => h.part hl e) fun found hf => ?_
  refine hf.map (f := List.flatten) (fun tss hts t ht => ?_) List.flatten
    (fun tss us => forall₂_flatten) fun us => derivesRun_iff hn hes
  obtain ⟨ts, hmem, ht⟩ := List.mem_flatten.1 ht
  exact hts ts hmem t ht

theorem argument (n : NodeId) : Meets (CoversArg (b.DerivesArg n)) (Plain.argument b x n) := by
  refine meets_bind (meets_checked _) fun slot hs => ?_
  obtain ⟨node, hn, fits⟩ := Forest.fits_of_slot hs
  cases fits with
  | run =>
    refine meets_bind (h.run n _ _ _ hn) fun found hf => ?_
    exact hf.map (f := Arg.list) (fun ts hts => ⟨rfl, hts⟩) Arg.list (fun ts a => Arg.rel_list)
      fun a => derivesArg_of_list hn
  | choice list => exact absurd list (hl.not_list hn List.mem_cons_self)
  | @optional prod held =>
    cases held with
    | none =>
      refine covers_some ⟨rfl, nofun⟩ fun a => ?_
      rw [derivesArg_of_absent hn, Arg.rel_list]
      simp only [List.forall₂_nil_left_iff, exists_eq_left]
    | some held =>
      refine meets_bind (h.value held) fun found hf => ?_
      refine hf.map (f := fun t => Arg.list [t])
        (fun t ht => ⟨rfl, List.forall_mem_singleton.2 ht⟩) (fun u => Arg.list [u]) (fun t a => ?_)
        fun a => derivesArg_of_present hn
      rw [Arg.rel_list]
      constructor
      · rintro ⟨us, hus, rfl⟩
        obtain ⟨u, hu, rfl⟩ := forall₂_singleton_left.1 hus
        exact ⟨u, hu, rfl⟩
      · rintro ⟨u, hu, rfl⟩
        exact ⟨[u], forall₂_singleton_left.2 ⟨u, hu, rfl⟩, rfl⟩
  | single notList notOptional =>
    refine meets_bind (h.value n) fun found hf => ?_
    exact hf.map (f := Arg.node) (fun t ht => ⟨rfl, List.forall_mem_singleton.2 ht⟩) Arg.node
      (fun t a => Arg.rel_node) fun a => derivesArg_of_single hn notList notOptional

theorem applyTo (cs : List NodeId) {args : List (Arg Tree)} {total : Cost}
    (ha : ∀ a ∈ args, a.IsFree) (ht : total.IsFree) :
    Meets (Covers (fun p us => List.Forall₂ (Arg.Rel Tree.Resolves) p.1 us)
      (fun p => p.2.IsFree ∧ ∀ a ∈ p.1, a.IsFree)
      (fun us => ∃ vs ws, List.Forall₂ (Arg.Rel Tree.Resolves) args vs ∧
        List.Forall₂ b.DerivesArg cs ws ∧ us = vs ++ ws)) (Plain.applyTo b x args total cs) := by
  induction cs generalizing args total with
  | nil =>
    refine covers_some ⟨ht, ha⟩ fun us => ?_
    constructor
    · intro hus
      exact ⟨us, [], hus, .nil, (List.append_nil us).symm⟩
    · rintro ⟨vs, ws, hvs, hws, rfl⟩
      cases hws
      rwa [List.append_nil]
  | cons c cs ih =>
    refine meets_bind (h.argument hl c) fun found hf => ?_
    cases found with
    | none =>
      refine covers_none ?_
      rintro us ⟨vs, ws, _, hws, _⟩
      cases hws with
      | cons hw _ => exact hf.of_none _ hw
    | some arg =>
      have harg := hf.free arg rfl
      refine meets_bind (meets_checked _) fun cost hc => ?_
      have hcost := harg.cost hc
      refine meets_bind (meets_checked _) fun total' hs => ?_
      have htotal := ht.add hcost hs
      have hargs : ∀ a ∈ args ++ [arg], a.IsFree := by
        intro a ha'
        rcases List.mem_append.1 ha' with ha' | ha'
        · exact ha a ha'
        · cases List.mem_singleton.1 ha'
          exact harg
      have hd : ∀ us, (∃ vs ws, List.Forall₂ (Arg.Rel Tree.Resolves) (args ++ [arg]) vs ∧
          List.Forall₂ b.DerivesArg cs ws ∧ us = vs ++ ws) ↔
          ∃ vs ws, List.Forall₂ (Arg.Rel Tree.Resolves) args vs ∧
            List.Forall₂ b.DerivesArg (c :: cs) ws ∧ us = vs ++ ws := by
        intro us
        constructor
        · rintro ⟨_, ws, hall, hws, rfl⟩
          obtain ⟨vs, _, hvs, hlast, rfl⟩ := forall₂_append_left.1 hall
          obtain ⟨v, hv, rfl⟩ := forall₂_singleton_left.1 hlast
          exact ⟨vs, v :: ws, hvs, .cons ((hf.of_some v).1 hv) hws, (List.append_cons ..).symm⟩
        · rintro ⟨vs, _, hvs, hws, rfl⟩
          cases hws with
          | @cons _ w _ ws hw hws =>
            refine ⟨vs ++ [w], ws, ?_, hws, List.append_cons ..⟩
            exact forall₂_append_left.2
              ⟨vs, [w], hvs, forall₂_singleton_left.2 ⟨w, (hf.of_some w).2 hw, rfl⟩, rfl⟩
      rw [← funext fun us => propext (hd us)]
      exact ih hargs htotal

variable (hg : b.forest.grammar.NoAmbiguityConstructor) (hr : b.registry.WithoutFactories)

omit h hl in
include hr in
theorem token {prod : ProdId} {cs : List NodeId}
    (hn : b.forest.node n = .ok (.derivation prod cs)) (hi : b.forest.isLexical n = .ok true) :
    Meets (CoversTree (b.Derives n)) (Plain.token b n) := by
  refine meets_bind (meets_sortKey b n) fun sort hk => ?_
  refine meets_bind (meets_checked _) fun span hs => ?_
  refine meets_bind (meets_checked _) fun text ht => ?_
  refine meets_map (Registry.meets_make hr sort Registry.lexicalName span [.text text] .zero) ?_
  rintro t rfl
  refine covers_some Cost.isFree_zero fun u => ?_
  rw [derives_of_token hn hi hk hs ht]
  exact Tree.resolves_lexical

include hg hr in
theorem derivation {prod : ProdId} {cs : List NodeId}
    (hn : b.forest.node n = .ok (.derivation prod cs)) (hi : b.forest.isLexical n = .ok false) :
    Meets (CoversTree (b.Derives n)) (Plain.derivation b x n) := by
  refine meets_bind (meets_constructorOf b n) fun name hname => ?_
  obtain ⟨raw, hc, rfl⟩ := hname
  refine meets_bind (meets_sortKey b n) fun sort hk => ?_
  refine meets_bind (meets_checked _) fun args ha => ?_
  refine meets_bind (h.applyTo hl args nofun Cost.isFree_zero) fun found hf => ?_
  cases found with
  | none =>
    refine covers_none fun u hu => ?_
    obtain ⟨span, hs⟩ := spanned_of_node hn
    obtain ⟨as, has, _⟩ := (derives_of_derivation hn hi hk hc hs ha).1 hu
    exact hf.of_none as ⟨[], as, .nil, has, rfl⟩
  | some found =>
    obtain ⟨as, cost⟩ := found
    obtain ⟨hcost, has⟩ := hf.free _ rfl
    refine meets_bind (meets_checked _) fun span hs => ?_
    refine meets_bind (Registry.meets_make hr sort _ span as cost) ?_
    rintro t rfl
    refine covers_some hcost fun u => ?_
    rw [Registry.defaultBody_of_no_text (constructorKey_ne hg hc) fun a ha => (has a ha).1,
      Tree.resolves_application,
      derives_of_derivation hn hi hk hc hs ha]
    refine exists_congr fun as' => and_congr_left fun _ => ?_
    rw [hf.of_some as']
    constructor
    · rintro ⟨vs, ws, hvs, hws, rfl⟩
      cases hvs
      exact hws
    · intro hws
      exact ⟨[], as', .nil, hws, rfl⟩

omit hl in
theorem offerValues (alts : List NodeId) {survivors : Survivors Tree} (hs : survivors.Free)
    (hi : ∀ t ∈ survivors.items, t.cost.IsFree) :
    Meets (fun p => p.1.Free ∧ p.2 = none ∧ (∀ t ∈ p.1.items, t.cost.IsFree) ∧
      ∀ u, (∃ t ∈ p.1.items, t.Resolves u) ↔
        (∃ t ∈ survivors.items, t.Resolves u) ∨ ∃ alt ∈ alts, b.Derives alt u)
      (Plain.offerValues x alts survivors none) := by
  induction alts generalizing survivors with
  | nil =>
    refine ⟨hs, rfl, hi, fun u => ?_⟩
    simp only [List.not_mem_nil, false_and, exists_false, or_false]
  | cons alt alts ih =>
    refine meets_bind (meets_attempt (h.value alt)) ?_
    rintro _ ⟨found, rfl, hf⟩
    simp only [List.exists_mem_cons_iff]
    cases found with
    | none =>
      have hn : ∀ u, ¬ b.Derives alt u := hf.of_none
      simp only [hn, false_or]
      exact ih hs hi
    | some t =>
      have ht : t.cost.IsFree := hf.free t rfl
      have hitems := hs.items_offer t ht
      have hall : ∀ t' ∈ (survivors.offer t t.cost).items, t'.cost.IsFree := by
        rw [hitems]
        intro t' ht'
        rcases List.mem_append.1 ht' with ht' | ht'
        · exact hi t' ht'
        · cases List.mem_singleton.1 ht'
          exact ht
      have hoffered : ∀ u, (∃ t' ∈ (survivors.offer t t.cost).items, t'.Resolves u) ↔
          (∃ t' ∈ survivors.items, t'.Resolves u) ∨ b.Derives alt u := by
        intro u
        rw [hitems, ← hf.of_some u]
        constructor
        · rintro ⟨t', ht', hu⟩
          rcases List.mem_append.1 ht' with ht' | ht'
          · exact .inl ⟨t', ht', hu⟩
          · cases List.mem_singleton.1 ht'
            exact .inr hu
        · rintro (⟨t', ht', hu⟩ | hu)
          · exact ⟨t', List.mem_append_left _ ht', hu⟩
          · exact ⟨t, List.mem_append_right _ (List.mem_singleton_self t), hu⟩
      simp only [← or_assoc, ← hoffered]
      exact ih (hs.offer t ht) hall

omit hl in
include hr in
theorem cluster {alts : List NodeId} (hn : b.forest.node n = .ok (.ambiguity alts)) :
    Meets (CoversTree (b.Derives n)) (Plain.cluster b x n) := by
  refine meets_bind (meets_checked _) fun alts' ha => ?_
  obtain ⟨node, hn', rfl⟩ := Forest.alternatives_eq_ok.1 ha
  cases hn.symm.trans hn'
  refine meets_bind (h.offerValues alts Survivors.free_none nofun) ?_
  rintro ⟨survivors, ambiguity⟩ ⟨hs, rfl, hi, hall⟩
  have derives : ∀ u, (∃ t ∈ survivors.items, t.Resolves u) ↔ b.Derives n u := by
    intro u
    rw [hall, derives_of_ambiguity hn]
    constructor
    · rintro (⟨_, ht, _⟩ | hu)
      · cases ht
      · exact hu
    · exact .inr
  dsimp only
  cases hitems : survivors.items with
  | nil =>
    refine covers_none fun u hu => ?_
    obtain ⟨t, ht, _⟩ := (derives u).2 hu
    rw [hitems] at ht
    cases ht
  | cons t ts =>
    rw [hitems] at hi derives
    cases ts with
    | nil =>
      refine covers_some (hi t (List.mem_singleton_self t)) fun u => ?_
      rw [← derives u]
      constructor
      · intro hu
        exact ⟨t, List.mem_singleton_self t, hu⟩
      · rintro ⟨_, ht, hu⟩
        cases List.mem_singleton.1 ht
        exact hu
    | cons t' ts =>
      refine meets_bind (meets_sortKey b n) fun sort _ => ?_
      refine meets_bind (meets_checked _) fun span _ => ?_
      refine meets_map (Registry.meets_make hr sort Registry.ambiguityName span _ _) ?_
      rintro tree rfl
      refine covers_some (hs.cost.withAmbiguous true) fun u => ?_
      rw [← derives u]
      exact Tree.resolves_ambiguity

variable (hq : b.Unquoted)

include hg hr hq in
theorem read (n : NodeId) : Meets (CoversTree (b.Derives n)) (Plain.read b x n) := by
  refine meets_bind (meets_checked _) fun _ _ => ?_
  refine meets_bind (meets_checked _) fun node hn => ?_
  cases node with
  | ambiguity alts => exact h.cluster hr hn
  | derivation prod cs =>
    refine meets_bind (meets_checked _) fun isLexical hi => ?_
    cases isLexical with
    | true => exact token hr hn hi
    | false =>
      refine meets_bind (meets_checked _) fun isEmbedding he => ?_
      cases isEmbedding with
      | true => exact absurd (embeds_of_node hn hi he) (hq n)
      | false => exact h.derivation hl hg hr hn hi
  | cycle depth prod => exact covers_none (not_derives hn rfl rfl)
  | recovery text => exact covers_none (not_derives hn rfl rfl)
  | list prod cs isPartial => exact rfl
  | literal text prod => exact rfl
  | char code => exact rfl
  | optional prod child => exact rfl

end Covering

variable (hl : b.forest.NoListClusters) (hg : b.forest.grammar.NoAmbiguityConstructor)
  (hr : b.registry.WithoutFactories) (hq : b.Unquoted)
include hl hg hr hq

theorem covering_descent (depth : Nat) : b.Covering (Plain.descent b depth) := by
  induction depth with
  | zero => exact ⟨fun _ => rfl, fun _ _ _ _ _ => rfl⟩
  | succ depth ih =>
    constructor
    · intro n
      exact ih.read hl hg hr hq n
    · intro n prod cs isPartial hn
      exact ih.readRun hl hn

end Builder

/-- A pair of one shared cluster of two readings. The other reading of the whole is cut off. -/
def Builder.sharedPair : Builder where
  forest := {
    grammar := ⟨"Shared", [⟨.named .lexical "Id", none, [], true⟩,
      ⟨.named .sort "Exp", some "var", [.named .lexical "Id"], false⟩,
      ⟨.named .sort "Exp", some "ref", [.named .lexical "Id"], false⟩,
      ⟨.named .sort "Exp", some "pair", [.named .sort "Exp", .named .sort "Exp"], false⟩],
      by decide⟩
    entries := #[⟨.char 120, none⟩, ⟨.derivation 0 [0], none⟩, ⟨.derivation 1 [1], none⟩,
      ⟨.derivation 2 [1], none⟩, ⟨.ambiguity [2, 3], none⟩, ⟨.derivation 3 [4, 4], none⟩,
      ⟨.cycle 1 1, none⟩, ⟨.ambiguity [5, 6], none⟩]
    source := "<input>"
    lines := none }
  registry := (Registry.empty.define ⟨"Id", true, []⟩).define
    ⟨"Exp", false, [("Var", [.node]), ("Ref", [.node]), ("Pair", [.node, .node])]⟩
  conventions := .standard

end ParseForest
