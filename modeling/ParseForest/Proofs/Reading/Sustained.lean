import ParseForest.Proofs.Cost.Survivors
import ParseForest.Proofs.Registry.Factories
import ParseForest.Proofs.Session.Giving
import ParseForest.Proofs.Session.History
import ParseForest.Proofs.Tree.Ambiguity

/-!
What holds of every tree that is read. A reading puts trees together in few ways; a property that
all of them pass on from the parts to the whole holds of whatever comes out of a session, in any
forest and after any calls, because kept results have it as well. Main statement:
`Sustains.of_answers`.
-/

namespace ParseForest

open Build Success

namespace Builder

/-- The names of the constructors that derivations and modules are made with. -/
def Names (b : Builder) (name : String) : Prop :=
  name = "Default" ∨ name = "Toplevels" ∨
    ∃ node raw, b.forest.constructor? node = .ok (some raw) ∧ name = Conventions.constructorKey raw

/-- Every way to make a tree passes the property on to it from the trees that it is made of. What is
known of the flag of its cost is said with each way. -/
structure Sustains (b : Builder) (P : Tree → Prop) : Prop where
  token : ∀ sort span text t, b.registry.makeLexical sort span text = .ok t → P t
  application : ∀ sort name span args cost t, b.Names name → (∀ a ∈ args, a.text? = none) →
    (∀ s ∈ args.flatMap Arg.trees, P s) → cost.Flags (args.flatMap Arg.trees) →
    b.registry.make sort name span args cost = .ok t → P t
  ambiguity : ∀ sort span alts cost t, (∀ s ∈ alts, P s) → cost.ambiguous = true →
    b.registry.makeAmbiguity sort span alts cost = .ok t → P t
  leaf : ∀ sort span l, P (.image sort span (.token l) .zero)
  branch : ∀ sort span shape ts cost, shape ≠ .ambiguity → (∀ s ∈ ts, P s) → cost.Flags ts →
    P (.image sort span (.image shape ts) cost)
  tied : ∀ sort span ts cost, (∀ s ∈ ts, P s) → cost.ambiguous = true →
    P (.image sort span (.image .ambiguity ts) cost)
  recost : ∀ t cost, P t → cost.ambiguous = t.cost.ambiguous → P (t.withCost cost)

theorem sustains_any {b : Builder} : b.Sustains fun _ => True where
  token _ _ _ _ _ := trivial
  application _ _ _ _ _ _ _ _ _ _ _ := trivial
  ambiguity _ _ _ _ _ _ _ _ := trivial
  leaf _ _ _ := trivial
  branch _ _ _ _ _ _ _ _ := trivial
  tied _ _ _ _ _ _ := trivial
  recost _ _ _ _ := trivial

structure Sustained (J : Results → Prop) (P : Tree → Prop) (x : Descent) : Prop where
  value : ∀ n, Gives J (x.value n) fun v => ∀ t ∈ v, P t
  run : ∀ n, Gives J (x.run n) fun v => ∀ ts ∈ v, ∀ t ∈ ts, P t
  choice : ∀ n, Gives J (x.choice n) fun v => ∀ ts ∈ v, ∀ t ∈ ts, P t
  image : ∀ n, Gives J (x.image n) fun v => ∀ t ∈ v, P t

variable {b : Builder} {J : Results → Prop} {P : Tree → Prop} {x : Descent} {node : NodeId}

theorem some_of {t : Tree} (h : P t) : ∀ u ∈ some t, P u := by
  rintro _ ⟨⟩
  exact h

theorem gives_expectedAt {α : Type} {J : Results → Prop} {Q : α → Prop} (sort : String)
    (node : NodeId) : Gives J (b.expectedAt sort node : Build α) Q :=
  gives_after (gives_checked _).keeps fun _ => gives_after keeps_get fun _ => gives_throw _

theorem forall_singleton {t? : Option Tree} (h : ∀ t ∈ t?, P t) :
    ∀ ts ∈ t?.map ([·]), ∀ t ∈ ts, P t := by
  intro ts hts
  obtain ⟨t, ht, rfl⟩ := Option.map_eq_some_iff.1 hts
  exact List.forall_mem_singleton.2 (h t ht)

namespace Sustained

variable (h : Sustained J P x)
include h

theorem part (node : NodeId) :
    Gives J (b.part x node) fun v => ∀ ts ∈ v, ∀ t ∈ ts, P t := by
  refine gives_bind (gives_checked _) fun slot _ => ?_
  cases slot with
  | choice => exact h.choice node
  | run => exact h.run node
  | optional | single =>
    exact gives_bind (h.value node) fun t? ht => gives_pure (forall_singleton ht)

theorem readRun (node : NodeId) :
    Gives J (b.run x node) fun v => ∀ ts ∈ v, ∀ t ∈ ts, P t := by
  refine gives_bind (gives_checked _) fun elements _ => ?_
  refine gives_bind (gives_collect h.part) fun tss? htss => gives_pure fun ts hts => ?_
  obtain ⟨tss, hmem, rfl⟩ := Option.map_eq_some_iff.1 hts
  intro t ht
  obtain ⟨us, hus, ht⟩ := List.mem_flatten.1 ht
  exact htss tss hmem us hus t ht

theorem offerRuns (alts : List NodeId) {s : Survivors (List Tree)}
    (hs : ∀ ts ∈ s.items, ∀ t ∈ ts, P t) :
    Gives J (offerRuns x alts s) fun s => ∀ ts ∈ s.items, ∀ t ∈ ts, P t := by
  induction alts generalizing s with
  | nil => exact gives_pure hs
  | cons alt alts ih =>
    refine gives_bind (h.run alt) fun ts? hts => ?_
    cases ts? with
    | none => exact ih hs
    | some ts =>
      refine gives_bind (gives_checked _) fun cost _ => ih fun us hus => ?_
      rcases Survivors.mem_offer hus with hus | rfl
      · exact hs us hus
      · exact hts us rfl

theorem readChoice (node : NodeId) :
    Gives J (b.choice x node) fun v => ∀ ts ∈ v, ∀ t ∈ ts, P t := by
  refine gives_bind (gives_checked _) fun alts _ => ?_
  refine gives_bind (h.offerRuns alts nofun) fun s hs => ?_
  refine gives_after (computes_record _).keeps fun _ => ?_
  match hi : s.items with
  | [] => exact gives_pure nofun
  | [ts] =>
    refine gives_pure fun us hus => ?_
    cases hus
    exact hs ts (hi ▸ List.mem_singleton_self ts)
  | _ :: _ :: _ => exact gives_after (gives_checked _).keeps fun _ => gives_throw _

theorem argument (node : NodeId) :
    Gives J (b.argument x node) fun v =>
      ∀ a ∈ v, a.text? = none ∧ ∀ t ∈ a.trees, P t := by
  have list {y : Build (Option (List Tree))}
      (hy : Gives J y fun v => ∀ ts ∈ v, ∀ t ∈ ts, P t) :
      Gives J (do return (← y).map Arg.list) fun v =>
        ∀ a ∈ v, a.text? = none ∧ ∀ t ∈ a.trees, P t := by
    refine gives_bind hy fun ts? hts => gives_pure fun a ha => ?_
    obtain ⟨ts, hmem, rfl⟩ := Option.map_eq_some_iff.1 ha
    exact ⟨rfl, hts ts hmem⟩
  refine gives_bind (gives_checked _) fun slot _ => ?_
  cases slot with
  | run => exact list (h.run node)
  | choice => exact list (h.choice node)
  | optional held =>
    cases held with
    | none =>
      refine gives_pure fun a ha => ?_
      cases ha
      exact ⟨rfl, nofun⟩
    | some held =>
      refine gives_bind (h.value held) fun t? ht => gives_pure fun a ha => ?_
      obtain ⟨t, hmem, rfl⟩ := Option.map_eq_some_iff.1 ha
      exact ⟨rfl, List.forall_mem_singleton.2 (ht t hmem)⟩
  | single =>
    refine gives_bind (h.value node) fun t? ht => gives_pure fun a ha => ?_
    obtain ⟨t, hmem, rfl⟩ := Option.map_eq_some_iff.1 ha
    exact ⟨rfl, List.forall_mem_singleton.2 (ht t hmem)⟩

theorem applyTo (nodes : List NodeId) (args : List (Arg Tree)) (total : Cost)
    (htext : ∀ a ∈ args, a.text? = none) (hargs : ∀ t ∈ args.flatMap Arg.trees, P t)
    (htotal : total.Flags (args.flatMap Arg.trees)) :
    Gives J (b.applyTo x args total nodes) fun v =>
      ∀ r ∈ v, (∀ a ∈ r.1, a.text? = none) ∧ (∀ t ∈ r.1.flatMap Arg.trees, P t) ∧
        r.2.Flags (r.1.flatMap Arg.trees) := by
  induction nodes generalizing args total with
  | nil =>
    refine gives_pure fun r hr => ?_
    cases hr
    exact ⟨htext, hargs, htotal⟩
  | cons node nodes ih =>
    refine gives_bind (h.argument node) fun a? ha => ?_
    cases a? with
    | none => exact gives_pure nofun
    | some a =>
      obtain ⟨hnone, htrees⟩ := ha a rfl
      refine gives_bind (gives_checked _) fun cost hcost => ?_
      refine gives_bind (gives_checked _) fun total' htotal' => ?_
      have hall : (args ++ [a]).flatMap Arg.trees = args.flatMap Arg.trees ++ a.trees := by
        simp
      refine ih _ total' ?_ ?_ ?_
      · exact List.forall_mem_append.2 ⟨htext, List.forall_mem_singleton.2 hnone⟩
      · rw [hall]
        exact List.forall_mem_append.2 ⟨hargs, htrees⟩
      · rw [hall]
        exact htotal.add (Arg.flags_cost hcost) htotal'

theorem offerValues (alts : List NodeId) {s : Survivors Tree} {e : Option Error}
    (hs : ∀ t ∈ s.items, P t) :
    Gives J (offerValues x alts s e) fun r => ∀ t ∈ r.1.items, P t := by
  induction alts generalizing s e with
  | nil => exact gives_pure hs
  | cons alt alts ih =>
    refine gives_bind (gives_attempt (h.value alt)) fun r hr => ?_
    match r with
    | .error e' => exact ih hs
    | .ok none => exact ih hs
    | .ok (some t) =>
      refine ih fun u hu => ?_
      rcases Survivors.mem_offer hu with hu | rfl
      · exact hs u hu
      · exact hr _ rfl u rfl

theorem imagesOf (nodes : List NodeId) {trees : List Tree} {total : Cost}
    (htrees : ∀ t ∈ trees, P t) (htotal : total.Flags trees) :
    Gives J (imagesOf x trees total nodes) fun v =>
      ∀ r ∈ v, (∀ t ∈ r.1, P t) ∧ r.2.Flags r.1 := by
  induction nodes generalizing trees total with
  | nil =>
    refine gives_pure fun r hr => ?_
    cases hr
    exact ⟨htrees, htotal⟩
  | cons node nodes ih =>
    refine gives_bind (h.image node) fun t? ht => ?_
    cases t? with
    | none => exact gives_pure nofun
    | some t =>
      refine gives_bind (gives_checked _) fun total' htotal' => ?_
      refine ih ?_ (htotal.add (Cost.flags_singleton t) htotal')
      exact List.forall_mem_append.2 ⟨htrees, List.forall_mem_singleton.2 (ht t rfl)⟩

theorem offerImages (alts : List NodeId) {s : Survivors Tree} (hs : ∀ t ∈ s.items, P t) :
    Gives J (offerImages x alts s) fun s => ∀ t ∈ s.items, P t := by
  induction alts generalizing s with
  | nil => exact gives_pure hs
  | cons alt alts ih =>
    refine gives_bind (h.image alt) fun t? ht => ?_
    cases t? with
    | none => exact ih hs
    | some t =>
      refine ih fun u hu => ?_
      rcases Survivors.mem_offer hu with hu | rfl
      · exact hs u hu
      · exact ht u rfl

theorem fittingValues (expected : Symbol) (alts : List NodeId) :
    Gives J (b.fittingValues x expected alts) fun ts => ∀ t ∈ ts, P t := by
  induction alts with
  | nil => exact gives_pure nofun
  | cons alt alts ih =>
    refine gives_bind (gives_checked _) fun isEmbedding _ => ?_
    split
    · exact ih
    · refine gives_bind (h.value alt) fun t? ht => ?_
      refine gives_bind ih fun ts hts => gives_pure (List.forall_mem_append.2 ⟨?_, hts⟩)
      intro t hmem
      exact ht t (Option.mem_filter_iff.1 (Option.mem_toList.1 hmem)).1

variable (hp : b.Sustains P)
include hp

theorem derivation (node : NodeId) (hJ : StoresAt J P .derivations node) :
    Gives J (b.derivation x node) fun v => ∀ t ∈ v, P t := by
  refine gives_once hJ ?_
  have hname : Gives J (b.constructorOf node) b.Names := by
    refine gives_bind (gives_checked _) fun raw? hraw => ?_
    cases raw? with
    | none => exact gives_after (gives_checked _).keeps fun _ => gives_throw _
    | some raw => exact gives_pure (.inr (.inr ⟨node, raw, hraw, rfl⟩))
  refine gives_bind hname fun name hname => ?_
  refine gives_after (gives_lift _).keeps fun sort => ?_
  refine gives_after (gives_checked _).keeps fun arguments => ?_
  refine gives_bind (h.applyTo arguments [] .zero nofun nofun (Cost.flags_nil rfl)) fun r? hr => ?_
  match r? with
  | none => exact gives_after (computes_record _).keeps fun _ => gives_pure nofun
  | some (args, cost) =>
    obtain ⟨htext, hargs, hcost⟩ := hr _ rfl
    refine gives_after (gives_checked _).keeps fun span => ?_
    refine gives_bind (gives_lift _) fun t ht => ?_
    refine gives_after (computes_modify fun _ => rfl).keeps fun _ => gives_pure ?_
    exact some_of (hp.application sort name span args cost t hname htext hargs hcost ht)

theorem cluster (node : NodeId) (hJ : StoresAt J P .clusters node) :
    Gives J (b.cluster x node) fun v => ∀ t ∈ v, P t := by
  refine gives_once hJ ?_
  refine gives_after (gives_checked _).keeps fun alts => ?_
  refine gives_bind (h.offerValues alts nofun) fun r hr => ?_
  obtain ⟨survivors, ambiguity⟩ := r
  refine gives_after (computes_record _).keeps fun _ => ?_
  dsimp only at hr ⊢
  match hi : survivors.items, ambiguity with
  | [], some e => exact gives_throw e
  | [], none => exact gives_pure nofun
  | [t], _ =>
    rw [hi] at hr
    exact gives_pure (some_of (hr t (List.mem_singleton_self t)))
  | _ :: _ :: _, _ =>
    rw [hi] at hr
    refine gives_after (gives_lift _).keeps fun sort => ?_
    refine gives_after (gives_checked _).keeps fun span => ?_
    refine gives_map (gives_lift _) fun t ht => some_of ?_
    exact hp.ambiguity sort span _ _ t hr rfl ht

theorem fragment (node : NodeId) (hJ : StoresAt J P .fragments node) :
    Gives J (b.fragment x node) fun v => ∀ t ∈ v, P t := by
  refine gives_once hJ (gives_after (computes_record _).keeps fun _ => ?_)
  refine gives_after (gives_checked _).keeps fun pattern? => ?_
  cases pattern? with
  | none => exact gives_pure nofun
  | some pattern =>
    refine gives_bind (h.image pattern) fun t? ht => ?_
    cases t? with
    | none => exact gives_pure nofun
    | some t =>
      refine gives_after (gives_checked _).keeps fun span => ?_
      dsimp only
      split
      · exact gives_throw _
      · exact gives_pure (some_of (hp.recost t _ (ht t rfl) rfl))

omit h in
theorem imageLeaf (node : NodeId) (l : Leaf) :
    Gives J (b.imageLeaf node l) fun v => ∀ t ∈ v, P t := by
  refine gives_map (P := P) ?_ fun t ht => some_of ht
  exact gives_after (gives_checked _).keeps fun span => gives_pure (hp.leaf _ span l)

theorem imageOver (node : NodeId) {shape : Shape} (hshape : shape ≠ .ambiguity)
    (nodes : List NodeId) (injections : Nat) :
    Gives J (b.imageOver x node shape nodes injections) fun v => ∀ t ∈ v, P t := by
  refine gives_bind (h.imagesOf nodes nofun (Cost.flags_nil rfl)) fun r? hr => ?_
  match r? with
  | none => exact gives_pure nofun
  | some (trees, total) =>
    obtain ⟨htrees, htotal⟩ := hr _ rfl
    refine gives_bind (gives_checked _) fun cost hcost => ?_
    have hflags : cost.Flags trees := by
      simpa using htotal.add (Cost.flags_nil (c := { Cost.zero with injections }) rfl) hcost
    refine gives_map (P := P) ?_ fun t ht => some_of ht
    refine gives_after (gives_checked _).keeps fun span => gives_pure ?_
    exact hp.branch _ span shape trees cost hshape htrees hflags

theorem imageCluster (node : NodeId) (alts : List NodeId) :
    Gives J (b.imageCluster x node alts) fun v => ∀ t ∈ v, P t := by
  refine gives_bind (h.offerImages alts nofun) fun s hs => ?_
  refine gives_after (computes_record _).keeps fun _ => ?_
  match hi : s.items with
  | [] => exact gives_pure nofun
  | [t] =>
    rw [hi] at hs
    exact gives_pure (some_of (hs t (List.mem_singleton_self t)))
  | _ :: _ :: _ =>
    rw [hi] at hs
    refine gives_map (P := P) ?_ fun t ht => some_of ht
    refine gives_after (gives_checked _).keeps fun span => gives_pure ?_
    exact hp.tied _ span _ _ hs rfl

theorem holeValue (node : NodeId) (expected : Symbol) :
    Gives J (b.holeValue x node expected) fun v => ∀ t ∈ v, P t := by
  refine gives_after (gives_checked _).keeps fun arguments => ?_
  cases arguments.getLast? with
  | none => exact gives_throw _
  | some held =>
    refine gives_after (gives_checked _).keeps fun n => ?_
    have rejected : Gives J (record (.rejectHole node) >>= fun _ => return none)
        fun v => ∀ t ∈ v, P t := gives_after (computes_record _).keeps fun _ => gives_pure nofun
    have tied : ∀ (t : Tree) (ts : List Tree), (∀ u ∈ ts, P u) → Gives J (do
        let span ← b.forest.span node
        some <$> b.registry.makeAmbiguity b.conventions.expressionSort span ts
          (t.cost.withAmbiguous true) : Build (Option Tree)) fun v => ∀ t ∈ v, P t := by
      intro t ts hts
      refine gives_after (gives_checked _).keeps fun span => ?_
      refine gives_map (gives_lift _) fun u hu => some_of ?_
      exact hp.ambiguity _ span _ _ u hts rfl hu
    cases n with
    | ambiguity alts =>
      refine gives_bind (h.fittingValues expected alts) fun ts hts => ?_
      rcases ts with _ | ⟨t, _ | ⟨u, ts⟩⟩
      · exact rejected
      · exact gives_pure (some_of (hts t (List.mem_singleton_self t)))
      · exact tied t (t :: u :: ts) hts
    | _ =>
      refine gives_bind (h.value held) fun t? ht => ?_
      have hfits : ∀ t ∈ (t?.filter (b.fitsHole expected)).toList, P t := fun t hmem =>
        ht t (Option.mem_filter_iff.1 (Option.mem_toList.1 hmem)).1
      refine gives_bind (P := fun ts => ∀ t ∈ ts, P t) (gives_pure hfits) fun ts hts => ?_
      rcases ts with _ | ⟨t, _ | ⟨u, ts⟩⟩
      · exact rejected
      · exact gives_pure (some_of (hts t (List.mem_singleton_self t)))
      · exact tied t (t :: u :: ts) hts

theorem hole (node : NodeId) (expected : Symbol) :
    Gives J (b.hole x node expected) fun v => ∀ t ∈ v, P t := by
  refine gives_bind (h.holeValue hp node expected) fun t? ht => gives_pure fun u hu => ?_
  obtain ⟨t, hmem, rfl⟩ := Option.map_eq_some_iff.1 hu
  exact hp.recost t _ (ht t hmem) rfl

theorem readImage (node : NodeId) (hJ : StoresAt J P .fragments node) :
    Gives J (b.image x node) fun v => ∀ t ∈ v, P t := by
  refine gives_once hJ (gives_after (gives_checked _).keeps fun n => ?_)
  cases n with
  | derivation prod nodes =>
    refine gives_after (gives_checked _).keeps fun p => ?_
    split
    · exact h.hole hp node p.defines
    · split
      · exact gives_after (gives_checked _).keeps fun text => imageLeaf hp node _
      · split
        · exact gives_after (gives_checked _).keeps fun text => imageLeaf hp node _
        · exact h.imageOver hp node Shape.noConfusion nodes _
  | list prod nodes isPartial =>
    exact gives_after (gives_checked _).keeps fun p => h.imageOver hp node Shape.noConfusion nodes _
  | optional prod child => exact h.imageOver hp node Shape.noConfusion _ _
  | literal text prod => exact imageLeaf hp node _
  | char code => exact imageLeaf hp node _
  | ambiguity alts => exact h.imageCluster hp node alts
  | cycle | recovery => exact gives_pure nofun

theorem read (node : NodeId) (hJ : ∀ memory, StoresAt J P memory node) :
    Gives J (b.read x node) fun v => ∀ t ∈ v, P t := by
  refine gives_after (gives_checked _).keeps fun name => ?_
  refine gives_after (computes_record _).keeps fun _ => ?_
  refine gives_after (gives_checked _).keeps fun n => ?_
  cases n with
  | ambiguity alts => exact h.cluster hp node (hJ _)
  | derivation prod nodes =>
    refine gives_after (gives_checked _).keeps fun isLexical => ?_
    split
    · refine gives_once (hJ _) ?_
      refine gives_after (gives_lift _).keeps fun sort => ?_
      refine gives_after (gives_checked _).keeps fun span => ?_
      refine gives_after (gives_checked _).keeps fun text => ?_
      exact gives_map (gives_lift _) fun t ht => some_of (hp.token sort span text t ht)
    · refine gives_after (gives_checked _).keeps fun isEmbedding => ?_
      split
      · exact h.fragment hp node (hJ _)
      · exact h.derivation hp node (hJ _)
  | cycle | recovery => exact gives_after (computes_record _).keeps fun _ => gives_pure nofun
  | list | literal | char | optional => exact gives_throw _

theorem descend (hJ : Stores J P) : Sustained J P (b.descend x) where
  value n := h.read hp n fun memory => hJ memory n
  run := h.readRun
  choice := h.readChoice
  image n := h.readImage hp n (hJ .fragments n)

end Sustained

theorem sustained_ended : Sustained J P .ended :=
  ⟨fun _ => gives_throw _, fun _ => gives_throw _, fun _ => gives_throw _, fun _ => gives_throw _⟩

theorem sustained_inSession {choose : Session → Descent} (h : ∀ s, Sustained J P (choose s)) :
    Sustained J P (.inSession choose) where
  value n s hs := (h s).value n s hs
  run n s hs := (h s).run n s hs
  choice n s hs := (h s).choice n s hs
  image n s hs := (h s).image n s hs

theorem descent_rule {Q : Descent → Prop} (ended : Q .ended)
    (inSession : ∀ choose, (∀ s, Q (choose s)) → Q (.inSession choose))
    (descend : ∀ x, Q x → Q (b.descend x)) (depth fresh kept : Nat) :
    Q (b.descent depth fresh kept) := by
  induction depth generalizing fresh kept with
  | zero => exact ended
  | succ depth ih =>
    refine inSession _ fun s => ?_
    split
    · cases fresh with
      | zero => exact ended
      | succ fresh => exact descend _ (ih fresh kept)
    · exact descend _ (ih b.levelLimit s.results.size)

/-- The tree is what the call gives. -/
def Answers (b : Builder) (s : Session) (t : Tree) : Call → Prop
  | .value node => (b.value node).outcome s = .ok (some t)
  | .convert sort root => (b.convert sort root).outcome s = .ok t
  | .convertModule root => (b.convertModule root).outcome s = .ok t

namespace Sustains

variable (hp : b.Sustains P) (hJ : Stores J P)
include hp hJ

theorem descent (depth fresh kept : Nat) : Sustained J P (b.descent depth fresh kept) :=
  descent_rule sustained_ended (fun _ => sustained_inSession) (fun _ h => h.descend hp hJ) _ _ _

theorem value (node : NodeId) : Gives J (b.value node) fun v => ∀ t ∈ v, P t :=
  (hp.descent hJ _ _ _).value node

theorem valueAt (sort : String) (node : NodeId) : Gives J (b.valueAt sort node) P := by
  refine gives_bind (hp.value hJ node) fun t? ht => ?_
  cases t? with
  | none => exact gives_expectedAt sort node
  | some t => exact gives_pure (ht t rfl)

theorem firstValue (sort : String) (alts : List NodeId) :
    Gives J (b.firstValue? sort alts) fun v => ∀ t ∈ v, P t := by
  induction alts with
  | nil => exact gives_pure nofun
  | cons alt alts ih =>
    refine gives_after (gives_checked _).keeps fun found => ?_
    split
    · refine gives_bind (hp.value hJ alt) fun t? ht => ?_
      cases t? with
      | none => exact ih
      | some t => exact gives_pure ht
    · exact ih

theorem convertWithin (sort : String) (depth : Nat) (node : NodeId) :
    Gives J (b.convertWithin sort depth node) P := by
  induction depth generalizing node with
  | zero => exact gives_throw _
  | succ depth ih =>
    refine gives_after (gives_checked _).keeps fun n => ?_
    cases n with
    | derivation prod nodes =>
      refine gives_after (gives_checked _).keeps fun found => ?_
      refine gives_after (gives_checked _).keeps fun p => ?_
      split
      · exact hp.valueAt hJ sort node
      · refine gives_after (gives_checked _).keeps fun inner? => ?_
        cases inner? with
        | none => exact gives_expectedAt sort node
        | some inner =>
          refine gives_after (gives_checked _).keeps fun isAmbiguity => ?_
          split
          · exact hp.valueAt hJ sort inner
          · exact ih inner
    | ambiguity alts =>
      refine gives_bind (hp.firstValue hJ sort alts) fun t? ht => ?_
      cases t? with
      | none => exact gives_expectedAt sort node
      | some t => exact gives_pure (ht t rfl)
    | _ => exact gives_throw _

theorem headerModule (node : NodeId) : Gives J (b.headerModule node) P := by
  refine gives_after (gives_checked _).keeps fun arguments => ?_
  cases arguments.head? with
  | none => exact gives_throw _
  | some header =>
    refine gives_bind (hp.valueAt hJ _ header) fun header hheader => ?_
    refine gives_after (gives_checked _).keeps fun span => ?_
    refine gives_bind (gives_lift _) fun body hbody => ?_
    have hempty : P body :=
      hp.application _ _ span [.list []] .zero body (.inr (.inl rfl)) (by simp [Arg.text?])
        (by simp [Arg.trees]) (Cost.flags_nil rfl) hbody
    have hflags : header.cost.Flags [header, body] := by
      simp [Cost.Flags, Registry.make_cost hbody, Cost.zero]
    refine gives_of_computes (computes_lift _) fun t ht => ?_
    refine hp.application _ _ span _ _ t (.inl rfl) ?_ ?_ hflags ht
    · simp [Arg.text?]
    · exact List.forall_mem_cons.2 ⟨hheader, List.forall_mem_singleton.2 hempty⟩

theorem convertModuleAt (root node : NodeId) :
    Gives J (b.convertModuleAt root node) P := by
  refine gives_after (gives_checked _).keeps fun sort => ?_
  split
  · exact hp.valueAt hJ sort node
  · split
    · exact hp.headerModule hJ node
    · exact hp.convertWithin hJ _ _ root

theorem convertModule (root : NodeId) : Gives J (b.convertModule root) P := by
  refine gives_after (gives_checked _).keeps fun n => ?_
  cases n with
  | derivation prod nodes => exact hp.convertModuleAt hJ root root
  | ambiguity alts =>
    refine gives_after (gives_checked _).keeps fun readings => ?_
    match readings with
    | [] => exact hp.convertWithin hJ _ _ root
    | [node] => exact hp.convertModuleAt hJ root node
    | _ :: _ :: _ => exact gives_after (gives_checked _).keeps fun _ => gives_throw _
  | _ => exact hp.convertWithin hJ _ _ root

omit hJ in
theorem of_answers {calls : List Call} {call : Call} {t : Tree}
    (h : b.Answers (b.sessionAfter calls) t call) : P t := by
  have hJ := stores_allKept P
  have hs := holds_sessionAfter (fun n => (hp.value hJ n).keeps) allKept_empty calls
  cases call with
  | value node => exact (hp.value hJ node _ hs).1 _ h t rfl
  | convert sort root => exact (hp.convertWithin hJ sort _ root _ hs).1 t h
  | convertModule root => exact (hp.convertModule hJ root _ hs).1 t h

end Sustains

end Builder

end ParseForest
