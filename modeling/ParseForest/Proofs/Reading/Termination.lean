import ParseForest.Proofs.Reading.Simulation
import ParseForest.Proofs.Session.Unbroken

/-!
Readings of well-built forests end and find every node and production that they ask for. The one
contract that they can break is that of the number range, where costs are added. Main statements:
`unbroken_value`, `unbroken_convert`, `unbroken_convertModule`, `constructed_forest_ends`.
-/

namespace ParseForest

open Build Success Checked

theorem Registry.make_onlyOverflows (r : Registry) (sort name : String) (span : Option Span)
    (args : List (Arg Tree)) (cost : Cost) : OnlyOverflows (r.make sort name span args cost) := by
  unfold Registry.make
  split
  · exact nofun
  · split
    · exact nofun
    · exact nofun

namespace Builder

variable {b : Builder} {n node : NodeId}

theorem sortKey_onlyOverflows (hf : b.forest.WellBuilt) (hn : n < b.forest.size) :
    OnlyOverflows (b.sortKey n) := by
  obtain ⟨raw, hraw⟩ := hf.sortName hn
  unfold sortKey
  rw [hraw]
  split
  next h => cases h
  next => exact nofun
  next => exact nofun

theorem unbroken_make (sort name : String) (span : Option Span) (args : List (Arg Tree))
    (cost : Cost) : Unbroken (liftM (b.registry.make sort name span args cost)) :=
  unbroken_lift (b.registry.make_onlyOverflows sort name span args cost)

theorem span_succeeds (hn : n < b.forest.size) : Succeeds (b.forest.span n) :=
  ⟨_, Forest.span_of_lt hn⟩

structure UnbrokenBelow (n : Nat) (x : Descent) : Prop where
  value : ∀ c < n, Unbroken (x.value c)
  run : ∀ c < n, Unbroken (x.run c)
  choice : ∀ c < n, Unbroken (x.choice c)
  image : ∀ c < n, Unbroken (x.image c)

theorem UnbrokenBelow.mono {m : Nat} {x : Descent} (h : UnbrokenBelow n x) (hm : m ≤ n) :
    UnbrokenBelow m x :=
  ⟨fun c hc => h.value c (Nat.lt_of_lt_of_le hc hm), fun c hc => h.run c (Nat.lt_of_lt_of_le hc hm),
    fun c hc => h.choice c (Nat.lt_of_lt_of_le hc hm),
    fun c hc => h.image c (Nat.lt_of_lt_of_le hc hm)⟩

section Images

variable {x : Descent} {cs : List NodeId}

theorem unbroken_imageNode (hn : n < b.forest.size) (body : Body Tree) (cost : Cost) :
    Unbroken (b.imageNode n body cost) :=
  unbroken_checked_bind (span_succeeds hn) fun _ _ => unbroken_pure _

theorem unbroken_imageLeaf (hn : n < b.forest.size) (leaf : Leaf) : Unbroken (b.imageLeaf n leaf) :=
  unbroken_map _ (unbroken_imageNode hn _ _)

theorem unbroken_imagesOf (h : ∀ c ∈ cs, Unbroken (x.image c)) (trees : List Tree) (total : Cost) :
    Unbroken (imagesOf x trees total cs) := by
  induction cs generalizing trees total with
  | nil => exact unbroken_pure _
  | cons c cs ih =>
    have hs := ih fun c' hc' => h c' (List.mem_cons_of_mem _ hc')
    refine unbroken_bind (h c List.mem_cons_self) fun tree? => ?_
    cases tree? with
    | none => exact unbroken_pure _
    | some tree => exact unbroken_bind (unbroken_counts (Cost.counts_add _ _)) fun _ => hs _ _

theorem unbroken_imageOver (hn : n < b.forest.size) (h : ∀ c ∈ cs, Unbroken (x.image c))
    (shape : Shape) (injections : Nat) : Unbroken (b.imageOver x n shape cs injections) := by
  refine unbroken_bind (unbroken_imagesOf h _ _) fun images? => ?_
  cases images? with
  | none => exact unbroken_pure _
  | some images =>
    refine unbroken_bind (unbroken_counts (Cost.counts_add _ _)) fun _ => ?_
    exact unbroken_map _ (unbroken_imageNode hn _ _)

theorem unbroken_offerImages (h : ∀ c ∈ cs, Unbroken (x.image c)) (s : Survivors Tree) :
    Unbroken (offerImages x cs s) := by
  induction cs generalizing s with
  | nil => exact unbroken_pure _
  | cons c cs ih =>
    have hs := ih fun c' hc' => h c' (List.mem_cons_of_mem _ hc')
    refine unbroken_bind (h c List.mem_cons_self) fun tree? => ?_
    cases tree? with
    | none => exact hs s
    | some tree => exact hs _

theorem unbroken_imageCluster (hn : n < b.forest.size) (h : ∀ c ∈ cs, Unbroken (x.image c)) :
    Unbroken (b.imageCluster x n cs) := by
  refine unbroken_bind (unbroken_offerImages h _) fun survivors => ?_
  refine unbroken_bind (unbroken_record _) fun _ => ?_
  match survivors.items with
  | [] => exact unbroken_pure _
  | [_] => exact unbroken_pure _
  | _ :: _ :: _ => exact unbroken_map _ (unbroken_imageNode hn _ _)

end Images

variable (hf : b.forest.WellBuilt)
include hf

theorem unbroken_sortKey (hn : n < b.forest.size) : Unbroken (liftM (b.sortKey n)) :=
  unbroken_lift (sortKey_onlyOverflows hf hn)

theorem unbroken_token (hn : n < b.forest.size) : Unbroken (b.token n) := by
  refine unbroken_once (unbroken_bind (unbroken_sortKey hf hn) fun sort => ?_)
  refine unbroken_checked_bind (span_succeeds hn) fun span _ => ?_
  refine unbroken_checked_bind (hf.acyclic.exists_yieldText hn) fun text _ => ?_
  exact unbroken_map _ (unbroken_make _ _ _ _ _)

theorem unbroken_constructorOf (hn : n < b.forest.size) : Unbroken (b.constructorOf n) := by
  refine unbroken_checked_bind (hf.constructor? hn) fun name? _ => ?_
  cases name? with
  | some name => exact unbroken_pure _
  | none =>
    exact unbroken_checked_bind (hf.production? hn) fun _ _ => unbroken_throw nofun

namespace UnbrokenBelow

variable {x : Descent} (h : UnbrokenBelow n x) (hn : n < b.forest.size)
include h hn

theorem part {c : NodeId} (hc : c < n) : Unbroken (b.part x c) := by
  refine unbroken_checked_bind (hf.slot (Nat.lt_trans hc hn)) fun slot _ => ?_
  cases slot with
  | choice => exact h.choice c hc
  | run => exact h.run c hc
  | optional held => exact unbroken_bind (h.value c hc) fun _ => unbroken_pure _
  | single => exact unbroken_bind (h.value c hc) fun _ => unbroken_pure _

theorem runs : Unbroken (b.run x n) := by
  refine unbroken_checked_bind (hf.elements hn) fun es hes => ?_
  have he : ∀ e ∈ es, e < n := fun e he => hf.acyclic.lt_of_elements hes he
  refine unbroken_bind (unbroken_collect fun e hm => h.part hf hn (he e hm)) fun _ => ?_
  exact unbroken_pure _

omit hf hn in
theorem offerRuns {alts : List NodeId} (ha : ∀ a ∈ alts, a < n) (s : Survivors (List Tree)) :
    Unbroken (offerRuns x alts s) := by
  induction alts generalizing s with
  | nil => exact unbroken_pure _
  | cons a alts ih =>
    have hs := ih fun a' ha' => ha a' (List.mem_cons_of_mem _ ha')
    refine unbroken_bind (h.run a (ha a List.mem_cons_self)) fun items? => ?_
    cases items? with
    | none => exact hs s
    | some items => exact unbroken_bind (unbroken_counts (Cost.counts_sum _)) fun _ => hs _

theorem choices : Unbroken (b.choice x n) := by
  refine unbroken_checked_bind (Succeeds.map (Forest.node_of_lt hn) _) fun alts halts => ?_
  have ha : ∀ a ∈ alts, a < n := fun a ha => hf.acyclic.lt_of_alternatives halts ha
  refine unbroken_bind (h.offerRuns ha _) fun survivors => ?_
  refine unbroken_bind (unbroken_record _) fun _ => ?_
  match survivors.items with
  | [] => exact unbroken_pure _
  | [_] => exact unbroken_pure _
  | _ :: _ :: _ =>
    exact unbroken_checked_bind (span_succeeds hn) fun _ _ => unbroken_throw nofun

theorem argument {c : NodeId} (hc : c < n) : Unbroken (b.argument x c) := by
  refine unbroken_checked_bind (hf.slot (Nat.lt_trans hc hn)) fun slot hslot => ?_
  cases slot with
  | run => exact unbroken_bind (h.run c hc) fun _ => unbroken_pure _
  | choice => exact unbroken_bind (h.choice c hc) fun _ => unbroken_pure _
  | single => exact unbroken_bind (h.value c hc) fun _ => unbroken_pure _
  | optional held =>
    cases held with
    | none => exact unbroken_pure _
    | some held =>
      have hlt := Nat.lt_trans (hf.acyclic.lt_of_slot hslot) hc
      exact unbroken_bind (h.value held hlt) fun _ => unbroken_pure _

theorem applyTo {cs : List NodeId} (hc : ∀ c ∈ cs, c < n) (args : List (Arg Tree)) (total : Cost) :
    Unbroken (b.applyTo x args total cs) := by
  induction cs generalizing args total with
  | nil => exact unbroken_pure _
  | cons c cs ih =>
    have hs := ih fun c' hc' => hc c' (List.mem_cons_of_mem _ hc')
    refine unbroken_bind (h.argument hf hn (hc c List.mem_cons_self)) fun arg? => ?_
    cases arg? with
    | none => exact unbroken_pure _
    | some arg =>
      refine unbroken_bind (unbroken_counts arg.counts_cost) fun cost => ?_
      exact unbroken_bind (unbroken_counts (Cost.counts_add _ _)) fun _ => hs _ _

theorem derivations : Unbroken (b.derivation x n) := by
  refine unbroken_once (unbroken_bind (unbroken_constructorOf hf hn) fun name => ?_)
  refine unbroken_bind (unbroken_sortKey hf hn) fun sort => ?_
  refine unbroken_checked_bind (hf.arguments hn) fun cs hcs => ?_
  have hc : ∀ c ∈ cs, c < n := fun c hc => hf.acyclic.lt_of_arguments hcs hc
  refine unbroken_bind (h.applyTo hf hn hc _ _) fun built? => ?_
  cases built? with
  | none => exact unbroken_bind (unbroken_record _) fun _ => unbroken_pure _
  | some built =>
    refine unbroken_checked_bind (span_succeeds hn) fun span _ => ?_
    refine unbroken_bind (unbroken_make _ _ _ _ _) fun tree => ?_
    exact unbroken_bind (unbroken_modify fun _ => rfl) fun _ => unbroken_pure _

omit hf hn in
/-- The error that is kept of the alternatives is an ambiguity. -/
theorem offerValues {alts : List NodeId} (ha : ∀ a ∈ alts, a < n) (s : Survivors Tree)
    {kept : Option Error} (hk : ∀ e ∈ kept, e.isAmbiguity = true) :
    Yields (fun _ => True) (offerValues x alts s kept) fun r =>
      OnlyOverflows r ∧ ∀ v, r = .ok v → ∀ e ∈ v.2, e.isAmbiguity = true := by
  induction alts generalizing s kept with
  | nil =>
    refine (computes_pure _).mono ?_
    rintro _ rfl
    refine ⟨nofun, ?_⟩
    rintro _ ⟨⟩
    exact hk
  | cons a alts ih =>
    have hs := @ih fun a' ha' => ha a' (List.mem_cons_of_mem _ ha')
    have hv := yields_attempt (h.value a (ha a List.mem_cons_self))
    refine yields_bind hv (fun r hr => ?_) fun e he => ?_
    · match r, hr with
      | .ok none, _ => exact hs _ hk
      | .ok (some _), _ => exact hs _ hk
      | .error e, hr =>
        refine hs _ ?_
        rintro _ ⟨⟩
        exact hr.2 e rfl
    · exact ⟨he.1.error, nofun⟩

theorem clusters : Unbroken (b.cluster x n) := by
  refine unbroken_once ?_
  refine unbroken_checked_bind (Succeeds.map (Forest.node_of_lt hn) _) fun alts halts => ?_
  have ha : ∀ a ∈ alts, a < n := fun a ha => hf.acyclic.lt_of_alternatives halts ha
  refine yields_bind (h.offerValues ha _ nofun) (fun offered hoffered => ?_) fun e he => ?_
  · obtain ⟨survivors, ambiguity⟩ := offered
    refine unbroken_bind (unbroken_record _) fun _ => ?_
    have tied (trees : List Tree) : Unbroken (do
        let sort ← b.sortKey n
        some <$> b.registry.makeAmbiguity sort (← b.forest.span n) trees
          (survivors.cost.withAmbiguous true)) := by
      refine unbroken_bind (unbroken_sortKey hf hn) fun sort => ?_
      refine unbroken_checked_bind (span_succeeds hn) fun span _ => ?_
      exact unbroken_map _ (unbroken_make _ _ _ _ _)
    match survivors.items, ambiguity, hoffered with
    | [], some e, hoffered =>
      refine unbroken_throw ?_
      rintro breach rfl
      cases hoffered.2 _ rfl _ rfl
    | [], none, _ => exact unbroken_pure _
    | [_], _, _ => exact unbroken_pure _
    | first :: second :: rest, _, _ => exact tied (first :: second :: rest)
  · exact he.1.error

omit hn in
theorem fittingValues {alts : List NodeId} (hn : n ≤ b.forest.size) (ha : ∀ a ∈ alts, a < n)
    (expected : Symbol) : Unbroken (b.fittingValues x expected alts) := by
  induction alts with
  | nil => exact unbroken_pure _
  | cons a alts ih =>
    have hs := ih fun a' ha' => ha a' (List.mem_cons_of_mem _ ha')
    have hlt := ha a List.mem_cons_self
    refine unbroken_checked_bind (hf.isEmbedding (Nat.lt_of_lt_of_le hlt hn)) fun found _ => ?_
    cases found with
    | true => exact hs
    | false =>
      refine unbroken_bind (h.value a hlt) fun _ => ?_
      exact unbroken_bind hs fun _ => unbroken_pure _

theorem holeValue (expected : Symbol) : Unbroken (b.holeValue x n expected) := by
  refine unbroken_checked_bind (hf.arguments hn) fun cs hcs => ?_
  cases hl : cs.getLast? with
  | none => exact unbroken_throw nofun
  | some held =>
    have hlt := hf.acyclic.lt_of_arguments hcs (List.mem_of_getLast? hl)
    have rejected : Unbroken (record (.rejectHole n) >>= fun _ => return (none : Option Tree)) :=
      unbroken_bind (unbroken_record _) fun _ => unbroken_pure _
    have tied (t : Tree) (ts : List Tree) : Unbroken (do
        some <$> b.registry.makeAmbiguity b.conventions.expressionSort (← b.forest.span n) ts
          (t.cost.withAmbiguous true)) :=
      unbroken_checked_bind (span_succeeds hn) fun _ _ =>
        unbroken_map _ (unbroken_make _ _ _ _ _)
    refine unbroken_checked_bind (Forest.node_of_lt (Nat.lt_trans hlt hn)) fun node hnode => ?_
    cases node with
    | ambiguity alts =>
      have ha : ∀ a ∈ alts, a < n := fun a ha =>
        Nat.lt_trans (hf.acyclic.lt_of_alternative hnode ha) hlt
      refine unbroken_bind (h.fittingValues hf (Nat.le_of_lt hn) ha expected) fun ts => ?_
      rcases ts with _ | ⟨t, _ | ⟨u, ts⟩⟩
      · exact rejected
      · exact unbroken_pure _
      · exact tied t (t :: u :: ts)
    | _ =>
      refine unbroken_bind (h.value held hlt) fun _ => ?_
      refine unbroken_bind (unbroken_pure _) fun ts => ?_
      rcases ts with _ | ⟨t, _ | ⟨u, ts⟩⟩
      · exact rejected
      · exact unbroken_pure _
      · exact tied t (t :: u :: ts)

theorem hole (expected : Symbol) : Unbroken (b.hole x n expected) :=
  unbroken_bind (h.holeValue hf hn expected) fun _ => unbroken_pure _

theorem images : Unbroken (b.image x n) := by
  refine unbroken_once ?_
  refine unbroken_checked_bind (Forest.node_of_lt hn) fun node hnode => ?_
  have below : ∀ c ∈ node.children ++ node.alternatives, Unbroken (x.image c) := fun c hc =>
    h.image c (Forest.acyclic_iff.1 hf.acyclic n node hnode c hc)
  have leaf (leaf : Leaf) : Unbroken (b.imageLeaf n leaf) := unbroken_imageLeaf hn leaf
  have yielded (leaf : String → Leaf) : Unbroken (do
      b.imageLeaf n (leaf (← b.forest.yieldText n))) :=
    unbroken_checked_bind (hf.acyclic.exists_yieldText hn) fun _ _ => unbroken_imageLeaf hn _
  cases node with
  | derivation prod cs =>
    refine unbroken_checked_bind (hf.grammar_production hnode rfl) fun p _ => ?_
    have children : ∀ c ∈ cs, Unbroken (x.image c) := fun c hc =>
      below c (List.mem_append_left _ hc)
    split
    · exact h.hole hf hn p.defines
    · split
      · exact yielded _
      · split
        · exact yielded _
        · exact unbroken_imageOver hn children _ _
  | list prod cs isPartial =>
    refine unbroken_checked_bind (hf.grammar_production hnode rfl) fun p _ => ?_
    exact unbroken_imageOver hn (fun c hc => below c (List.mem_append_left _ hc)) _ _
  | optional prod child =>
    exact unbroken_imageOver hn (fun c hc => below c (List.mem_append_left _ hc)) _ _
  | literal text prod => exact leaf _
  | char code => exact leaf _
  | ambiguity alts => exact unbroken_imageCluster hn fun c hc => below c hc
  | cycle depth prod => exact unbroken_pure _
  | recovery text => exact unbroken_pure _

theorem fragments : Unbroken (b.fragment x n) := by
  refine unbroken_once (unbroken_bind (unbroken_record _) fun _ => ?_)
  refine unbroken_checked_bind (hf.pattern? hn) fun pattern? hp => ?_
  cases pattern? with
  | none => exact unbroken_pure _
  | some p =>
    have hlt := hf.acyclic.lt_of_pattern hp
    refine unbroken_bind (h.image p hlt) fun tree? => ?_
    cases tree? with
    | none => exact unbroken_pure _
    | some tree =>
      refine unbroken_checked_bind (span_succeeds (Nat.lt_trans hlt hn)) fun span _ => ?_
      dsimp only
      split
      · exact unbroken_throw nofun
      · exact unbroken_pure _

theorem reads : Unbroken (b.read x n) := by
  refine unbroken_checked_bind (hf.sortName hn) fun sort _ => ?_
  refine unbroken_bind (unbroken_record _) fun _ => ?_
  refine unbroken_checked_bind (Forest.node_of_lt hn) fun node hnode => ?_
  cases node with
  | ambiguity alts => exact h.clusters hf hn
  | derivation prod cs =>
    refine unbroken_checked_bind (hf.isLexical hn) fun isLexical _ => ?_
    cases isLexical with
    | true => exact unbroken_token hf hn
    | false =>
      refine unbroken_checked_bind (hf.isEmbedding hn) fun isEmbedding _ => ?_
      cases isEmbedding with
      | true => exact h.fragments hf hn
      | false => exact h.derivations hf hn
  | cycle | recovery => exact unbroken_bind (unbroken_record _) fun _ => unbroken_pure _
  | _ => exact unbroken_throw nofun

end UnbrokenBelow

theorem unbrokenBelow_descent (hn : n ≤ b.forest.size) {depth fresh kept : Nat} (hd : n ≤ depth)
    (hr : n ≤ fresh) : UnbrokenBelow n (b.descent depth fresh kept) := by
  refine descent_induction (fun x => ?_) (fun m choose h => ?_) (fun m x hm h => ?_) hn hd hr
  · exact ⟨nofun, nofun, nofun, nofun⟩
  · exact ⟨fun c hc s => (h s).value c hc s, fun c hc s => (h s).run c hc s,
      fun c hc s => (h s).choice c hc s, fun c hc s => (h s).image c hc s⟩
  · have at_le : ∀ c < m + 1, UnbrokenBelow c x ∧ c < b.forest.size := fun c hc =>
      ⟨h.mono (Nat.le_of_lt_succ hc), Nat.lt_of_le_of_lt (Nat.le_of_lt_succ hc) hm⟩
    exact ⟨fun c hc => (at_le c hc).1.reads hf (at_le c hc).2,
      fun c hc => (at_le c hc).1.runs hf (at_le c hc).2,
      fun c hc => (at_le c hc).1.choices hf (at_le c hc).2,
      fun c hc => (at_le c hc).1.images hf (at_le c hc).2⟩

omit hf in
theorem size_lt_limit (b : Builder) : b.forest.size < b.levelLimit := by
  unfold levelLimit
  omega

theorem unbrokenBelow_size : UnbrokenBelow b.forest.size
    (b.descent (b.levelLimit * b.levelLimit) b.levelLimit 0) := by
  have hlimit : b.forest.size ≤ b.levelLimit := Nat.le_of_lt b.size_lt_limit
  exact unbrokenBelow_descent hf (Nat.le_refl _) (Nat.le_trans hlimit (Nat.le_mul_self _)) hlimit

theorem unbroken_value (hn : n < b.forest.size) : Unbroken (b.value n) :=
  (unbrokenBelow_size hf).value n hn

section Roots

omit hf in
theorem unbroken_expectedAt {α : Type} (sort : String) (hn : n < b.forest.size) :
    Unbroken (b.expectedAt sort n : Build α) := by
  refine unbroken_checked_bind (span_succeeds hn) fun span _ => ?_
  exact unbroken_bind (fun _ _ => ⟨nofun, trivial⟩) fun _ => unbroken_throw nofun

theorem unbroken_valueAt (sort : String) (hn : n < b.forest.size) :
    Unbroken (b.valueAt sort n) := by
  refine unbroken_bind (unbroken_value hf hn) fun tree? => ?_
  cases tree? with
  | none => exact unbroken_expectedAt sort hn
  | some tree => exact unbroken_pure _

theorem unbroken_firstValue (sort : String) {alts : List NodeId}
    (ha : ∀ a ∈ alts, a < b.forest.size) : Unbroken (b.firstValue? sort alts) := by
  induction alts with
  | nil => exact unbroken_pure _
  | cons a alts ih =>
    have hs := ih fun a' ha' => ha a' (List.mem_cons_of_mem _ ha')
    have hlt := ha a List.mem_cons_self
    refine unbroken_checked_bind (hf.sortOf hlt) fun found _ => ?_
    split
    · refine unbroken_bind (unbroken_value hf hlt) fun tree? => ?_
      cases tree? with
      | none => exact hs
      | some tree => exact unbroken_pure _
    · exact hs

theorem unbroken_convertWithin (sort : String) {depth : Nat} (hn : n < b.forest.size)
    (hd : n < depth) : Unbroken (b.convertWithin sort depth n) := by
  induction depth generalizing n with
  | zero => exact absurd hd (Nat.not_lt_zero n)
  | succ depth ih =>
    refine unbroken_checked_bind (Forest.node_of_lt hn) fun node hnode => ?_
    cases node with
    | derivation prod cs =>
      refine unbroken_checked_bind (hf.sortOf hn) fun found _ => ?_
      refine unbroken_checked_bind (hf.grammar_production hnode rfl) fun p _ => ?_
      split
      · exact unbroken_valueAt hf sort hn
      · have hcs : ∀ c ∈ cs, c < b.forest.size := fun c hc => hf.child_lt hnode hc
        refine unbroken_checked_bind (hf.findRoot? sort hcs) fun inner? hinner => ?_
        cases inner? with
        | none => exact unbroken_expectedAt sort hn
        | some inner =>
          have hmem := (root_of_findRoot? hinner).1
          have hlt := hf.acyclic.lt_of_child hnode hmem
          have hi := hcs inner hmem
          refine unbroken_checked_bind (Succeeds.map (Forest.node_of_lt hi) _) fun tied _ => ?_
          split
          · exact unbroken_valueAt hf sort hi
          · exact ih hi (Nat.lt_of_lt_of_le hlt (Nat.le_of_lt_succ hd))
    | ambiguity alts =>
      have ha : ∀ a ∈ alts, a < b.forest.size := fun a ha => hf.alternative_lt hnode ha
      refine unbroken_bind (unbroken_firstValue hf sort ha) fun tree? => ?_
      cases tree? with
      | none => exact unbroken_expectedAt sort hn
      | some tree => exact unbroken_pure _
    | _ => exact unbroken_throw nofun

theorem unbroken_convert (sort : String) (hn : n < b.forest.size) : Unbroken (b.convert sort n) :=
  unbroken_convertWithin hf sort hn (Nat.lt_succ_of_lt hn)

omit hf in
theorem mem_of_moduleReadings {found ids readings : List NodeId} {id : NodeId}
    (h : b.moduleReadings found ids = .ok readings) (hid : id ∈ readings) :
    id ∈ found ∨ id ∈ ids := by
  induction ids generalizing found with
  | nil =>
    cases h
    exact .inl hid
  | cons id' ids ih =>
    obtain ⟨sort, -, h⟩ := bind_eq_ok.1 h
    split at h
    · split at h
      · rcases ih h with hid | hid
        · exact .inr (List.mem_singleton.1 hid ▸ List.mem_cons_self)
        · exact .inr (List.mem_cons_of_mem _ hid)
      · cases pure_eq_ok.1 h
        rcases List.mem_append.1 hid with hid | hid
        · exact .inl hid
        · exact .inr (List.mem_singleton.1 hid ▸ List.mem_cons_self)
    · rcases ih h with hid | hid
      · exact .inl hid
      · exact .inr (List.mem_cons_of_mem _ hid)

theorem unbroken_headerModule (hn : n < b.forest.size) : Unbroken (b.headerModule n) := by
  refine unbroken_checked_bind (hf.arguments hn) fun cs hcs => ?_
  cases hh : cs.head? with
  | none => exact unbroken_throw nofun
  | some header =>
    have hlt := hf.acyclic.lt_of_arguments hcs (List.mem_of_mem_head? hh)
    refine unbroken_bind (unbroken_valueAt hf "Header" (Nat.lt_trans hlt hn)) fun header => ?_
    refine unbroken_checked_bind (span_succeeds hn) fun span _ => ?_
    exact unbroken_bind (unbroken_make _ _ _ _ _) fun _ => unbroken_make _ _ _ _ _

theorem unbroken_convertModuleAt {root : NodeId} (hr : root < b.forest.size)
    (hn : n < b.forest.size) : Unbroken (b.convertModuleAt root n) := by
  refine unbroken_checked_bind (hf.sortOf hn) fun sort _ => ?_
  split
  · exact unbroken_valueAt hf sort hn
  · split
    · exact unbroken_headerModule hf hn
    · exact unbroken_convert hf _ hr

theorem unbroken_convertModule (hn : n < b.forest.size) : Unbroken (b.convertModule n) := by
  refine unbroken_checked_bind (Forest.node_of_lt hn) fun node hnode => ?_
  cases node with
  | derivation prod cs => exact unbroken_convertModuleAt hf hn hn
  | ambiguity alts =>
    have ha : ∀ a ∈ alts, a < b.forest.size := fun a ha => hf.alternative_lt hnode ha
    refine unbroken_checked_bind (hf.moduleReadings [] ha) fun readings hreadings => ?_
    match readings, hreadings with
    | [], _ => exact unbroken_convert hf _ hn
    | [node], hreadings =>
      rcases mem_of_moduleReadings hreadings (List.mem_singleton_self node) with hm | hm
      · cases hm
      · exact unbroken_convertModuleAt hf hn (ha node hm)
    | _ :: _ :: _, _ =>
      exact unbroken_checked_bind (span_succeeds hn) fun _ _ => unbroken_throw nofun
  | _ => exact unbroken_convert hf _ hn

end Roots

end Builder

namespace Site

open Forest

/-- A forest that is built from nothing, each call passing only what was handed out before, refers
to earlier nodes and to issued productions; later calls leave it as it is, except for the spans that
they set, and a call that fails leaves everything as it is. So every node covers some text and has a
sort, and every reading of it ends. -/
theorem constructed_forest_ends (g : Grammar) (cs : List Construction)
    (hcs : (new g).PermitsAll cs) :
    let s := (new g).after cs
    (∀ id n, s.forest.node id = .ok n → ∀ c ∈ n.children ++ n.alternatives, c < id) ∧
    (∀ id alts, s.forest.node id = .ok (.ambiguity alts) →
      2 ≤ alts.length ∧ alts.Pairwise (· < ·)) ∧
    (∀ more, s.PermitsAll more →
      (∀ id < s.forest.size, (s.after more).forest.node id = s.forest.node id ∧
        ((∀ span, .span id span ∉ more) →
          (s.after more).forest.span id = s.forest.span id)) ∧
      ∀ p ∈ s.productions, ∃ q, s.forest.grammar.get? p = some q ∧
        (s.after more).forest.grammar.get? p = some q) ∧
    (∀ c, s.Permits c → (∃ e, s.forest.construct c = .error e) →
      (c = .ambiguity [] ∨ ∃ cs prod p, c = .derivation cs prod ∧
        s.forest.grammar.get? prod = some p ∧ p.isOptional = true ∧ 2 ≤ cs.length) ∧
      s.perform c = s) ∧
    (∀ id ∈ s.nodes, id < s.forest.size) ∧
    ∀ id < s.forest.size,
      (∃ text, s.forest.yieldText id = .ok text) ∧ (∃ sort, s.forest.sortName id = .ok sort) ∧
      ∀ b : Builder, b.forest = s.forest → ∀ session,
        OnlyOverflows ((b.value id).outcome session) ∧
        (∀ sort, OnlyOverflows ((b.convert sort id).outcome session)) ∧
        OnlyOverflows ((b.convertModule id).outcome session) := by
  intro s
  have hs : s.Sound := (sound_new g).after hcs
  refine ⟨acyclic_iff.1 hs.wellBuilt.acyclic, hs.wellBuilt.clusters, fun more hmore => ⟨?_, ?_⟩,
    fun c hc hfails => ⟨?_, ?_⟩, hs.nodes, fun id hid => ⟨?_, ?_, ?_⟩⟩
  · intro id hid
    refine ⟨(grows_after _ more).node id hid, fun hspan => ?_⟩
    rw [Forest.span, Forest.span, entry_after hs hmore hid hspan]
  · intro p hp
    have hlt : p < s.forest.grammar.size := hs.productions p hp
    have hq := List.getElem?_eq_getElem hlt
    exact ⟨_, hq, ((grows_after _ more).production p hlt).trans hq⟩
  · rcases (construct_fails_iff (hs.knows hc)).1 hfails with h | ⟨cs, prod, p, h, hp, -, hopt, hlen⟩
    · exact .inl h
    · exact .inr ⟨cs, prod, p, h, hp, hopt, hlen⟩
  · obtain ⟨e, he⟩ := hfails
    rw [perform, he]
  · exact hs.wellBuilt.acyclic.exists_yieldText hid
  · exact hs.wellBuilt.sortName hid
  · intro b hb session
    have hf : b.forest.WellBuilt := hb ▸ hs.wellBuilt
    have hid : id < b.forest.size := hb ▸ hid
    exact ⟨(Builder.unbroken_value hf hid session trivial).1,
      fun sort => (Builder.unbroken_convert hf sort hid session trivial).1,
      (Builder.unbroken_convertModule hf hid session trivial).1⟩

def mixedCalls : List Construction :=
  let token : Production := ⟨.named .lexical "Id", none, [], false⟩
  let list : Production := ⟨.repeated .star (.named .sort "Exp"), none, [], false⟩
  let optional : Production := ⟨.optional (.named .sort "Exp"), none, [], false⟩
  let var : Production := ⟨.named .sort "Exp", some "var", [.named .lexical "Id"], false⟩
  let ref : Production := ⟨.named .sort "Exp", some "ref", [.named .lexical "Id"], false⟩
  [.production token, .production list, .production optional, .production var, .char 120,
    .derivation [0] 0, .derivation [1] 3, .partialList [2] 1, .production var, .list [2, 3] 1,
    .derivation [2] 2, .derivation [2, 2] 2, .ambiguity [], .ambiguity [2, 2], .production ref,
    .derivation [1] 4, .ambiguity [6, 2, 6], .span 7 ⟨0, 1⟩, .cycle 1 1, .recovery "?"]

theorem constructed_forest_ends_mixedCalls :
    let s := (new (.empty "Mixed")).after mixedCalls
    (new (.empty "Mixed")).PermitsAll mixedCalls ∧
      s.forest.entries.toList.map (·.node) =
        [.char 120, .derivation 0 [0], .derivation 3 [1], .list 1 [2] true, .list 1 [2, 2] false,
          .optional 2 (some 2), .derivation 4 [1], .ambiguity [2, 6], .cycle 1 1,
          .recovery "?"] ∧
      (∀ id n, s.forest.node id = .ok n → ∀ c ∈ n.children ++ n.alternatives, c < id) ∧
      (s.perform (.ambiguity [])).forest.size = 10 ∧
      OnlyOverflows ((Builder.value ⟨s.forest, .empty, .standard⟩ 7).outcome .initial) := by
  intro s
  have hcs : (new (.empty "Mixed")).PermitsAll mixedCalls := by decide +kernel
  obtain ⟨below, -, -, fails, -, ends⟩ := constructed_forest_ends (.empty "Mixed") mixedCalls hcs
  have hcall : s.Permits (.ambiguity []) := by decide +kernel
  have hends := ends 7 (by decide +kernel)
  refine ⟨hcs, by decide +kernel, below, ?_, (hends.2.2 _ rfl _).1⟩
  rw [(fails (.ambiguity []) hcall ⟨_, rfl⟩).2]
  decide +kernel

end Site

end ParseForest
