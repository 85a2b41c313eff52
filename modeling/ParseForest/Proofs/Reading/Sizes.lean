import ParseForest.Proofs.Forest.Extent
import ParseForest.Proofs.Reading.Derivations
import ParseForest.Proofs.Reading.Sustained

/-!
The size of quoted text. In a forest whose spans nest as the text does, no tree counts more quoted
text than the node it was read from covers, and the sizes that are added on the way always fit a
word.
-/

namespace ParseForest

open Build Success

def quotedText (ts : List Tree) : Nat := (ts.map (·.cost.fragmentSize)).sum

@[simp] theorem quotedText_nil : quotedText [] = 0 := rfl

@[simp] theorem quotedText_cons {t : Tree} {ts : List Tree} :
    quotedText (t :: ts) = t.cost.fragmentSize + quotedText ts := by simp [quotedText]

@[simp] theorem quotedText_append {ts us : List Tree} :
    quotedText (ts ++ us) = quotedText ts + quotedText us := by simp [quotedText]

namespace Cost

theorem fragmentSize_add {c d e : Cost} (h : c.add d = .ok e) :
    e.fragmentSize = c.fragmentSize + d.fragmentSize := by rw [eq_of_add h]

theorem fragmentSize_sum {ts : List Tree} {c : Cost} (h : sum (ts.map (·.cost)) = .ok c) :
    c.fragmentSize = quotedText ts := by
  have hfrom : ∀ (start c : Cost), (ts.map (·.cost)).foldlM Cost.add start = .ok c →
      c.fragmentSize = start.fragmentSize + quotedText ts := by
    clear h
    induction ts with
    | nil =>
      rintro start c ⟨⟩
      rfl
    | cons t ts ih =>
      intro start c h
      obtain ⟨next, hnext, h⟩ := bind_eq_ok.1 h
      rw [ih next c h, fragmentSize_add hnext, quotedText_cons, Nat.add_assoc]
  exact (hfrom zero c h).trans (Nat.zero_add _)

end Cost

theorem Arg.fragmentSize_cost {a : Arg Tree} {c : Cost} (h : a.cost = .ok c) :
    c.fragmentSize = quotedText a.trees := by
  cases a with
  | node t =>
    cases h
    rfl
  | list ts => exact Cost.fragmentSize_sum h
  | text s =>
    cases h
    rfl

namespace Survivors

variable {α : Type} {s : Survivors α} {a : α} {c : Cost} {size : α → Nat} {bound : Nat}

theorem cost_offer : (s.offer a c).cost = s.cost ∨ (s.offer a c).cost = c := by
  unfold offer
  split
  · exact .inr rfl
  · split
    · exact .inr rfl
    · next hbest _ _ => exact .inl (by rw [Survivors.cost, Survivors.cost, hbest])
    · exact .inl rfl

structure Below (size : α → Nat) (bound : Nat) (s : Survivors α) : Prop where
  items : ∀ a ∈ s.items, size a ≤ bound
  cost : s.cost.fragmentSize ≤ bound

theorem below_none : Below size bound .none := ⟨nofun, Nat.zero_le _⟩

theorem Below.offer (h : s.Below size bound) (ha : size a ≤ bound) (hc : c.fragmentSize ≤ bound) :
    (s.offer a c).Below size bound where
  items x hx := by
    rcases mem_offer hx with hx | rfl
    · exact h.items x hx
    · exact ha
  cost := by
    rcases cost_offer (s := s) (a := a) (c := c) with he | he
    · rw [he]
      exact h.cost
    · rw [he]
      exact hc

end Survivors

namespace Builder

/-- No result counts more quoted text than its node covers. -/
def Sized (f : Forest) : Results → Prop :=
  AllKept fun _ node v => ∀ t ∈ v, t.cost.fragmentSize ≤ f.extent node

/-- Nothing that comes from below counts more quoted text than its node covers. -/
structure Measured (f : Forest) (x : Descent) : Prop where
  value : ∀ n, Gives (Sized f) (x.value n) fun v => ∀ t ∈ v, t.cost.fragmentSize ≤ f.extent n
  run : ∀ n, Gives (Sized f) (x.run n) fun v => ∀ ts ∈ v, quotedText ts ≤ f.extent n
  choice : ∀ n, Gives (Sized f) (x.choice n) fun v => ∀ ts ∈ v, quotedText ts ≤ f.extent n
  image : ∀ n, Gives (Sized f) (x.image n) fun v => ∀ t ∈ v, t.cost.fragmentSize ≤ f.extent n

variable {b : Builder} {x : Descent} {node : NodeId}

theorem extents_le_of_children (hf : b.forest.Laid) {cs all : List NodeId}
    (hall : b.forest.children node = .ok all) (hcs : cs.Sublist all) :
    b.forest.extents cs ≤ b.forest.extent node := by
  obtain ⟨n, hn, rfl⟩ := Forest.children_eq_ok.1 hall
  exact hf.extents_le hn hcs

theorem extents_le_of_arguments (hf : b.forest.Laid) {cs : List NodeId}
    (h : b.arguments node = .ok cs) : b.forest.extents cs ≤ b.forest.extent node := by
  obtain ⟨all, hall, hcs⟩ := sublist_of_arguments h
  exact extents_le_of_children hf hall hcs

theorem extents_le_of_elements (hf : b.forest.Laid) {cs : List NodeId}
    (h : b.elements node = .ok cs) : b.forest.extents cs ≤ b.forest.extent node := by
  obtain ⟨all, hall, hcs⟩ := sublist_of_elements h
  exact extents_le_of_children hf hall hcs

theorem extent_le_of_pattern (hf : b.forest.Laid) {p : NodeId}
    (h : b.pattern? node = .ok (some p)) : b.forest.extent p ≤ b.forest.extent node := by
  obtain ⟨cs, hcs, hp⟩ := mem_arguments_of_pattern h
  obtain ⟨all, hall, hmem⟩ := mem_children_of_arguments hcs hp
  obtain ⟨n, hn, rfl⟩ := Forest.children_eq_ok.1 hall
  exact hf.extent_le_of_child hn hmem

theorem extent_le_of_alternatives (hf : b.forest.Laid) {alts : List NodeId}
    (h : b.forest.alternatives node = .ok alts) :
    ∀ a ∈ alts, b.forest.extent a ≤ b.forest.extent node := by
  obtain ⟨n, hn, rfl⟩ := Forest.alternatives_eq_ok.1 h
  exact fun a ha => hf.extent_le_of_alternative hn ha

theorem keeps_constructorOf {J : Results → Prop} (node : NodeId) :
    Keeps J (b.constructorOf node) := by
  refine keeps_bind (computes_liftChecked _).keeps fun raw? => ?_
  cases raw? with
  | none => exact keeps_bind (computes_liftChecked _).keeps fun _ => (computes_throw _).keeps
  | some raw => exact (computes_pure _).keeps

namespace Measured

variable (h : Measured b.forest x)
include h

theorem sustained : Sustained (Sized b.forest) (fun _ => True) x where
  value n := (h.value n).mono fun _ _ _ _ _ _ => trivial
  run n := (h.run n).mono fun _ _ _ _ _ _ _ _ => trivial
  choice n := (h.choice n).mono fun _ _ _ _ _ _ _ _ => trivial
  image n := (h.image n).mono fun _ _ _ _ _ _ => trivial

theorem part (node : NodeId) :
    Gives (Sized b.forest) (b.part x node) fun v =>
      ∀ ts ∈ v, quotedText ts ≤ b.forest.extent node := by
  refine gives_bind (gives_checked _) fun slot _ => ?_
  cases slot with
  | choice => exact h.choice node
  | run => exact h.run node
  | optional | single =>
    refine gives_bind (h.value node) fun t? ht => gives_pure fun ts hts => ?_
    obtain ⟨t, hmem, rfl⟩ := Option.map_eq_some_iff.1 hts
    simpa using ht t hmem

theorem parts (nodes : List NodeId) :
    Gives (Sized b.forest) (collect (b.part x) nodes) fun v =>
      ∀ tss ∈ v, quotedText tss.flatten ≤ b.forest.extents nodes := by
  induction nodes with
  | nil =>
    refine gives_pure fun tss htss => ?_
    cases htss
    exact Nat.zero_le _
  | cons node nodes ih =>
    refine gives_bind (h.part node) fun ts? hts => ?_
    cases ts? with
    | none => exact gives_pure nofun
    | some ts =>
      refine gives_bind ih fun tss? htss => gives_pure fun all hall => ?_
      obtain ⟨tss, hmem, rfl⟩ := Option.map_eq_some_iff.1 hall
      rw [List.flatten_cons, quotedText_append, Forest.extents_cons]
      exact Nat.add_le_add (hts ts rfl) (htss tss hmem)

theorem argument (hf : b.forest.Laid) (node : NodeId) :
    Gives (Sized b.forest) (b.argument x node) fun v =>
      ∀ a ∈ v, quotedText a.trees ≤ b.forest.extent node := by
  have list {y : Build (Option (List Tree))}
      (hy : Gives (Sized b.forest) y fun v => ∀ ts ∈ v, quotedText ts ≤ b.forest.extent node) :
      Gives (Sized b.forest) (do return (← y).map Arg.list) fun v =>
        ∀ a ∈ v, quotedText a.trees ≤ b.forest.extent node := by
    refine gives_bind hy fun ts? hts => gives_pure fun a ha => ?_
    obtain ⟨ts, hmem, rfl⟩ := Option.map_eq_some_iff.1 ha
    exact hts ts hmem
  refine gives_bind (gives_checked _) fun slot hslot => ?_
  cases slot with
  | run => exact list (h.run node)
  | choice => exact list (h.choice node)
  | optional held =>
    cases held with
    | none =>
      refine gives_pure fun a ha => ?_
      cases ha
      exact Nat.zero_le _
    | some held =>
      obtain ⟨n, hn, hfits⟩ := Forest.fits_of_slot hslot
      cases hfits
      have hheld := hf.extent_le_of_child hn (List.mem_singleton_self held)
      refine gives_bind (h.value held) fun t? ht => gives_pure fun a ha => ?_
      obtain ⟨t, hmem, rfl⟩ := Option.map_eq_some_iff.1 ha
      simpa [Arg.trees] using Nat.le_trans (ht t hmem) hheld
  | single =>
    refine gives_bind (h.value node) fun t? ht => gives_pure fun a ha => ?_
    obtain ⟨t, hmem, rfl⟩ := Option.map_eq_some_iff.1 ha
    simpa [Arg.trees] using ht t hmem

theorem applyTo (hf : b.forest.Laid) (nodes : List NodeId) (args : List (Arg Tree))
    (total : Cost) :
    Gives (Sized b.forest) (b.applyTo x args total nodes) fun v =>
      ∀ r ∈ v, r.2.fragmentSize ≤ total.fragmentSize + b.forest.extents nodes := by
  induction nodes generalizing args total with
  | nil =>
    refine gives_pure fun r hr => ?_
    cases hr
    exact Nat.le_refl _
  | cons node nodes ih =>
    refine gives_bind (h.argument hf node) fun a? ha => ?_
    cases a? with
    | none => exact gives_pure nofun
    | some a =>
      refine gives_bind (gives_checked _) fun cost hcost => ?_
      refine gives_bind (gives_checked _) fun total' htotal => ?_
      have hfirst : total'.fragmentSize ≤ total.fragmentSize + b.forest.extent node := by
        rw [Cost.fragmentSize_add htotal, Arg.fragmentSize_cost hcost]
        exact Nat.add_le_add_left (ha a rfl) _
      refine Yields.mono (ih (args ++ [a]) total') fun v hv r hr p hp => ?_
      have hrest := hv r hr p hp
      rw [Forest.extents_cons]
      omega

theorem readRun (hf : b.forest.Laid) (node : NodeId) :
    Gives (Sized b.forest) (b.run x node) fun v =>
      ∀ ts ∈ v, quotedText ts ≤ b.forest.extent node := by
  refine gives_bind (gives_checked _) fun elements helements => ?_
  refine gives_bind (h.parts elements) fun tss? htss => gives_pure fun ts hts => ?_
  obtain ⟨tss, hmem, rfl⟩ := Option.map_eq_some_iff.1 hts
  exact Nat.le_trans (htss tss hmem) (extents_le_of_elements hf helements)

theorem offerRuns {bound : Nat} {alts : List NodeId}
    (halts : ∀ a ∈ alts, b.forest.extent a ≤ bound) {s : Survivors (List Tree)}
    (hs : s.Below quotedText bound) :
    Gives (Sized b.forest) (offerRuns x alts s) fun s => s.Below quotedText bound := by
  induction alts generalizing s with
  | nil => exact gives_pure hs
  | cons alt alts ih =>
    obtain ⟨halt, halts⟩ := List.forall_mem_cons.1 halts
    refine gives_bind (h.run alt) fun ts? hts => ?_
    cases ts? with
    | none => exact ih halts hs
    | some ts =>
      have hbound := Nat.le_trans (hts ts rfl) halt
      refine gives_bind (gives_checked _) fun cost hcost => ih halts (hs.offer hbound ?_)
      exact Cost.fragmentSize_sum hcost ▸ hbound

theorem readChoice (hf : b.forest.Laid) (node : NodeId) :
    Gives (Sized b.forest) (b.choice x node) fun v =>
      ∀ ts ∈ v, quotedText ts ≤ b.forest.extent node := by
  refine gives_bind (gives_checked _) fun alts halts => ?_
  have hbound := extent_le_of_alternatives hf halts
  refine gives_bind (h.offerRuns hbound Survivors.below_none) fun s hs => ?_
  refine gives_after (computes_record _).keeps fun _ => ?_
  match hi : s.items with
  | [] => exact gives_pure nofun
  | [ts] =>
    refine gives_pure fun us hus => ?_
    cases hus
    exact hs.items ts (hi ▸ List.mem_singleton_self ts)
  | _ :: _ :: _ => exact gives_after (gives_checked _).keeps fun _ => gives_throw _

theorem offerValues {bound : Nat} {alts : List NodeId}
    (halts : ∀ a ∈ alts, b.forest.extent a ≤ bound) {s : Survivors Tree} {e : Option Error}
    (hs : s.Below (·.cost.fragmentSize) bound) :
    Gives (Sized b.forest) (offerValues x alts s e) fun r =>
      r.1.Below (·.cost.fragmentSize) bound := by
  induction alts generalizing s e with
  | nil => exact gives_pure hs
  | cons alt alts ih =>
    obtain ⟨halt, halts⟩ := List.forall_mem_cons.1 halts
    refine gives_bind (gives_attempt (h.value alt)) fun r hr => ?_
    match r with
    | .error e' => exact ih halts hs
    | .ok none => exact ih halts hs
    | .ok (some t) =>
      have hbound := Nat.le_trans (hr _ rfl t rfl) halt
      exact ih halts (hs.offer hbound hbound)

theorem offerImages {bound : Nat} {alts : List NodeId}
    (halts : ∀ a ∈ alts, b.forest.extent a ≤ bound) {s : Survivors Tree}
    (hs : s.Below (·.cost.fragmentSize) bound) :
    Gives (Sized b.forest) (offerImages x alts s) fun s =>
      s.Below (·.cost.fragmentSize) bound := by
  induction alts generalizing s with
  | nil => exact gives_pure hs
  | cons alt alts ih =>
    obtain ⟨halt, halts⟩ := List.forall_mem_cons.1 halts
    refine gives_bind (h.image alt) fun t? ht => ?_
    cases t? with
    | none => exact ih halts hs
    | some t =>
      have hbound := Nat.le_trans (ht t rfl) halt
      exact ih halts (hs.offer hbound hbound)

theorem imagesOf (nodes : List NodeId) (trees : List Tree) (total : Cost) :
    Gives (Sized b.forest) (imagesOf x trees total nodes) fun v =>
      ∀ r ∈ v, r.2.fragmentSize ≤ total.fragmentSize + b.forest.extents nodes := by
  induction nodes generalizing trees total with
  | nil =>
    refine gives_pure fun r hr => ?_
    cases hr
    exact Nat.le_refl _
  | cons node nodes ih =>
    refine gives_bind (h.image node) fun t? ht => ?_
    cases t? with
    | none => exact gives_pure nofun
    | some t =>
      refine gives_bind (gives_checked _) fun total' htotal => ?_
      have hfirst : total'.fragmentSize ≤ total.fragmentSize + b.forest.extent node := by
        rw [Cost.fragmentSize_add htotal]
        exact Nat.add_le_add_left (ht t rfl) _
      refine Yields.mono (ih (trees ++ [t]) total') fun v hv r hr p hp => ?_
      have hrest := hv r hr p hp
      rw [Forest.extents_cons]
      omega

theorem derivation (hf : b.forest.Laid) (node : NodeId) :
    Gives (Sized b.forest) (b.derivation x node) fun v =>
      ∀ t ∈ v, t.cost.fragmentSize ≤ b.forest.extent node := by
  refine gives_once_kept ?_
  refine gives_after (keeps_constructorOf node) fun name => ?_
  refine gives_after (gives_lift _).keeps fun sort => ?_
  refine gives_bind (gives_checked _) fun arguments harguments => ?_
  refine gives_bind (h.applyTo hf arguments [] .zero) fun r? hr => ?_
  match r? with
  | none => exact gives_after (computes_record _).keeps fun _ => gives_pure nofun
  | some (args, cost) =>
    have hcost : cost.fragmentSize ≤ b.forest.extents arguments := by
      simpa [Cost.zero] using hr _ rfl
    refine gives_after (gives_checked _).keeps fun span => ?_
    refine gives_bind (gives_lift _) fun t ht => ?_
    refine gives_after (computes_modify fun _ => rfl).keeps fun _ => gives_pure ?_
    rintro _ ⟨⟩
    rw [Registry.make_cost ht]
    exact Nat.le_trans hcost (extents_le_of_arguments hf harguments)

theorem cluster (hf : b.forest.Laid) (node : NodeId) :
    Gives (Sized b.forest) (b.cluster x node) fun v =>
      ∀ t ∈ v, t.cost.fragmentSize ≤ b.forest.extent node := by
  refine gives_once_kept ?_
  refine gives_bind (gives_checked _) fun alts halts => ?_
  have hbound := extent_le_of_alternatives hf halts
  refine gives_bind (h.offerValues hbound Survivors.below_none) fun r hr => ?_
  obtain ⟨survivors, ambiguity⟩ := r
  refine gives_after (computes_record _).keeps fun _ => ?_
  dsimp only at hr ⊢
  match hi : survivors.items, ambiguity with
  | [], some e => exact gives_throw e
  | [], none => exact gives_pure nofun
  | [t], _ => exact gives_pure (some_of (hr.items t (hi ▸ List.mem_singleton_self t)))
  | _ :: _ :: _, _ =>
    refine gives_after (gives_lift _).keeps fun sort => ?_
    refine gives_after (gives_checked _).keeps fun span => ?_
    refine gives_map (gives_lift _) fun t ht => some_of ?_
    rw [Registry.make_cost ht]
    exact hr.cost

theorem fragment (hf : b.forest.Laid) (node : NodeId) :
    Gives (Sized b.forest) (b.fragment x node) fun v =>
      ∀ t ∈ v, t.cost.fragmentSize ≤ b.forest.extent node := by
  refine gives_once_kept (gives_after (computes_record _).keeps fun _ => ?_)
  refine gives_bind (gives_checked _) fun pattern? hpattern => ?_
  cases pattern? with
  | none => exact gives_pure nofun
  | some pattern =>
    refine gives_after (h.image pattern).keeps fun t? => ?_
    cases t? with
    | none => exact gives_pure nofun
    | some t =>
      refine gives_bind (gives_checked _) fun span hspan => ?_
      dsimp only
      split
      · exact gives_throw _
      · refine gives_pure (some_of ?_)
        show span.elim 0 (·.length) ≤ _
        rw [← Forest.extent_of_span hspan]
        exact extent_le_of_pattern hf hpattern

omit h in
theorem imageNode {body : Body Tree} {cost : Cost}
    (hcost : cost.fragmentSize ≤ b.forest.extent node) :
    Gives (Sized b.forest) (some <$> b.imageNode node body cost) fun v =>
      ∀ t ∈ v, t.cost.fragmentSize ≤ b.forest.extent node := by
  refine gives_map (P := fun t => t.cost.fragmentSize ≤ _) ?_ fun t ht => some_of ht
  exact gives_after (gives_checked _).keeps fun span => gives_pure hcost

theorem imageOver (node : NodeId) {shape : Shape} {nodes : List NodeId} {injections : Nat}
    (hnodes : b.forest.extents nodes ≤ b.forest.extent node) :
    Gives (Sized b.forest) (b.imageOver x node shape nodes injections) fun v =>
      ∀ t ∈ v, t.cost.fragmentSize ≤ b.forest.extent node := by
  refine gives_bind (h.imagesOf nodes [] .zero) fun r? hr => ?_
  match r? with
  | none => exact gives_pure nofun
  | some (trees, total) =>
    refine gives_bind (gives_checked _) fun cost hcost => imageNode ?_
    have htotal := hr _ rfl
    rw [Cost.fragmentSize_add hcost]
    simp only [Cost.zero] at htotal ⊢
    omega

theorem imageCluster (node : NodeId) {alts : List NodeId}
    (halts : ∀ a ∈ alts, b.forest.extent a ≤ b.forest.extent node) :
    Gives (Sized b.forest) (b.imageCluster x node alts) fun v =>
      ∀ t ∈ v, t.cost.fragmentSize ≤ b.forest.extent node := by
  refine gives_bind (h.offerImages halts Survivors.below_none) fun s hs => ?_
  refine gives_after (computes_record _).keeps fun _ => ?_
  match hi : s.items with
  | [] => exact gives_pure nofun
  | [t] => exact gives_pure (some_of (hs.items t (hi ▸ List.mem_singleton_self t)))
  | _ :: _ :: _ => exact imageNode hs.cost

theorem hole (node : NodeId) (expected : Symbol) :
    Gives (Sized b.forest) (b.hole x node expected) fun v =>
      ∀ t ∈ v, t.cost.fragmentSize ≤ b.forest.extent node := by
  refine gives_after (h.sustained.holeValue sustains_any node expected).keeps fun t? => ?_
  refine gives_pure fun u hu => ?_
  obtain ⟨t, -, rfl⟩ := Option.map_eq_some_iff.1 hu
  exact Nat.zero_le _

theorem readImage (hf : b.forest.Laid) (node : NodeId) :
    Gives (Sized b.forest) (b.image x node) fun v =>
      ∀ t ∈ v, t.cost.fragmentSize ≤ b.forest.extent node := by
  refine gives_once_kept (gives_bind (gives_checked _) fun n hn => ?_)
  have hchildren := hf.extents_le hn (List.Sublist.refl _)
  have leaf {l : Leaf} : Gives (Sized b.forest) (b.imageLeaf node l) fun v =>
      ∀ t ∈ v, t.cost.fragmentSize ≤ b.forest.extent node := imageNode (Nat.zero_le _)
  cases n with
  | derivation prod nodes =>
    refine gives_after (gives_checked _).keeps fun p => ?_
    split
    · exact h.hole node p.defines
    · split
      · exact gives_after (gives_checked _).keeps fun text => leaf
      · split
        · exact gives_after (gives_checked _).keeps fun text => leaf
        · exact h.imageOver node hchildren
  | list prod nodes isPartial =>
    exact gives_after (gives_checked _).keeps fun p => h.imageOver node hchildren
  | optional prod child => exact h.imageOver node hchildren
  | literal text prod => exact leaf
  | char code => exact leaf
  | ambiguity alts => exact h.imageCluster node fun a ha => hf.extent_le_of_alternative hn ha
  | cycle | recovery => exact gives_pure nofun

theorem read (hf : b.forest.Laid) (node : NodeId) :
    Gives (Sized b.forest) (b.read x node) fun v =>
      ∀ t ∈ v, t.cost.fragmentSize ≤ b.forest.extent node := by
  refine gives_after (gives_checked _).keeps fun name => ?_
  refine gives_after (computes_record _).keeps fun _ => ?_
  refine gives_after (gives_checked _).keeps fun n => ?_
  cases n with
  | ambiguity alts => exact h.cluster hf node
  | derivation prod nodes =>
    refine gives_after (gives_checked _).keeps fun isLexical => ?_
    split
    · refine gives_once_kept ?_
      refine gives_after (gives_lift _).keeps fun sort => ?_
      refine gives_after (gives_checked _).keeps fun span => ?_
      refine gives_after (gives_checked _).keeps fun text => ?_
      refine gives_map (gives_lift _) fun t ht => some_of ?_
      rw [Registry.make_cost ht]
      exact Nat.zero_le _
    · refine gives_after (gives_checked _).keeps fun isEmbedding => ?_
      split
      · exact h.fragment hf node
      · exact h.derivation hf node
  | cycle | recovery => exact gives_after (computes_record _).keeps fun _ => gives_pure nofun
  | list | literal | char | optional => exact gives_throw _

theorem descend (hf : b.forest.Laid) : Measured b.forest (b.descend x) where
  value := h.read hf
  run := h.readRun hf
  choice := h.readChoice hf
  image := h.readImage hf

end Measured

theorem measured_ended {f : Forest} : Measured f .ended :=
  ⟨fun _ => gives_throw _, fun _ => gives_throw _, fun _ => gives_throw _, fun _ => gives_throw _⟩

theorem measured_inSession {f : Forest} {choose : Session → Descent}
    (h : ∀ s, Measured f (choose s)) : Measured f (.inSession choose) where
  value n s hs := (h s).value n s hs
  run n s hs := (h s).run n s hs
  choice n s hs := (h s).choice n s hs
  image n s hs := (h s).image n s hs

theorem measured_descent (hf : b.forest.Laid) (depth fresh kept : Nat) :
    Measured b.forest (b.descent depth fresh kept) :=
  descent_rule measured_ended (fun _ => measured_inSession) (fun _ h => h.descend hf) _ _ _

/-- The two costs are added on the way to a result: the cost of one more argument, item or image to
that of those before it, or what an image adds of its own. -/
inductive Adds (b : Builder) (x : Descent) (s : Session) : Cost → Cost → Prop
  | argument {node c : NodeId} {before after : List NodeId} {args : List (Arg Tree)}
      {arg : Arg Tree} {total cost : Cost} (split : b.arguments node = .ok (before ++ c :: after))
      (read : (b.applyTo x [] .zero before).outcome s = .ok (some (args, total)))
      (next : (b.argument x c).outcome ((b.applyTo x [] .zero before).after s) = .ok (some arg))
      (counted : arg.cost = .ok cost) : Adds b x s total cost
  | runItem {node : NodeId} {before after : List Tree} {t : Tree} {total : Cost}
      (read : (x.run node).outcome s = .ok (some (before ++ t :: after)))
      (counted : Cost.sum (before.map (·.cost)) = .ok total) : Adds b x s total t.cost
  | choiceItem {node : NodeId} {before after : List Tree} {t : Tree} {total : Cost}
      (read : (x.choice node).outcome s = .ok (some (before ++ t :: after)))
      (counted : Cost.sum (before.map (·.cost)) = .ok total) : Adds b x s total t.cost
  | held {node : NodeId} {t : Tree} (read : (x.value node).outcome s = .ok (some t)) :
      Adds b x s .zero t.cost
  | image {node c : NodeId} {n : Node} {before after : List NodeId} {trees : List Tree} {t : Tree}
      {total : Cost} (known : b.forest.node node = .ok n)
      (split : n.children = before ++ c :: after)
      (read : (imagesOf x [] .zero before).outcome s = .ok (some (trees, total)))
      (next : (x.image c).outcome ((imagesOf x [] .zero before).after s) = .ok (some t)) :
      Adds b x s total t.cost
  | injections {node : NodeId} {n : Node} {trees : List Tree} {total : Cost} {injections : Nat}
      (known : b.forest.node node = .ok n)
      (read : (imagesOf x [] .zero n.children).outcome s = .ok (some (trees, total))) :
      Adds b x s total { Cost.zero with injections }

theorem fragmentSize_add_item_le {before after : List Tree} {t : Tree} {total : Cost}
    (h : Cost.sum (before.map (·.cost)) = .ok total) :
    total.fragmentSize + t.cost.fragmentSize ≤ quotedText (before ++ t :: after) := by
  rw [Cost.fragmentSize_sum h, quotedText_append, quotedText_cons]
  omega

theorem Measured.adds (h : Measured b.forest x) (hf : b.forest.Laid) {s : Session}
    (hs : Sized b.forest s.results) {c d : Cost} (hadds : b.Adds x s c d) :
    ∃ node, c.fragmentSize + d.fragmentSize ≤ b.forest.extent node := by
  cases hadds with
  | @argument node child before after args arg total cost split read next counted =>
    obtain ⟨htotal, hs'⟩ := h.applyTo hf before [] .zero s hs
    have hbefore := htotal _ read _ rfl
    have harg := (h.argument hf child _ hs').1 _ next arg rfl
    have hall := extents_le_of_arguments hf split
    rw [Forest.extents_append, Forest.extents_cons] at hall
    rw [Arg.fragmentSize_cost counted]
    simp only [Cost.zero] at hbefore
    exact ⟨node, by omega⟩
  | @runItem node _ _ _ _ read counted =>
    have hitems := (h.run node s hs).1 _ read _ rfl
    exact ⟨node, Nat.le_trans (fragmentSize_add_item_le counted) hitems⟩
  | @choiceItem node _ _ _ _ read counted =>
    have hitems := (h.choice node s hs).1 _ read _ rfl
    exact ⟨node, Nat.le_trans (fragmentSize_add_item_le counted) hitems⟩
  | @held node t read =>
    have hvalue := (h.value node s hs).1 _ read t rfl
    exact ⟨node, by simpa [Cost.zero] using hvalue⟩
  | @image node child n before after trees t total known split read next =>
    obtain ⟨htotal, hs'⟩ := h.imagesOf before [] .zero s hs
    have hbefore := htotal _ read _ rfl
    have himage := (h.image child _ hs').1 _ next t rfl
    have hall := hf.extents_le known (List.Sublist.refl _)
    rw [split, Forest.extents_append, Forest.extents_cons] at hall
    simp only [Cost.zero] at hbefore
    exact ⟨node, by omega⟩
  | @injections node n trees total injections known read =>
    have htotal := (h.imagesOf n.children [] .zero s hs).1 _ read _ rfl
    have hall := hf.extents_le known (List.Sublist.refl _)
    simp only [Cost.zero] at htotal ⊢
    exact ⟨node, by omega⟩

/-- After any calls, the value of a node counts no more quoted text than the node covers, and so do
the items of lists and of clusters of lists, however deep they are read. Whatever sizes are added
meanwhile, their sum fits a word. -/
theorem fragmentSize_le_extent (hf : b.forest.Laid) (calls : List Call) :
    (∀ node t, (b.value node).outcome (b.sessionAfter calls) = .ok (some t) →
      t.cost.fragmentSize ≤ b.forest.extent node) ∧
    Sized b.forest (b.sessionAfter calls).results ∧
    ∀ depth fresh kept, Measured b.forest (b.descent depth fresh kept) ∧
      ∀ s : Session, Sized b.forest s.results → ∀ c d, b.Adds (b.descent depth fresh kept) s c d →
        c.fragmentSize + d.fragmentSize < wordLimit := by
  have hvalue : ∀ node, Gives (Sized b.forest) (b.value node) fun v =>
      ∀ t ∈ v, t.cost.fragmentSize ≤ b.forest.extent node := (measured_descent hf _ _ _).value
  have hs : Sized b.forest (b.sessionAfter calls).results :=
    holds_sessionAfter (fun node => (hvalue node).keeps) allKept_empty calls
  refine ⟨fun node t ht => (hvalue node _ hs).1 _ ht t rfl, hs, fun depth fresh kept => ?_⟩
  have h := measured_descent hf depth fresh kept
  refine ⟨h, fun s hs c d hadds => ?_⟩
  obtain ⟨node, hle⟩ := h.adds hf hs hadds
  exact Nat.lt_of_le_of_lt hle (hf.extent_lt node)

def quotedSides : Builder where
  forest := {
    grammar := ⟨"Quoted", [⟨.named .lexical "Id", none, [], true⟩,
      ⟨.named .sort "Expression", some "var", [.named .lexical "Id"], false⟩,
      ⟨.literal "[", none, [], false⟩, ⟨.literal "]", none, [], false⟩,
      ⟨.named .sort "Expression", some "ConcreteQuoted",
        [.literal "[", .named .sort "Expression", .literal "]"], false⟩,
      ⟨.named .sort "Expression", some "pair",
        [.named .sort "Expression", .named .sort "Expression"], false⟩],
      by decide⟩
    entries := #[⟨.literal "[" 2, none⟩, ⟨.literal "]" 3, none⟩,
      ⟨.char 120, none⟩, ⟨.derivation 0 [2], some ⟨1, 1⟩⟩, ⟨.derivation 1 [3], some ⟨1, 1⟩⟩,
      ⟨.derivation 4 [0, 4, 1], some ⟨0, 3⟩⟩,
      ⟨.char 121, none⟩, ⟨.derivation 0 [6], some ⟨4, 1⟩⟩, ⟨.derivation 1 [7], some ⟨4, 1⟩⟩,
      ⟨.derivation 4 [0, 8, 1], some ⟨3, 3⟩⟩, ⟨.derivation 5 [5, 9], some ⟨0, 6⟩⟩]
    source := "<input>"
    lines := none }
  registry := Registry.empty.define ⟨"Expression", false, [("Pair", [.node, .node])]⟩
  conventions := .standard

theorem fragmentSize_quotedSides :
    let s := quotedSides.sessionAfter [.value 5]
    quotedSides.forest.Laid ∧ quotedSides.forest.extent 10 = 6 ∧
      Option.map (·.cost.fragmentSize) <$> (quotedSides.value 10).outcome s = .ok (some 2) ∧
      ∀ t, (quotedSides.value 10).outcome s = .ok (some t) → t.cost.fragmentSize ≤ 6 := by
  intro s
  have hf : quotedSides.forest.Laid := by decide +kernel
  have hextent : quotedSides.forest.extent 10 = 6 := by decide +kernel
  refine ⟨hf, hextent, by decide +kernel, fun t ht => ?_⟩
  exact hextent ▸ (fragmentSize_le_extent hf [.value 5]).1 10 t ht

end Builder

end ParseForest
