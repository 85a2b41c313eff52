import ParseForest.Proofs.Fragment.Choice
import ParseForest.Proofs.Reading.Simulation
import ParseForest.Proofs.Related

/-!
The image of a node from the images of its parts. Where each part has its image of least cost, or
shows that several are tied, so has the node. Main statements: `image_eq_imageBy`,
`chooses_imageOver`, `chooses_imageCluster`.
-/

namespace ParseForest

open Build Success

/-- Every production that a node mentions is in the grammar. -/
def Forest.Grounded (f : Forest) : Prop :=
  ∀ (id : Nat) (h : id < f.entries.size), ∀ prod ∈ f.entries[id].node.production?,
    (f.grammar.get? prod).isSome = true

instance (f : Forest) : Decidable f.Grounded := by
  unfold Forest.Grounded
  infer_instance

theorem Forest.Grounded.production {f : Forest} (h : f.Grounded) {n : NodeId} {node : Node}
    (hn : f.node n = .ok node) {prod : ProdId} (hp : node.production? = some prod) :
    ∃ p, f.grammar.production prod = .ok p := by
  obtain ⟨hlt, rfl⟩ := Forest.node_eq_ok.1 hn
  obtain ⟨p, hp⟩ := Option.isSome_iff_exists.1 (h n hlt prod hp)
  exact ⟨p, Grammar.production_eq_ok.2 hp⟩

namespace Builder

variable {b : Builder} {n : Nat}

def imageBy (b : Builder) (below : Plain.Descent) (n : NodeId) : View → Except Error (Option Tree)
  | .leaf l => Plain.imageLeaf b n l
  | .branch shape cs k => Plain.imageOver b below n shape cs k
  | .cluster alts => Plain.imageCluster b below n alts
  | .cut => .ok none

theorem image_eq_imageBy (hole : b.isHoleAt n = false) (y : Plain.Descent) :
    Plain.image b y n = (b.view n).mapError .breach >>= b.imageBy y n := by
  unfold view
  rw [mapError_bind, bind_assoc]
  refine bind_congr_ok fun node hnode => ?_
  cases node with
  | derivation prod cs =>
    dsimp only
    rw [mapError_bind, bind_assoc]
    refine bind_congr_ok fun p hp => ?_
    have hget := Grammar.production_eq_ok.1 (mapError_eq_ok.1 hp)
    have notHole : p.constructor.any b.conventions.isHoleConstructor = false :=
      (isHoleAt_of_derivation (mapError_eq_ok.1 hnode) hget).symm.trans hole
    rw [notHole, if_neg Bool.false_ne_true]
    split
    · rw [mapError_bind, bind_assoc]
      rfl
    · split
      · rw [mapError_bind, bind_assoc]
        rfl
      · rfl
  | list prod cs isPartial =>
    dsimp only
    rw [mapError_bind, bind_assoc]
    rfl
  | _ => rfl

theorem mirrored_of_view (hole : b.isHoleAt n = false) {v : View} (hv : b.view n = .ok v) :
    b.mirrored n = v.parts := by
  obtain ⟨node, hnode, hv⟩ := bind_eq_ok.1 hv
  cases node with
  | derivation prod cs =>
    obtain ⟨p, hp, hv⟩ := bind_eq_ok.1 hv
    have hget := Grammar.production_eq_ok.1 hp
    have notHole : b.isHole p = false := (isHoleAt_of_derivation hnode hget).symm.trans hole
    cases lexical : p.isLexical || p.isLayout with
    | true =>
      rw [if_pos lexical] at hv
      obtain ⟨text, _, hv⟩ := bind_eq_ok.1 hv
      cases pure_eq_ok.1 hv
      exact mirrored_of_token hnode hget (Production.isToken_of_lexical lexical)
    | false =>
      rw [lexical, if_neg Bool.false_ne_true] at hv
      have htoken := Production.isToken_eq lexical
      cases literal : p.isLiteral || p.isCaseless with
      | true =>
        rw [if_pos literal] at hv
        obtain ⟨text, _, hv⟩ := bind_eq_ok.1 hv
        cases pure_eq_ok.1 hv
        exact mirrored_of_token hnode hget (htoken.trans literal)
      | false =>
        rw [literal, if_neg Bool.false_ne_true] at hv
        cases pure_eq_ok.1 hv
        exact mirrored_of_derivation hnode hget notHole (htoken.trans literal)
  | list prod cs isPartial =>
    obtain ⟨p, _, hv⟩ := bind_eq_ok.1 hv
    cases pure_eq_ok.1 hv
    exact mirrored_of_list hnode
  | optional prod child =>
    cases pure_eq_ok.1 hv
    exact mirrored_of_optional hnode
  | ambiguity alts =>
    cases pure_eq_ok.1 hv
    exact mirrored_of_ambiguity hnode
  | literal | char | cycle | recovery =>
    cases pure_eq_ok.1 hv
    simp [mirrored, hnode, Node.children, Node.alternatives, View.parts]

theorem exists_view (hf : b.forest.Acyclic) (hg : b.forest.Grounded) (hn : n < b.forest.size) :
    ∃ v, b.view n = .ok v := by
  obtain ⟨node, hnode⟩ := Forest.node_of_lt hn
  obtain ⟨text, ht⟩ := hf.exists_yieldText hn
  unfold view
  rw [bind_of_ok hnode]
  cases node with
  | derivation prod cs =>
    obtain ⟨p, hp⟩ := hg.production hnode rfl
    dsimp only
    rw [bind_of_ok hp]
    split
    · exact ⟨_, bind_of_ok ht _⟩
    · split
      · exact ⟨_, bind_of_ok ht _⟩
      · exact ⟨_, rfl⟩
  | list prod cs isPartial =>
    obtain ⟨p, hp⟩ := hg.production hnode rfl
    exact ⟨_, bind_of_ok hp _⟩
  | _ => exact ⟨_, rfl⟩

abbrev Chooses (b : Builder) (n : NodeId) (found : Option Tree) : Prop :=
  Optimum (b.Admits n) Choice.weight b.mirror (found.map fun t => (t, t.cost))

variable {y : Plain.Descent}

theorem optimum_imagesOf {first rest : List NodeId} {trees : List Tree} {total : Cost}
    (h : Optimum (List.Forall₂ b.Admits first) Choice.weightAll b.mirrorAll
      (some (trees, total)))
    (below : ∀ c ∈ rest, ∃ r, y.image c = .ok r ∧ b.Chooses c r)
    (fits : ∀ lead ps, lead <+: first ++ rest → List.Forall₂ b.Admits lead ps →
      Choice.weightAll ps < wordLimit) :
    ∃ r, Plain.imagesOf y trees total rest = .ok r ∧
      Optimum (List.Forall₂ b.Admits (first ++ rest)) Choice.weightAll b.mirrorAll r := by
  induction rest generalizing first trees total with
  | nil =>
    rw [List.append_nil]
    exact ⟨_, rfl, h⟩
  | cons c rest ih =>
    obtain ⟨r, hr, hc⟩ := below c List.mem_cons_self
    cases r with
    | none =>
      refine ⟨none, bind_of_ok hr _, .nothing fun ps hps => ?_⟩
      obtain ⟨_, _, _, hrest, _⟩ := forall₂_append_left.1 hps
      cases hrest with
      | cons hp _ => exact hc.not_mem _ hp
    | some t =>
      have hL : ∀ ps, List.Forall₂ b.Admits (first ++ [c]) ps ↔
          ∃ qs q, List.Forall₂ b.Admits first qs ∧ b.Admits c q ∧ qs ++ [q] = ps := by
        intro ps
        constructor
        · intro hps
          obtain ⟨qs, _, hqs, hlast, rfl⟩ := forall₂_append_left.1 hps
          obtain ⟨q, hq, rfl⟩ := forall₂_singleton_left.1 hlast
          exact ⟨qs, q, hqs, hq, rfl⟩
        · rintro ⟨qs, q, hqs, hq, rfl⟩
          exact forall₂_append_left.2 ⟨qs, [q], hqs, forall₂_singleton_left.2 ⟨q, hq, rfl⟩, rfl⟩
      have hw : ∀ qs q, Choice.weightAll (qs ++ [q]) = Choice.weightAll qs + Choice.weight q :=
        fun qs q => Choice.weightAll_append qs [q]
      have hg : ∀ (qs : List Choice) q qs' q', qs ++ [q] = qs' ++ [q'] → qs = qs' ∧ q = q' := by
        intro qs q qs' q' he
        obtain ⟨hqs, hq⟩ := List.append_inj' he rfl
        exact ⟨hqs, List.head_eq_of_cons_eq hq⟩
      have hfits : ∀ qs q, List.Forall₂ b.Admits first qs → b.Admits c q →
          Choice.weightAll qs + Choice.weight q < wordLimit := by
        intro qs q hqs hq
        rw [← hw]
        refine fits (first ++ [c]) _ ?_ ((hL _).2 ⟨qs, q, hqs, hq, rfl⟩)
        exact ⟨rest, (List.append_cons first c rest).symm⟩
      obtain ⟨total', ht, hopt⟩ := Optimum.product hL hw hg (fun ts t => ts ++ [t])
        (fun qs q => mirrorAll_append qs [q]) hfits h hc
      have hi := ih hopt (fun d hd => below d (List.mem_cons_of_mem _ hd))
        (fun lead ps hl => fits lead ps (List.append_cons first c rest ▸ hl))
      rw [← List.append_cons] at hi
      obtain ⟨r, hr', hres⟩ := hi
      exact ⟨r, (bind_of_ok hr _).trans ((mapError_bind_of_ok ht _ _).trans hr'), hres⟩

variable (hn : n < b.forest.size)
include hn

theorem imageNode_eq (body : Body Tree) (cost : Cost) :
    Plain.imageNode b n body cost =
      .ok (.image b.conventions.expressionSort (b.forest.spanOf n) body cost) :=
  mapError_bind_of_ok (Forest.span_of_lt hn) _ _

theorem chooses_imageLeaf {l : Leaf} (hv : b.view n = .ok (.leaf l)) :
    ∃ r, Plain.imageLeaf b n l = .ok r ∧ b.Chooses n r := by
  refine ⟨some (b.mirror (.leaf n l)), ?_, ?_⟩
  · rw [Plain.imageLeaf, imageNode_eq hn]
    rfl
  · refine Optimum.sole (a := Choice.leaf n l) ⟨.leaf hv, fun c hc hne => ?_⟩
    exact absurd ((admits_of_leaf hv).1 hc).symm hne

theorem chooses_imageOver {shape : Shape} {cs : List NodeId} {k : Nat}
    (hv : b.view n = .ok (.branch shape cs k))
    (below : ∀ c ∈ cs, ∃ r, y.image c = .ok r ∧ b.Chooses c r)
    (whole : ∀ c, b.Admits n c → c.weight < wordLimit)
    (leading : ∀ lead ps, lead <+: cs → List.Forall₂ b.Admits lead ps →
      Choice.weightAll ps < wordLimit) :
    ∃ r, Plain.imageOver b y n shape cs k = .ok r ∧ b.Chooses n r := by
  have none_yet : Optimum (List.Forall₂ b.Admits []) Choice.weightAll b.mirrorAll
      (some ([], .zero)) := by
    refine Optimum.sole (a := []) ⟨.nil, fun ps hps hne => ?_⟩
    cases hps
    exact absurd rfl hne
  obtain ⟨r, hr, hopt⟩ := optimum_imagesOf none_yet below leading
  rw [List.nil_append] at hopt
  cases r with
  | none =>
    refine ⟨none, bind_of_ok hr _, .nothing fun c hc => ?_⟩
    obtain ⟨ps, hps, _⟩ := (admits_of_branch hv).1 hc
    exact hopt.not_mem ps hps
  | some found =>
    obtain ⟨trees, total⟩ := found
    -- The injection of the node itself is one more part that leaves no choice.
    have own : Optimum (fun _ : Unit => True) (fun _ => k) (fun _ => ())
        (some ((), .ofInjections k)) :=
      .sole (a := ()) ⟨trivial, fun _ _ hne => absurd rfl hne⟩
    obtain ⟨total', ht, hopt⟩ := Optimum.product (L := List.Forall₂ b.Admits cs)
      (w := fun ps => Choice.weightAll ps + k) (f := b.mirrorAll) (g := fun ps _ => ps)
      (fun ps => by simp) (fun _ _ => rfl) (fun _ _ _ _ he => ⟨he, rfl⟩) (fun ts _ => ts)
      (fun _ _ => rfl) (fun ps _ hps _ => whole (.branch n shape k ps) (.branch hv hps)) hopt own
    let tree (ts : List Tree) (c : Cost) : Tree :=
      .image b.conventions.expressionSort (b.forest.spanOf n) (.image shape ts) c
    have built : Optimum (b.Admits n) Choice.weight b.mirror
        ((some (trees, total')).map fun x => (tree x.1 x.2, x.2)) := by
      refine hopt.map (g := Choice.branch n shape k) (fun c => admits_of_branch hv)
        (fun ps qs he => ?_) (fun ps => rfl) tree (fun ps _ => rfl)
      cases he
      rfl
    refine ⟨some (tree trees total'), ?_, built⟩
    refine (bind_of_ok hr _).trans ((mapError_bind_of_ok ht _ _).trans ?_)
    rw [imageNode_eq hn]
    rfl

omit hn in
def AdmitsAmong (b : Builder) (n : NodeId) (alts : List NodeId) (c : Choice) : Prop :=
  ∃ i alt d, alts[i]? = some alt ∧ b.Admits alt d ∧ .alternative n i d = c

omit hn in
theorem admitsAmong_snoc {alts : List NodeId} {alt : NodeId} {c : Choice} :
    b.AdmitsAmong n (alts ++ [alt]) c ↔
      b.AdmitsAmong n alts c ∨ ∃ d, b.Admits alt d ∧ .alternative n alts.length d = c := by
  constructor
  · rintro ⟨i, found, d, hi, hd, rfl⟩
    by_cases hlt : i < alts.length
    · rw [List.getElem?_append_left hlt] at hi
      exact .inl ⟨i, found, d, hi, hd, rfl⟩
    · have hle := Nat.le_of_not_lt hlt
      have he : i = alts.length := by
        have := (List.getElem?_eq_some_iff.1 hi).choose
        rw [List.length_append, List.length_singleton] at this
        omega
      subst he
      rw [List.getElem?_concat_length] at hi
      cases hi
      exact .inr ⟨d, hd, rfl⟩
  · rintro (⟨i, found, d, hi, hd, rfl⟩ | ⟨d, hd, rfl⟩)
    · refine ⟨i, found, d, ?_, hd, rfl⟩
      rw [List.getElem?_append_left (List.getElem?_eq_some_iff.1 hi).choose]
      exact hi
    · exact ⟨alts.length, alt, d, List.getElem?_concat_length, hd, rfl⟩

omit hn in
theorem pooled_offerImages {first rest : List NodeId} {s : Survivors Tree}
    (h : Pooled (b.AdmitsAmong n first) Choice.weight b.mirror s)
    (below : ∀ a ∈ rest, ∃ r, y.image a = .ok r ∧ b.Chooses a r) :
    ∃ s', Plain.offerImages y rest s = .ok s' ∧
      Pooled (b.AdmitsAmong n (first ++ rest)) Choice.weight b.mirror s' := by
  induction rest generalizing first s with
  | nil =>
    rw [List.append_nil]
    exact ⟨s, rfl, h⟩
  | cons alt rest ih =>
    obtain ⟨r, hr, hc⟩ := below alt List.mem_cons_self
    have next := fun a ha => below a (List.mem_cons_of_mem _ ha)
    rw [List.append_cons]
    cases r with
    | none =>
      have same : b.AdmitsAmong n (first ++ [alt]) = b.AdmitsAmong n first := by
        funext c
        refine propext (admitsAmong_snoc.trans (or_iff_left ?_))
        rintro ⟨d, hd, _⟩
        exact hc.not_mem d hd
      rw [← same] at h
      obtain ⟨s', hs', hp⟩ := ih h next
      exact ⟨s', (bind_of_ok hr _).trans hs', hp⟩
    | some t =>
      have hcost : Optimum (fun c => ∃ d, b.Admits alt d ∧ .alternative n first.length d = c)
          Choice.weight b.mirror ((some (t, t.cost)).map fun x => (x.1, x.2)) := by
        refine Optimum.map (fun c => Iff.rfl) (fun c d he => ?_) (fun c => rfl) (fun t _ => t)
          (fun c _ => rfl) hc
        cases he
        rfl
      have hoffer := h.offer (fun c => admitsAmong_snoc) (fun c hc hd => ?_) hcost
      · obtain ⟨s', hs', hp⟩ := ih hoffer next
        exact ⟨s', (bind_of_ok hr _).trans hs', hp⟩
      · obtain ⟨i, _, _, hi, _, rfl⟩ := hc
        obtain ⟨d, _, he⟩ := hd
        cases he
        exact absurd (List.getElem?_eq_some_iff.1 hi).choose (Nat.lt_irrefl _)

theorem chooses_imageCluster {alts : List NodeId} (hv : b.view n = .ok (.cluster alts))
    (below : ∀ a ∈ alts, ∃ r, y.image a = .ok r ∧ b.Chooses a r) :
    ∃ r, Plain.imageCluster b y n alts = .ok r ∧ b.Chooses n r := by
  have none_yet : Pooled (b.AdmitsAmong n []) Choice.weight b.mirror .none := by
    refine .nothing ?_
    rintro _ ⟨i, alt, _, hi, _⟩
    cases hi
  obtain ⟨s, hs, hp⟩ := pooled_offerImages none_yet below
  have same : b.AdmitsAmong n ([] ++ alts) = b.Admits n :=
    funext fun c => propext (admits_of_cluster hv).symm
  rw [same] at hp
  cases hp with
  | nothing h => exact ⟨none, bind_of_ok hs _, .nothing h⟩
  | @sole c h cost =>
    refine ⟨some (b.mirror c), bind_of_ok hs _, ?_⟩
    have hsole := Optimum.sole (f := b.mirror) h
    rw [← cost] at hsole
    exact hsole
  | @tied c d h flag t ts cost =>
    cases ts with
    | nil =>
      refine ⟨some t, bind_of_ok hs _, ?_⟩
      have htied := Optimum.tied (f := b.mirror) h t
      rw [← cost rfl] at htied
      exact htied
    | cons t' ts =>
      refine ⟨some (.image b.conventions.expressionSort (b.forest.spanOf n)
        (.image .ambiguity (t :: t' :: ts)) ((Cost.ofInjections c.weight).withAmbiguous true)),
        (bind_of_ok hs _).trans ?_, Optimum.tied h _⟩
      dsimp only
      rw [imageNode_eq hn]
      rfl

end Builder

end ParseForest
