import ParseForest.Proofs.Fragment.Quotation
import ParseForest.Proofs.Reading.Depth
import ParseForest.Proofs.Session.Outcome

/-!
One step of a reading with a session computes the same step without one, if what is read below does
and the kept results are right. There is one statement for each function of the step.
-/

namespace ParseForest.Builder

open Build Success

variable {J : Results → Prop}

theorem computes_attempt {α : Type} {x : Build α} {r : Except Error α} (hx : Computes J x r) :
    Computes J (attempt x) (Plain.attempt r) := by
  intro s hs
  obtain ⟨ho, hj⟩ := hx s hs
  subst ho
  simp only [after] at hj
  simp only [outcome, after, attempt]
  cases h : x s with
  | ok a s' =>
    rw [h] at hj
    exact ⟨rfl, hj⟩
  | error e s' =>
    rw [h] at hj
    by_cases he : e.isAmbiguity = true
    · simpa [Plain.attempt, he] using hj
    · simpa [Plain.attempt, he] using hj

theorem computes_collect {α β : Type} {f : α → Build (Option β)}
    {g : α → Except Error (Option β)} {as : List α} (h : ∀ a ∈ as, Computes J (f a) (g a)) :
    Computes J (collect f as) (Plain.collect g as) := by
  induction as with
  | nil => exact computes_pure _
  | cons a as ih =>
    have hs := ih fun a' ha' => h a' (List.mem_cons_of_mem _ ha')
    refine computes_bind (h a List.mem_cons_self) fun b? _ => ?_
    cases b? with
    | none => exact computes_pure _
    | some b => exact computes_bind hs fun _ _ => computes_pure _

/-- Reading below `n` with a session computes reading below it without one. -/
structure Simulates (J : Results → Prop) (n : Nat) (x : Descent) (y : Plain.Descent) : Prop where
  value : ∀ c < n, Computes J (x.value c) (y.value c)
  run : ∀ c < n, Computes J (x.run c) (y.run c)
  choice : ∀ c < n, Computes J (x.choice c) (y.choice c)

namespace Simulates

variable {b : Builder} {n : Nat} {x : Descent} {y : Plain.Descent} (h : Simulates J n x y)
include h

theorem part {c : NodeId} (hc : c < n) : Computes J (b.part x c) (Plain.part b y c) := by
  refine computes_bind (computes_liftChecked _) fun slot _ => ?_
  cases slot with
  | choice => exact h.choice c hc
  | run => exact h.run c hc
  | optional held => exact computes_bind (h.value c hc) fun _ _ => computes_pure _
  | single => exact computes_bind (h.value c hc) fun _ _ => computes_pure _

theorem offerRuns {alts : List NodeId} (ha : ∀ a ∈ alts, a < n) (s : Survivors (List Tree)) :
    Computes J (offerRuns x alts s) (Plain.offerRuns y alts s) := by
  induction alts generalizing s with
  | nil => exact computes_pure _
  | cons a alts ih =>
    have hs := ih fun a' ha' => ha a' (List.mem_cons_of_mem _ ha')
    refine computes_bind (h.run a (ha a List.mem_cons_self)) fun items? _ => ?_
    cases items? with
    | none => exact hs s
    | some items => exact computes_bind (computes_liftChecked _) fun _ _ => hs _

theorem offerValues {alts : List NodeId} (ha : ∀ a ∈ alts, a < n) (s : Survivors Tree)
    (e : Option Error) : Computes J (offerValues x alts s e) (Plain.offerValues y alts s e) := by
  induction alts generalizing s e with
  | nil => exact computes_pure _
  | cons a alts ih =>
    have hs := ih fun a' ha' => ha a' (List.mem_cons_of_mem _ ha')
    have hv := computes_attempt (h.value a (ha a List.mem_cons_self))
    refine computes_bind hv fun r _ => ?_
    cases r with
    | error e' => exact hs _ _
    | ok tree? =>
      cases tree? with
      | none => exact hs _ _
      | some tree => exact hs _ _

theorem fittingValues {alts : List NodeId} (ha : ∀ a ∈ alts, a < n) (expected : Symbol) :
    Computes J (b.fittingValues x expected alts) (Plain.fittingValues b y expected alts) := by
  induction alts with
  | nil => exact computes_pure _
  | cons a alts ih =>
    have hs := ih fun a' ha' => ha a' (List.mem_cons_of_mem _ ha')
    refine computes_bind (computes_liftChecked _) fun isEmbedding _ => ?_
    cases isEmbedding with
    | true => exact hs
    | false =>
      refine computes_bind (h.value a (ha a List.mem_cons_self)) fun _ _ => ?_
      exact computes_bind hs fun _ _ => computes_pure _

variable (hf : b.forest.Acyclic)
include hf

theorem argument {c : NodeId} (hc : c < n) :
    Computes J (b.argument x c) (Plain.argument b y c) := by
  refine computes_bind (computes_liftChecked _) fun slot hslot => ?_
  cases slot with
  | run => exact computes_bind (h.run c hc) fun _ _ => computes_pure _
  | choice => exact computes_bind (h.choice c hc) fun _ _ => computes_pure _
  | single => exact computes_bind (h.value c hc) fun _ _ => computes_pure _
  | optional held =>
    cases held with
    | none => exact computes_pure _
    | some held =>
      have hlt := hf.lt_of_slot (mapError_eq_ok.1 hslot)
      exact computes_bind (h.value held (Nat.lt_trans hlt hc)) fun _ _ => computes_pure _

theorem applyTo {cs : List NodeId} (hc : ∀ c ∈ cs, c < n) (args : List (Arg Tree)) (total : Cost) :
    Computes J (b.applyTo x args total cs) (Plain.applyTo b y args total cs) := by
  induction cs generalizing args total with
  | nil => exact computes_pure _
  | cons c cs ih =>
    have hs := ih fun c' hc' => hc c' (List.mem_cons_of_mem _ hc')
    refine computes_bind (h.argument hf (hc c List.mem_cons_self)) fun arg? _ => ?_
    cases arg? with
    | none => exact computes_pure _
    | some arg =>
      refine computes_bind (computes_liftChecked _) fun cost _ => ?_
      exact computes_bind (computes_liftChecked _) fun _ _ => hs _ _

theorem runs : Computes J (b.run x n) (Plain.run b y n) := by
  refine computes_bind (computes_liftChecked _) fun es hes => ?_
  have he : ∀ e ∈ es, e < n := fun e he => hf.lt_of_elements (mapError_eq_ok.1 hes) he
  refine computes_bind (computes_collect fun e hm => h.part (he e hm)) fun _ _ => ?_
  exact computes_pure _

theorem choices : Computes J (b.choice x n) (Plain.choice b y n) := by
  refine computes_bind (computes_liftChecked _) fun alts halts => ?_
  have ha : ∀ a ∈ alts, a < n := fun a ha => hf.lt_of_alternatives (mapError_eq_ok.1 halts) ha
  refine computes_bind (h.offerRuns ha _) fun survivors _ => computes_record_bind _ ?_
  match survivors.items with
  | [] => exact computes_pure _
  | [_] => exact computes_pure _
  | _ :: _ :: _ => exact computes_bind (computes_liftChecked _) fun _ _ => computes_throw _

theorem holeValue {expected : Symbol} :
    Computes J (b.holeValue x n expected) (Plain.holeValue b y n expected) := by
  refine computes_bind (computes_liftChecked _) fun cs hcs => ?_
  cases hl : cs.getLast? with
  | none => exact computes_throw _
  | some held =>
    have hlt := hf.lt_of_arguments (mapError_eq_ok.1 hcs) (List.mem_of_getLast? hl)
    refine computes_bind (computes_liftChecked _) fun node hnode => ?_
    have rejected : Computes J (record (.rejectHole n) >>= fun _ => pure (none : Option Tree))
        (return none) := computes_record_bind _ (computes_pure _)
    have tied : ∀ (tree : Tree) (trees : List Tree), Computes J
        (do
          let span ← b.forest.span n
          some <$> b.registry.makeAmbiguity b.conventions.expressionSort span trees
            (tree.cost.withAmbiguous true))
        (do
          let span ← (b.forest.span n).mapError .breach
          some <$> b.registry.makeAmbiguity b.conventions.expressionSort span trees
            (tree.cost.withAmbiguous true)) := fun tree trees =>
      computes_bind (computes_liftChecked _) fun _ _ => computes_map _ (computes_lift _)
    cases node with
    | ambiguity alts =>
      have ha : ∀ a ∈ alts, a < n := fun a ha =>
        Nat.lt_trans (hf.lt_of_alternative (mapError_eq_ok.1 hnode) ha) hlt
      refine computes_bind (h.fittingValues ha expected) fun trees _ => ?_
      rcases trees with _ | ⟨tree, _ | ⟨next, trees⟩⟩
      · exact rejected
      · exact computes_pure _
      · exact tied tree (tree :: next :: trees)
    | _ =>
      refine computes_bind (h.value held hlt) fun tree _ => ?_
      refine computes_bind (computes_pure _) fun trees _ => ?_
      rcases trees with _ | ⟨tree, _ | ⟨next, trees⟩⟩
      · exact rejected
      · exact computes_pure _
      · exact tied tree (tree :: next :: trees)

theorem hole {expected : Symbol} :
    Computes J (b.hole x n expected) (Plain.hole b y n expected) :=
  computes_bind (h.holeValue hf) fun _ _ => computes_pure _

end Simulates

section Images

variable {b : Builder} {x : Descent} {y : Plain.Descent}

theorem computes_imageNode {node : NodeId} {body : Body Tree} {cost : Cost} :
    Computes J (b.imageNode node body cost) (Plain.imageNode b node body cost) :=
  computes_bind (computes_liftChecked _) fun _ _ => computes_pure _

theorem computes_imageLeaf {node : NodeId} {leaf : Leaf} :
    Computes J (b.imageLeaf node leaf) (Plain.imageLeaf b node leaf) :=
  computes_map _ computes_imageNode

theorem computes_imagesOf {cs : List NodeId}
    (h : ∀ c ∈ cs, Computes J (x.image c) (y.image c)) (trees : List Tree) (total : Cost) :
    Computes J (imagesOf x trees total cs) (Plain.imagesOf y trees total cs) := by
  induction cs generalizing trees total with
  | nil => exact computes_pure _
  | cons c cs ih =>
    have hs := ih fun c' hc' => h c' (List.mem_cons_of_mem _ hc')
    refine computes_bind (h c List.mem_cons_self) fun tree? _ => ?_
    cases tree? with
    | none => exact computes_pure _
    | some tree => exact computes_bind (computes_liftChecked _) fun _ _ => hs _ _

theorem computes_imageOver {node : NodeId} {shape : Shape} {cs : List NodeId} {injections : Nat}
    (h : ∀ c ∈ cs, Computes J (x.image c) (y.image c)) :
    Computes J (b.imageOver x node shape cs injections)
      (Plain.imageOver b y node shape cs injections) := by
  refine computes_bind (computes_imagesOf h _ _) fun images? _ => ?_
  cases images? with
  | none => exact computes_pure _
  | some images =>
    refine computes_bind (computes_liftChecked _) fun _ _ => ?_
    exact computes_map _ computes_imageNode

theorem computes_offerImages {alts : List NodeId}
    (h : ∀ a ∈ alts, Computes J (x.image a) (y.image a)) (s : Survivors Tree) :
    Computes J (offerImages x alts s) (Plain.offerImages y alts s) := by
  induction alts generalizing s with
  | nil => exact computes_pure _
  | cons a alts ih =>
    have hs := ih fun a' ha' => h a' (List.mem_cons_of_mem _ ha')
    refine computes_bind (h a List.mem_cons_self) fun tree? _ => ?_
    cases tree? with
    | none => exact hs s
    | some tree => exact hs _

theorem computes_imageCluster {node : NodeId} {alts : List NodeId}
    (h : ∀ a ∈ alts, Computes J (x.image a) (y.image a)) :
    Computes J (b.imageCluster x node alts) (Plain.imageCluster b y node alts) := by
  refine computes_bind (computes_offerImages h _) fun survivors _ => computes_record_bind _ ?_
  match survivors.items with
  | [] => exact computes_pure _
  | [_] => exact computes_pure _
  | _ :: _ :: _ => exact computes_map _ computes_imageNode

variable {P : Memory → NodeId → Option Tree → Prop} {n : NodeId}

theorem computes_image (hk : ∀ v, P .fragments n v ↔ Plain.image b y n = .ok v)
    (below : ∀ c ∈ b.mirrored n, Computes (AllKept P) (x.image c) (y.image c))
    (hole : ∀ p : Production, b.isHoleAt n = true →
      Computes (AllKept P) (b.hole x n p.defines) (Plain.hole b y n p.defines)) :
    Computes (AllKept P) (b.image x n) (Plain.image b y n) := by
  refine computes_once_of_iff hk ?_
  refine computes_bind (computes_liftChecked _) fun node hnode => ?_
  have hnode := mapError_eq_ok.1 hnode
  cases node with
  | derivation prod cs =>
    refine computes_bind (computes_liftChecked _) fun p hp => ?_
    have hp := Grammar.production_eq_ok.1 (mapError_eq_ok.1 hp)
    cases isHole : p.constructor.any b.conventions.isHoleConstructor with
    | true => exact hole p ((isHoleAt_of_derivation hnode hp).trans isHole)
    | false =>
      cases lexical : p.isLexical || p.isLayout with
      | true => exact computes_bind (computes_liftChecked _) fun _ _ => computes_imageLeaf
      | false =>
        cases literal : p.isLiteral || p.isCaseless with
        | true => exact computes_bind (computes_liftChecked _) fun _ _ => computes_imageLeaf
        | false =>
          have token : p.isToken = false := (Production.isToken_eq lexical).trans literal
          rw [mirrored_of_derivation hnode hp isHole token] at below
          exact computes_imageOver below
  | list prod cs isPartial =>
    rw [mirrored_of_list hnode] at below
    exact computes_bind (computes_liftChecked _) fun _ _ => computes_imageOver below
  | optional prod child =>
    rw [mirrored_of_optional hnode] at below
    exact computes_imageOver below
  | literal text prod => exact computes_imageLeaf
  | char code => exact computes_imageLeaf
  | ambiguity alts =>
    rw [mirrored_of_ambiguity hnode] at below
    exact computes_imageCluster below
  | cycle depth prod => exact computes_pure _
  | recovery text => exact computes_pure _

theorem computes_fragment (hk : ∀ v, P .fragments n v ↔ Plain.fragment b y n = .ok v)
    (image : ∀ p, b.pattern? n = .ok (some p) → Computes (AllKept P) (x.image p) (y.image p)) :
    Computes (AllKept P) (b.fragment x n) (Plain.fragment b y n) := by
  refine computes_once_of_iff hk (computes_record_bind _ ?_)
  refine computes_bind (computes_liftChecked _) fun pattern? hp => ?_
  cases pattern? with
  | none => exact computes_pure _
  | some p =>
    refine computes_bind (image p (mapError_eq_ok.1 hp)) fun tree? _ => ?_
    cases tree? with
    | none => exact computes_pure _
    | some tree =>
      refine computes_bind (computes_liftChecked _) fun span _ => ?_
      dsimp only
      split
      · exact computes_throw _
      · exact computes_pure _

end Images

section Levels

variable {b : Builder} {n : Nat}

theorem computes_inSession_value {choose : Session → Descent} {r : Except Error (Option Tree)}
    (h : ∀ s, Computes J ((choose s).value n) r) :
    Computes J ((Descent.inSession choose).value n) r :=
  fun s hs => h s s hs

theorem computes_inSession_image {choose : Session → Descent} {r : Except Error (Option Tree)}
    (h : ∀ s, Computes J ((choose s).image n) r) :
    Computes J ((Descent.inSession choose).image n) r :=
  fun s hs => h s s hs

theorem computes_value_of_read {r : Except Error (Option Tree)}
    (h : ∀ x, Computes J (b.read x n) r) : Computes J (b.value n) r := by
  have hfresh : 0 < b.levelLimit := Nat.succ_pos _
  obtain ⟨depth, hd⟩ := Nat.exists_eq_add_of_le' (Nat.mul_pos hfresh hfresh)
  obtain ⟨fresh, hr⟩ := Nat.exists_eq_add_of_le' hfresh
  rw [value, hd, hr]
  refine computes_inSession_value fun s => ?_
  split
  · exact h _
  · exact h _

theorem descent_induction {Q : Nat → Descent → Prop} (zero : ∀ x, Q 0 x)
    (inSession : ∀ m choose, (∀ s, Q m (choose s)) → Q m (.inSession choose))
    (step : ∀ m x, m < b.forest.size → Q m x → Q (m + 1) (b.descend x)) (hn : n ≤ b.forest.size)
    {depth fresh kept : Nat} (hd : n ≤ depth) (hr : n ≤ fresh) :
    Q n (b.descent depth fresh kept) := by
  induction n generalizing depth fresh kept with
  | zero => exact zero _
  | succ n ih =>
    obtain ⟨depth, rfl⟩ := Nat.exists_eq_add_of_le' (Nat.lt_of_lt_of_le n.succ_pos hd)
    obtain ⟨fresh, rfl⟩ := Nat.exists_eq_add_of_le' (Nat.lt_of_lt_of_le n.succ_pos hr)
    have hl : n ≤ b.levelLimit := by
      unfold levelLimit
      omega
    refine inSession _ _ fun s => ?_
    split
    · exact step n _ hn (ih (by omega) (by omega) (by omega))
    · exact step n _ hn (ih (by omega) (by omega) hl)

end Levels

end ParseForest.Builder
