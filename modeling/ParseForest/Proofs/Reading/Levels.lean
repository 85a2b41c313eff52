import Mathlib.Tactic.NthRewrite
import ParseForest.Build.Roots
import ParseForest.Proofs.Session.Ending
import ParseForest.Proofs.Table

/-!
The limits on the levels do not show: a reading that ends gives the same with any higher limits, so
readings satisfy the equations of the recursion without limits, one step on top of readings of the
nodes below. Main statements: `extends_descent`, `reading_unfolds`.
-/

namespace ParseForest

open Build

/-- Where the reading of a node by the first descent ends, the second one reads it the same. -/
structure Descent.Extends (J : Results → Prop) (x y : Descent) : Prop where
  value : ∀ n, Build.Extends J (x.value n) (y.value n)
  run : ∀ n, Build.Extends J (x.run n) (y.run n)
  choice : ∀ n, Build.Extends J (x.choice n) (y.choice n)
  image : ∀ n, Build.Extends J (x.image n) (y.image n)

theorem Descent.extends_ended {J : Results → Prop} (y : Descent) : Descent.ended.Extends J y :=
  ⟨fun _ => Build.extends_ended _, fun _ => Build.extends_ended _, fun _ => Build.extends_ended _,
    fun _ => Build.extends_ended _⟩

namespace Builder

variable {b : Builder} {J : Results → Prop} {x y : Descent}

theorem extends_token (hJ : Stable J) (n : NodeId) : Extends J (b.token n) (b.token n) := by
  refine extends_once hJ (extends_bind (extends_lift _) fun sort => ?_)
  refine extends_bind (extends_checked _) fun span => ?_
  refine extends_bind (extends_checked _) fun text => ?_
  exact extends_map _ (extends_lift _)

theorem extends_imageNode (n : NodeId) (body : Body Tree) (cost : Cost) :
    Extends J (b.imageNode n body cost) (b.imageNode n body cost) :=
  extends_bind (extends_checked _) fun _ => extends_pure _

theorem extends_imageLeaf (n : NodeId) (leaf : Leaf) :
    Extends J (b.imageLeaf n leaf) (b.imageLeaf n leaf) :=
  extends_map _ (extends_imageNode n _ _)

theorem extends_constructorOf (n : NodeId) :
    Extends J (b.constructorOf n) (b.constructorOf n) := by
  refine extends_bind (extends_checked _) fun name? => ?_
  cases name? with
  | some name => exact extends_pure _
  | none => exact extends_bind (extends_checked _) fun _ => extends_throw _

section Below

variable (h : x.Extends J y)
include h

theorem extends_part (n : NodeId) : Extends J (b.part x n) (b.part y n) := by
  refine extends_bind (extends_checked _) fun slot => ?_
  cases slot with
  | choice => exact h.choice n
  | run => exact h.run n
  | optional held => exact extends_bind (h.value n) fun _ => extends_pure _
  | single => exact extends_bind (h.value n) fun _ => extends_pure _

theorem extends_run (n : NodeId) : Extends J (b.run x n) (b.run y n) := by
  refine extends_bind (extends_checked _) fun es => ?_
  exact extends_bind (extends_collect (extends_part h) es) fun _ => extends_pure _

theorem extends_offerRuns (alts : List NodeId) (s : Survivors (List Tree)) :
    Extends J (offerRuns x alts s) (offerRuns y alts s) := by
  induction alts generalizing s with
  | nil => exact extends_pure _
  | cons alt alts ih =>
    refine extends_bind (h.run alt) fun items? => ?_
    cases items? with
    | none => exact ih s
    | some items => exact extends_bind (extends_checked _) fun _ => ih _

theorem extends_choice (n : NodeId) : Extends J (b.choice x n) (b.choice y n) := by
  refine extends_bind (extends_checked _) fun alts => ?_
  refine extends_bind (extends_offerRuns h alts _) fun survivors => ?_
  refine extends_bind (extends_record _) fun _ => ?_
  match survivors.items with
  | [] => exact extends_pure _
  | [_] => exact extends_pure _
  | _ :: _ :: _ => exact extends_bind (extends_checked _) fun _ => extends_throw _

theorem extends_argument (n : NodeId) : Extends J (b.argument x n) (b.argument y n) := by
  refine extends_bind (extends_checked _) fun slot => ?_
  match slot with
  | .run => exact extends_bind (h.run n) fun _ => extends_pure _
  | .choice => exact extends_bind (h.choice n) fun _ => extends_pure _
  | .optional none => exact extends_pure _
  | .optional (some held) => exact extends_bind (h.value held) fun _ => extends_pure _
  | .single => exact extends_bind (h.value n) fun _ => extends_pure _

theorem extends_applyTo (cs : List NodeId) (args : List (Arg Tree)) (total : Cost) :
    Extends J (b.applyTo x args total cs) (b.applyTo y args total cs) := by
  induction cs generalizing args total with
  | nil => exact extends_pure _
  | cons c cs ih =>
    refine extends_bind (extends_argument h c) fun arg? => ?_
    cases arg? with
    | none => exact extends_pure _
    | some arg =>
      refine extends_bind (extends_checked _) fun cost => ?_
      exact extends_bind (extends_checked _) fun total => ih _ _

theorem extends_derivation (hJ : Stable J) (n : NodeId) :
    Extends J (b.derivation x n) (b.derivation y n) := by
  refine extends_once hJ (extends_bind (extends_constructorOf n) fun name => ?_)
  refine extends_bind (extends_lift _) fun sort => extends_bind (extends_checked _) fun cs => ?_
  refine extends_bind (extends_applyTo h cs _ _) fun built? => ?_
  cases built? with
  | none => exact extends_bind (extends_record _) fun _ => extends_pure _
  | some built =>
    refine extends_bind (extends_checked _) fun span => extends_bind (extends_lift _) fun tree => ?_
    exact extends_bind (extends_modify fun _ => rfl) fun _ => extends_pure _

theorem extends_offerValues (alts : List NodeId) (s : Survivors Tree) (e : Option Error) :
    Extends J (offerValues x alts s e) (offerValues y alts s e) := by
  induction alts generalizing s e with
  | nil => exact extends_pure _
  | cons alt alts ih =>
    refine extends_bind (extends_attempt (h.value alt)) fun r => ?_
    match r with
    | .ok none => exact ih _ _
    | .ok (some _) => exact ih _ _
    | .error _ => exact ih _ _

theorem extends_cluster (hJ : Stable J) (n : NodeId) :
    Extends J (b.cluster x n) (b.cluster y n) := by
  refine extends_once hJ (extends_bind (extends_checked _) fun alts => ?_)
  refine extends_bind (extends_offerValues h alts _ _) fun offered => ?_
  obtain ⟨survivors, ambiguity⟩ := offered
  refine extends_bind (extends_record _) fun _ => ?_
  match survivors.items, ambiguity with
  | [], some e => exact extends_throw e
  | [], none => exact extends_pure _
  | [_], _ => exact extends_pure _
  | _ :: _ :: _, _ =>
    refine extends_bind (extends_lift _) fun sort => extends_bind (extends_checked _) fun span => ?_
    exact extends_map _ (extends_lift _)

theorem extends_imagesOf (cs : List NodeId) (trees : List Tree) (total : Cost) :
    Extends J (imagesOf x trees total cs) (imagesOf y trees total cs) := by
  induction cs generalizing trees total with
  | nil => exact extends_pure _
  | cons c cs ih =>
    refine extends_bind (h.image c) fun tree? => ?_
    cases tree? with
    | none => exact extends_pure _
    | some tree => exact extends_bind (extends_checked _) fun _ => ih _ _

theorem extends_imageOver (n : NodeId) (shape : Shape) (cs : List NodeId) (injections : Nat) :
    Extends J (b.imageOver x n shape cs injections) (b.imageOver y n shape cs injections) := by
  refine extends_bind (extends_imagesOf h cs _ _) fun images? => ?_
  cases images? with
  | none => exact extends_pure _
  | some images =>
    exact extends_bind (extends_checked _) fun _ => extends_map _ (extends_imageNode n _ _)

theorem extends_offerImages (alts : List NodeId) (s : Survivors Tree) :
    Extends J (offerImages x alts s) (offerImages y alts s) := by
  induction alts generalizing s with
  | nil => exact extends_pure _
  | cons alt alts ih =>
    refine extends_bind (h.image alt) fun tree? => ?_
    cases tree? with
    | none => exact ih s
    | some tree => exact ih _

theorem extends_imageCluster (n : NodeId) (alts : List NodeId) :
    Extends J (b.imageCluster x n alts) (b.imageCluster y n alts) := by
  refine extends_bind (extends_offerImages h alts _) fun survivors => ?_
  refine extends_bind (extends_record _) fun _ => ?_
  match survivors.items with
  | [] => exact extends_pure _
  | [_] => exact extends_pure _
  | _ :: _ :: _ => exact extends_map _ (extends_imageNode n _ _)

theorem extends_fittingValues (expected : Symbol) (alts : List NodeId) :
    Extends J (b.fittingValues x expected alts) (b.fittingValues y expected alts) := by
  induction alts with
  | nil => exact extends_pure _
  | cons alt alts ih =>
    refine extends_bind (extends_checked _) fun isEmbedding => ?_
    cases isEmbedding with
    | true => exact ih
    | false =>
      exact extends_bind (h.value alt) fun _ => extends_bind ih fun _ => extends_pure _

theorem extends_holeValue (n : NodeId) (expected : Symbol) :
    Extends J (b.holeValue x n expected) (b.holeValue y n expected) := by
  refine extends_bind (extends_checked _) fun cs => ?_
  cases cs.getLast? with
  | none => exact extends_throw _
  | some held =>
    have rejected : Extends J (record (.rejectHole n) >>= fun _ => return (none : Option Tree))
        (record (.rejectHole n) >>= fun _ => return none) :=
      extends_bind (extends_record _) fun _ => extends_pure _
    have tied (t : Tree) (ts : List Tree) :
        let choose : Build (Option Tree) := do
          some <$> b.registry.makeAmbiguity b.conventions.expressionSort (← b.forest.span n) ts
            (t.cost.withAmbiguous true)
        Extends J choose choose :=
      extends_bind (extends_checked _) fun _ => extends_map _ (extends_lift _)
    refine extends_bind (extends_checked _) fun node => ?_
    cases node with
    | ambiguity alts =>
      refine extends_bind (extends_fittingValues h expected alts) fun ts => ?_
      rcases ts with _ | ⟨t, _ | ⟨u, ts⟩⟩
      · exact rejected
      · exact extends_pure _
      · exact tied t (t :: u :: ts)
    | _ =>
      refine extends_bind (h.value held) fun _ => extends_bind (extends_pure _) fun ts => ?_
      rcases ts with _ | ⟨t, _ | ⟨u, ts⟩⟩
      · exact rejected
      · exact extends_pure _
      · exact tied t (t :: u :: ts)

theorem extends_hole (n : NodeId) (expected : Symbol) :
    Extends J (b.hole x n expected) (b.hole y n expected) :=
  extends_bind (extends_holeValue h n expected) fun _ => extends_pure _

theorem extends_image (hJ : Stable J) (n : NodeId) : Extends J (b.image x n) (b.image y n) := by
  refine extends_once hJ (extends_bind (extends_checked _) fun node => ?_)
  cases node with
  | derivation prod cs =>
    refine extends_bind (extends_checked _) fun p => ?_
    cases p.constructor.any b.conventions.isHoleConstructor with
    | true => exact extends_hole h n p.defines
    | false =>
      cases p.isLexical || p.isLayout with
      | true => exact extends_bind (extends_checked _) fun _ => extends_imageLeaf n _
      | false =>
        cases p.isLiteral || p.isCaseless with
        | true => exact extends_bind (extends_checked _) fun _ => extends_imageLeaf n _
        | false => exact extends_imageOver h n _ cs _
  | list prod cs isPartial =>
    exact extends_bind (extends_checked _) fun _ => extends_imageOver h n _ cs _
  | optional prod child => exact extends_imageOver h n _ _ _
  | literal text prod => exact extends_imageLeaf n _
  | char code => exact extends_imageLeaf n _
  | ambiguity alts => exact extends_imageCluster h n alts
  | cycle depth prod => exact extends_pure _
  | recovery text => exact extends_pure _

theorem extends_fragment (hJ : Stable J) (n : NodeId) :
    Extends J (b.fragment x n) (b.fragment y n) := by
  refine extends_once hJ (extends_bind (extends_record _) fun _ => ?_)
  refine extends_bind (extends_checked _) fun pattern? => ?_
  cases pattern? with
  | none => exact extends_pure _
  | some p =>
    refine extends_bind (h.image p) fun tree? => ?_
    cases tree? with
    | none => exact extends_pure _
    | some tree =>
      refine extends_bind (extends_checked _) fun span => ?_
      dsimp only
      split
      · exact extends_throw _
      · exact extends_pure _

theorem extends_read (hJ : Stable J) (n : NodeId) : Extends J (b.read x n) (b.read y n) := by
  refine extends_bind (extends_checked _) fun sort => ?_
  refine extends_bind (extends_record _) fun _ => extends_bind (extends_checked _) fun node => ?_
  cases node with
  | ambiguity alts => exact extends_cluster h hJ n
  | derivation prod cs =>
    refine extends_bind (extends_checked _) fun isLexical => ?_
    cases isLexical with
    | true => exact extends_token hJ n
    | false =>
      refine extends_bind (extends_checked _) fun isEmbedding => ?_
      cases isEmbedding with
      | true => exact extends_fragment h hJ n
      | false => exact extends_derivation h hJ n
  | cycle | recovery => exact extends_bind (extends_record _) fun _ => extends_pure _
  | _ => exact extends_throw _

theorem extends_descend (hJ : Stable J) : (b.descend x).Extends J (b.descend y) :=
  ⟨extends_read h hJ, extends_run h, extends_choice h, extends_image h hJ⟩

end Below

theorem extends_inSession {choose choose' : Session → Descent}
    (h : ∀ s s', J s.results → s'.results = s.results → (choose s).Extends J (choose' s')) :
    (Descent.inSession choose).Extends J (.inSession choose') where
  value n s s' hj heq he := (h s s' hj heq).value n s s' hj heq he
  run n s s' hj heq he := (h s s' hj heq).run n s s' hj heq he
  choice n s s' hj heq he := (h s s' hj heq).choice n s s' hj heq he
  image n s s' hj heq he := (h s s' hj heq).image n s s' hj heq he

theorem extends_descent (hJ : Stable J) {d d' f f' : Nat} (hd : d ≤ d') (hf : f ≤ f') (k : Nat) :
    (b.descent d f k).Extends J (b.descent d' f' k) := by
  induction d generalizing d' f f' k with
  | zero => exact Descent.extends_ended _
  | succ d ih =>
    obtain ⟨d', rfl⟩ := Nat.exists_eq_add_of_le' (Nat.le_trans (Nat.succ_pos d) hd)
    have hd : d ≤ d' := Nat.le_of_succ_le_succ hd
    refine extends_inSession fun s s' _ heq => ?_
    rw [heq]
    by_cases hk : s.results.size = k
    · simp only [if_pos hk]
      cases f with
      | zero => exact Descent.extends_ended _
      | succ f =>
        obtain ⟨f', rfl⟩ := Nat.exists_eq_add_of_le' (Nat.le_trans (Nat.succ_pos f) hf)
        exact extends_descend (ih hd (Nat.le_of_succ_le_succ hf) k) hJ
    · simp only [if_neg hk]
      exact extends_descend (ih hd (Nat.le_refl _) _) hJ

/-- The readings of all nodes; `value` is one of them. -/
def reading (b : Builder) : Descent := b.descent (b.levelLimit * b.levelLimit) b.levelLimit 0

theorem value_eq_reading (n : NodeId) : b.value n = b.reading.value n := rfl

theorem extends_reading_self : b.reading.Extends (fun _ => True) b.reading :=
  extends_descent (fun _ _ _ _ => trivial) (Nat.le_refl _) (Nat.le_refl _) 0

theorem extends_value (n : NodeId) : Extends (fun _ => True) (b.value n) (b.value n) :=
  extends_reading_self.value n

theorem reading_eq (b : Builder) :
    b.reading = .inSession fun s =>
      b.descend <| if s.results.size = 0 then
        b.descent (b.levelLimit * b.levelLimit - 1) (b.levelLimit - 1) 0
      else b.descent (b.levelLimit * b.levelLimit - 1) b.levelLimit s.results.size := by
  have step (d f : Nat) : b.descent (d + 1) (f + 1) 0 = .inSession fun s =>
      b.descend <| if s.results.size = 0 then b.descent d f 0
      else b.descent d b.levelLimit s.results.size :=
    congrArg _ (funext fun s => (apply_ite b.descend ..).symm)
  have hlimit : 0 < b.levelLimit := Nat.succ_pos _
  have hd := Nat.sub_add_cancel (Nat.mul_pos hlimit hlimit)
  have hf := Nat.sub_add_cancel hlimit
  calc b.reading
      = b.descent (b.levelLimit * b.levelLimit - 1 + 1) (b.levelLimit - 1 + 1) 0 := by
        rw [hd, hf, reading]
    _ = _ := step _ _

theorem stable_size_ne_zero : Stable fun t => t.size ≠ 0 := by
  intro t key v _
  have hkey : key ∈ (t.insert key v).keys := Table.mem_keys_insert.2 (.inr rfl)
  exact Table.size_ne_zero_of_mem hkey

theorem extends_reading {d k : Nat} (hd : d ≤ b.levelLimit * b.levelLimit - 1) :
    (b.descent d b.levelLimit k).Extends (fun t => t.size ≠ 0) b.reading := by
  have hJ := stable_size_ne_zero
  cases d with
  | zero => exact Descent.extends_ended _
  | succ d =>
    rw [reading_eq]
    refine extends_inSession fun s s' hs heq => ?_
    rw [heq, if_neg hs]
    have hd : d ≤ b.levelLimit * b.levelLimit - 1 := Nat.le_of_succ_le hd
    split
    next hk =>
      split
      next => exact Descent.extends_ended _
      next f hf =>
        rw [← hk]
        exact extends_descend (extends_descent hJ hd (by omega) _) hJ
    next => exact extends_descend (extends_descent hJ hd (Nat.le_refl _) _) hJ

theorem extends_of_inSession {choose : Session → Descent} {y : Descent}
    (h : ∀ s, ∃ J : Results → Prop, J s.results ∧ (choose s).Extends J y) :
    (Descent.inSession choose).Extends (fun _ => True) y := by
  constructor
  · intro n s s' _ heq he
    obtain ⟨J, hj, hx⟩ := h s
    obtain ⟨ho, hr, -⟩ := hx.value n s s' hj heq he
    exact ⟨ho, hr, trivial⟩
  · intro n s s' _ heq he
    obtain ⟨J, hj, hx⟩ := h s
    obtain ⟨ho, hr, -⟩ := hx.run n s s' hj heq he
    exact ⟨ho, hr, trivial⟩
  · intro n s s' _ heq he
    obtain ⟨J, hj, hx⟩ := h s
    obtain ⟨ho, hr, -⟩ := hx.choice n s s' hj heq he
    exact ⟨ho, hr, trivial⟩
  · intro n s s' _ heq he
    obtain ⟨J, hj, hx⟩ := h s
    obtain ⟨ho, hr, -⟩ := hx.image n s s' hj heq he
    exact ⟨ho, hr, trivial⟩

/-- Readings are one step on top of readings, without any limits on the levels. -/
theorem reading_unfolds : b.reading.Extends (fun _ => True) (b.descend b.reading) := by
  nth_rewrite 1 [reading_eq]
  refine extends_of_inSession fun s => ?_
  split
  · have hJ : Stable fun _ => True := fun _ _ _ _ => trivial
    refine ⟨_, trivial, extends_descend (extends_descent hJ ?_ ?_ 0) hJ⟩
    · exact Nat.sub_le _ _
    · exact Nat.sub_le _ _
  next hs =>
    exact ⟨_, hs, extends_descend (extends_reading (Nat.le_refl _)) stable_size_ne_zero⟩

end Builder

end ParseForest
