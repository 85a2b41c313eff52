import ParseForest.Proofs.Fragment.Images

/-!
The value of a quoted fragment is the image of least cost among all images of its pattern, although
the clusters in it are decided one by one. A tie anywhere in the cheapest image is a tie of whole
images. Main statements: `optimum_image`, `value_of_quotes`.
-/

namespace ParseForest

open Build Success

namespace Builder

variable {b : Builder} {n : Nat} {y : Plain.Descent}

theorem Reaches.le (hf : b.forest.Acyclic) {p m : Nat} (h : b.Reaches p m) : m ≤ p := by
  induction h with
  | refl => exact Nat.le_refl p
  | tail _ hc ih => exact Nat.le_trans (Nat.le_of_lt (mirrored_lt hf hc)) ih

/-- Every node that a pattern mirrors has an image unless all of its images are cut off, and its
image is the cheapest. -/
theorem optimum_image (hf : b.forest.Acyclic) (hg : b.forest.Grounded) {p : Nat}
    (hh : b.HoleFree p) (hc : b.CostsFit p) (hp : p < b.forest.size) {m : Nat}
    (hm : b.Reaches p m) : ∃ r, b.plain.image m = .ok r ∧ b.Chooses m r := by
  induction m using Nat.strongRecOn with
  | ind m ih =>
    have hlt : m < b.forest.size := Nat.lt_of_le_of_lt (hm.le hf) hp
    obtain ⟨v, hv⟩ := exists_view hf hg hlt
    have hmirrored : b.mirrored m = v.parts := mirrored_of_view (hh m hm) hv
    rw [(plain_eq hf hlt).2.2.2, image_eq_imageBy (hh m hm), mapError_bind_of_ok hv]
    have below : ∀ c ∈ v.parts, ∃ r, b.plain.image c = .ok r ∧ b.Chooses c r := by
      intro c hc
      rw [← hmirrored] at hc
      exact ih c (mirrored_lt hf hc) (hm.tail hc)
    cases v with
    | leaf l => exact chooses_imageLeaf hlt hv
    | branch shape cs k =>
      exact chooses_imageOver hlt hv below (fun c => hc.whole m c hm)
        fun lead ps hl => hc.leading m shape cs k lead ps hm hv hl
    | cluster alts => exact chooses_imageCluster hlt hv below
    | cut => exact ⟨none, rfl, .nothing fun c => not_admits_of_cut hv⟩

def RightWithin (b : Builder) (e p : NodeId) : Memory → NodeId → Option Tree → Prop
  | .fragments, m, v =>
    b.Reaches p m ∧ Plain.image b b.plain m = .ok v ∨ m = e ∧ Plain.fragment b b.plain e = .ok v
  | _, _, _ => False

theorem computes_read_of_embeds {J : Results → Prop} (he : b.Embeds n) {x : Descent}
    {r : Except Error (Option Tree)} (h : Computes J (b.fragment x n) r) :
    Computes J (b.read x n) r := by
  obtain ⟨prod, cs, hn⟩ := he.node
  obtain ⟨name, hname, _⟩ := bind_eq_ok.1 he.2.2
  refine computes_checked_bind hname (computes_record_bind _ ?_)
  refine computes_checked_bind hn ?_
  refine computes_checked_bind he.2.1 ?_
  exact computes_checked_bind he.2.2 h

/-- Images of the pattern below `n` are taken as without a session, and so is the fragment. -/
structure Mirroring (b : Builder) (e p : NodeId) (n : Nat) (x : Descent) : Prop where
  image : ∀ c < n, b.Reaches p c →
    Computes (AllKept (b.RightWithin e p)) (x.image c) (b.plain.image c)
  value : e < n →
    Computes (AllKept (b.RightWithin e p)) (x.value e) (Plain.fragment b b.plain e)

section Quotes

variable (hf : b.forest.Acyclic) {e p : Nat} (hq : b.Quotes e p) (hh : b.HoleFree p)
include hf hq hh

theorem mirroring_descend {x : Descent} (hn : n < b.forest.size) (h : b.Mirroring e p n x) :
    b.Mirroring e p (n + 1) (b.descend x) := by
  have hpe : p < e := hf.lt_of_pattern hq.2
  constructor
  · intro c hc hr
    have hlt : c < b.forest.size := by omega
    have hne : c ≠ e := Nat.ne_of_lt (Nat.lt_of_le_of_lt (hr.le hf) hpe)
    rw [(plain_eq hf hlt).2.2.2]
    refine computes_image (fun v => ?_) (fun d hd => ?_) fun q hole => ?_
    · constructor
      · rintro (⟨_, hv⟩ | ⟨he, _⟩)
        · exact hv
        · exact absurd he hne
      · exact fun hv => .inl ⟨hr, hv⟩
    · have hdc := Nat.lt_of_lt_of_le (mirrored_lt hf hd) (Nat.le_of_lt_succ hc)
      exact h.image d hdc (hr.tail hd)
    · exact absurd ((hh c hr).symm.trans hole) Bool.false_ne_true
  · intro he
    refine computes_read_of_embeds hq.1 (computes_fragment (fun v => ?_) fun p' hp' => ?_)
    · constructor
      · rintro (⟨hr, _⟩ | ⟨_, hv⟩)
        · exact absurd (hr.le hf) (Nat.not_le.2 hpe)
        · exact hv
      · exact fun hv => .inr ⟨rfl, hv⟩
    · cases hq.2.symm.trans hp'
      exact h.image p (Nat.lt_of_lt_of_le hpe (Nat.le_of_lt_succ he)) .refl

theorem computes_value_of_quotes :
    Computes (AllKept (b.RightWithin e p)) (b.value e) (Plain.fragment b b.plain e) := by
  have hlt : e + 1 ≤ b.forest.size := hq.1.lt
  have hl : e + 1 ≤ b.levelLimit := by
    unfold levelLimit
    omega
  have hd : e + 1 ≤ b.levelLimit * b.levelLimit := Nat.le_trans hl (Nat.le_mul_self _)
  have h : b.Mirroring e p (e + 1) (b.descent (b.levelLimit * b.levelLimit) b.levelLimit 0) := by
    refine descent_induction (Q := b.Mirroring e p) (fun x => ⟨nofun, nofun⟩)
      (fun m choose hs => ⟨?_, ?_⟩) (fun m x hm => mirroring_descend hf hq hh hm) hlt hd hl
    · exact fun c hc hr => computes_inSession_image fun s => (hs s).image c hc hr
    · exact fun he => computes_inSession_value fun s => (hs s).value he
  exact h.value (Nat.lt_succ_self e)

end Quotes

def settle (b : Builder) (p : NodeId) : Option Tree → Except Error (Option Tree)
  | none => .ok none
  | some tree =>
    if tree.cost.ambiguous then .error (.ambiguous p (b.forest.spanOf p))
    else .ok (some (tree.withCost { tree.cost with
      fragments := 1, fragmentSize := (b.forest.spanOf p).elim 0 (·.length) }))

/-- The value of a fragment whose pattern has the chosen image. -/
def fragmentOf (b : Builder) (p : NodeId) (c : Choice) : Tree :=
  (b.mirror c).withCost ⟨false, c.weight, 0, 1, (b.forest.spanOf p).elim 0 (·.length)⟩

variable {e p : Nat}

theorem fragment_eq_settle (hp : b.pattern? e = .ok (some p)) (hlt : p < b.forest.size) :
    Plain.fragment b y e = y.image p >>= b.settle p := by
  refine (mapError_bind_of_ok hp _ _).trans (bind_congr_ok fun tree? _ => ?_)
  cases tree? with
  | none => rfl
  | some tree => exact mapError_bind_of_ok (Forest.span_of_lt hlt) _ _

theorem settle_of_chooses {r : Option Tree} (h : b.Chooses p r) :
    ((∀ c, ¬ b.Admits p c) ∧ b.settle p r = .ok none) ∨
      (∃ c, Sole (b.Admits p) Choice.weight c ∧ b.settle p r = .ok (some (b.fragmentOf p c))) ∨
      ∃ c d, Tied (b.Admits p) Choice.weight c d ∧
        b.settle p r = .error (.ambiguous p (b.forest.spanOf p)) := by
  cases r with
  | none => exact .inl ⟨h.not_mem, rfl⟩
  | some t =>
    rw [Chooses, Option.map_some] at h
    generalize hc : t.cost = cost at h
    cases h with
    | @sole c h =>
      refine .inr (.inl ⟨c, h, ?_⟩)
      rw [settle, fragmentOf, hc]
      rfl
    | @tied c d h =>
      refine .inr (.inr ⟨c, d, h, ?_⟩)
      rw [settle, hc]
      rfl

/-- A fragment without anti-quotes has no value if its pattern has no image; its value is the
cheapest image if there is only one; and it is ambiguous if several images are the cheapest. -/
theorem value_of_quotes (hf : b.forest.Acyclic) (hg : b.forest.Grounded) (hq : b.Quotes e p)
    (hh : b.HoleFree p) (hc : b.CostsFit p) :
    ((b.value e).outcome .initial = .ok none ↔ ∀ c, ¬ b.Admits p c) ∧
      (∀ t, (b.value e).outcome .initial = .ok (some t) ↔
        ∃ c, Sole (b.Admits p) Choice.weight c ∧ t = b.fragmentOf p c) ∧
      ((b.value e).outcome .initial = .error (.ambiguous p (b.forest.spanOf p)) ↔
        ∃ c d, Tied (b.Admits p) Choice.weight c d) := by
  have hlt : p < b.forest.size := Nat.lt_trans (hf.lt_of_pattern hq.2) hq.1.lt
  obtain ⟨r, hr, hopt⟩ := optimum_image hf hg hh hc hlt .refl
  rw [(computes_value_of_quotes hf hq hh .initial allKept_empty).1, fragment_eq_settle hq.2 hlt,
    bind_of_ok hr]
  rcases settle_of_chooses hopt with ⟨h, hs⟩ | ⟨c, h, hs⟩ | ⟨c, d, h, hs⟩
  · rw [hs]
    refine ⟨⟨fun _ => h, fun _ => rfl⟩, fun t => ⟨nofun, ?_⟩, nofun, ?_⟩
    · rintro ⟨c, hc, _⟩
      exact absurd hc.mem (h c)
    · rintro ⟨c, d, ht⟩
      exact absurd ht.right (h d)
  · rw [hs]
    refine ⟨⟨nofun, fun hn => absurd h.mem (hn c)⟩, fun t => ⟨?_, ?_⟩, nofun, ?_⟩
    · intro ht
      cases ht
      exact ⟨c, h, rfl⟩
    · rintro ⟨d, hd, rfl⟩
      rw [h.unique hd.least]
    · rintro ⟨d, d', ht⟩
      exact absurd ht h.not_tied
  · rw [hs]
    refine ⟨⟨nofun, fun hn => absurd h.right (hn d)⟩, fun t => ⟨nofun, ?_⟩, fun _ => ⟨c, d, h⟩,
      fun _ => rfl⟩
    rintro ⟨c', hc', _⟩
    exact absurd h hc'.not_tied

def quotedList : Builder where
  forest := {
    grammar := ⟨"Quoted", [⟨.named .lexical "Id", none, [], true⟩,
      ⟨.named .sort "Expression", some "var", [.named .lexical "Id"], false⟩,
      ⟨.named .sort "Expression", some "pair", [.named .lexical "Id", .named .lexical "Id"], false⟩,
      ⟨.repeated .plus (.named .sort "Expression"), none, [.named .sort "Expression"], false⟩,
      ⟨.named .sort "Expression", some "block",
        [.repeated .plus (.named .sort "Expression")], false⟩,
      ⟨.named .sort "Expression", some "ConcreteQuoted", [.named .sort "Expression"], false⟩],
      by decide⟩
    entries := #[⟨.char 120, none⟩, ⟨.derivation 0 [0], none⟩, ⟨.derivation 1 [1], none⟩,
      ⟨.derivation 2 [1, 1], none⟩, ⟨.ambiguity [2, 3], none⟩, ⟨.list 3 [4, 4] false, none⟩,
      ⟨.derivation 4 [5], some ⟨0, 4⟩⟩, ⟨.derivation 5 [6], none⟩]
    source := "<input>"
    lines := none }
  registry := .empty
  conventions := .standard

theorem value_quotedList :
    let x := Tree.image "Expression" none (.token (.lexical 0 "x")) .zero
    let pair := Tree.image "Expression" none (.image (.derivation 2) [x, x]) .zero
    let list := Tree.image "Expression" none (.image (.list 3) [pair, pair]) (.ofInjections 1)
    ∃ c, Sole (quotedList.Admits 6) Choice.weight c ∧
      Tree.image "Expression" (some ⟨0, 4⟩) (.image (.derivation 4) [list]) ⟨false, 1, 0, 1, 4⟩ =
        quotedList.fragmentOf 6 c := by
  have fits : quotedList.CostsFit 6 :=
    costsFit_of_bound (fun m => if m ≤ 1 then 0 else if m ≤ 4 then 1 else m - 2)
      (by decide +kernel) (by decide +kernel) 6
  have free : quotedList.HoleFree 6 :=
    holeFree_of_closed [6, 5, 4, 2, 3, 1] (by decide) (by decide +kernel) (by decide +kernel)
  exact ((value_of_quotes (e := 7) (by decide +kernel) (by decide +kernel) (by decide +kernel) free
    fits).2.1 _).1 (by decide +kernel)

end Builder

end ParseForest
