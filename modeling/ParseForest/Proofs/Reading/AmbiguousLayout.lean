import ParseForest.Proofs.Reading.Faults

/-!
Clusters of layout. Layout is told by the production of a node, and a cluster has none, so a
cluster of layout derivations is no layout: it becomes an argument of its parent, and in a list it
takes the place of an element or of a separator. Its value is that of its alternatives, and layout
has no constructor to build one with. Main statement: `outcome_of_ambiguous_layout`.
-/

namespace ParseForest

open Build Success Checked

section Stepping

variable {α : Type} {gap : Nat} {as bs : List α}

theorem everyAfter_of_element (h : as.length % (gap + 1) = 0) (a : α) :
    everyAfter gap 0 (as ++ a :: bs) = everyAfter gap 0 as ++ a :: everyAfter gap gap bs := by
  have hmod : 0 + as.length ≡ 0 [MOD gap + 1] := by
    rw [Nat.zero_add]
    exact h
  exact everyAfter_append (Nat.zero_le _) (Nat.zero_le _) hmod

/-- What stands where a separator is expected counts as one, whatever it is. -/
theorem everyAfter_of_separator (h : as.length % (gap + 1) ≠ 0) (a : α) :
    everyAfter gap 0 (as ++ a :: bs) =
      everyAfter gap 0 as ++ everyAfter gap (gap - as.length % (gap + 1)) bs := by
  have hlt : as.length % (gap + 1) < gap + 1 := Nat.mod_lt _ (Nat.succ_pos gap)
  -- The step over `a` and those that are left after it lead from `as` to the next element.
  have hmod : gap - as.length % (gap + 1) + 1 + as.length ≡ 0 [MOD gap + 1] := by
    have hdiv := Nat.div_add_mod as.length (gap + 1)
    refine (Nat.modEq_zero_iff_dvd).2 ⟨as.length / (gap + 1) + 1, ?_⟩
    rw [Nat.mul_add]
    omega
  exact everyAfter_append (Nat.zero_le _) (by omega) hmod

theorem Checked.filter_append {property : α → Checked Bool} {as' bs' : List α}
    (has : Checked.filter property as = .ok as') (hbs : Checked.filter property bs = .ok bs') :
    Checked.filter property (as ++ bs) = .ok (as' ++ bs') := by
  induction as generalizing as' with
  | nil =>
    cases has
    exact hbs
  | cons a as ih =>
    obtain ⟨holds, hholds, has⟩ := bind_eq_ok.1 has
    obtain ⟨rest, hrest, has⟩ := bind_eq_ok.1 has
    rw [List.cons_append, Checked.filter, bind_of_ok hholds, bind_of_ok (ih hrest)]
    cases pure_eq_ok.1 has
    cases holds <;> rfl

end Stepping

/-- The cluster is one of layout: all its alternatives are derivations of layout. -/
def Forest.AmbiguousLayout (f : Forest) (c : NodeId) : Prop :=
  ∃ first rest, f.node c = .ok (.ambiguity (first :: rest)) ∧
    ∀ a ∈ first :: rest, f.isDerivation a = .ok true ∧ f.isLayout a = .ok true

/-- Layout has no constructors and is not marked as tokens. -/
def Grammar.PlainLayout (g : Grammar) : Prop :=
  ∀ p ∈ g.productions, p.isLayout = true → p.constructor = none ∧ p.lexical = false

instance (g : Grammar) : Decidable g.PlainLayout := by
  unfold Grammar.PlainLayout
  infer_instance

theorem Symbol.not_isLexical_of_isLayout {s : Symbol} (h : s.isLayout = true) :
    s.isLexical = false := by
  rw [isLayout] at h
  rw [isLexical]
  match s.unlabelled, h with
  | .named .layout _, _ => rfl

namespace Builder

variable {b : Builder} {c : NodeId}

section Cluster

variable (hc : b.forest.AmbiguousLayout c)
include hc

theorem isLayout_of_cluster : b.forest.isLayout c = .ok false := by
  obtain ⟨first, rest, hn, -⟩ := hc
  rw [Forest.isLayout, Forest.hasProduction, Forest.production?, bind_of_ok hn]
  rfl

theorem isArgument_of_cluster : b.isArgument c = .ok true := by
  have hlayout := isLayout_of_cluster hc
  obtain ⟨first, rest, hn, -⟩ := hc
  have hprod (property : Production → Bool) : b.forest.hasProduction c property = .ok false := by
    rw [Forest.hasProduction, Forest.production?, bind_of_ok hn]
    rfl
  have hliteral : b.forest.isLiteral c = .ok false := by
    rw [Forest.isLiteral, bind_of_ok hn]
    rfl
  have hnoise : b.isNoise c = .ok false := by
    rw [isNoise, bind_of_ok hliteral, if_neg Bool.false_ne_true, Forest.isEmptyNode,
      bind_of_ok (hprod _), if_neg Bool.false_ne_true]
    exact hprod _
  rw [isArgument, bind_of_ok hlayout, if_neg Bool.false_ne_true, hnoise]
  rfl

theorem faulty_of_cluster (hf : b.forest.WellBuilt) (hg : b.forest.grammar.PlainLayout) :
    ∃ first p, b.Faulty c (.unnamedProduction first (some p)) := by
  obtain ⟨first, rest, hn, halts⟩ := hc
  obtain ⟨hderivation, hlayout⟩ := halts first List.mem_cons_self
  obtain ⟨n, hfirst, hderivation⟩ := map_eq_ok.1 hderivation
  cases n with
  | derivation prod cs =>
    obtain ⟨p, hp⟩ := hf.grammar_production hfirst rfl
    rw [Forest.isLayout, hasProduction_of_production hfirst hp] at hlayout
    have hlayout : p.isLayout = true := Except.ok.inj hlayout
    have hmem : p ∈ b.forest.grammar.productions :=
      List.mem_of_getElem? (Grammar.production_eq_ok.1 hp)
    obtain ⟨hname, hlexical⟩ := hg p hmem hlayout
    have hlexical : p.isLexical = false := by
      rw [Production.isLexical, hlexical]
      exact Symbol.not_isLexical_of_isLayout hlayout
    exact ⟨first, p, .first hn (.unnamed hfirst hp hlexical hname)⟩
  | _ => cases hderivation

end Cluster

section WellBuilt

variable (hf : b.forest.WellBuilt)
include hf

theorem exists_arguments_of_cluster (hc : b.forest.AmbiguousLayout c) {id : NodeId} {prod : ProdId}
    {before after ns : List NodeId}
    (hn : b.forest.node id = .ok (.derivation prod (before ++ c :: after)))
    (hns : Checked.filter b.isArgument before = .ok ns) :
    ∃ ms, Checked.filter b.isArgument (before ++ c :: after) = .ok (ns ++ c :: ms) := by
  have hafter : Succeeds (Checked.filter b.isArgument after) := by
    apply succeeds_filter
    intro a ha
    apply hf.isArgument
    exact hf.child_lt hn (List.mem_append_right _ (List.mem_cons_of_mem _ ha))
  obtain ⟨ms, hms⟩ := hafter
  have hcs : Checked.filter b.isArgument (c :: after) = .ok (c :: ms) := by
    rw [Checked.filter, bind_of_ok (isArgument_of_cluster hc), bind_of_ok hms]
    rfl
  exact ⟨ms, Checked.filter_append hns hcs⟩

/-- A cluster of layout among the children of a derivation is an argument, which makes it fail
unless an argument in front has done so or was filtered out. Among the members of a list it makes
the list fail where an element is expected. Where a separator is expected it is passed over as if
it was one, so the elements behind it are looked for one place too early. -/
theorem outcome_of_ambiguous_layout (hg : b.forest.grammar.PlainLayout)
    (hc : b.forest.AmbiguousLayout c) (calls : List Call) :
    let s := b.sessionAfter calls
    b.isArgument c = .ok true ∧ b.forest.isLayout c = .ok false ∧ ∃ d, b.Faulty c d ∧
    (∀ id before after ns, b.Applies id (before ++ c :: after) →
      s.kept? .derivations id = none → Checked.filter b.isArgument before = .ok ns →
      (b.value id).outcome s = match (b.applyTo b.reading [] .zero ns).outcome s with
        | .ok (some _) => .error (.defect d)
        | .ok none => .ok none
        | .error e => .error e) ∧
    ∀ id prod p before after isPartial,
      b.forest.node id = .ok (.list prod (before ++ c :: after) isPartial) →
      b.forest.grammar.production prod = .ok p →
      let gap := p.defines.visibleSeparators.length
      let shown := b.forest.showing before
      let elements := everyAfter gap 0 shown
      let beyond := shown.length % (gap + 1)
      (beyond = 0 → (b.reading.run id).outcome s = match (b.gather elements).outcome s with
        | .ok (some _) => .error (.defect d)
        | r => r) ∧
      (beyond ≠ 0 → (b.reading.run id).outcome s =
        (b.gather (elements ++ everyAfter gap (gap - beyond) (b.forest.showing after))).outcome
          s) := by
  intro s
  have hlayout : b.forest.isLayout c = .ok false := isLayout_of_cluster hc
  have hs : b.Unkept s.results := unkept_sessionAfter hf calls
  obtain ⟨first, q, hfaulty⟩ := faulty_of_cluster hc hf hg
  refine ⟨isArgument_of_cluster hc, hlayout, _, hfaulty, ?_, ?_⟩
  · intro id before after ns hid hnew hns
    obtain ⟨prod, p, hn, -⟩ := hid.exists_production
    obtain ⟨ms, hms⟩ := exists_arguments_of_cluster hf hc hn hns
    exact outcome_value_of_faulty hf hfaulty hs hid hms hnew
  · intro id prod p before after isPartial hid hp gap shown elements beyond
    have hshown : b.forest.showing (before ++ c :: after) = shown ++ c :: b.forest.showing after :=
      Forest.showing_append_cons (by rw [Forest.isLayoutAt, hlayout]) before after
    have hrun := outcome_run_of_list hf hp hid s
    rw [hshown] at hrun
    constructor
    · intro hbeyond
      rw [hrun, everyAfter_of_element hbeyond]
      exact outcome_gather_of_faulty hf hfaulty hs elements _
    · intro hbeyond
      rw [hrun, everyAfter_of_separator hbeyond]

end WellBuilt

/-- Parents of two tokens with the node between them, which is layout or a cluster of layout: a
pair, a row that has an operator behind the node, and a block. -/
def parted (between : NodeId) : Builder where
  forest :=
    let token : Production := ⟨.named .lexical "Id", none, [], true⟩
    let layout : Production := ⟨.named .layout "LAYOUT", none, [], false⟩
    let operator : Production := ⟨.named .lexical "Op", none, [], true⟩
    let chain : Production :=
      ⟨.separated .star token.defines [layout.defines, operator.defines], none, [], false⟩
    let list : Production := ⟨.repeated .star token.defines, none, [], false⟩
    let pair : Production :=
      ⟨.named .sort "Exp", some "pair", [token.defines, layout.defines, token.defines], false⟩
    let row : Production := ⟨.named .sort "Exp", some "row", [chain.defines], false⟩
    let block : Production := ⟨.named .sort "Exp", some "block", [list.defines], false⟩
    ((Site.new ⟨"Parts", [token, layout, operator, chain, list, pair, row, block], by decide⟩).after
      [.char 120, .derivation [0] 0, .char 121, .derivation [2] 0, .char 32, .derivation [4] 1,
        .derivation [5] 1, .ambiguity [5, 6], .char 43, .derivation [8] 2,
        .derivation [1, between, 3] 5, .list [1, between, 9, 3] 3, .derivation [11] 6,
        .list [1, between, 3] 4, .derivation [13] 7]).forest
  registry := ((Registry.empty.define ⟨"Id", true, []⟩).define ⟨"Op", true, []⟩).define
    ⟨"Exp", false, [("Pair", [.node, .node]), ("Row", [.list]), ("Block", [.list])]⟩
  conventions := .standard

theorem outcome_of_ambiguous_layout_parted :
    let b := parted 7
    let x : Tree := ⟨"Id", "Lexical", none, .zero, .lexical "x"⟩
    let plus : Tree := ⟨"Op", "Lexical", none, .zero, .lexical "+"⟩
    let s := b.sessionAfter [.value 3]
    b.forest.AmbiguousLayout 7 ∧ b.Applies 10 [1, 7, 3] ∧
      (∃ d, b.Faulty 7 d ∧ (b.value 10).outcome s = .error (.defect d) ∧
        (b.reading.run 13).outcome s = .error (.defect d)) ∧
      (b.reading.run 11).outcome s = .ok (some [x, plus]) := by
  intro b x plus s
  let pair : Production := ⟨.named .sort "Exp", some "pair",
    [.named .lexical "Id", .named .layout "LAYOUT", .named .lexical "Id"], false⟩
  let list : Production := ⟨.repeated .star (.named .lexical "Id"), none, [], false⟩
  let chain : Production := ⟨.separated .star (.named .lexical "Id")
    [.named .layout "LAYOUT", .named .lexical "Op"], none, [], false⟩
  have hf : b.forest.WellBuilt := Site.wellBuilt_after (by decide +kernel)
  have hc : b.forest.AmbiguousLayout 7 := ⟨5, [6], by decide +kernel, by decide +kernel⟩
  have hid : b.Applies 10 [1, 7, 3] :=
    ⟨⟨5, pair, by decide +kernel, by decide +kernel, rfl, rfl, by decide +kernel⟩,
      by decide +kernel⟩
  obtain ⟨-, -, d, hd, hderivation, hlists⟩ :=
    outcome_of_ambiguous_layout hf (by decide +kernel) hc [.value 3]
  have hpair := hderivation 10 [1] [3] [1] hid (by decide +kernel) (by decide +kernel)
  obtain ⟨hbetween, -⟩ := hlists 13 4 list [1] [3] false (by decide +kernel) (by decide +kernel)
  obtain ⟨-, hbeside⟩ := hlists 11 3 chain [1] [9, 3] false (by decide +kernel) (by decide +kernel)
  have hbuilt : ((b.applyTo b.reading [] .zero [1]).outcome s).toOption.join.isSome = true := by
    decide +kernel
  have hfails : (b.value 10).outcome s = .error (.defect d) := by
    refine hpair.trans ?_
    generalize (b.applyTo b.reading [] .zero [1]).outcome s = r at hbuilt
    match r, hbuilt with
    | .ok (some _), _ => rfl
  have hgathered : (b.gather (everyAfter list.defines.visibleSeparators.length 0
      (b.forest.showing [1]))).outcome s = .ok (some [x]) := by
    decide +kernel
  have hshifted : (b.reading.run 11).outcome s = .ok (some [x, plus]) := by
    refine (hbeside (by decide +kernel)).trans ?_
    decide +kernel
  have hblock : (b.reading.run 13).outcome s = .error (.defect d) := by
    refine (hbetween (by decide +kernel)).trans ?_
    rw [hgathered]
  exact ⟨hc, hid, ⟨d, hd, hfails, hblock⟩, hshifted⟩

/-- Where the parents should be built as if the layout between the tokens was clear. -/
theorem ambiguous_layout_counts :
    let x : Tree := ⟨"Id", "Lexical", none, .zero, .lexical "x"⟩
    let y : Tree := ⟨"Id", "Lexical", none, .zero, .lexical "y"⟩
    let plus : Tree := ⟨"Op", "Lexical", none, .zero, .lexical "+"⟩
    let d : Defect :=
      .unnamedProduction 5 (some ⟨.named .layout "LAYOUT", none, [], false⟩)
    ((parted 5).value 10).outcome .initial =
        .ok (some ⟨"Exp", "Pair", none, .zero, .application [.node x, .node y]⟩) ∧
      ((parted 7).value 10).outcome .initial = .error (.defect d) ∧
      ((parted 5).value 12).outcome .initial =
        .ok (some ⟨"Exp", "Row", none, .zero, .application [.list [x, y]]⟩) ∧
      ((parted 7).value 12).outcome .initial =
        .ok (some ⟨"Exp", "Row", none, .zero, .application [.list [x, plus]]⟩) ∧
      ((parted 5).value 14).outcome .initial =
        .ok (some ⟨"Exp", "Block", none, .zero, .application [.list [x, y]]⟩) ∧
      ((parted 7).value 14).outcome .initial = .error (.defect d) := by
  decide +kernel

end Builder

end ParseForest
