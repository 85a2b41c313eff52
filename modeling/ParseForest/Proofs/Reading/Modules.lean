import ParseForest.Proofs.Reading.Simulation
import ParseForest.Proofs.Session.History

/-!
The two ways to ask for a module at a derivation. Both are the same unless the derivation is a start
wrapper: the general search looks for the module in the wrapper, but the entry for modules takes the
wrapper, which has the sort of what it wraps, for the module itself. Main statement:
`convertModule_of_derivation`.
-/

namespace ParseForest.Builder

open Build Success

variable {b : Builder} {root : NodeId} {prod : ProdId} {children : List NodeId} {p : Production}

theorem isRootOf_of_findRoot {sort : String} {nodes : List NodeId} {node : NodeId}
    (h : b.findRoot? sort nodes = .ok (some node)) : b.isRootOf sort node = .ok true := by
  induction nodes with
  | nil => cases h
  | cons next nodes ih =>
    obtain ⟨isLayout, -, h⟩ := bind_eq_ok.1 h
    cases isLayout with
    | true => exact ih h
    | false =>
      obtain ⟨isRoot, hr, h⟩ := bind_eq_ok.1 h
      cases isRoot with
      | true =>
        cases pure_eq_ok.1 h
        exact hr
      | false => exact ih h

/-- Does a start symbol wrap a module at the node? -/
def StartsModule (b : Builder) (root : NodeId) : Prop :=
  b.sortOf root = .ok b.conventions.moduleSort ∧
    b.forest.hasProduction root (·.defines.isStart) = .ok true

instance (b : Builder) (root : NodeId) : Decidable (b.StartsModule root) := by
  unfold StartsModule
  infer_instance

section Root

variable (hn : b.forest.node root = .ok (.derivation prod children))
include hn

theorem production?_of_derivation :
    b.forest.production? root = some <$> b.forest.grammar.production prod := by
  rw [Forest.production?, bind_of_ok hn]
  rfl

theorem sortName_of_derivation :
    b.forest.sortName root = (·.sortName) <$> b.forest.grammar.production prod := by
  rw [Forest.sortName, Forest.depthLimit, Forest.sortNameWithin, bind_of_ok hn]
  dsimp only
  rw [production?_of_derivation hn]
  cases b.forest.grammar.production prod <;> rfl

theorem sortName_of_production (hp : b.forest.grammar.production prod = .ok p) :
    b.forest.sortName root = .ok p.sortName := by
  rw [sortName_of_derivation hn, hp]
  rfl

theorem hasProduction_of_production (hp : b.forest.grammar.production prod = .ok p)
    (property : Production → Bool) : b.forest.hasProduction root property = .ok (property p) := by
  rw [Forest.hasProduction, production?_of_derivation hn, hp]
  rfl

theorem startsModule_iff (hp : b.forest.grammar.production prod = .ok p) :
    b.StartsModule root ↔
      b.conventions.sortName p.sortName = b.conventions.moduleSort ∧ p.defines.isStart = true := by
  rw [StartsModule, sortOf, sortName_of_derivation hn, Forest.hasProduction,
    production?_of_derivation hn, hp]
  simp [Functor.map, Except.map]

theorem sortOf_of_derivation (hp : b.forest.grammar.production prod = .ok p) :
    b.sortOf root = .ok (b.conventions.sortName p.sortName) := by
  rw [sortOf, sortName_of_production hn hp]
  rfl

theorem exists_production {sort : String} (h : b.sortOf root = .ok sort) :
    ∃ p, b.forest.grammar.production prod = .ok p := by
  cases hp : b.forest.grammar.production prod with
  | ok p => exact ⟨p, rfl⟩
  | error breach =>
    rw [sortOf, sortName_of_derivation hn, hp] at h
    cases h

theorem sortOf_of_missing {breach : Breach}
    (hp : b.forest.grammar.production prod = .error breach) : b.sortOf root = .error breach := by
  rw [sortOf, sortName_of_derivation hn, hp]
  rfl

theorem isLexical_of_derivation (hp : b.forest.grammar.production prod = .ok p) :
    b.forest.isLexical root = .ok p.isLexical := by
  have hd : b.forest.isDerivation root = .ok true := map_eq_ok.2 ⟨_, hn, rfl⟩
  rw [Forest.isLexical, bind_of_ok hd]
  exact hasProduction_of_production hn hp _

theorem constructor?_of_derivation (hp : b.forest.grammar.production prod = .ok p) :
    b.forest.constructor? root = .ok p.constructor := by
  rw [Forest.constructor?, production?_of_derivation hn, hp]
  rfl

theorem isEmbedding_of_unnamed (hp : b.forest.grammar.production prod = .ok p)
    (hname : p.constructor = none) : b.isEmbedding root = .ok false := by
  have hnone : b.forest.constructor? root = .ok none := hname ▸ constructor?_of_derivation hn hp
  rw [isEmbedding, bind_of_ok (sortName_of_production hn hp), hnone]
  split <;> rfl

theorem constructorOf_of_unnamed (hp : b.forest.grammar.production prod = .ok p)
    (hname : p.constructor = none) :
    b.constructorOf root = defect (.unnamedProduction root (some p)) := by
  have hprod : b.forest.production? root = .ok (some p) := by
    rw [production?_of_derivation hn, hp]
    rfl
  rw [constructorOf, checked_bind_of_ok (constructor?_of_derivation hn hp), hname]
  exact checked_bind_of_ok hprod _

theorem read_of_derivation (hp : b.forest.grammar.production prod = .ok p)
    (hlexical : p.isLexical = false) (hapart : b.isEmbedding root = .ok false)
    (below : Descent) :
    b.read below root = record (.enter root p.sortName) >>= fun _ => b.derivation below root := by
  have hlex : b.forest.isLexical root = .ok false := hlexical ▸ isLexical_of_derivation hn hp
  rw [read, checked_bind_of_ok (sortName_of_production hn hp)]
  refine bind_congr fun _ => ?_
  rw [checked_bind_of_ok hn]
  dsimp only
  rw [checked_bind_of_ok hlex, if_neg Bool.false_ne_true, checked_bind_of_ok hapart,
    if_neg Bool.false_ne_true]

theorem computes_value_of_unnamed (hp : b.forest.grammar.production prod = .ok p)
    (hname : p.constructor = none) (hlexical : p.isLexical = false) :
    Computes (·.get? (.derivations, root) = none) (b.value root)
      (.error (.defect (.unnamedProduction root (some p)))) := by
  refine computes_value_of_read fun below => ?_
  rw [read_of_derivation hn hp hlexical (isEmbedding_of_unnamed hn hp hname)]
  refine computes_record_bind _ (computes_once (fun t v ht hv => ?_) (fun t v _ h => nomatch h) ?_)
  · cases ht.symm.trans hv
  · rw [constructorOf_of_unnamed hn hp hname]
    exact yields_bind (computes_throw _) nofun fun _ h => congrArg _ (Except.error.inj h)

theorem convertModule_of_startsModule (h : b.StartsModule root) :
    b.convertModule root = b.valueAt b.conventions.moduleSort root := by
  have hentry : b.convertModule root = b.convertModuleAt root root := checked_bind_of_ok hn _
  rw [hentry, convertModuleAt, checked_bind_of_ok h.1, if_pos (beq_self_eq_true _)]

theorem convertModule_of_not_startsModule
    (hpre : b.sortOf root ≠ .ok b.conventions.preModuleSort) (h : ¬ b.StartsModule root) :
    b.convertModule root = b.convert b.conventions.moduleSort root := by
  have hentry : b.convertModule root = b.convertModuleAt root root := checked_bind_of_ok hn _
  rw [hentry, convertModuleAt, convert, Forest.depthLimit, convertWithin, checked_bind_of_ok hn]
  dsimp only
  cases hp : b.forest.grammar.production prod with
  | error breach =>
    rw [sortOf_of_missing hn hp]
    rfl
  | ok p =>
    have hsort := sortOf_of_derivation hn hp
    rw [startsModule_iff hn hp] at h
    rw [checked_bind_of_ok hsort, checked_bind_of_ok hsort]
    by_cases hmodule : b.conventions.sortName p.sortName = b.conventions.moduleSort
    · have hplain : p.defines.isStart = false := Bool.eq_false_iff.2 fun hs => h ⟨hmodule, hs⟩
      rw [checked_bind_of_ok rfl, if_pos (beq_iff_eq.2 hmodule),
        if_pos (by simp [hmodule, hplain]), hmodule]
    · have hheader : b.conventions.sortName p.sortName ≠ b.conventions.preModuleSort :=
        fun he => hpre (hsort.trans (congrArg _ he))
      rw [checked_bind_of_ok rfl, if_neg (by simp [hmodule]), if_neg (by simp [hheader]),
        if_neg (by simp [hmodule])]

theorem convert_of_startsModule (h : b.StartsModule root) {inner : NodeId}
    (hinner : b.findRoot? b.conventions.moduleSort children = .ok (some inner))
    {prod' : ProdId} {children' : List NodeId}
    (hi : b.forest.node inner = .ok (.derivation prod' children'))
    (hplain : ¬ b.StartsModule inner) :
    b.convert b.conventions.moduleSort root = b.valueAt b.conventions.moduleSort inner := by
  have hsort : b.sortOf inner = .ok b.conventions.moduleSort := by
    obtain ⟨node, hnode, hroot⟩ := bind_eq_ok.1 (isRootOf_of_findRoot hinner)
    cases hi.symm.trans hnode
    obtain ⟨sort, hsort, hroot⟩ := bind_eq_ok.1 hroot
    rw [hsort, beq_iff_eq.1 (pure_eq_ok.1 hroot)]
  obtain ⟨p, hp⟩ := exists_production hn h.1
  obtain ⟨p', hp'⟩ := exists_production hi hsort
  have hstart : p.defines.isStart = true := ((startsModule_iff hn hp).1 h).2
  have hbare : p'.defines.isStart = false :=
    Bool.eq_false_iff.2 fun hs => hplain ⟨hsort, by
      rw [Forest.hasProduction, production?_of_derivation hi, hp']
      exact congrArg _ hs⟩
  have hambiguity : b.forest.isAmbiguity inner = .ok false := map_eq_ok.2 ⟨_, hi, rfl⟩
  -- The forest has a node, so there are levels for the wrapper and for what it wraps.
  obtain ⟨depth, hdepth⟩ : ∃ depth, b.forest.depthLimit = depth + 2 := by
    obtain ⟨hlt, -⟩ := Forest.node_eq_ok.1 hn
    exact Nat.exists_eq_add_of_le' (Nat.succ_le_succ (Nat.zero_lt_of_lt hlt))
  rw [convert, hdepth, convertWithin, checked_bind_of_ok hn]
  dsimp only
  rw [checked_bind_of_ok h.1, checked_bind_of_ok hp, if_neg (by simp [hstart]),
    checked_bind_of_ok hinner]
  dsimp only
  rw [checked_bind_of_ok hambiguity, if_neg Bool.false_ne_true, convertWithin,
    checked_bind_of_ok hi]
  dsimp only
  rw [checked_bind_of_ok hsort, checked_bind_of_ok hp', if_pos (by simp [hbare])]

/-- The two differ at start wrappers only: there the general search gives the module inside, and the
entry for modules asks for the value of the wrapper, which has no constructor to be built with. -/
theorem convertModule_of_derivation (hpre : b.sortOf root ≠ .ok b.conventions.preModuleSort) :
    (¬ b.StartsModule root →
      b.convertModule root = b.convert b.conventions.moduleSort root) ∧
    (b.StartsModule root →
      (∀ inner prod' children',
        b.findRoot? b.conventions.moduleSort children = .ok (some inner) →
        b.forest.node inner = .ok (.derivation prod' children') → ¬ b.StartsModule inner →
          b.convert b.conventions.moduleSort root =
            b.valueAt b.conventions.moduleSort inner) ∧
      b.convertModule root = b.valueAt b.conventions.moduleSort root ∧
      ∀ p, b.forest.grammar.production prod = .ok p → p.constructor = none →
        p.isLexical = false → ∀ s : Session, s.kept? .derivations root = none →
          (b.convertModule root).outcome s =
            .error (.defect (.unnamedProduction root (some p)))) := by
  refine ⟨convertModule_of_not_startsModule hn hpre, fun h => ⟨?_, ?_, ?_⟩⟩
  · intro inner prod' children' hinner hi hplain
    exact convert_of_startsModule hn h hinner hi hplain
  · exact convertModule_of_startsModule hn h
  · intro p hp hname hlexical s hs
    have hvalue := computes_value_of_unnamed hn hp hname hlexical s hs
    rw [convertModule_of_startsModule hn h, valueAt, outcome_bind, hvalue.1]

end Root

def wrappedModule : Builder where
  forest := {
    grammar := ⟨"Modules", [⟨.named .layout "LAYOUT", none, [], false⟩,
      ⟨.named .lexical "Id", none, [], true⟩,
      ⟨.named .sort "Module", some "default", [.named .lexical "Id"], false⟩,
      ⟨.start (.named .sort "Module"), none,
        [.named .layout "LAYOUT", .named .sort "Module", .named .layout "LAYOUT"], false⟩],
      by decide⟩
    entries := #[⟨.char 32, none⟩, ⟨.derivation 0 [0], none⟩, ⟨.char 120, none⟩,
      ⟨.derivation 1 [2], none⟩, ⟨.derivation 2 [3], none⟩, ⟨.derivation 3 [1, 4, 1], none⟩]
    source := "<input>"
    lines := none }
  registry := (Registry.empty.define ⟨"Id", true, []⟩).define
    ⟨"Module", false, [("Default", [.node])]⟩
  conventions := .standard

theorem convertModule_of_derivation_wrappedModule :
    wrappedModule.sortOf 5 ≠ .ok wrappedModule.conventions.preModuleSort ∧
    wrappedModule.StartsModule 5 ∧
    wrappedModule.convert "Module" 5 = wrappedModule.valueAt "Module" 4 ∧
    wrappedModule.convertModule 5 = wrappedModule.valueAt "Module" 5 ∧
    ∀ p, wrappedModule.forest.grammar.production 3 = .ok p →
      (wrappedModule.convertModule 5).outcome .initial =
        .error (.defect (.unnamedProduction 5 (some p))) := by
  have hn : wrappedModule.forest.node 5 = .ok (.derivation 3 [1, 4, 1]) := by decide +kernel
  have hpre : wrappedModule.sortOf 5 ≠ .ok wrappedModule.conventions.preModuleSort := by
    decide +kernel
  have hstart : wrappedModule.StartsModule 5 := by decide +kernel
  obtain ⟨hsearch, hentry, hfails⟩ := (convertModule_of_derivation hn hpre).2 hstart
  refine ⟨hpre, hstart, ?_, hentry, ?_⟩
  · exact hsearch 4 2 [3] (by decide +kernel) (by decide +kernel) (by decide +kernel)
  · rintro p ⟨⟩
    exact hfails _ rfl rfl rfl .initial rfl

/-- The general search finds the module in the wrapper; the entry for modules fails. -/
theorem wrapped_module_is_missed :
    let x : Tree := ⟨"Id", "Lexical", none, .zero, .lexical "x"⟩
    wrappedModule.forest.node 5 = .ok (.derivation 3 [1, 4, 1]) ∧
    wrappedModule.sortOf 5 ≠ .ok wrappedModule.conventions.preModuleSort ∧
    (wrappedModule.convert wrappedModule.conventions.moduleSort 5).outcome .initial =
      .ok ⟨"Module", "Default", none, .zero, .application [.node x]⟩ ∧
    (wrappedModule.convertModule 5).outcome .initial =
      .error (.defect (.unnamedProduction 5 (some ⟨.start (.named .sort "Module"), none,
        [.named .layout "LAYOUT", .named .sort "Module", .named .layout "LAYOUT"], false⟩))) := by
  decide +kernel

end ParseForest.Builder
