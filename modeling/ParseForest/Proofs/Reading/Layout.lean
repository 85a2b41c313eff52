import ParseForest.Proofs.Forest.Layout
import ParseForest.Proofs.Forest.Queries
import ParseForest.Proofs.Fragment.Quotation
import ParseForest.Proofs.Session.Outcome

/-!
Layout does not matter to a reading without quoted fragments: forests that are the same but for the
layout outside of tokens have the same values and the same roots, and leave the same sessions. Only
the children that an error spells out are those of the forest at hand. Main statement:
`layout_does_not_matter`.
-/

namespace ParseForest

open Build Success

/-- The error without the children that it spells out. -/
def Error.bare : Error → Error
  | defect (.notRoot node sort content) => defect (.notRoot node sort content.bare)
  | e => e

namespace Builder

/-- The same registry and conventions for another forest. -/
def onto (b : Builder) (g : Forest) : Builder := { b with forest := g }

variable {b : Builder} {g : Forest}

@[simp] theorem onto_forest : (b.onto g).forest = g := rfl

@[simp] theorem onto_registry : (b.onto g).registry = b.registry := rfl

@[simp] theorem onto_conventions : (b.onto g).conventions = b.conventions := rfl

variable (h : b.forest.SameButLayout g)

section Selection

include h

theorem isNoise_onto : (b.onto g).isNoise = b.isNoise := by
  funext id
  simp only [isNoise, onto_forest, onto_conventions, h.isLiteral, h.isEmptyNode, h.hasProduction]

theorem isArgument_onto : (b.onto g).isArgument = b.isArgument := by
  funext id
  rw [isArgument, isNoise_onto h, isArgument]
  simp only [onto_forest, h.isLayout]

theorem arguments_onto (id : NodeId) : (b.onto g).arguments id = b.arguments id := by
  rw [arguments, isArgument_onto h]
  refine h.filter_children (fun c hc => ?_) id
  rw [isArgument, bind_of_ok hc]
  rfl

theorem visibleChildren_onto (id : NodeId) :
    (b.onto g).visibleChildren id = b.visibleChildren id := by
  have hlayout : g.isLayout = b.forest.isLayout := funext h.isLayout
  simp only [visibleChildren, onto_forest, hlayout]
  refine h.filter_children (fun c hc => ?_) id
  rw [hc]
  rfl

theorem elements_onto (id : NodeId) : (b.onto g).elements id = b.elements id := by
  rw [elements, visibleChildren_onto h, elements]
  simp only [onto_forest, h.production?]

theorem sortOf_onto (id : NodeId) : (b.onto g).sortOf id = b.sortOf id := by
  simp only [sortOf, onto_forest, onto_conventions, h.sortName]

theorem sortKey_onto (id : NodeId) : (b.onto g).sortKey id = b.sortKey id := by
  simp only [sortKey, onto_forest, onto_conventions, h.sortName]

theorem isEmbedding_onto (id : NodeId) : (b.onto g).isEmbedding id = b.isEmbedding id := by
  simp only [isEmbedding, onto_forest, onto_conventions, h.sortName, h.constructor?]

theorem constructorOf_onto (id : NodeId) : (b.onto g).constructorOf id = b.constructorOf id := by
  simp only [constructorOf, onto_forest, h.constructor?, h.production?]

theorem token_onto {id : NodeId} (hl : b.forest.isLexical id = .ok true) :
    (b.onto g).token id = b.token id := by
  rw [token, sortKey_onto h, token]
  simp only [onto_forest, onto_registry, h.span, h.yieldText hl]

end Selection

/-- The two descents read nodes the same, images aside. -/
structure Alike (x y : Descent) : Prop where
  value : y.value = x.value
  run : y.run = x.run
  choice : y.choice = x.choice

section Below

variable {x y : Descent} (hxy : Alike x y)
include h hxy

theorem part_onto : (b.onto g).part y = b.part x := by
  funext id
  simp only [part, onto_forest, h.slot, hxy.value, hxy.run, hxy.choice]

theorem run_onto : (b.onto g).run y = b.run x := by
  funext id
  rw [run, elements_onto h, part_onto h hxy, run]

omit h in
theorem offerRuns_onto (alts : List NodeId) (s : Survivors (List Tree)) :
    offerRuns y alts s = offerRuns x alts s := by
  induction alts generalizing s with
  | nil => rfl
  | cons alt alts ih => simp only [offerRuns, hxy.run, ih]

theorem choice_onto : (b.onto g).choice y = b.choice x := by
  funext id
  simp only [choice, onto_forest, h.alternatives, h.span, offerRuns_onto hxy]

theorem argument_onto : (b.onto g).argument y = b.argument x := by
  funext id
  simp only [argument, onto_forest, h.slot, hxy.value, hxy.run, hxy.choice]

theorem applyTo_onto (cs : List NodeId) (args : List (Arg Tree)) (total : Cost) :
    (b.onto g).applyTo y args total cs = b.applyTo x args total cs := by
  induction cs generalizing args total with
  | nil => rfl
  | cons c cs ih => simp only [applyTo, argument_onto h hxy, ih]

theorem derivation_onto (id : NodeId) : (b.onto g).derivation y id = b.derivation x id := by
  rw [derivation, constructorOf_onto h, sortKey_onto h, arguments_onto h, derivation]
  simp only [applyTo_onto h hxy, onto_forest, onto_registry, h.span]

omit h in
theorem offerValues_onto (alts : List NodeId) (s : Survivors Tree) (e : Option Error) :
    offerValues y alts s e = offerValues x alts s e := by
  induction alts generalizing s e with
  | nil => rfl
  | cons alt alts ih => simp only [offerValues, hxy.value, ih]

theorem cluster_onto (id : NodeId) : (b.onto g).cluster y id = b.cluster x id := by
  rw [cluster, sortKey_onto h, cluster]
  simp only [onto_forest, onto_registry, h.alternatives, h.span, offerValues_onto hxy]

theorem read_onto (hu : b.Unquoted) : (b.onto g).read y = b.read x := by
  funext id
  rw [read, read]
  simp only [onto_forest, h.sortName]
  refine congrArg (_ >>= ·) (funext fun sort => congrArg (_ >>= ·) (funext fun _ => ?_))
  obtain ⟨n, m, hf, hg, ha⟩ | ⟨breach, hf, hg⟩ := h.node_cases id
  · rw [checked_bind_of_ok hf, checked_bind_of_ok hg]
    have derived (prod : ProdId) (cs : List NodeId)
        (hn : b.forest.node id = .ok (.derivation prod cs)) :
        (do
          if ← g.isLexical id then (b.onto g).token id
          else if ← (b.onto g).isEmbedding id then (b.onto g).fragment y id
          else (b.onto g).derivation y id : Build (Option Tree)) = (do
          if ← b.forest.isLexical id then b.token id
          else if ← b.isEmbedding id then b.fragment x id
          else b.derivation x id) := by
      rw [h.isLexical, isEmbedding_onto h, derivation_onto h hxy]
      cases hl : b.forest.isLexical id with
      | error _ => rfl
      | ok isLexical =>
        cases isLexical with
        | true => exact token_onto h hl
        | false =>
          cases he : b.isEmbedding id with
          | error _ => rfl
          | ok isEmbedding =>
            cases isEmbedding with
            | true => exact absurd (embeds_of_node hn hl he) (hu id)
            | false => rfl
    cases ha with
    | same =>
      cases n with
      | derivation prod cs => exact derived prod cs hf
      | ambiguity => exact cluster_onto h hxy id
      | _ => rfl
    | derivation prod => exact derived prod _ hf
    | list => rfl
  · rw [hf, hg]
    rfl

theorem alike_descend (hu : b.Unquoted) : Alike (b.descend x) ((b.onto g).descend y) :=
  ⟨read_onto h hxy hu, run_onto h hxy, choice_onto h hxy⟩

end Below

theorem Alike.inSession {choose choose' : Session → Descent}
    (hs : ∀ s, Alike (choose s) (choose' s)) :
    Alike (.inSession choose) (.inSession choose') := by
  constructor <;> funext id
  · simp only [Descent.inSession, (hs _).value]
  · simp only [Descent.inSession, (hs _).run]
  · simp only [Descent.inSession, (hs _).choice]

theorem findRoot?_showing (sort : String) (ids : List NodeId) :
    b.findRoot? sort (b.forest.showing ids) = b.findRoot? sort ids := by
  induction ids with
  | nil => rfl
  | cons id ids ih =>
    rw [Forest.showing] at ih ⊢
    by_cases hid : b.forest.isLayoutAt id = true
    · rw [List.filter_cons_of_neg (by simp [hid]), ih, findRoot?,
        bind_of_ok (Forest.isLayout_of_isLayoutAt hid)]
      rfl
    · rw [List.filter_cons_of_pos (by simp [hid]), findRoot?, findRoot?, ih]

theorem isList_of_isRootOf {sort : String} {id : NodeId} (hr : b.isRootOf sort id = .ok true) :
    b.forest.isList id = .ok false := by
  obtain ⟨n, hn, hr⟩ := bind_eq_ok.1 hr
  rw [Forest.isList, hn]
  cases n with
  | derivation | ambiguity => rfl
  | _ => cases hr

section Roots

include h

theorem levelLimit_onto : (b.onto g).levelLimit = b.levelLimit := by
  rw [levelLimit, onto_forest, h.size, levelLimit]

theorem alike_descent (hu : b.Unquoted) (depth fresh kept : Nat) :
    Alike (b.descent depth fresh kept) ((b.onto g).descent depth fresh kept) := by
  induction depth generalizing fresh kept with
  | zero => exact ⟨rfl, rfl, rfl⟩
  | succ depth ih =>
    refine .inSession fun s => ?_
    rw [levelLimit_onto h]
    split
    · cases fresh with
      | zero => exact ⟨rfl, rfl, rfl⟩
      | succ fresh => exact alike_descend h (ih fresh kept) hu
    · exact alike_descend h (ih b.levelLimit s.results.size) hu

theorem value_onto (hu : b.Unquoted) (id : NodeId) : (b.onto g).value id = b.value id := by
  rw [value, levelLimit_onto h, (alike_descent h hu ..).value, value]

theorem expectedAt_onto {α : Type} (sort : String) (id : NodeId) :
    ((b.onto g).expectedAt sort id : Build α) = b.expectedAt sort id := by
  rw [expectedAt, onto_forest, h.span, expectedAt]

theorem valueAt_onto (hu : b.Unquoted) (sort : String) (id : NodeId) :
    (b.onto g).valueAt sort id = b.valueAt sort id := by
  rw [valueAt, value_onto h hu, expectedAt_onto h, valueAt]

theorem firstValue?_onto (hu : b.Unquoted) (sort : String) (alts : List NodeId) :
    (b.onto g).firstValue? sort alts = b.firstValue? sort alts := by
  induction alts with
  | nil => rfl
  | cons alt alts ih => simp only [firstValue?, sortOf_onto h, value_onto h hu, ih]

theorem isRootOf_onto (sort : String) (id : NodeId) :
    (b.onto g).isRootOf sort id = b.isRootOf sort id := by
  refine h.bind_node (fun n m ha => ?_) id
  cases ha with
  | same =>
    cases n with
    | derivation | ambiguity => rw [sortOf_onto h]
    | _ => rfl
  | derivation => rw [sortOf_onto h]
  | list => rfl

theorem findRoot?_onto (sort : String) (ids : List NodeId) :
    (b.onto g).findRoot? sort ids = b.findRoot? sort ids := by
  induction ids with
  | nil => rfl
  | cons id ids ih => rw [findRoot?, onto_forest, h.isLayout, isRootOf_onto h, ih, findRoot?]

theorem convertWithin_derivation_onto (hu : b.Unquoted) {sort : String} {depth : Nat} {id : NodeId}
    {prod : ProdId} {cs cs' : List NodeId} (hf : b.forest.node id = .ok (.derivation prod cs))
    (hg : g.node id = .ok (.derivation prod cs')) (hs : b.forest.showing cs = b.forest.showing cs')
    (below : ∀ inner, b.forest.isList inner = .ok false →
      (b.onto g).convertWithin sort depth inner = b.convertWithin sort depth inner) :
    (b.onto g).convertWithin sort (depth + 1) id = b.convertWithin sort (depth + 1) id := by
  have hroot : (b.onto g).findRoot? sort cs' = b.findRoot? sort cs := by
    rw [findRoot?_onto h, ← findRoot?_showing, ← hs, findRoot?_showing]
  rw [convertWithin, convertWithin, onto_forest, checked_bind_of_ok hf, checked_bind_of_ok hg]
  dsimp only
  rw [sortOf_onto h, h.grammar, valueAt_onto h hu, hroot]
  refine congrArg (_ >>= ·) (funext fun _ => congrArg (_ >>= ·) (funext fun _ => ?_))
  split
  · rfl
  · cases hi : b.findRoot? sort cs with
    | error breach => rfl
    | ok inner? =>
      cases inner? with
      | none => exact expectedAt_onto h sort id
      | some inner =>
        have hrec := below inner (isList_of_isRootOf (root_of_findRoot? hi).2)
        rw [checked_bind_of_ok rfl, checked_bind_of_ok rfl]
        dsimp only
        rw [hrec, h.isAmbiguity, valueAt_onto h hu]

theorem convertWithin_onto (hu : b.Unquoted) (sort : String) (depth : Nat) {id : NodeId}
    (hid : b.forest.isList id ≠ .ok true) :
    (b.onto g).convertWithin sort depth id = b.convertWithin sort depth id := by
  induction depth generalizing id with
  | zero => rfl
  | succ depth ih =>
    have below (inner : NodeId) (hl : b.forest.isList inner = .ok false) :
        (b.onto g).convertWithin sort depth inner = b.convertWithin sort depth inner :=
      ih (by rw [hl]; exact nofun)
    obtain ⟨n, m, hf, hg, ha⟩ | ⟨breach, hf, hg⟩ := h.node_cases id
    · cases ha with
      | same =>
        cases n with
        | derivation prod cs => exact convertWithin_derivation_onto h hu hf hg rfl below
        | ambiguity alts =>
          rw [convertWithin, convertWithin, onto_forest, checked_bind_of_ok hf,
            checked_bind_of_ok hg]
          dsimp only
          rw [firstValue?_onto h hu, expectedAt_onto h]
        | _ =>
          rw [convertWithin, convertWithin, onto_forest, checked_bind_of_ok hf,
            checked_bind_of_ok hg]
      | derivation prod hs => exact convertWithin_derivation_onto h hu hf hg hs below
      | list =>
        refine absurd ?_ hid
        rw [Forest.isList, hf]
        rfl
    · rw [convertWithin, convertWithin, onto_forest, hf, hg]
      rfl

theorem convert_onto (hu : b.Unquoted) (sort : String) (id : NodeId) (s : Session) :
    (((b.onto g).convert sort id).outcome s).mapError Error.bare =
        ((b.convert sort id).outcome s).mapError Error.bare ∧
      ((b.onto g).convert sort id).after s = (b.convert sort id).after s := by
  rw [convert, onto_forest, Forest.depthLimit, h.size, convert, Forest.depthLimit]
  by_cases hid : b.forest.isList id = .ok true
  · -- A list is no root, and the error spells out its children.
    obtain ⟨n, m, hf, hg, ha⟩ | ⟨breach, hf, hg⟩ := h.node_cases id
    · rw [convertWithin, convertWithin, onto_forest, checked_bind_of_ok hf, checked_bind_of_ok hg]
      rw [Forest.isList, hf] at hid
      cases ha with
      | same =>
        cases n with
        | list => exact ⟨rfl, rfl⟩
        | _ => cases hid
      | derivation => cases hid
      | list => exact ⟨rfl, rfl⟩
    · rw [Forest.isList, hf] at hid
      cases hid
  · rw [convertWithin_onto h hu sort _ hid]
    exact ⟨rfl, rfl⟩

end Roots

/-- The value of a node and the tree rooted at it, or the error, and the session that is left are
the same in both forests. -/
theorem layout_does_not_matter (h : b.forest.SameButLayout g) (hu : b.Unquoted) (id : NodeId)
    (s : Session) :
    ((b.onto g).value id).outcome s = (b.value id).outcome s ∧
      ((b.onto g).value id).after s = (b.value id).after s ∧
      ∀ sort, (((b.onto g).convert sort id).outcome s).mapError Error.bare =
          ((b.convert sort id).outcome s).mapError Error.bare ∧
        ((b.onto g).convert sort id).after s = (b.convert sort id).after s := by
  rw [value_onto h hu]
  exact ⟨rfl, rfl, fun sort => convert_onto h hu sort id s⟩

def spaced (layout : List NodeId) : Builder where
  forest :=
    let space : Production := ⟨.named .layout "Space", none, [], false⟩
    let comma : Production := ⟨.literal ",", none, [], false⟩
    let token : Production := ⟨.named .lexical "Id", none, [], true⟩
    let list : Production :=
      ⟨.separated .plus token.defines [space.defines, comma.defines], none, [], false⟩
    let block : Production := ⟨.named .sort "Exp", some "block", [list.defines], false⟩
    { Forest.empty ⟨"Spaced", [space, comma, token, list, block], by decide⟩ with
      entries := #[⟨.char 32, none⟩, ⟨.derivation 0 [0], none⟩, ⟨.char 120, none⟩,
        ⟨.derivation 2 [2, 1], some ⟨0, 2⟩⟩, ⟨.literal "," 1, none⟩,
        ⟨.list 3 ([3] ++ layout ++ [4] ++ layout ++ [3]) false, none⟩,
        ⟨.derivation 4 (layout ++ [5]), none⟩] }
  registry := (Registry.empty.define ⟨"Id", true, []⟩).define ⟨"Exp", false, [("Block", [.list])]⟩
  conventions := .standard

theorem layout_does_not_matter_spaced :
    let x : Tree := ⟨"Id", "Lexical", some ⟨0, 2⟩, .zero, .lexical "x "⟩
    let block : Tree := ⟨"Exp", "Block", none, .zero, .application [.list [x, x]]⟩
    let b := spaced [1]
    let tight := b.onto (spaced []).forest
    b.forest.SameButLayout tight.forest ∧ b.Unquoted ∧
      (b.value 6).outcome .initial = .ok (some block) ∧
      (tight.value 6).outcome .initial = .ok (some block) ∧
      (b.convert "Exp" 5).outcome .initial =
        .error (.defect (.notRoot 5 "Exp" (.list 3 [3, 1, 4, 1, 3] false))) ∧
      ((tight.convert "Exp" 5).outcome .initial).mapError Error.bare =
        .error (.defect (.notRoot 5 "Exp" (.list 3 [] false))) := by
  intro x block b tight
  have h : b.forest.SameButLayout tight.forest :=
    Forest.sameButLayout_of_closed [0, 1, 2, 3] rfl (by decide +kernel) (by decide +kernel)
      (by decide +kernel) (by decide +kernel) (by decide +kernel)
  have hu : b.Unquoted := by decide +kernel
  have hvalue : (b.value 6).outcome .initial = .ok (some block) := by decide +kernel
  have hlist : (b.convert "Exp" 5).outcome .initial =
      .error (.defect (.notRoot 5 "Exp" (.list 3 [3, 1, 4, 1, 3] false))) := by decide +kernel
  have hroot := ((layout_does_not_matter h hu 5 .initial).2.2 "Exp").1
  rw [hlist] at hroot
  exact ⟨h, hu, hvalue, (layout_does_not_matter h hu 6 .initial).1.trans hvalue, hlist, hroot⟩

end Builder

end ParseForest
