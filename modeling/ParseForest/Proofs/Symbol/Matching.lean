import ParseForest.Build.Fragment
import ParseForest.Proofs.Symbol.Spelling

/-!
Matching as a relation on symbols. Two symbols match if they are built alike, where field labels do
not count, nor how a nonterminal is defined, nor layout among separators. That is an equivalence, it
does not see labels above elements and parameters, and so it does not matter which of two symbols a
hole declares and which one it expects. Main statements: `matching_iff_corresponds`,
`matching_is_equivalence`.
-/

namespace ParseForest

namespace NameClass

theorem outline_eq_sort {c : NameClass} (h : c ≠ .layout) : c.outline = .sort := by
  cases c with
  | layout => exact absurd rfl h
  | _ => rfl

theorem outline_inj {c c' : NameClass} (h : c.outline = c'.outline) :
    c = .layout ∧ c' = .layout ∨ c ≠ .layout ∧ c' ≠ .layout := by
  by_cases hc : c = .layout
  · subst hc
    cases c' with
    | layout => exact .inl ⟨rfl, rfl⟩
    | _ => cases h
  · refine .inr ⟨hc, ?_⟩
    rintro rfl
    cases (outline_eq_sort hc).symm.trans h

end NameClass

namespace Symbol

mutual
/-- The symbols are built alike, shape by shape. -/
inductive Corresponds : Symbol → Symbol → Prop
  | nonterminal {c c' : NameClass} {n : String} (hc : c ≠ .layout) (hc' : c' ≠ .layout) :
    Corresponds (.named c n) (.named c' n)
  | layout {n : String} : Corresponds (.named .layout n) (.named .layout n)
  | literal {t : String} : Corresponds (.literal t) (.literal t)
  | caseless {t : String} : Corresponds (.caseless t) (.caseless t)
  | empty : Corresponds .empty .empty
  | optional {s t : Symbol} (h : Corresponds s t) : Corresponds (.optional s) (.optional t)
  | repeated {r : Repetition} {s t : Symbol} (h : Corresponds s t) :
    Corresponds (.repeated r s) (.repeated r t)
  | separated {r : Repetition} {s t : Symbol} {seps seps' : List Symbol} (h : Corresponds s t)
    (hseps : seps.filter (!·.isLayout) = seps'.filter (!·.isLayout)) :
    Corresponds (.separated r s seps) (.separated r t seps')
  | applied {n : String} {ss ts : List Symbol} (h : CorrespondAll ss ts) :
    Corresponds (.applied n ss) (.applied n ts)
  | start {s t : Symbol} (h : Corresponds s t) : Corresponds (.start s) (.start t)
  | labelLeft {l : String} {s t : Symbol} (h : Corresponds s t) : Corresponds (.labelled l s) t
  | labelRight {l : String} {s t : Symbol} (h : Corresponds s t) : Corresponds s (.labelled l t)

inductive CorrespondAll : List Symbol → List Symbol → Prop
  | nil : CorrespondAll [] []
  | cons {s t : Symbol} {ss ts : List Symbol} (h : Corresponds s t) (hs : CorrespondAll ss ts) :
    CorrespondAll (s :: ss) (t :: ts)
end

mutual
theorem Corresponds.outline_eq : ∀ {s t : Symbol}, s.Corresponds t → s.outline = t.outline
  | _, _, .nonterminal hc hc' => by
    simp only [outline, NameClass.outline_eq_sort hc, NameClass.outline_eq_sort hc']
  | _, _, .layout | _, _, .literal | _, _, .caseless | _, _, .empty => rfl
  | _, _, .optional h => congrArg Symbol.optional h.outline_eq
  | _, _, .repeated h => congrArg (Symbol.repeated _) h.outline_eq
  | _, _, .separated h hseps => by simp only [outline, h.outline_eq, hseps]
  | _, _, .applied h => congrArg (Symbol.applied _) h.outlines_eq
  | _, _, .start h => congrArg Symbol.start h.outline_eq
  | _, _, .labelLeft h => h.outline_eq
  | _, _, .labelRight h => h.outline_eq

theorem CorrespondAll.outlines_eq :
    ∀ {ss ts : List Symbol}, CorrespondAll ss ts → outlines ss = outlines ts
  | _, _, .nil => rfl
  | _, _, .cons h hs => by simp only [outlines, h.outline_eq, hs.outlines_eq]
end

theorem outline_unlabelled : ∀ t : Symbol, t.unlabelled.outline = t.outline
  | .labelled _ t => outline_unlabelled t
  | .named .. | .literal _ | .caseless _ | .empty | .optional _ | .repeated .. | .separated ..
  | .applied .. | .start _ => rfl

theorem unlabelled_ne_labelled : ∀ (t : Symbol) (l : String) (s : Symbol),
    t.unlabelled ≠ .labelled l s
  | .labelled _ t, l, s => unlabelled_ne_labelled t l s
  | .named .., _, _ | .literal _, _, _ | .caseless _, _, _ | .empty, _, _ | .optional _, _, _
  | .repeated .., _, _ | .separated .., _, _ | .applied .., _, _ | .start _, _, _ => by
    intro h
    cases h

theorem Corresponds.of_unlabelled {s : Symbol} : ∀ {t : Symbol}, s.Corresponds t.unlabelled →
    s.Corresponds t
  | .labelled _ _, h => .labelRight (Corresponds.of_unlabelled h)
  | .named .., h | .literal _, h | .caseless _, h | .empty, h | .optional _, h | .repeated .., h
  | .separated .., h | .applied .., h | .start _, h => h

theorem Corresponds.below_labels {s t : Symbol}
    (h : ∀ u : Symbol, (∀ l v, u ≠ .labelled l v) → s.outline = u.outline → s.Corresponds u)
    (heq : s.outline = t.outline) : s.Corresponds t :=
  .of_unlabelled (h _ (unlabelled_ne_labelled t) (heq.trans (outline_unlabelled t).symm))

mutual
theorem corresponds_of_outline :
    ∀ s t : Symbol, s.outline = t.outline → s.Corresponds t
  | .named c n, _, heq => .below_labels (fun u hu h => by
    cases u with
    | named c' n' =>
      simp only [outline, named.injEq] at h
      obtain ⟨hc, rfl⟩ := h
      rcases NameClass.outline_inj hc with ⟨rfl, rfl⟩ | ⟨hc, hc'⟩
      · exact .layout
      · exact .nonterminal hc hc'
    | labelled l v => exact absurd rfl (hu l v)
    | _ => simp [outline] at h) heq
  | .literal x, _, heq => .below_labels (fun u hu h => by
    cases u with
    | literal y =>
      cases literal.inj (by simpa only [outline] using h)
      exact .literal
    | labelled l v => exact absurd rfl (hu l v)
    | _ => simp [outline] at h) heq
  | .caseless x, _, heq => .below_labels (fun u hu h => by
    cases u with
    | caseless y =>
      cases caseless.inj (by simpa only [outline] using h)
      exact .caseless
    | labelled l v => exact absurd rfl (hu l v)
    | _ => simp [outline] at h) heq
  | .empty, _, heq => .below_labels (fun u hu h => by
    cases u with
    | empty => exact .empty
    | labelled l v => exact absurd rfl (hu l v)
    | _ => simp [outline] at h) heq
  | .optional s, _, heq => .below_labels (fun u hu h => by
    cases u with
    | optional u =>
      simp only [outline, optional.injEq] at h
      exact .optional (corresponds_of_outline s u h)
    | labelled l v => exact absurd rfl (hu l v)
    | _ => simp [outline] at h) heq
  | .repeated r s, _, heq => .below_labels (fun u hu h => by
    cases u with
    | repeated r' u =>
      simp only [outline, repeated.injEq] at h
      obtain ⟨rfl, h⟩ := h
      exact .repeated (corresponds_of_outline s u h)
    | labelled l v => exact absurd rfl (hu l v)
    | _ => simp [outline] at h) heq
  | .separated r s seps, _, heq => .below_labels (fun u hu h => by
    cases u with
    | separated r' u seps' =>
      simp only [outline, separated.injEq] at h
      obtain ⟨rfl, h, hseps⟩ := h
      exact .separated (corresponds_of_outline s u h) hseps
    | labelled l v => exact absurd rfl (hu l v)
    | _ => simp [outline] at h) heq
  | .applied n ss, _, heq => .below_labels (fun u hu h => by
    cases u with
    | applied n' us =>
      simp only [outline, applied.injEq] at h
      obtain ⟨rfl, h⟩ := h
      exact .applied (correspondAll_of_outlines ss us h)
    | labelled l v => exact absurd rfl (hu l v)
    | _ => simp [outline] at h) heq
  | .labelled _ s, t, h => .labelLeft (corresponds_of_outline s t h)
  | .start s, _, heq => .below_labels (fun u hu h => by
    cases u with
    | start u =>
      simp only [outline, start.injEq] at h
      exact .start (corresponds_of_outline s u h)
    | labelled l v => exact absurd rfl (hu l v)
    | _ => simp [outline] at h) heq
termination_by structural s => s

theorem correspondAll_of_outlines :
    ∀ ss ts : List Symbol, outlines ss = outlines ts → CorrespondAll ss ts
  | [], [], _ => .nil
  | s :: ss, t :: ts, h => by
    obtain ⟨hs, hss⟩ := List.cons.inj h
    exact .cons (corresponds_of_outline s t hs) (correspondAll_of_outlines ss ts hss)
termination_by structural ss => ss
end

theorem matching_iff_corresponds {s t : Symbol} : s.matching t = true ↔ s.Corresponds t :=
  matching_iff.trans ⟨corresponds_of_outline s t, Corresponds.outline_eq⟩

/-- Field labels come and go around a symbol, and around its elements and parameters. -/
inductive Relabels : Symbol → Symbol → Prop
  | refl (s : Symbol) : Relabels s s
  | symm {s t : Symbol} (h : Relabels s t) : Relabels t s
  | trans {s t u : Symbol} (h : Relabels s t) (h' : Relabels t u) : Relabels s u
  | label (l : String) (s : Symbol) : Relabels s (.labelled l s)
  | labelled {l : String} {s t : Symbol} (h : Relabels s t) :
    Relabels (.labelled l s) (.labelled l t)
  | optional {s t : Symbol} (h : Relabels s t) : Relabels (.optional s) (.optional t)
  | repeated {r : Repetition} {s t : Symbol} (h : Relabels s t) :
    Relabels (.repeated r s) (.repeated r t)
  | separated {r : Repetition} {s t : Symbol} {seps : List Symbol} (h : Relabels s t) :
    Relabels (.separated r s seps) (.separated r t seps)
  | parameter {n : String} {s t : Symbol} {before after : List Symbol} (h : Relabels s t) :
    Relabels (.applied n (before ++ s :: after)) (.applied n (before ++ t :: after))
  | start {s t : Symbol} (h : Relabels s t) : Relabels (.start s) (.start t)

theorem Relabels.outline_eq {s t : Symbol} (h : s.Relabels t) : s.outline = t.outline := by
  induction h with
  | refl => rfl
  | symm _ ih => exact ih.symm
  | trans _ _ ih ih' => exact ih.trans ih'
  | label => rfl
  | labelled _ ih => exact ih
  | optional _ ih | repeated _ ih | separated _ ih | start _ ih => simp only [outline, ih]
  | parameter _ ih => simp only [outline, outlines_eq_map, List.map_append, List.map_cons, ih]

theorem matching_comm (s t : Symbol) : s.matching t = t.matching s := Bool.beq_comm

theorem fits_comm (declared expected : Symbol) :
    declared.fits expected = expected.fits declared := by
  unfold fits
  rw [matching_comm declared expected, Bool.or_assoc, Bool.or_assoc,
    Bool.or_comm (expected.element?.any _)]

end Symbol

namespace Builder

/-- The value is a typed variable whose type names the symbol. -/
structure DeclaresHole (b : Builder) (v : Tree) (s : Symbol) : Prop where
  typed : v.is b.conventions.expressionSort "TypedVariable" = true
  declared : (v.nodeArg? 0 >>= Symbol.ofTypeTree?) = some s

theorem DeclaresHole.fitsHole {b : Builder} {v : Tree} {s : Symbol} (h : b.DeclaresHole v s)
    (expected : Symbol) : b.fitsHole expected v = s.fits expected := by
  simp only [Builder.fitsHole, h.typed, if_true, h.declared, Option.any_some]

end Builder

namespace Symbol

/-- Matching is to be built alike. It is an equivalence, labels make no difference to it, and a
typed variable of one symbol fits a hole for another if and only if it is so the other way round. -/
theorem matching_is_equivalence :
    (∀ s t : Symbol, s.matching t = true ↔ s.Corresponds t) ∧
    Equivalence (fun s t : Symbol => s.matching t = true) ∧
    (∀ s s' t t' : Symbol, s.Relabels s' → t.Relabels t' → s.matching t = s'.matching t') ∧
    (∀ declared expected : Symbol, declared.fits expected = expected.fits declared) ∧
    ∀ (b : Builder) (declared expected : Symbol) (v w : Tree), b.DeclaresHole v declared →
      b.DeclaresHole w expected → b.fitsHole expected v = b.fitsHole declared w := by
  refine ⟨fun _ _ => matching_iff_corresponds, ⟨fun s => ?_, fun h => ?_, fun h h' => ?_⟩,
    fun s s' t t' hs ht => ?_, fits_comm, fun b declared expected v w hv hw => ?_⟩
  · exact matching_iff.2 rfl
  · exact matching_iff.2 (matching_iff.1 h).symm
  · exact matching_iff.2 ((matching_iff.1 h).trans (matching_iff.1 h'))
  · rw [matching, matching, hs.outline_eq, ht.outline_eq]
  · rw [hv.fitsHole, hw.fitsHole, fits_comm]

def variableOf (s : Symbol) : Tree :=
  .applied "Expression" "TypedVariable"
    [.node (.applied "Type" "Symbol" [.node s.toTree]), .node (.word "Name" "x")]

theorem declaresHole_variableOf {b : Builder} {s : Symbol}
    (hb : b.conventions.expressionSort = "Expression") (h : s.Expressible) :
    b.DeclaresHole (variableOf s) s where
  typed := by
    rw [hb]
    rfl
  declared := ofTypeTree?_toTree h

def identifier : Symbol := .named .sort "Id"

def identifierList : Symbol :=
  .separated .star (.labelled "name" (.named .lexical "Id")) [.named .layout "LAYOUT", .literal ","]

def declaredList : Symbol := .separated .star identifier [.literal ","]

def overNoForest : Builder := ⟨.empty (.empty "Lists"), .empty, .standard⟩

/-- A hole for identifiers takes a variable of lists, and a hole for lists a variable of
identifiers; a list with labels is the same list. -/
theorem matching_identifierList :
    identifierList.Corresponds declaredList ∧ identifierList.matching declaredList = true ∧
    (Symbol.optional declaredList).matching (.labelled "rest" (.optional identifierList)) = true ∧
    overNoForest.DeclaresHole (variableOf identifier) identifier ∧
    overNoForest.DeclaresHole (variableOf declaredList) declaredList ∧
    overNoForest.fitsHole declaredList (variableOf identifier) = true ∧
    overNoForest.fitsHole identifier (variableOf declaredList) = true := by
  obtain ⟨hcorresponds, -, hlabels, -, hholes⟩ := matching_is_equivalence
  have hlist : identifierList.Corresponds declaredList :=
    .separated (.labelLeft (.nonterminal (by decide) (by decide))) (by decide)
  have hid : overNoForest.DeclaresHole (variableOf identifier) identifier :=
    declaresHole_variableOf rfl rfl
  have hdeclared : overNoForest.DeclaresHole (variableOf declaredList) declaredList :=
    declaresHole_variableOf rfl ⟨rfl, rfl, trivial, trivial⟩
  have hfits : overNoForest.fitsHole declaredList (variableOf identifier) = true := by
    rw [hid.fitsHole]
    decide
  refine ⟨hlist, (hcorresponds _ _).2 hlist, ?_, hid, hdeclared, hfits,
    (hholes overNoForest _ _ _ _ hid hdeclared).symm.trans hfits⟩
  rw [← hlabels _ _ _ _ (.refl _) (.label "rest" _)]
  decide

end Symbol

end ParseForest
