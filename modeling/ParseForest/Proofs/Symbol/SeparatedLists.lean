import Mathlib.Data.List.Forall2
import ParseForest.Proofs.Symbol.Matching

/-!
Lists with separators. Their elements are matched, but their separators have to be the same to the
letter, except for layout; that comes to the same for separators in which matching has nothing to
look through. A type spells a single separator, sorts only, so that it cannot declare a list whose
separators the grammar defines as lexical or keyword classes. Main statements:
`expressible_of_ofTypeTree?`, `declarable_separated_iff`, `separated_lists_match`.
-/

namespace ParseForest.Symbol

/-- The separators that stand in the text. -/
def visible (seps : List Symbol) : List Symbol := seps.filter (!·.isLayout)

/-- Separators match one by one, the layout among them left out. -/
def SeparatorsMatch (xs ys : List Symbol) : Prop :=
  List.Forall₂ (fun s t => s.matching t = true) (visible xs) (visible ys)

instance : DecidableRel SeparatorsMatch := fun xs ys =>
  inferInstanceAs (Decidable (List.Forall₂ _ (visible xs) (visible ys)))

/-- Nothing in the symbol is looked through, neither a label nor how a name is defined. -/
def Plain (s : Symbol) : Prop := s.outline = s

instance : DecidablePred Plain := fun s => inferInstanceAs (Decidable (s.outline = s))

/-- A type can declare a symbol that matches. -/
def Declarable (s : Symbol) : Prop := ∃ t d, ofTypeTree? t = some d ∧ d.matching s = true

section Matching

variable {r : Repetition} {x y : Symbol} {xs ys : List Symbol}

theorem matching_separated_iff (h : x.matching y = true) :
    (separated r x xs).matching (separated r y ys) = true ↔ visible xs = visible ys := by
  have hxy := matching_iff.1 h
  rw [matching_iff, outline, outline, hxy, separated.injEq]
  exact ⟨fun ⟨_, _, hseps⟩ => hseps, fun hseps => ⟨rfl, rfl, hseps⟩⟩

theorem eq_of_forall₂_matching (h : List.Forall₂ (fun s t => s.matching t = true) xs ys)
    (hxs : ∀ s ∈ xs, s.Plain) (hys : ∀ s ∈ ys, s.Plain) : xs = ys := by
  induction h with
  | nil => rfl
  | @cons s t xs ys hst _ ih =>
    obtain ⟨hs, hxs⟩ := List.forall_mem_cons.1 hxs
    obtain ⟨ht, hys⟩ := List.forall_mem_cons.1 hys
    have heq : s = t := hs.symm.trans ((matching_iff.1 hst).trans ht)
    rw [heq, ih hxs hys]

theorem not_matching_own_list (h : x.matching y = true) :
    x.matching (separated r y ys) = false := by
  refine Bool.eq_false_iff.2 fun hlist => ?_
  have hsize := congrArg sizeOf ((matching_iff.1 h).symm.trans (matching_iff.1 hlist))
  rw [outline, separated.sizeOf_spec] at hsize
  omega

theorem fits_separated (h : x.matching y = true) :
    (separated r x xs).fits (separated r y ys) =
      (separated r x xs).matching (separated r y ys) := by
  have hx : x.matching (separated r y ys) = false := not_matching_own_list h
  have hy : y.matching (separated r x xs) = false :=
    not_matching_own_list ((matching_comm y x).trans h)
  simp [fits, element?, unlabelled, hx, hy]

theorem fits_parameter {n : String} {s t : Symbol} :
    (applied n [s]).fits (applied n [t]) = s.matching t := by
  rw [Bool.eq_iff_iff, matching_iff]
  simp [fits, element?, unlabelled, matching_iff, outline, outlines]

end Matching

section Declarable

theorem expressible_of_ofTypeTree? {t : Tree} {s : Symbol} (h : ofTypeTree? t = some s) :
    s.Expressible := by
  rw [ofTypeTree?_eq] at h
  split at h
  case h_1 =>
    obtain ⟨u, -, hu⟩ := Option.bind_eq_some_iff.1 h
    exact expressible_of_ofSymbolTree? hu
  case h_2 =>
    obtain ⟨u, harg, hu⟩ := Option.bind_eq_some_iff.1 h
    have := Tree.sizeOf_lt_of_nodeArg? harg
    exact expressible_of_ofTypeTree? hu
  case h_3 =>
    obtain ⟨user, huser, h⟩ := Option.bind_eq_some_iff.1 h
    obtain ⟨name, -, h⟩ := Option.bind_eq_some_iff.1 h
    split at h
    · cases h
      rfl
    · obtain ⟨ts, hts, h⟩ := Option.bind_eq_some_iff.1 h
      obtain ⟨ss, hss, h⟩ := Option.bind_eq_some_iff.1 h
      cases h
      refine AllExpressible.of_mapM hss fun u hu s hs => ?_
      have := Tree.sizeOf_lt_of_nodeArg? huser
      have := Tree.sizeOf_lt_of_listArg? hts hu
      exact expressible_of_ofTypeTree? hs
    · cases h
  case h_4 => cases h
termination_by sizeOf t

theorem declarable_iff {s : Symbol} :
    s.Declarable ↔ ∃ d : Symbol, d.Expressible ∧ d.matching s := by
  constructor
  · rintro ⟨t, d, ht, hd⟩
    exact ⟨d, expressible_of_ofTypeTree? ht, hd⟩
  · rintro ⟨d, hd, hmatch⟩
    exact ⟨_, d, ofTypeTree?_toTree hd, hmatch⟩

theorem Expressible.unlabelled : ∀ {s : Symbol}, s.Expressible → s.unlabelled.Expressible
  | .labelled _ s, h => by
    rw [Expressible] at h
    exact h.unlabelled
  | .named .., h | .literal _, h | .caseless _, h | .empty, h | .optional _, h | .repeated .., h
  | .separated .., h | .applied .., h | .start _, h => h

theorem Expressible.not_isLayout {s : Symbol} (h : s.Expressible) : s.isLayout = false := by
  have hu := h.unlabelled
  unfold isLayout
  cases hs : s.unlabelled with
  | named c n =>
    rw [hs] at hu
    cases hu
    rfl
  | _ => rfl

theorem Expressible.visible_singleton {sep : Symbol} (h : sep.Expressible) :
    visible [sep] = [sep] := by
  simp [visible, h.not_isLayout]

theorem declarable_separated_iff {r : Repetition} {y : Symbol} {ys : List Symbol} :
    (separated r y ys).Declarable ↔
      y.Declarable ∧ ∃ sep, visible ys = [sep] ∧ sep.Expressible := by
  rw [declarable_iff, declarable_iff]
  constructor
  · rintro ⟨d, hd, hmatch⟩
    have hu := hd.unlabelled
    have houtline := (outline_unlabelled d).trans (matching_iff.1 hmatch)
    cases hd' : d.unlabelled with
    | separated r' x xs =>
      rw [hd'] at hu houtline
      obtain ⟨hx, hlength, hxs⟩ := hu
      obtain ⟨sep, rfl⟩ := List.length_eq_one_iff.1 hlength
      rw [outline, outline, separated.injEq] at houtline
      obtain ⟨-, hxy, hseps⟩ := houtline
      exact ⟨⟨x, hx, matching_iff.2 hxy⟩, sep, hseps.symm.trans hxs.1.visible_singleton, hxs.1⟩
    | labelled l s => exact absurd hd' (unlabelled_ne_labelled d l s)
    | _ => simp [hd', outline] at houtline
  · rintro ⟨⟨x, hx, hxy⟩, sep, hsep, hexpressible⟩
    refine ⟨separated r x [sep], ⟨hx, rfl, hexpressible, trivial⟩, ?_⟩
    rw [matching_separated_iff hxy, hsep, hexpressible.visible_singleton]

end Declarable

/-- Lists of matching elements match if their separators are the same, which for plain separators is
to match; a typed variable of the one fits a hole for the other under the same condition, also where
they are the parameters of a sort, and no type can declare a list unless its separator is one that
types can name. -/
theorem separated_lists_match {r : Repetition} {x y : Symbol} {xs ys : List Symbol}
    (h : x.matching y = true) :
    ((separated r x xs).matching (separated r y ys) = true ↔ visible xs = visible ys) ∧
    (SeparatorsMatch xs ys → (∀ s ∈ visible xs, s.Plain) → (∀ s ∈ visible ys, s.Plain) →
      (separated r x xs).matching (separated r y ys) = true) ∧
    (∀ (b : Builder) (v : Tree), b.DeclaresHole v (separated r x xs) →
      (b.fitsHole (separated r y ys) v = true ↔ visible xs = visible ys)) ∧
    (∀ (b : Builder) (v : Tree) (n : String), b.DeclaresHole v (applied n [separated r x xs]) →
      (b.fitsHole (applied n [separated r y ys]) v = true ↔ visible xs = visible ys)) ∧
    ((separated r y ys).Declarable ↔
      y.Declarable ∧ ∃ sep, visible ys = [sep] ∧ sep.Expressible) := by
  refine ⟨matching_separated_iff h, fun hseps hxs hys => ?_, fun b v hv => ?_,
    fun b v n hv => ?_, declarable_separated_iff⟩
  · exact (matching_separated_iff h).2 (eq_of_forall₂_matching hseps hxs hys)
  · rw [hv.fitsHole, fits_separated h, matching_separated_iff h]
  · rw [hv.fitsHole, fits_parameter, matching_separated_iff h]

theorem separated_lists_match_identifierList :
    identifier.matching (.labelled "name" (.named .lexical "Id")) = true ∧
    declaredList.matching identifierList = true ∧
    overNoForest.fitsHole identifierList (variableOf declaredList) = true ∧
    overNoForest.fitsHole (.applied "Rows" [identifierList])
      (variableOf (.applied "Rows" [declaredList])) = true ∧
    identifierList.Declarable := by
  have hid : identifier.matching (.labelled "name" (.named .lexical "Id")) = true := by decide
  have hdeclared : overNoForest.DeclaresHole (variableOf declaredList) declaredList :=
    declaresHole_variableOf rfl ⟨rfl, rfl, trivial, trivial⟩
  have hparameter : overNoForest.DeclaresHole (variableOf (.applied "Rows" [declaredList]))
      (.applied "Rows" [declaredList]) :=
    declaresHole_variableOf rfl ⟨⟨rfl, rfl, trivial, trivial⟩, trivial⟩
  have hidentifiers : (Symbol.labelled "name" (.named .lexical "Id")).Declarable :=
    declarable_iff.2 ⟨identifier, rfl, hid⟩
  obtain ⟨-, hplain, hfits, hfitsParameter, hdeclarable⟩ :=
    @separated_lists_match .star _ _ [.literal ","] [.named .layout "LAYOUT", .literal ","] hid
  exact ⟨hid, hplain (by decide) (by decide) (by decide), (hfits _ _ hdeclared).2 (by decide),
    (hfitsParameter _ _ _ hparameter).2 (by decide),
    hdeclarable.2 ⟨hidentifiers, .literal ",", by decide, trivial⟩⟩

def operatedList (r : Repetition) (operators : List Symbol) : Symbol :=
  .separated r identifier operators

/-- A type calls an operator between identifiers by its name. Where the grammar defines that name as
a lexical class or as keywords, or where it has a label, the separators match and the lists do not,
and the variable is turned away. -/
theorem named_separator_is_missed :
    identifier.matching identifier = true ∧
    ∀ r : Repetition, ∀ operator ∈ [Symbol.named .lexical "Op", Symbol.named .keywords "Op",
        Symbol.labelled "by" (.named .sort "Op")],
      let declared := operatedList r [.named .sort "Op"]
      let expected := operatedList r [.named .layout "LAYOUT", operator]
      SeparatorsMatch [.named .sort "Op"] [.named .layout "LAYOUT", operator] ∧
      declared.matching expected = false ∧
      overNoForest.DeclaresHole (variableOf declared) declared ∧
      overNoForest.fitsHole expected (variableOf declared) = false := by
  have hid : identifier.matching identifier = true := by decide
  refine ⟨hid, fun r operator hop => ?_⟩
  have hdeclared : overNoForest.DeclaresHole (variableOf (operatedList r [.named .sort "Op"]))
      (operatedList r [.named .sort "Op"]) :=
    declaresHole_variableOf rfl ⟨rfl, rfl, rfl, trivial⟩
  have hmissed : SeparatorsMatch [.named .sort "Op"] [.named .layout "LAYOUT", operator] ∧
      visible [.named .sort "Op"] ≠ visible [.named .layout "LAYOUT", operator] := by
    revert operator
    decide
  have hlists : (operatedList r [.named .sort "Op"]).matching
      (operatedList r [.named .layout "LAYOUT", operator]) = false :=
    Bool.eq_false_iff.2 fun hlists => hmissed.2 ((matching_separated_iff hid).1 hlists)
  have hfits : overNoForest.fitsHole (operatedList r [.named .layout "LAYOUT", operator])
      (variableOf (operatedList r [.named .sort "Op"])) = false := by
    rw [hdeclared.fitsHole]
    exact (fits_separated hid).trans hlists
  exact ⟨hmissed.1, hlists, hdeclared, hfits⟩

end ParseForest.Symbol
