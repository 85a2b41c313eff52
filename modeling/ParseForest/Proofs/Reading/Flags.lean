import ParseForest.Proofs.Reading.Coverage
import ParseForest.Proofs.Reading.Sustained
import ParseForest.Proofs.Tree.Ambiguity

/-!
The ambiguity flags of trees that are read are right, in fragments as well: the cost of a tree is
flagged if and only if the tree is an ambiguity or holds one. Main statement: `exact_of_answers`.
-/

namespace ParseForest

theorem Registry.eq_of_make {r : Registry} (hr : r.WithoutFactories) {sort name : String}
    {span : Option Span} {args : List (Arg Tree)} {cost : Cost} {t : Tree}
    (h : r.make sort name span args cost = .ok t) :
    t = ⟨sort, name, span, cost, defaultBody name args⟩ := by
  have hmade := meets_make hr sort name span args cost
  rw [h] at hmade
  exact hmade

namespace Builder

variable {b : Builder}

theorem Names.ne (hg : b.forest.grammar.NoAmbiguityConstructor) {name : String}
    (h : b.Names name) : name ≠ Registry.ambiguityName := by
  rcases h with rfl | rfl | ⟨node, raw, hraw, rfl⟩
  · decide
  · decide
  · exact constructorKey_ne hg hraw

theorem sustains_exact (hg : b.forest.grammar.NoAmbiguityConstructor)
    (hr : b.registry.WithoutFactories) : b.Sustains Tree.Exact where
  token sort span text t ht := by
    cases Registry.eq_of_make hr ht
    exact Tree.exact_of_flags rfl nofun (Cost.flags_nil rfl)
  application sort name span args cost t hname htext hargs hcost ht := by
    cases Registry.eq_of_make hr ht
    rw [Registry.defaultBody_of_no_text (hname.ne hg) htext]
    exact Tree.exact_of_flags rfl hargs hcost
  ambiguity sort span alts cost t halts hcost ht := by
    cases Registry.eq_of_make hr ht
    exact Tree.exact_of_ambiguity rfl halts hcost
  leaf sort span l := Tree.exact_of_flags rfl nofun (Cost.flags_nil rfl)
  branch sort span shape ts cost hshape hts hcost := by
    refine Tree.exact_of_flags ?_ hts hcost
    cases shape with
    | ambiguity => exact absurd rfl hshape
    | _ => rfl
  tied sort span ts cost hts hcost := Tree.exact_of_ambiguity rfl hts hcost
  recost t cost ht hcost := by
    obtain ⟨hparts, hflag⟩ := Tree.exact_iff.1 ht
    rw [← hcost] at hflag
    exact Tree.exact_iff.2 ⟨hparts, hflag⟩

theorem sustains_tiesFlagged (hr : b.registry.WithoutFactories) :
    b.Sustains Tree.TiesFlagged where
  token sort span text t ht := by
    cases Registry.eq_of_make hr ht
    exact .of_parts nofun nofun nofun
  application sort name span args cost t _ _ hargs hcost ht := by
    cases Registry.eq_of_make hr ht
    have hmem : ∀ s ∈ (Registry.defaultBody name args).subtrees, s ∈ args.flatMap Arg.trees := by
      rw [Registry.subtrees_defaultBody]
      exact fun s hs => hs
    refine .of_parts (Registry.defaultBody_ne_image name args) (fun s hs => hargs s (hmem s hs)) ?_
    exact fun s hs hflag => hcost.2 ⟨s, hmem s hs, hflag⟩
  ambiguity sort span alts cost t _ hcost ht :=
    Tree.tiesFlagged_of_flagged (Registry.make_cost ht ▸ hcost)
  leaf sort span l := .of_parts nofun nofun nofun
  branch sort span shape ts cost hshape hts hcost := by
    refine .of_parts ?_ hts fun s hs hflag => hcost.2 ⟨s, hs, hflag⟩
    rintro ⟨us, hbody⟩
    cases hbody
    exact hshape rfl
  tied sort span ts cost _ hcost := Tree.tiesFlagged_of_flagged hcost
  recost t cost ht hcost := ht.withCost hcost

/-- After any calls and in any forest, the cost of a tree that a call gives, and of every tree
inside it, is flagged if and only if the tree is an ambiguity or has one inside. -/
theorem exact_of_answers (hg : b.forest.grammar.NoAmbiguityConstructor)
    (hr : b.registry.WithoutFactories) {calls : List Call} {call : Call} {t s : Tree}
    (h : b.Answers (b.sessionAfter calls) t call) (hs : t.Contains s) :
    s.cost.ambiguous = true ↔ ∃ u, s.Contains u ∧ u.isAmbiguity = true :=
  (sustains_exact hg hr).of_answers h s hs

theorem exact_sharedPair :
    let x : Tree := ⟨"Id", "Lexical", none, .zero, .lexical "x"⟩
    let var : Tree := ⟨"Exp", "Var", none, .zero, .application [.node x]⟩
    let ref : Tree := ⟨"Exp", "Ref", none, .zero, .application [.node x]⟩
    let either : Tree :=
      ⟨"Exp", "Ambiguity", none, Cost.zero.withAmbiguous true, .ambiguity [var, ref]⟩
    let pair : Tree :=
      ⟨"Exp", "Pair", none, Cost.zero.withAmbiguous true, .application [.node either, .node either]⟩
    sharedPair.Answers (sharedPair.sessionAfter [.value 4]) pair (.value 7) ∧
      (pair.cost.ambiguous = true ↔ ∃ u, pair.Contains u ∧ u.isAmbiguity = true) := by
  intro x var ref either pair
  have hread : sharedPair.Answers (sharedPair.sessionAfter [.value 4]) pair (.value 7) := by
    unfold Answers
    decide +kernel
  refine ⟨hread, exact_of_answers ?_ ?_ hread .refl⟩
  · decide +kernel
  · exact (Registry.withoutFactories_empty.define _).define _

end Builder

end ParseForest
