import ParseForest.Proofs.Reading.Faults

/-!
Literals among the members of a list. They are left out of the arguments of a constructor, but a
list without separators reads everything that it shows. A literal has no value, so the list fails
at the first one, unless it has ended before. Main statement: `outcome_run_of_literals`.
-/

namespace ParseForest

open Build Success

theorem Symbol.name?_unlabelled (s : Symbol) : s.unlabelled.name? = s.name? := by
  fun_induction Symbol.unlabelled s with
  | case1 _ s ih => exact ih
  | case2 => rfl

theorem Production.sortName_of_literal {p : Production} (h : (p.isLiteral || p.isCaseless) = true) :
    p.sortName = "" := by
  have hname : p.defines.name? = none := by
    rw [← Symbol.name?_unlabelled]
    rw [isLiteral, isCaseless, Symbol.isLiteral, Symbol.isCaseless] at h
    match p.defines.unlabelled, h with
    | .literal _, _ | .caseless _, _ => rfl
  rw [sortName, hname]
  rfl

theorem everyAfter_zero {α : Type} (as : List α) : everyAfter 0 0 as = as := by
  induction as with
  | nil => rfl
  | cons a as ih => exact congrArg (a :: ·) ih

namespace Builder

variable {b : Builder} {id l : NodeId}

theorem isArgument_of_literal (hlayout : b.forest.isLayout l = .ok false)
    (hl : b.forest.isLiteral l = .ok true) : b.isArgument l = .ok false := by
  have hnoise : b.isNoise l = .ok true := by
    rw [isNoise, bind_of_ok hl]
    rfl
  rw [isArgument, bind_of_ok hlayout, if_neg Bool.false_ne_true, hnoise]
  rfl

theorem faulty_of_literal (hf : b.forest.WellBuilt)
    (hc : b.conventions.isEmbeddingSort "" = false) (hl : b.forest.isLiteral l = .ok true) :
    ∃ d, b.Faulty l d := by
  obtain ⟨n, hn, hliteral⟩ := bind_eq_ok.1 hl
  match n, hn with
  | .literal text prod, hn => exact ⟨_, .literal hn⟩
  | .derivation prod cs, hn =>
    obtain ⟨p, hp⟩ := hf.grammar_production hn rfl
    have hsort : p.sortName = "" := by
      rw [hasProduction_of_production hn hp] at hliteral
      exact Production.sortName_of_literal (Except.ok.inj hliteral)
    have hapart : b.isEmbedding l = .ok false := by
      rw [isEmbedding, bind_of_ok (sortName_of_production hn hp), hsort, hc]
      rfl
    -- The constructor is asked for first, but tokens need none: they fail for want of a sort.
    by_cases hnamed : p.isLexical = false → p.constructor.isSome = true
    · exact ⟨_, .unsorted hn hp hapart hnamed hsort⟩
    · obtain ⟨hlexical, hname⟩ := Classical.not_imp.1 hnamed
      exact ⟨_, .unnamed hn hp hlexical (Option.not_isSome_iff_eq_none.1 hname)⟩
  | .char _, _ | .list .., _ | .optional .., _ | .ambiguity _, _ | .cycle .., _ | .recovery _, _ =>
    cases hliteral

/-- A list without separators is read as all that it shows. A literal in it that is no layout would
not be an argument of a constructor, but here it makes the reading fail, unless something in front
of it has done so or was filtered out. -/
theorem outcome_run_of_literals (hf : b.forest.WellBuilt)
    (hc : b.conventions.isEmbeddingSort "" = false) {prod : ProdId} {p : Production}
    {cs : List NodeId} {isPartial : Bool}
    (hid : b.forest.node id = .ok (.list prod cs isPartial))
    (hp : b.forest.grammar.production prod = .ok p)
    (hseparators : p.defines.visibleSeparators = []) (calls : List Call) :
    let s := b.sessionAfter calls
    (b.reading.run id).outcome s = (b.gather (b.forest.showing cs)).outcome s ∧
    ∀ before l after, cs = before ++ l :: after → b.forest.isLayout l = .ok false →
      b.forest.isLiteral l = .ok true →
      b.isArgument l = .ok false ∧ ∃ d, b.Faulty l d ∧
        (b.reading.run id).outcome s = match (b.gather (b.forest.showing before)).outcome s with
          | .ok (some _) => .error (.defect d)
          | r => r := by
  intro s
  have hrun : (b.reading.run id).outcome s = (b.gather (b.forest.showing cs)).outcome s := by
    rw [outcome_run_of_list hf hp hid, hseparators]
    exact congrArg (fun ns => (b.gather ns).outcome s) (everyAfter_zero _)
  refine ⟨hrun, fun before l after hcs hlayout hl => ?_⟩
  have hshown : b.forest.isLayoutAt l = false := by
    rw [Forest.isLayoutAt, hlayout]
  obtain ⟨d, hd⟩ := faulty_of_literal hf hc hl
  refine ⟨isArgument_of_literal hlayout hl, d, hd, ?_⟩
  rw [hrun, hcs, Forest.showing_append_cons hshown]
  exact outcome_gather_of_faulty hf hd (unkept_sessionAfter hf calls) _ _

/-- Blocks of tokens: first two tokens with a literal between them, the literal being a node of its
own or a derivation, and then the same tokens alone. -/
def marked : Builder where
  forest :=
    let token : Production := ⟨.named .lexical "Id", none, [], true⟩
    let list : Production := ⟨.repeated .star token.defines, none, [], false⟩
    let mark : Production := ⟨.literal ";", none, [], false⟩
    let word : Production := ⟨.caseless "and", none, [], false⟩
    let block : Production := ⟨.named .sort "Exp", some "block", [list.defines], false⟩
    ((Site.new ⟨"Blocks", [token, list, mark, word, block], by decide⟩).after
      [.char 120, .derivation [0] 0, .char 121, .derivation [2] 0, .literal ";" 2,
        .derivation [] 3, .list [1, 4, 3] 1, .derivation [6] 4, .list [1, 5, 3] 1,
        .derivation [8] 4, .list [1, 3] 1, .derivation [10] 4]).forest
  registry := (Registry.empty.define ⟨"Id", true, []⟩).define ⟨"Exp", false, [("Block", [.list])]⟩
  conventions := .standard

theorem outcome_run_of_literals_marked :
    let x : Tree := ⟨"Id", "Lexical", none, .zero, .lexical "x"⟩
    let s := marked.sessionAfter [.value 1]
    marked.forest.node 6 = .ok (.list 1 [1, 4, 3] false) ∧
      (marked.gather (marked.forest.showing [1])).outcome s = .ok (some [x]) ∧
      marked.isArgument 4 = .ok false ∧
      ∃ d, marked.Faulty 4 d ∧ (marked.reading.run 6).outcome s = .error (.defect d) := by
  intro x s
  have hf : marked.forest.WellBuilt := Site.wellBuilt_after (by decide +kernel)
  have hid : marked.forest.node 6 = .ok (.list 1 [1, 4, 3] false) := by decide +kernel
  have hbefore : (marked.gather (marked.forest.showing [1])).outcome s = .ok (some [x]) := by
    decide +kernel
  obtain ⟨-, hliterals⟩ :=
    outcome_run_of_literals hf (by decide +kernel) hid rfl rfl [.value 1]
  obtain ⟨hargument, d, hd, hrun⟩ :=
    hliterals [1] 4 [3] rfl (by decide +kernel) (by decide +kernel)
  rw [hbefore] at hrun
  exact ⟨hid, hbefore, hargument, d, hd, hrun⟩

/-- Where the blocks of the two tokens should be built. -/
theorem literal_in_list_fails :
    let x : Tree := ⟨"Id", "Lexical", none, .zero, .lexical "x"⟩
    let y : Tree := ⟨"Id", "Lexical", none, .zero, .lexical "y"⟩
    (marked.value 11).outcome .initial =
        .ok (some ⟨"Exp", "Block", none, .zero, .application [.list [x, y]]⟩) ∧
      (marked.reading.run 6).outcome .initial = .error (.defect (.notValue 4 (.literal ";" 2))) ∧
      (marked.value 7).outcome .initial = .error (.defect (.notValue 4 (.literal ";" 2))) ∧
      (marked.value 9).outcome .initial = .error (.defect (.unnamedProduction 5
        (some ⟨.caseless "and", none, [], false⟩))) := by
  decide +kernel

end Builder

end ParseForest
