import ParseForest.Proofs.Cost.Survivors
import ParseForest.Proofs.Reading.Levels
import ParseForest.Proofs.Reading.Retention

/-!
What a cluster keeps of its readings: those of least cost, in the order of the alternatives. An
error that is no ambiguity ends the search; an ambiguous alternative counts only if nothing else
was built. Main statement: `cluster_keeps_cheapest`.
-/

namespace ParseForest

open Build Success

def hardErrorOf : Except Error (Option Tree) → Option Error
  | .error e => if e.isAmbiguity then none else some e
  | .ok _ => none

def ambiguityOf : Except Error (Option Tree) → Option Error
  | .error e => if e.isAmbiguity then some e else none
  | .ok _ => none

def treeOf : Except Error (Option Tree) → Option Tree
  | .ok tree? => tree?
  | .error _ => none

abbrev Outcomes := List (Except Error (Option Tree))

def hardError? (os : Outcomes) : Option Error := os.findSome? hardErrorOf

def lastAmbiguity? (os : Outcomes) : Option Error := os.reverse.findSome? ambiguityOf

def treesOf (os : Outcomes) : List Tree := os.filterMap treeOf

theorem hardError?_cons (o : Except Error (Option Tree)) (os : Outcomes) :
    hardError? (o :: os) = (hardErrorOf o).or (hardError? os) := by
  rw [hardError?, List.findSome?_cons]
  cases hardErrorOf o <;> rfl

theorem treesOf_cons (o : Except Error (Option Tree)) (os : Outcomes) :
    treesOf (o :: os) = (treeOf o).toList ++ treesOf os := by
  rw [treesOf, List.filterMap_cons]
  cases treeOf o <;> rfl

theorem lastAmbiguity?_cons (o : Except Error (Option Tree)) (os : Outcomes) :
    lastAmbiguity? (o :: os) = (lastAmbiguity? os).or (ambiguityOf o) := by
  rw [lastAmbiguity?, List.reverse_cons, List.findSome?_append, List.findSome?_singleton]
  rfl

theorem Registry.makeAmbiguity_of_default {r : Registry} {sort : String}
    (h : r.constructor? sort ambiguityName = some ⟨[.list], none⟩) (span : Option Span)
    (ts : List Tree) (cost : Cost) :
    r.makeAmbiguity sort span ts cost =
      .ok ⟨sort, ambiguityName, span, cost, .ambiguity ts⟩ := by
  rw [makeAmbiguity, make, h]
  rfl

theorem Forest.sortNameWithin_mono {f : Forest} {depth : Nat} {id : NodeId} {breach : Breach}
    (h : f.sortNameWithin depth id = .error breach) (hne : breach ≠ .endlessDerivation) :
    f.sortNameWithin (depth + 1) id = .error breach := by
  induction depth generalizing id with
  | zero => exact absurd (Except.error.inj h).symm hne
  | succ depth ih =>
    rw [sortNameWithin] at h ⊢
    cases hn : f.node id with
    | error e =>
      rw [hn] at h
      exact h
    | ok n =>
      rw [bind_of_ok hn] at h
      rw [bind_of_ok rfl]
      match n with
      | .ambiguity [] => exact h
      | .ambiguity (first :: _) => exact ih h
      | .char _ | .literal .. | .derivation .. | .list .. | .optional .. | .cycle ..
      | .recovery _ => exact h

namespace Builder

variable {b : Builder} {n : NodeId} {alts : List NodeId} {s s' : Session}

theorem outcome_offerValues_cons (alt : NodeId) (alts : List NodeId) (survivors : Survivors Tree)
    (kept : Option Error) (s : Session) :
    (offerValues b.reading (alt :: alts) survivors kept).outcome s =
      match (b.value alt).outcome s with
      | .ok none => (offerValues b.reading alts survivors kept).outcome ((b.value alt).after s)
      | .ok (some t) =>
        (offerValues b.reading alts (survivors.offer t t.cost) kept).outcome
          ((b.value alt).after s)
      | .error e => if e.isAmbiguity then
          (offerValues b.reading alts survivors (some e)).outcome ((b.value alt).after s)
        else .error e := by
  rw [offerValues, outcome_attempt_bind, value_eq_reading]
  match (b.reading.value alt).outcome s with
  | .ok none => rfl
  | .ok (some t) => rfl
  | .error e => rfl

theorem outcome_offerValues {survivors : Survivors Tree} {kept : Option Error}
    (heq : s'.results = s.results)
    (he : (offerValues b.reading alts survivors kept).Ends s') :
    (offerValues b.reading alts survivors kept).outcome s' =
      match hardError? (outcomesOf b.value alts s) with
      | some e => .error e
      | none => .ok (survivors.offerBy Tree.cost (treesOf (outcomesOf b.value alts s)),
          (lastAmbiguity? (outcomesOf b.value alts s)).or kept) := by
  induction alts generalizing survivors kept s s' with
  | nil => rfl
  | cons alt alts ih =>
    rw [Ends, outcome_offerValues_cons] at he
    have hends : (b.value alt).Ends s' := by
      intro h
      rw [h] at he
      exact he rfl
    obtain ⟨ho, hr, -⟩ := extends_value alt s' s trivial heq.symm hends
    simp only [outcome_offerValues_cons, outcomesOf, ho, hardError?_cons,
      treesOf_cons, lastAmbiguity?_cons]
    cases h : (b.value alt).outcome s' with
    | ok tree? =>
      rw [h] at he
      simp only [hardErrorOf, ambiguityOf, Option.none_or, Option.or_none]
      cases tree? with
      | none => exact ih hr.symm he
      | some tree => exact ih hr.symm he
    | error e =>
      by_cases hamb : e.isAmbiguity = true
      · simp only [h, if_pos hamb] at he
        simp only [hardErrorOf, ambiguityOf, if_pos hamb, Option.none_or, Option.or_assoc,
          Option.some_or]
        exact ih hr.symm he
      · simp only [hardErrorOf, if_neg hamb, Option.some_or]

def clusterOutcome (b : Builder) (n : NodeId) (os : Outcomes) : Except Error (Option Tree) :=
  match hardError? os with
  | some e => .error e
  | none => match cheapestBy Tree.cost (treesOf os), lastAmbiguity? os with
    | [], some e => .error e
    | [], none => .ok none
    | [t], _ => .ok (some t)
    | t :: ts, _ => do
      let sort ← b.sortKey n
      some <$> b.registry.makeAmbiguity sort (b.forest.spanOf n) (t :: ts)
        (t.cost.withAmbiguous true)

theorem outcome_cluster (hn : b.forest.node n = .ok (.ambiguity alts))
    (heq : s'.results = s.results) (hnew : s.kept? .clusters n = none)
    (he : (b.cluster b.reading n).Ends s') :
    (b.cluster b.reading n).outcome s' = b.clusterOutcome n (outcomesOf b.value alts s) := by
  have hnew' : s'.kept? .clusters n = none := by rw [Session.kept?, heq]; exact hnew
  have halts : b.forest.alternatives n = .ok alts := map_eq_ok.2 ⟨_, hn, rfl⟩
  rw [Ends, cluster, outcome_once, hnew', checked_bind_of_ok halts] at he
  rw [cluster, outcome_once, hnew', checked_bind_of_ok halts]
  dsimp only at he ⊢
  have hoffer : (offerValues b.reading alts .none none).Ends s' := by
    intro h
    refine he ?_
    rw [outcome_bind, h]
  rw [outcome_bind, outcome_offerValues heq hoffer, clusterOutcome]
  cases hardError? (outcomesOf b.value alts s) with
  | some e => rfl
  | none =>
    have hspan : b.forest.span n = .ok (b.forest.spanOf n) :=
      Forest.span_of_lt (Forest.node_eq_ok.1 hn).choose
    have tied (ts : List Tree) (cost : Cost) : Computes (fun _ => True) (do
        let sort ← b.sortKey n
        some <$> b.registry.makeAmbiguity sort (← b.forest.span n) ts cost) (do
        let sort ← b.sortKey n
        some <$> b.registry.makeAmbiguity sort (b.forest.spanOf n) ts cost) :=
      computes_bind (computes_lift _) fun sort _ =>
        computes_checked_bind hspan (computes_map _ (computes_lift _))
    simp only [Option.or_none, outcome_bind, Survivors.items_offerBy]
    rcases hc : cheapestBy Tree.cost (treesOf (outcomesOf b.value alts s)) with
      _ | ⟨t, _ | ⟨u, ts⟩⟩
    · cases lastAmbiguity? (outcomesOf b.value alts s) <;> rfl
    · rfl
    · simp only [Survivors.cost_offerBy hc]
      exact (tied _ _ _ trivial).1

theorem outcome_value_of_sortName {breach : Breach}
    (h : b.forest.sortName n = .error breach) (s : Session) :
    (b.value n).outcome s = .error (.breach breach) := by
  obtain ⟨below, hread⟩ := b.value_eq_read n s
  rw [outcome, hread, read, h]
  rfl

theorem sortName_first {breach : Breach} (hn : b.forest.node n = .ok (.ambiguity alts))
    (h : b.forest.sortName n = .error breach) (hne : breach ≠ .endlessDerivation) :
    ∃ first rest, alts = first :: rest ∧ b.forest.sortName first = .error breach := by
  rw [Forest.sortName, Forest.depthLimit, Forest.sortNameWithin, bind_of_ok hn] at h
  cases alts with
  | nil => cases h
  | cons first rest =>
    exact ⟨first, rest, rfl, Forest.sortNameWithin_mono h hne⟩

theorem outcome_value_cluster (hn : b.forest.node n = .ok (.ambiguity alts))
    (hnew : s.kept? .clusters n = none) (hends : (b.value n).Ends s) :
    (b.value n).outcome s = b.clusterOutcome n (outcomesOf b.value alts s) := by
  cases hs : b.forest.sortName n with
  | error breach =>
    have ho := outcome_value_of_sortName hs s
    have hne : breach ≠ .endlessDerivation := by
      rintro rfl
      exact hends ho
    obtain ⟨first, rest, rfl, hfirst⟩ := sortName_first hn hs hne
    rw [ho, clusterOutcome, outcomesOf, outcome_value_of_sortName hfirst]
    rfl
  | ok sort =>
    have hread : (b.read b.reading n).outcome s =
        (b.cluster b.reading n).outcome { s with events := s.events.push (.enter n sort) } := by
      rw [read, checked_bind_of_ok hs, checked_bind_of_ok hn]
      rfl
    obtain ⟨ho, -, -⟩ := reading_unfolds.value n s s trivial rfl hends
    have ho := hread.symm.trans ho
    rw [← value_eq_reading] at ho
    rw [← ho]
    refine outcome_cluster hn rfl hnew ?_
    rw [Ends, ho]
    exact hends

/-- With the outcomes of the alternatives, read one after the other: the first error that is no
ambiguity is the outcome. Otherwise the readings of least cost are kept in their order: a single one
is the value, several are tied under an ambiguity node of the cost of the first, and if nothing was
built the last ambiguity is the outcome, if there is one. A value is kept for the cluster. -/
theorem cluster_keeps_cheapest (hn : b.forest.node n = .ok (.ambiguity alts))
    (hnew : s.kept? .clusters n = none) (hends : (b.value n).Ends s) :
    let os := outcomesOf b.value alts s
    let best := cheapestBy Tree.cost (treesOf os)
    (∀ e, hardError? os = some e → (b.value n).outcome s = .error e) ∧
    (hardError? os = none →
      (treesOf os = [] → ∀ e, lastAmbiguity? os = some e → (b.value n).outcome s = .error e) ∧
      (treesOf os = [] → lastAmbiguity? os = none → (b.value n).outcome s = .ok none) ∧
      (treesOf os ≠ [] → best ≠ []) ∧
      (∀ t, best = [t] → (b.value n).outcome s = .ok (some t)) ∧
      ∀ t u ts sort, best = t :: u :: ts → b.sortKey n = .ok sort →
        b.registry.constructor? sort Registry.ambiguityName = some ⟨[.list], none⟩ →
        (b.value n).outcome s = .ok (some ⟨sort, Registry.ambiguityName, b.forest.spanOf n,
          t.cost.withAmbiguous true, .ambiguity best⟩)) ∧
    ∀ v, (b.value n).outcome s = .ok v → ((b.value n).after s).kept? .clusters n = some v := by
  intro os best
  have ho := outcome_value_cluster hn hnew hends
  rw [clusterOutcome] at ho
  refine ⟨fun e he => ?_, fun hhard => ⟨fun hts e he => ?_, fun hts he => ?_,
    Survivors.cheapestBy_ne_nil, fun t ht => ?_, fun t u ts sort hts hsort hdefault => ?_⟩,
    fun v hv => ?_⟩
  · rw [ho, he]
  · rw [ho, hhard, hts, he]
    rfl
  · rw [ho, hhard, hts, he]
    rfl
  · rw [ho, hhard, show cheapestBy Tree.cost (treesOf os) = [t] from ht]
  · rw [hts, ho, hhard, show cheapestBy Tree.cost (treesOf os) = t :: u :: ts from hts]
    dsimp only
    rw [bind_of_ok hsort, Registry.makeAmbiguity_of_default hdefault]
    rfl
  · obtain ⟨below, hread⟩ := b.value_eq_read n s
    rw [outcome, hread] at hv
    rw [after, hread]
    obtain ⟨sort, memory, hs, hm⟩ := exists_memoryOf hv (.inr ⟨alts, hn⟩)
    have hclusters : memory = .clusters := by
      rw [memoryOf?, bind_of_ok hn] at hm
      exact (Option.some.inj (pure_eq_ok.1 hm)).symm
    subst hclusters
    exact kept_after_read hs hm hv

/-- A variable, a fragment that quotes it, and a reference under one cluster, and the fragment
before the variable under another. -/
def quotedOrPlain : Builder where
  forest := {
    grammar := ⟨"Quoted", [⟨.named .lexical "Id", none, [], true⟩,
      ⟨.named .sort "Expression", some "var", [.named .lexical "Id"], false⟩,
      ⟨.named .sort "Expression", some "ref", [.named .lexical "Id"], false⟩,
      ⟨.named .sort "Expression", some "ConcreteQuoted", [.named .sort "Expression"], false⟩],
      by decide⟩
    entries := #[⟨.char 120, none⟩, ⟨.derivation 0 [0], none⟩, ⟨.derivation 1 [1], none⟩,
      ⟨.derivation 2 [1], none⟩, ⟨.derivation 3 [2], none⟩, ⟨.ambiguity [2, 4, 3], none⟩,
      ⟨.ambiguity [4, 2], none⟩]
    source := "<input>"
    lines := none }
  registry := (Registry.empty.define ⟨"Id", true, []⟩).define
    ⟨"Expression", false, [("Var", [.node]), ("Ref", [.node])]⟩
  conventions := .standard

/-- The variable and the reference tie, and the fragment is dropped wherever it stands. -/
theorem cluster_keeps_cheapest_quotedOrPlain :
    let x : Tree := ⟨"Id", "Lexical", none, .zero, .lexical "x"⟩
    let var : Tree := ⟨"Expression", "Var", none, .zero, .application [.node x]⟩
    let ref : Tree := ⟨"Expression", "Ref", none, .zero, .application [.node x]⟩
    let token := Tree.image "Expression" none (.token (.lexical 0 "x")) .zero
    let quoted := Tree.image "Expression" none (.image (.derivation 1) [token]) ⟨false, 1, 0, 1, 0⟩
    let either : Tree :=
      ⟨"Expression", "Ambiguity", none, Cost.zero.withAmbiguous true, .ambiguity [var, ref]⟩
    quotedOrPlain.forest.node 5 = .ok (.ambiguity [2, 4, 3]) ∧
      Session.initial.kept? .clusters 5 = none ∧ (quotedOrPlain.value 5).Ends .initial ∧
      outcomesOf quotedOrPlain.value [2, 4, 3] .initial =
        [.ok (some var), .ok (some quoted), .ok (some ref)] ∧
      (quotedOrPlain.value 5).outcome .initial = .ok (some either) ∧
      ((quotedOrPlain.value 5).after .initial).kept? .clusters 5 = some (some either) ∧
      quotedOrPlain.forest.node 6 = .ok (.ambiguity [4, 2]) ∧
      Session.initial.kept? .clusters 6 = none ∧ (quotedOrPlain.value 6).Ends .initial ∧
      outcomesOf quotedOrPlain.value [4, 2] .initial = [.ok (some quoted), .ok (some var)] ∧
      (quotedOrPlain.value 6).outcome .initial = .ok (some var) := by
  intro x var ref token quoted either
  have hn : quotedOrPlain.forest.node 5 = .ok (.ambiguity [2, 4, 3]) := by decide +kernel
  have hends : (quotedOrPlain.value 5).Ends .initial :=
    ends_of_ok (a := some either) (by decide +kernel)
  have hos : outcomesOf quotedOrPlain.value [2, 4, 3] .initial =
      [.ok (some var), .ok (some quoted), .ok (some ref)] := by decide +kernel
  obtain ⟨-, built, kept⟩ := cluster_keeps_cheapest hn rfl hends
  rw [hos] at built
  obtain ⟨-, -, -, -, tied⟩ := built rfl
  have hvalue := tied var ref [] "Expression" (by decide +kernel) (by decide +kernel) rfl
  have hn' : quotedOrPlain.forest.node 6 = .ok (.ambiguity [4, 2]) := by decide +kernel
  have hends' : (quotedOrPlain.value 6).Ends .initial :=
    ends_of_ok (a := some var) (by decide +kernel)
  have hos' : outcomesOf quotedOrPlain.value [4, 2] .initial =
      [.ok (some quoted), .ok (some var)] := by decide +kernel
  obtain ⟨-, built', -⟩ := cluster_keeps_cheapest hn' rfl hends'
  rw [hos'] at built'
  obtain ⟨-, -, -, single, -⟩ := built' rfl
  exact ⟨hn, rfl, hends, hos, hvalue, kept _ hvalue, hn', rfl, hends', hos',
    single var (by decide +kernel)⟩

end Builder

end ParseForest
