import ParseForest.Proofs.Fragment.Optimality
import ParseForest.Proofs.Reading.Sustained

/-!
Fragments that lie in the pattern of another one, outside of its anti-quotes. Such a node has a
value and an image, but one result is kept for it: whichever was asked for first serves as both from
then on. So kept results show here, and that they do not show elsewhere needs `QuotesApart`. Main
statement: `first_kept_serves`.
-/

namespace ParseForest.Builder

open Build Success

variable {b : Builder} {e : NodeId} {v : Option Tree}

theorem computes_once_of_kept {memory : Memory} {node : NodeId} {build : Build (Option Tree)} :
    Computes (fun t => t.get? (memory, node) = some v) (once memory node build) (.ok v) := by
  intro s hs
  have hkept : s.kept? memory node = some v := hs
  simp only [outcome, after, once_of_kept hkept]
  exact ⟨trivial, hs⟩

theorem computes_value_of_kept (he : b.Embeds e) :
    Computes (fun t => t.get? (.fragments, e) = some v) (b.value e) (.ok v) :=
  computes_value_of_read fun _ => computes_read_of_embeds he computes_once_of_kept

/-- The first result that is kept for a fragment is its value after any more calls, and its image in
whatever pattern it is met. -/
theorem first_kept_serves (he : b.Embeds e) {calls : List Call}
    (h : (b.sessionAfter calls).kept? .fragments e = some v) (more : List Call) (below : Descent) :
    (b.value e).outcome (b.sessionAfter (calls ++ more)) = .ok v ∧
      (b.image below e).outcome (b.sessionAfter (calls ++ more)) = .ok v := by
  have hkept := holds_sessionAfter_append
    (fun n => (sustains_any.value (stores_kept .fragments e v) n).keeps) h more
  exact ⟨(computes_value_of_kept he _ hkept).1, (computes_once_of_kept _ hkept).1⟩

/-- A quoted pair of a variable and the fragment that quotes the same variable. -/
def nestedPair : Builder where
  forest := {
    grammar := ⟨"Quoted", [⟨.named .lexical "Id", none, [], true⟩,
      ⟨.named .sort "Expression", some "var", [.named .lexical "Id"], false⟩,
      ⟨.named .sort "Expression", some "pair",
        [.named .sort "Expression", .named .sort "Expression"], false⟩,
      ⟨.named .sort "Expression", some "ConcreteQuoted", [.named .sort "Expression"], false⟩],
      by decide⟩
    entries := #[⟨.char 120, none⟩, ⟨.derivation 0 [0], none⟩, ⟨.derivation 1 [1], none⟩,
      ⟨.derivation 3 [2], none⟩, ⟨.derivation 2 [2, 3], none⟩, ⟨.derivation 3 [4], none⟩]
    source := "<input>"
    lines := none }
  registry := .empty
  conventions := .standard

theorem first_kept_serves_nestedPair :
    let x := Tree.image "Expression" none (.token (.lexical 0 "x")) .zero
    let var := Tree.image "Expression" none (.image (.derivation 1) [x]) (.ofInjections 1)
    let quoted := Tree.image "Expression" none (.image (.derivation 3) [var]) (.ofInjections 2)
    nestedPair.Embeds 3 ∧
      (nestedPair.value 3).outcome (nestedPair.sessionAfter [.value 5, .value 2]) =
        .ok (some quoted) := by
  intro x var quoted
  have he : nestedPair.Embeds 3 := by decide +kernel
  have hkept : (nestedPair.sessionAfter [.value 5]).kept? .fragments 3 = some (some quoted) := by
    decide +kernel
  exact ⟨he, (first_kept_serves he hkept [.value 2] .ended).1⟩

/-- Read first, the fragment in the pair has its pattern as value, and stands in the image of the
pair with that. Read after the pair, it has its image as value, which stands in the pair. -/
theorem value_nestedPair_varies :
    let x := Tree.image "Expression" none (.token (.lexical 0 "x")) .zero
    let var := Tree.image "Expression" none (.image (.derivation 1) [x]) (.ofInjections 1)
    let image := Tree.image "Expression" none (.image (.derivation 3) [var]) (.ofInjections 2)
    let value := var.withCost ⟨false, 1, 0, 1, 0⟩
    let pair (second : Tree) (injections : Nat) := Tree.image "Expression" none
      (.image (.derivation 2) [var, second]) ⟨false, injections, 0, 1, 0⟩
    nestedPair.forest.Acyclic ∧ nestedPair.Quotes 5 4 ∧ nestedPair.Reaches 4 3 ∧
      nestedPair.Embeds 3 ∧
      (nestedPair.value 3).outcome .initial = .ok (some value) ∧
      (nestedPair.value 3).outcome (nestedPair.sessionAfter [.value 5]) = .ok (some image) ∧
      (nestedPair.value 5).outcome .initial = .ok (some (pair image 3)) ∧
      (nestedPair.value 5).outcome (nestedPair.sessionAfter [.value 3]) =
        .ok (some (pair value 2)) ∧
      value ≠ image := by
  refine ⟨by decide +kernel, by decide +kernel, .single (by decide +kernel), by decide +kernel,
    by decide +kernel, by decide +kernel, by decide +kernel, by decide +kernel, ?_⟩
  intro h
  cases h

end ParseForest.Builder
