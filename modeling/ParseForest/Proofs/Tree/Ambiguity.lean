import Mathlib.Logic.Relation
import ParseForest.Proofs.Success
import ParseForest.Tree.Basic

/-!
Where ambiguities lie in a tree, and what the flags of costs say about it. Whether all flags of a
tree are right can be told from its own flag and those directly below, if they are right further
down. Main statements: `Cost.Flags.add`, `Tree.exact_iff`.
-/

namespace ParseForest

open Success

/-- The cost is flagged as ambiguous if and only if that of one of the trees is. -/
def Cost.Flags (c : Cost) (ts : List Tree) : Prop :=
  c.ambiguous = true ↔ ∃ t ∈ ts, t.cost.ambiguous = true

namespace Cost

variable {c d e : Cost} {ts us : List Tree}

theorem eq_of_add (h : c.add d = .ok e) :
    e = ⟨c.ambiguous || d.ambiguous, c.injections + d.injections, c.holes + d.holes,
      c.fragments + d.fragments, c.fragmentSize + d.fragmentSize⟩ := by
  obtain ⟨_, hinjections, h⟩ := bind_eq_ok.1 h
  obtain ⟨_, hholes, h⟩ := bind_eq_ok.1 h
  obtain ⟨_, hfragments, h⟩ := bind_eq_ok.1 h
  obtain ⟨_, hsize, h⟩ := bind_eq_ok.1 h
  rw [← pure_eq_ok.1 h, (addWord_eq_ok_iff.1 hinjections).2, (addWord_eq_ok_iff.1 hholes).2,
    (addWord_eq_ok_iff.1 hfragments).2, (addWord_eq_ok_iff.1 hsize).2]

theorem flags_nil (h : c.ambiguous = false) : c.Flags [] := by simp [Flags, h]

theorem flags_singleton (t : Tree) : t.cost.Flags [t] := by simp [Flags]

theorem Flags.add (hc : c.Flags ts) (hd : d.Flags us) (h : c.add d = .ok e) :
    e.Flags (ts ++ us) := by
  unfold Flags at hc hd ⊢
  rw [eq_of_add h, Bool.or_eq_true, hc, hd]
  simp only [List.mem_append, or_and_right, exists_or]

theorem flags_sum (h : sum (ts.map Tree.cost) = .ok c) : c.Flags ts := by
  have hfrom : ∀ (us ts : List Tree) (start c : Cost), start.Flags us →
      (ts.map Tree.cost).foldlM Cost.add start = .ok c → c.Flags (us ++ ts) := by
    intro us ts
    induction ts generalizing us with
    | nil =>
      intro start c hstart h
      cases h
      rwa [List.append_nil]
    | cons t ts ih =>
      intro start c hstart h
      obtain ⟨next, hnext, h⟩ := bind_eq_ok.1 h
      rw [List.append_cons]
      exact ih (us ++ [t]) next c (hstart.add (flags_singleton t) hnext) h
  exact hfrom [] ts zero c (flags_nil rfl) h

end Cost

theorem Arg.flags_cost {a : Arg Tree} {c : Cost} (h : a.cost = .ok c) : c.Flags a.trees := by
  cases a with
  | node t =>
    cases h
    exact Cost.flags_singleton t
  | list ts => exact Cost.flags_sum h
  | text s =>
    cases h
    exact Cost.flags_nil rfl

namespace Tree

variable {t : Tree}

/-- The second tree lies inside the first one, at any depth, or is that tree. -/
def Contains : Tree → Tree → Prop := Relation.ReflTransGen fun t s => s ∈ t.body.subtrees

def HoldsAmbiguity (t : Tree) : Prop := ∃ s, t.Contains s ∧ s.isAmbiguity = true

/-- The tree is the image of a cluster in which the choice was left open. -/
def IsTie (t : Tree) : Prop := ∃ ts, t.body = .image .ambiguity ts

/-- If the choice was left open in an image inside of the tree, the cost of the tree is flagged. -/
def TiesFlagged (t : Tree) : Prop := ∀ s, t.Contains s → s.IsTie → t.cost.ambiguous = true

/-- The flag of the tree and those of all trees inside it say where ambiguities are held. -/
def Exact (t : Tree) : Prop :=
  ∀ s, t.Contains s → (s.cost.ambiguous = true ↔ s.HoldsAmbiguity)

theorem contains_iff {u : Tree} :
    t.Contains u ↔ t = u ∨ ∃ s ∈ t.body.subtrees, s.Contains u := by
  constructor
  · intro h
    rcases Relation.ReflTransGen.cases_head h with rfl | ⟨s, hs, hsu⟩
    · exact .inl rfl
    · exact .inr ⟨s, hs, hsu⟩
  · rintro (rfl | ⟨s, hs, hsu⟩)
    · exact .refl
    · exact .head hs hsu

theorem holdsAmbiguity_iff :
    t.HoldsAmbiguity ↔ t.isAmbiguity = true ∨ ∃ s ∈ t.body.subtrees, s.HoldsAmbiguity := by
  constructor
  · rintro ⟨u, hu, hamb⟩
    rcases contains_iff.1 hu with rfl | ⟨s, hs, hsu⟩
    · exact .inl hamb
    · exact .inr ⟨s, hs, u, hsu, hamb⟩
  · rintro (hamb | ⟨s, hs, u, hsu, hamb⟩)
    · exact ⟨t, .refl, hamb⟩
    · exact ⟨u, .head hs hsu, hamb⟩

theorem Exact.flag (h : t.Exact) : t.cost.ambiguous = true ↔ t.HoldsAmbiguity := h t .refl

theorem Exact.part {s : Tree} (h : t.Exact) (hs : s ∈ t.body.subtrees) : s.Exact :=
  fun u hu => h u (.head hs hu)

theorem exact_iff :
    t.Exact ↔ (∀ s ∈ t.body.subtrees, s.Exact) ∧
      (t.cost.ambiguous = true ↔
        t.isAmbiguity = true ∨ ∃ s ∈ t.body.subtrees, s.cost.ambiguous = true) := by
  have hbelow : (∀ s ∈ t.body.subtrees, s.Exact) →
      ((∃ s ∈ t.body.subtrees, s.cost.ambiguous = true) ↔
        ∃ s ∈ t.body.subtrees, s.HoldsAmbiguity) :=
    fun h => exists_congr fun s => and_congr_right fun hs => (h s hs).flag
  constructor
  · intro h
    have hparts : ∀ s ∈ t.body.subtrees, s.Exact := fun s hs => h.part hs
    exact ⟨hparts, by rw [h.flag, holdsAmbiguity_iff, hbelow hparts]⟩
  · rintro ⟨hparts, hflag⟩ s hs
    rcases contains_iff.1 hs with rfl | ⟨u, hu, hus⟩
    · rw [hflag, holdsAmbiguity_iff, hbelow hparts]
    · exact hparts u hu s hus

theorem tiesFlagged_of_flagged (h : t.cost.ambiguous = true) : t.TiesFlagged := fun _ _ _ => h

theorem TiesFlagged.of_parts (single : ¬ t.IsTie) (hparts : ∀ s ∈ t.body.subtrees, s.TiesFlagged)
    (hflag : ∀ s ∈ t.body.subtrees, s.cost.ambiguous = true → t.cost.ambiguous = true) :
    t.TiesFlagged := by
  intro u hu htie
  rcases contains_iff.1 hu with rfl | ⟨s, hs, hsu⟩
  · exact absurd htie single
  · exact hflag s hs (hparts s hs u hsu htie)

theorem TiesFlagged.withCost (h : t.TiesFlagged) {cost : Cost}
    (hcost : cost.ambiguous = t.cost.ambiguous) : (t.withCost cost).TiesFlagged := by
  intro u hu htie
  refine hcost.trans ?_
  rcases contains_iff.1 hu with rfl | ⟨s, hs, hsu⟩
  · exact h t .refl htie
  · exact h u (.head hs hsu) htie

theorem exact_of_flags (single : t.isAmbiguity = false)
    (hparts : ∀ s ∈ t.body.subtrees, s.Exact) (hcost : t.cost.Flags t.body.subtrees) :
    t.Exact := by
  refine exact_iff.2 ⟨hparts, ?_⟩
  rw [single]
  simpa [Cost.Flags] using hcost

theorem exact_of_ambiguity (tied : t.isAmbiguity = true)
    (hparts : ∀ s ∈ t.body.subtrees, s.Exact) (hcost : t.cost.ambiguous = true) : t.Exact :=
  exact_iff.2 ⟨hparts, by simp [tied, hcost]⟩

end Tree

end ParseForest
