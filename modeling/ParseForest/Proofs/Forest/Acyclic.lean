import ParseForest.Build.Fragment
import ParseForest.Proofs.Success

/-!
Forests without cycles: every node refers to nodes of smaller numbers only. Whatever a reading
selects among the children of a node is then below it. Main statements: `Acyclic.lt_of_children`,
`Acyclic.lt_of_slot`, `Acyclic.lt_of_pattern`.
-/

namespace ParseForest

open Success

namespace Forest

/-- Every child and every alternative of a node has a smaller number. -/
def Acyclic (f : Forest) : Prop :=
  ∀ (id : Nat) (h : id < f.entries.size), ∀ c ∈ f.entries[id].node.children ++
    f.entries[id].node.alternatives, c < id

instance (f : Forest) : Decidable f.Acyclic := by
  unfold Acyclic
  infer_instance

variable {f : Forest}

theorem node_eq_ok {id : NodeId} {n : Node} :
    f.node id = .ok n ↔ ∃ h : id < f.entries.size, f.entries[id].node = n := by
  unfold node entry
  by_cases h : id < f.entries.size
  · simp [h, Functor.map, Except.map]
  · simp [h, Functor.map, Except.map]

theorem acyclic_iff :
    f.Acyclic ↔ ∀ id n, f.node id = .ok n → ∀ c ∈ n.children ++ n.alternatives, c < id := by
  constructor
  · intro hf id n hn c hc
    obtain ⟨h, rfl⟩ := node_eq_ok.1 hn
    exact hf id h c hc
  · exact fun h id hid => h id _ (node_eq_ok.2 ⟨hid, rfl⟩)

theorem children_eq_ok {id : NodeId} {cs : List NodeId} :
    f.children id = .ok cs ↔ ∃ n, f.node id = .ok n ∧ n.children = cs :=
  map_eq_ok

theorem alternatives_eq_ok {id : NodeId} {alts : List NodeId} :
    f.alternatives id = .ok alts ↔ ∃ n, f.node id = .ok n ∧ n.alternatives = alts :=
  map_eq_ok

namespace Acyclic

variable (hf : f.Acyclic)
include hf

theorem lt_of_child {id c : NodeId} {n : Node} (hn : f.node id = .ok n) (hc : c ∈ n.children) :
    c < id := by
  obtain ⟨h, rfl⟩ := node_eq_ok.1 hn
  exact hf id h c (List.mem_append_left _ hc)

theorem lt_of_alternative {id c : NodeId} {n : Node} (hn : f.node id = .ok n)
    (hc : c ∈ n.alternatives) : c < id := by
  obtain ⟨h, rfl⟩ := node_eq_ok.1 hn
  exact hf id h c (List.mem_append_right _ hc)

theorem child_lt {id c : NodeId} {n : Node} (hn : f.node id = .ok n) (hc : c ∈ n.children) :
    c < f.size :=
  Nat.lt_trans (hf.lt_of_child hn hc) (node_eq_ok.1 hn).choose

theorem alternative_lt {id c : NodeId} {n : Node} (hn : f.node id = .ok n)
    (hc : c ∈ n.alternatives) : c < f.size :=
  Nat.lt_trans (hf.lt_of_alternative hn hc) (node_eq_ok.1 hn).choose

theorem lt_of_children {id c : NodeId} {cs : List NodeId} (h : f.children id = .ok cs)
    (hc : c ∈ cs) : c < id := by
  obtain ⟨n, hn, rfl⟩ := children_eq_ok.1 h
  exact hf.lt_of_child hn hc

theorem lt_of_alternatives {id c : NodeId} {alts : List NodeId} (h : f.alternatives id = .ok alts)
    (hc : c ∈ alts) : c < id := by
  obtain ⟨n, hn, rfl⟩ := alternatives_eq_ok.1 h
  exact hf.lt_of_alternative hn hc

theorem lt_of_slot {id held : NodeId} (h : f.slot id = .ok (.optional (some held))) :
    held < id := by
  obtain ⟨n, hn, h⟩ := bind_eq_ok.1 h
  cases n with
  | optional prod child =>
    cases pure_eq_ok.1 h
    exact hf.lt_of_child hn (List.mem_singleton_self held)
  | ambiguity alts =>
    cases alts with
    | nil => cases pure_eq_ok.1 h
    | cons first rest =>
      obtain ⟨l, _, h⟩ := bind_eq_ok.1 h
      cases l <;> cases pure_eq_ok.1 h
  | _ => cases pure_eq_ok.1 h

end Acyclic

end Forest

theorem Checked.sublist_of_filter {α : Type} {property : α → Checked Bool} {as bs : List α}
    (h : Checked.filter property as = .ok bs) : bs.Sublist as := by
  induction as generalizing bs with
  | nil =>
    cases h
    exact .slnil
  | cons a as ih =>
    obtain ⟨holds, _, h⟩ := bind_eq_ok.1 h
    obtain ⟨rest, hrest, h⟩ := bind_eq_ok.1 h
    cases pure_eq_ok.1 h
    cases holds with
    | true => exact (ih hrest).cons_cons a
    | false => exact (ih hrest).cons a

theorem sublist_everyAfter {α : Type} {gap skipped : Nat} {as : List α} :
    (everyAfter gap skipped as).Sublist as := by
  induction as generalizing skipped with
  | nil => cases skipped <;> exact .slnil
  | cons a as ih =>
    cases skipped with
    | zero => exact ih.cons_cons a
    | succ skipped => exact ih.cons a

namespace Builder

variable {b : Builder}

theorem sublist_of_arguments {id : NodeId} {cs : List NodeId} (h : b.arguments id = .ok cs) :
    ∃ all, b.forest.children id = .ok all ∧ cs.Sublist all := by
  obtain ⟨all, hall, h⟩ := bind_eq_ok.1 h
  exact ⟨all, hall, Checked.sublist_of_filter h⟩

theorem sublist_of_elements {id : NodeId} {cs : List NodeId} (h : b.elements id = .ok cs) :
    ∃ all, b.forest.children id = .ok all ∧ cs.Sublist all := by
  obtain ⟨p, _, h⟩ := bind_eq_ok.1 h
  obtain ⟨visible, hv, h⟩ := bind_eq_ok.1 h
  cases pure_eq_ok.1 h
  obtain ⟨all, hall, hv⟩ := bind_eq_ok.1 hv
  exact ⟨all, hall, sublist_everyAfter.trans (Checked.sublist_of_filter hv)⟩

theorem mem_children_of_arguments {id c : NodeId} {cs : List NodeId}
    (h : b.arguments id = .ok cs) (hc : c ∈ cs) :
    ∃ all, b.forest.children id = .ok all ∧ c ∈ all := by
  obtain ⟨all, hall, hcs⟩ := sublist_of_arguments h
  exact ⟨all, hall, hcs.subset hc⟩

theorem mem_children_of_elements {id c : NodeId} {cs : List NodeId}
    (h : b.elements id = .ok cs) (hc : c ∈ cs) :
    ∃ all, b.forest.children id = .ok all ∧ c ∈ all := by
  obtain ⟨all, hall, hcs⟩ := sublist_of_elements h
  exact ⟨all, hall, hcs.subset hc⟩

theorem mem_arguments_of_pattern {id p : NodeId} (h : b.pattern? id = .ok (some p)) :
    ∃ cs, b.arguments id = .ok cs ∧ p ∈ cs := by
  obtain ⟨isEmpty, _, h⟩ := bind_eq_ok.1 h
  cases isEmpty with
  | true => cases pure_eq_ok.1 h
  | false =>
    obtain ⟨name, _, h⟩ := bind_eq_ok.1 h
    obtain ⟨cs, hcs, h⟩ := bind_eq_ok.1 h
    have h := pure_eq_ok.1 h
    refine ⟨cs, hcs, ?_⟩
    split at h
    · exact List.mem_of_mem_head? h
    · exact List.mem_of_getLast? h

end Builder

namespace Forest.Acyclic

variable {b : Builder} (hf : b.forest.Acyclic)
include hf

theorem lt_of_arguments {id c : NodeId} {cs : List NodeId} (h : b.arguments id = .ok cs)
    (hc : c ∈ cs) : c < id := by
  obtain ⟨all, hall, hc⟩ := Builder.mem_children_of_arguments h hc
  exact hf.lt_of_children hall hc

theorem lt_of_elements {id c : NodeId} {cs : List NodeId} (h : b.elements id = .ok cs)
    (hc : c ∈ cs) : c < id := by
  obtain ⟨all, hall, hc⟩ := Builder.mem_children_of_elements h hc
  exact hf.lt_of_children hall hc

theorem lt_of_pattern {id p : NodeId} (h : b.pattern? id = .ok (some p)) : p < id := by
  obtain ⟨cs, hcs, hp⟩ := Builder.mem_arguments_of_pattern h
  exact hf.lt_of_arguments hcs hp

end Forest.Acyclic

end ParseForest
