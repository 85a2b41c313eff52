import ParseForest.Proofs.Forest.Acyclic

/-!
In a forest without cycles every node covers some text, which is that of its parts: no traversal of
one runs out of levels. Main statements: `Acyclic.exists_yieldText`,
`Acyclic.yieldText_of_derivation`.
-/

namespace ParseForest

open Success

theorem Success.exists_mapM {ε α β : Type} {f : α → Except ε β} {as : List α}
    (h : ∀ a ∈ as, ∃ b, f a = .ok b) : ∃ bs, as.mapM f = .ok bs := by
  induction as with
  | nil => exact ⟨[], rfl⟩
  | cons a as ih =>
    obtain ⟨b, hb⟩ := h a List.mem_cons_self
    obtain ⟨bs, hbs⟩ := ih fun a' ha' => h a' (List.mem_cons_of_mem _ ha')
    refine ⟨b :: bs, ?_⟩
    rw [List.mapM_cons, hb, hbs]
    rfl

namespace Forest

variable {f : Forest}

def spanOf (f : Forest) (id : NodeId) : Option Span := f.entries[id]?.bind (·.span)

theorem node_of_lt {n : Nat} (hn : n < f.size) : ∃ node, f.node n = .ok node :=
  ⟨f.entries[n].node, node_eq_ok.2 ⟨hn, rfl⟩⟩

theorem span_of_lt {n : Nat} (hn : n < f.size) : f.span n = .ok (f.spanOf n) := by
  have he : f.entries[n]? = some f.entries[n] := Array.getElem?_eq_getElem hn
  simp only [span, entry, spanOf, he]
  rfl

namespace Acyclic

variable (hf : f.Acyclic)
include hf

theorem exists_yieldWithin {n depth : Nat} (hn : n < f.size) (hd : n < depth) :
    ∃ s, f.yieldWithin depth n = .ok s := by
  induction depth generalizing n with
  | zero => exact absurd hd (Nat.not_lt_zero n)
  | succ depth ih =>
    obtain ⟨node, hnode⟩ := node_of_lt hn
    have below : ∀ c ∈ node.children ++ node.alternatives, ∃ s, f.yieldWithin depth c = .ok s := by
      intro c hc
      have hlt : c < n := acyclic_iff.1 hf n node hnode c hc
      exact ih (Nat.lt_trans hlt hn) (Nat.lt_of_lt_of_le hlt (Nat.le_of_lt_succ hd))
    unfold yieldWithin
    rw [hnode]
    cases node with
    | char code => exact ⟨_, rfl⟩
    | literal text prod => exact ⟨_, rfl⟩
    | recovery text => exact ⟨_, rfl⟩
    | cycle level prod => exact ⟨_, rfl⟩
    | derivation prod cs =>
      obtain ⟨texts, ht⟩ := exists_mapM fun c hc => below c (List.mem_append_left _ hc)
      exact ⟨String.join texts, bind_eq_ok.2 ⟨_, rfl, bind_eq_ok.2 ⟨texts, ht, rfl⟩⟩⟩
    | list prod cs isPartial =>
      obtain ⟨texts, ht⟩ := exists_mapM fun c hc => below c (List.mem_append_left _ hc)
      exact ⟨String.join texts, bind_eq_ok.2 ⟨_, rfl, bind_eq_ok.2 ⟨texts, ht, rfl⟩⟩⟩
    | optional prod child =>
      cases child with
      | none => exact ⟨_, rfl⟩
      | some child => exact below child (List.mem_append_left _ (List.mem_singleton_self _))
    | ambiguity alts =>
      cases alts with
      | nil => exact ⟨_, rfl⟩
      | cons first rest => exact below first List.mem_cons_self

theorem exists_yieldText {n : Nat} (hn : n < f.size) : ∃ s, f.yieldText n = .ok s :=
  hf.exists_yieldWithin hn (Nat.lt_succ_of_lt hn)

theorem yieldWithin_eq {n d d' : Nat} (hd : n < d) (hd' : n < d') :
    f.yieldWithin d n = f.yieldWithin d' n := by
  induction d generalizing n d' with
  | zero => exact absurd hd (Nat.not_lt_zero n)
  | succ d ih =>
    obtain ⟨d', rfl⟩ := Nat.exists_eq_add_one.2 (Nat.zero_lt_of_lt hd')
    unfold yieldWithin
    refine bind_congr_ok fun node hnode => ?_
    have below : ∀ c ∈ node.children ++ node.alternatives,
        f.yieldWithin d c = f.yieldWithin d' c := by
      intro c hc
      have hlt : c < n := acyclic_iff.1 hf n node hnode c hc
      exact ih (Nat.lt_of_lt_of_le hlt (Nat.le_of_lt_succ hd))
        (Nat.lt_of_lt_of_le hlt (Nat.le_of_lt_succ hd'))
    match node with
    | .derivation _ cs | .list _ cs _ =>
      have texts : cs.mapM (f.yieldWithin d) = cs.mapM (f.yieldWithin d') :=
        mapM_congr fun c hc => below c (List.mem_append_left _ hc)
      dsimp only
      rw [texts]
    | .optional _ (some c) => exact below c (List.mem_append_left _ (List.mem_singleton_self c))
    | .ambiguity (first :: _) => exact below first List.mem_cons_self
    | .char _ | .literal .. | .optional _ none | .ambiguity [] | .cycle .. | .recovery _ => rfl

theorem yieldWithin_eq_yieldText {n depth : Nat} (hn : n < f.size) (hd : n < depth) :
    f.yieldWithin depth n = f.yieldText n :=
  hf.yieldWithin_eq hd (Nat.lt_succ_of_lt hn)

section Parts

variable {n : Nat} {prod : ProdId} {cs : List NodeId}

theorem mapM_yieldWithin (hcs : ∀ c ∈ cs, c < f.size) :
    cs.mapM (f.yieldWithin f.size) = cs.mapM f.yieldText :=
  mapM_congr fun c hc => hf.yieldWithin_eq_yieldText (hcs c hc) (hcs c hc)

theorem yieldText_of_derivation (hn : f.node n = .ok (.derivation prod cs)) :
    f.yieldText n = String.join <$> cs.mapM f.yieldText := by
  have hcs : ∀ c ∈ cs, c < f.size := fun c hc => hf.child_lt hn hc
  rw [yieldText, depthLimit, yieldWithin, bind_of_ok hn]
  dsimp only
  rw [hf.mapM_yieldWithin hcs, map_eq_pure_bind]

theorem yieldText_of_list {isPartial : Bool} (hn : f.node n = .ok (.list prod cs isPartial)) :
    f.yieldText n = String.join <$> cs.mapM f.yieldText := by
  have hcs : ∀ c ∈ cs, c < f.size := fun c hc => hf.child_lt hn hc
  rw [yieldText, depthLimit, yieldWithin, bind_of_ok hn]
  dsimp only
  rw [hf.mapM_yieldWithin hcs, map_eq_pure_bind]

theorem yieldText_of_optional {child : Option NodeId}
    (hn : f.node n = .ok (.optional prod child)) :
    f.yieldText n = String.join <$> child.toList.mapM f.yieldText := by
  rw [yieldText, depthLimit, yieldWithin, bind_of_ok hn]
  cases child with
  | none => rfl
  | some c =>
    have hlt : c < f.size := hf.child_lt hn (List.mem_singleton_self c)
    dsimp only
    rw [hf.yieldWithin_eq_yieldText hlt hlt, Option.toList_some, List.mapM_cons]
    cases f.yieldText c with
    | ok text =>
      have hjoin : String.join [text] = text := by simp
      exact congrArg Except.ok hjoin.symm
    | error breach => rfl

theorem yieldText_of_ambiguity {first : NodeId} {rest : List NodeId}
    (hn : f.node n = .ok (.ambiguity (first :: rest))) : f.yieldText n = f.yieldText first := by
  have hlt : first < f.size := hf.alternative_lt hn List.mem_cons_self
  rw [yieldText, depthLimit, yieldWithin, bind_of_ok hn]
  exact hf.yieldWithin_eq_yieldText hlt hlt

end Parts

end Acyclic

end Forest

end ParseForest
