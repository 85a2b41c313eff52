import Mathlib.Data.Nat.ModEq
import ParseForest.Proofs.Forest.Layout
import ParseForest.Proofs.Forest.Queries

/-!
Lists whose items were put into partial lists on the way, and the items that are found in them by
stepping over separators. A partial list in a partial list is one step, whatever it holds. Nothing
is passed over if such lists begin and end with an element. Main statements:
`Groups.exists_children`, `picks_sublist`, `Aligned.picks_eq`.
-/

namespace ParseForest

open Success Checked

/-- The items of a list in order, with any consecutive ones of them grouped, at any depth. -/
inductive Grouping where
  | nil
  | item (node : NodeId) (rest : Grouping)
  | group (members rest : Grouping)

namespace Grouping

def leaves : Grouping → List NodeId
  | nil => []
  | item n rest => n :: rest.leaves
  | group members rest => members.leaves ++ rest.leaves

def ungrouped : List NodeId → Grouping
  | [] => nil
  | n :: ns => item n (ungrouped ns)

def append : Grouping → Grouping → Grouping
  | nil, g => g
  | item n rest, g => item n (rest.append g)
  | group members rest, g => group members (rest.append g)

def opened : Grouping → Grouping
  | nil => nil
  | item n rest => item n rest.opened
  | group members rest => members.append rest.opened

theorem leaves_append (g h : Grouping) : (g.append h).leaves = g.leaves ++ h.leaves := by
  induction g with
  | nil => rfl
  | item n rest ih => exact congrArg (n :: ·) ih
  | group members rest _ ih => rw [append, leaves, ih, leaves, List.append_assoc]

@[simp] theorem leaves_opened (g : Grouping) : g.opened.leaves = g.leaves := by
  induction g with
  | nil => rfl
  | item n rest ih => exact congrArg (n :: ·) ih
  | group members rest _ ih => rw [opened, leaves_append, ih, leaves]

@[simp] theorem leaves_ungrouped (ns : List NodeId) : (ungrouped ns).leaves = ns := by
  induction ns with
  | nil => rfl
  | cons n ns ih => exact congrArg (n :: ·) ih

@[simp] theorem opened_ungrouped (ns : List NodeId) : (ungrouped ns).opened = ungrouped ns := by
  induction ns with
  | nil => rfl
  | cons n ns ih => exact congrArg (item n) ih

/-- What is read of each step that a list of the items and groups takes: the item itself, or what
the group is read as on its own. Layout takes no step. -/
def picks (f : Forest) (gap : Nat) : Grouping → List (List NodeId)
  | nil => []
  | item n rest => if f.isLayoutAt n then rest.picks f gap else [n] :: rest.picks f gap
  | group members rest => (everyAfter gap 0 (members.picks f gap)).flatten :: rest.picks f gap

/-- After `skipped` more separators there is an element, and every group begins and ends with an
element. Only a group of a single separator may stand for one. -/
inductive Aligned (f : Forest) (gap : Nat) : Nat → Grouping → Prop
  | nil (skipped : Nat) : Aligned f gap skipped nil
  | layout {skipped : Nat} {n : NodeId} {rest : Grouping} (hidden : f.isLayoutAt n = true)
    (tail : Aligned f gap skipped rest) : Aligned f gap skipped (item n rest)
  | element {n : NodeId} {rest : Grouping} (shown : f.isLayoutAt n = false)
    (tail : Aligned f gap gap rest) : Aligned f gap 0 (item n rest)
  | separator {skipped : Nat} {n : NodeId} {rest : Grouping} (shown : f.isLayoutAt n = false)
    (tail : Aligned f gap skipped rest) : Aligned f gap (skipped + 1) (item n rest)
  | elements {members rest : Grouping}
    (ends : (f.showing members.leaves).length ≡ 1 [MOD gap + 1])
    (head : Aligned f gap 0 members) (tail : Aligned f gap gap rest) :
    Aligned f gap 0 (group members rest)
  | alone {skipped : Nat} {members rest : Grouping}
    (single : (f.showing members.leaves).length = 1) (tail : Aligned f gap skipped rest) :
    Aligned f gap (skipped + 1) (group members rest)

end Grouping

section Steps

variable {α : Type} {gap c c' : Nat} {as bs : List α}

/-- Stepping goes on behind `as` as it stands there, after as many steps as `as` has members. -/
theorem everyAfter_append (hc : c ≤ gap) (hc' : c' ≤ gap)
    (h : c' + as.length ≡ c [MOD gap + 1]) :
    everyAfter gap c (as ++ bs) = everyAfter gap c as ++ everyAfter gap c' bs := by
  induction as generalizing c with
  | nil =>
    have hcc : c' = c := h.eq_of_lt_of_lt (Nat.lt_succ_of_le hc') (Nat.lt_succ_of_le hc)
    subst hcc
    cases c' <;> rfl
  | cons a as ih =>
    rw [List.length_cons, ← Nat.add_assoc] at h
    cases c with
    | zero =>
      have hgap : c' + as.length ≡ gap [MOD gap + 1] := by
        refine Nat.ModEq.add_right_cancel' 1 (h.trans ?_)
        exact (Nat.mod_self (gap + 1)).symm ▸ (Nat.zero_mod _)
      exact congrArg (a :: ·) (ih (Nat.le_refl _) hgap)
    | succ c => exact ih (Nat.le_of_succ_le hc) (h.add_right_cancel' 1)

theorem flatten_everyAfter_sublist {ass : List (List α)} :
    (everyAfter gap c ass).flatten.Sublist ass.flatten := by
  induction ass generalizing c with
  | nil => cases c <;> exact .slnil
  | cons as ass ih =>
    cases c with
    | zero => exact (List.Sublist.refl as).append ih
    | succ c => exact ih.trans (List.sublist_append_right as _)

theorem everyAfter_forall₂ {β : Type} {R : α → β → Prop} {bs : List β} (gap c : Nat)
    (h : List.Forall₂ R as bs) : List.Forall₂ R (everyAfter gap c as) (everyAfter gap c bs) := by
  induction h generalizing c with
  | nil => cases c <;> exact .nil
  | cons h _ ih =>
    cases c with
    | zero => exact .cons h (ih gap)
    | succ c => exact ih c

end Steps

namespace Grouping

variable {f : Forest} {gap skipped : Nat} {g : Grouping}

theorem picks_sublist (g : Grouping) (f : Forest) (gap : Nat) :
    (g.picks f gap).flatten.Sublist (f.showing g.leaves) := by
  induction g with
  | nil => exact .slnil
  | item n rest ih =>
    rw [picks, leaves, Forest.showing, List.filter_cons]
    cases f.isLayoutAt n with
    | true => exact ih
    | false => exact ih.cons_cons n
  | group members rest hmembers hrest =>
    rw [picks, leaves, Forest.showing, List.filter_append, List.flatten_cons]
    exact (flatten_everyAfter_sublist.trans hmembers).append hrest

theorem Aligned.picks_eq (h : g.Aligned f gap skipped) (hs : skipped ≤ gap) :
    (everyAfter gap skipped (g.picks f gap)).flatten =
      everyAfter gap skipped (f.showing g.leaves) := by
  induction h with
  | nil skipped => cases skipped <;> rfl
  | layout hidden tail ih =>
    rw [picks, leaves, Forest.showing, List.filter_cons, hidden]
    exact ih hs
  | @element n _ shown tail ih =>
    rw [picks, leaves, Forest.showing, List.filter_cons, shown]
    exact congrArg (n :: ·) (ih (Nat.le_refl _))
  | separator shown tail ih =>
    rw [picks, leaves, Forest.showing, List.filter_cons, shown]
    exact ih (Nat.le_of_succ_le hs)
  | @elements members rest ends head tail hmembers hrest =>
    have hgap : gap + (f.showing members.leaves).length ≡ 0 [MOD gap + 1] :=
      (ends.add_left gap).trans (Nat.mod_self _)
    calc (everyAfter gap 0 ((group members rest).picks f gap)).flatten
        = (everyAfter gap 0 (members.picks f gap)).flatten ++
            (everyAfter gap gap (rest.picks f gap)).flatten := rfl
      _ = everyAfter gap 0 (f.showing members.leaves) ++
            everyAfter gap gap (f.showing rest.leaves) := by
          rw [hmembers (Nat.zero_le _), hrest (Nat.le_refl _)]
      _ = everyAfter gap 0 (f.showing members.leaves ++ f.showing rest.leaves) :=
          (everyAfter_append (Nat.zero_le _) (Nat.le_refl _) hgap).symm
      _ = everyAfter gap 0 (f.showing (group members rest).leaves) :=
          congrArg _ (List.filter_append ..).symm
  | alone single tail ih =>
    obtain ⟨n, hn⟩ := List.length_eq_one_iff.1 single
    rw [leaves, Forest.showing, List.filter_append]
    rw [Forest.showing] at hn
    rw [hn]
    exact ih (Nat.le_of_succ_le hs)

theorem aligned_ungrouped (f : Forest) (gap skipped : Nat) (ns : List NodeId) :
    (ungrouped ns).Aligned f gap skipped := by
  induction ns generalizing skipped with
  | nil => exact .nil skipped
  | cons n ns ih =>
    cases h : f.isLayoutAt n with
    | true => exact .layout h (ih skipped)
    | false =>
      cases skipped with
      | zero => exact .element h (ih gap)
      | succ skipped => exact .separator h (ih skipped)

theorem aligned_of_no_separators (f : Forest) (g : Grouping) : g.Aligned f 0 0 := by
  induction g with
  | nil => exact .nil 0
  | item n rest ih =>
    cases h : f.isLayoutAt n with
    | true => exact .layout h ih
    | false => exact .element h ih
  | group members rest hmembers hrest => exact .elements (Nat.modEq_one) hmembers hrest

end Grouping

namespace Forest

/-- The nodes are the items and the groups in order: an item is no list, and a group is a partial
list of the production. -/
inductive Groups (f : Forest) (prod : ProdId) : Grouping → List NodeId → Prop
  | nil : Groups f prod .nil []
  | item {n : NodeId} {rest : Grouping} {ids : List NodeId} (single : f.isList n = .ok false)
    (tail : Groups f prod rest ids) : Groups f prod (.item n rest) (n :: ids)
  | group {id : NodeId} {members rest : Grouping} {cs ids : List NodeId}
    (node : f.node id = .ok (.list prod cs true)) (head : Groups f prod members cs)
    (tail : Groups f prod rest ids) : Groups f prod (.group members rest) (id :: ids)

/-- A call made the list of the children, and the forest has grown since. -/
def HoldsList (f : Forest) (prod : ProdId) (children : List NodeId) (id : NodeId) : Prop :=
  ∃ before after : Forest, before.addList children prod = .ok (after, id) ∧ after.Grows f

variable {f before : Forest} {prod : ProdId} {g h : Grouping} {ids cs items : List NodeId}
  {id : NodeId}

theorem Groups.append (hg : f.Groups prod g ids) (hh : f.Groups prod h cs) :
    f.Groups prod (g.append h) (ids ++ cs) := by
  induction hg with
  | nil => exact hh
  | item single _ ih => exact .item single ih
  | group node head _ _ ih => exact .group node head ih

theorem Groups.single (hg : f.Groups prod g ids) : ∀ n ∈ g.leaves, f.isList n = .ok false := by
  induction hg with
  | nil => exact nofun
  | item single _ ih => exact List.forall_mem_cons.2 ⟨single, ih⟩
  | group _ _ _ hmembers hrest => exact List.forall_mem_append.2 ⟨hmembers, hrest⟩

theorem groups_ungrouped (h : ∀ n ∈ ids, f.isList n = .ok false) :
    f.Groups prod (.ungrouped ids) ids := by
  induction ids with
  | nil => exact .nil
  | cons n ids ih =>
    obtain ⟨hn, h⟩ := List.forall_mem_cons.1 h
    exact .item hn (ih h)

theorem splice_of_not_list (h : f.isList id = .ok false) : f.splice prod id = .ok [id] := by
  obtain ⟨n, hn, hlist⟩ := map_eq_ok.1 h
  rw [splice, bind_of_ok hn]
  cases n with
  | list => cases hlist
  | _ => rfl

theorem splice_of_partial (h : f.node id = .ok (.list prod cs true)) :
    f.splice prod id = .ok cs := by
  rw [splice, bind_of_ok h]
  exact congrArg _ (if_pos rfl)

theorem Grows.splice (hf : before.Grows f) (h : before.splice prod id = .ok items) :
    f.splice prod id = .ok items := by
  obtain ⟨n, hn, hitems⟩ := bind_eq_ok.1 h
  rw [Forest.splice, hf.node id (node_eq_ok.1 hn).choose]
  exact h

theorem Groups.splice (hg : f.Groups prod g ids) (hf : before.Grows f)
    {itemss : List (List NodeId)} (h : ids.mapM (before.splice prod) = .ok itemss) :
    f.Groups prod g.opened itemss.flatten := by
  induction hg generalizing itemss with
  | nil =>
    cases h
    exact .nil
  | item single _ ih =>
    rw [List.mapM_cons] at h
    obtain ⟨items, hitems, h⟩ := bind_eq_ok.1 h
    obtain ⟨rest, hrest, h⟩ := bind_eq_ok.1 h
    cases pure_eq_ok.1 h
    cases (splice_of_not_list single).symm.trans (hf.splice hitems)
    exact .item single (ih hrest)
  | group node head _ _ ih =>
    rw [List.mapM_cons] at h
    obtain ⟨items, hitems, h⟩ := bind_eq_ok.1 h
    obtain ⟨rest, hrest, h⟩ := bind_eq_ok.1 h
    cases pure_eq_ok.1 h
    cases (splice_of_partial node).symm.trans (hf.splice hitems)
    exact head.append (ih hrest)

theorem Groups.exists_children (hg : f.Groups prod g ids) (hlist : f.HoldsList prod ids id) :
    ∃ cs, f.node id = .ok (.list prod cs false) ∧ f.Groups prod g.opened cs := by
  obtain ⟨before, after, hadd, hgrows⟩ := hlist
  obtain ⟨itemss, hitems, hadd⟩ := bind_eq_ok.1 hadd
  cases pure_eq_ok.1 hadd
  have hnew : before.size < (before.push (.list prod itemss.flatten false)).1.size :=
    Nat.lt_of_lt_of_eq (Nat.lt_succ_self _) size_push.symm
  have hnode := (hgrows.node _ hnew).trans node_push_self
  exact ⟨itemss.flatten, hnode, hg.splice ((grows_push before _).trans hgrows) hitems⟩

end Forest

theorem Site.Sound.holdsList {s : Site} (hs : s.Sound) {calls more : List Construction}
    {children : List NodeId} {prod : ProdId}
    (h : s.PermitsAll (calls ++ .list children prod :: more)) :
    (s.after (calls ++ .list children prod :: more)).forest.HoldsList prod children
      (s.after calls).forest.size := by
  induction calls generalizing s with
  | nil =>
    obtain ⟨hlist, -⟩ := h
    have hchildren : ∀ c ∈ children, c < s.forest.size := fun c hc => hs.nodes c (hlist.1 c hc)
    obtain ⟨r, hr⟩ := Forest.exists_addList prod hchildren
    have hperform : (s.perform (.list children prod)).forest = r.1 := by
      rw [Site.perform, Forest.construct, hr]
      rfl
    have hid : r.2 = s.forest.size := by
      obtain ⟨items, -, hr⟩ := bind_eq_ok.1 hr
      cases pure_eq_ok.1 hr
      rfl
    have hgrows := Site.grows_after (s.perform (.list children prod)) more
    rw [hperform] at hgrows
    exact ⟨s.forest, r.1, hr.trans (congrArg _ (Prod.ext rfl hid)), hgrows⟩
  | cons c calls ih => exact ih (hs.perform h.1) h.2

end ParseForest
