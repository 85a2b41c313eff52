import ParseForest.Proofs.Forest.Grouping
import ParseForest.Proofs.Reading.ListClusters

/-!
What a list is read as, however its items were put into partial lists on the way. The items of a
partial list in a complete list count as that list's own, but a partial list inside of it is stepped
over as if it were a single item, so that elements are lost where it ends with a separator. Main
statement: `outcome_run_grouped`.
-/

namespace ParseForest

open Build Success Checked

theorem Symbol.not_isLayout_of_isList {s : Symbol} (h : s.isList = true) : s.isLayout = false := by
  unfold isList at h
  unfold isLayout
  cases hs : s.unlabelled with
  | repeated | separated => rfl
  | _ => simp [hs] at h

namespace Build

def joined (x y : Build (Option (List Tree))) : Build (Option (List Tree)) := do
  match ← x with
  | none => return none
  | some ts => return (← y).map (ts ++ ·)

variable {J : Results → Prop} {x y z x' y' : Build (Option (List Tree))}

theorem joined_assoc : joined (joined x y) z = joined x (joined y z) := by
  simp only [joined, bind_assoc]
  refine bind_congr fun xs? => ?_
  cases xs? with
  | none => simp
  | some xs =>
    simp only [bind_assoc, pure_bind]
    refine bind_congr fun ys? => ?_
    cases ys? with
    | none => simp
    | some ys => simp [Function.comp_def]

theorem joined_nil : joined x (pure (some [])) = x := by
  unfold joined
  conv_rhs => rw [← bind_pure x]
  refine bind_congr fun xs? => ?_
  cases xs? <;> simp

theorem nil_joined : joined (pure (some [])) y = y := by
  unfold joined
  conv_rhs => rw [← bind_pure y]
  rw [pure_bind]
  exact bind_congr fun ys? => by cases ys? <;> rfl

theorem extends_joined (hx : Extends J x x') (hy : Extends J y y') :
    Extends J (joined x y) (joined x' y') := by
  refine extends_bind hx fun xs? => ?_
  cases xs? with
  | none => exact extends_pure _
  | some xs => exact extends_bind hy fun _ => extends_pure _

end Build

namespace Builder

variable {b : Builder} {n : NodeId} {ns ms : List NodeId}

def gather (b : Builder) (ns : List NodeId) : Build (Option (List Tree)) := do
  return (← collect (b.part b.reading) ns).map List.flatten

theorem gather_cons (n : NodeId) (ns : List NodeId) :
    b.gather (n :: ns) = joined (b.part b.reading n) (b.gather ns) := by
  simp only [gather, joined, collect, bind_assoc]
  refine bind_congr fun ts? => ?_
  cases ts? with
  | none => simp
  | some ts => simp [Function.comp_def]

theorem gather_singleton (n : NodeId) : b.gather [n] = b.part b.reading n :=
  (gather_cons n []).trans joined_nil

theorem gather_append (ns ms : List NodeId) :
    b.gather (ns ++ ms) = joined (b.gather ns) (b.gather ms) := by
  induction ns with
  | nil => exact nil_joined.symm
  | cons n ns ih => rw [List.cons_append, gather_cons, ih, gather_cons, joined_assoc]

abbrev ReadsThrough (b : Builder) (n : NodeId) (leaves : List NodeId) : Prop :=
  Extends (fun _ => True) (b.part b.reading n) (b.gather leaves)

theorem extends_gather {leavess : List (List NodeId)}
    (h : List.Forall₂ b.ReadsThrough ns leavess) :
    Extends (fun _ => True) (b.gather ns) (b.gather leavess.flatten) := by
  induction h with
  | nil => exact extends_pure _
  | cons hn _ ih =>
    rw [gather_cons, List.flatten_cons, gather_append]
    exact extends_joined hn ih

section Groups

variable {p : Production} {prod : ProdId} {g : Grouping} {cs ids : List NodeId} {id : NodeId}
  {isPartial : Bool} (hf : b.forest.WellBuilt)
include hf

theorem isLayout_eq_isLayoutAt (hn : n < b.forest.size) :
    b.forest.isLayout n = .ok (b.forest.isLayoutAt n) := by
  obtain ⟨isLayout, h⟩ := hf.hasProduction hn (·.isLayout)
  rw [Forest.isLayout, Forest.isLayoutAt, Forest.isLayout, h]

theorem filter_eq_showing (hcs : ∀ c ∈ cs, c < b.forest.size) :
    Checked.filter (fun c => (!·) <$> b.forest.isLayout c) cs = .ok (b.forest.showing cs) := by
  induction cs with
  | nil => rfl
  | cons c cs ih =>
    obtain ⟨hc, hcs⟩ := List.forall_mem_cons.1 hcs
    have hrest := ih hcs
    rw [Checked.filter, isLayout_eq_isLayoutAt hf hc, hrest, Forest.showing, Forest.showing,
      List.filter_cons]
    rfl

variable (hp : b.forest.grammar.production prod = .ok p)
include hp

omit hf in
theorem production?_of_list (hid : b.forest.node id = .ok (.list prod cs isPartial)) :
    b.forest.production? id = .ok (some p) := by
  rw [Forest.production?, bind_of_ok hid]
  exact map_eq_ok.2 ⟨p, hp, rfl⟩

theorem elements_of_list (hid : b.forest.node id = .ok (.list prod cs isPartial)) :
    b.elements id =
      .ok (everyAfter p.defines.visibleSeparators.length 0 (b.forest.showing cs)) := by
  have hchildren : b.forest.children id = .ok cs := Forest.children_eq_ok.2 ⟨_, hid, rfl⟩
  have hvisible : b.visibleChildren id = .ok (b.forest.showing cs) := by
    rw [visibleChildren, bind_of_ok hchildren]
    exact filter_eq_showing hf (hf.children_lt hchildren)
  rw [elements, bind_of_ok (production?_of_list hp hid), bind_of_ok hvisible]
  rfl

theorem extends_run_of_list (hid : b.forest.node id = .ok (.list prod cs isPartial)) :
    Extends (fun _ => True) (b.reading.run id)
      (b.gather (everyAfter p.defines.visibleSeparators.length 0 (b.forest.showing cs))) := by
  have hrun : b.run b.reading id = b.gather
      (everyAfter p.defines.visibleSeparators.length 0 (b.forest.showing cs)) := by
    rw [run, checked_bind_of_ok (elements_of_list hf hp hid)]
    rfl
  exact hrun ▸ reading_unfolds.run id

theorem outcome_run_of_list (hid : b.forest.node id = .ok (.list prod cs isPartial))
    (s : Session) :
    (b.reading.run id).outcome s = (b.gather (everyAfter p.defines.visibleSeparators.length 0
      (b.forest.showing cs))).outcome s := by
  have hends : (b.reading.run id).Ends s :=
    ends_of_unbroken ((unbrokenBelow_size hf).run id (Forest.node_eq_ok.1 hid).choose) s
  exact (extends_run_of_list hf hp hid s s trivial rfl hends).1.symm

variable (hlist : p.isList = true)
include hlist

omit hf in
theorem isLayoutAt_of_list (hid : b.forest.node id = .ok (.list prod cs isPartial)) :
    b.forest.isLayoutAt id = false := by
  rw [Forest.isLayoutAt, Forest.isLayout, Forest.hasProduction, production?_of_list hp hid]
  exact Symbol.not_isLayout_of_isList hlist

theorem readsThrough_picks (hg : b.forest.Groups prod g ids) :
    List.Forall₂ b.ReadsThrough (b.forest.showing ids)
      (g.picks b.forest p.defines.visibleSeparators.length) := by
  induction hg with
  | nil => exact .nil
  | @item n _ _ single _ ih =>
    rw [Grouping.picks, Forest.showing, List.filter_cons]
    cases b.forest.isLayoutAt n with
    | true => exact ih
    | false =>
      refine .cons ?_ ih
      rw [ReadsThrough, gather_singleton]
      exact extends_part extends_reading_self n
  | @group id _ _ cs _ node _ _ hmembers hrest =>
    have hslot : b.forest.slot id = .ok .run := by
      rw [Forest.slot, bind_of_ok node]
      rfl
    rw [Grouping.picks, Forest.showing, List.filter_cons, isLayoutAt_of_list hp hlist node]
    refine .cons ?_ hrest
    rw [ReadsThrough, part, checked_bind_of_ok hslot]
    exact (extends_run_of_list hf hp node).trans (extends_gather (everyAfter_forall₂ _ 0 hmembers))

theorem outcome_run_of_groups (hg : b.forest.Groups prod g ids)
    (hid : b.forest.HoldsList prod ids id) (s : Session) :
    (b.reading.run id).outcome s = (b.gather (everyAfter p.defines.visibleSeparators.length 0
      (g.opened.picks b.forest p.defines.visibleSeparators.length)).flatten).outcome s := by
  obtain ⟨cs, hnode, hopened⟩ := hg.exists_children hid
  have hends : (b.reading.run id).Ends s :=
    ends_of_unbroken ((unbrokenBelow_size hf).run id (Forest.node_eq_ok.1 hnode).choose) s
  have hpicks := everyAfter_forall₂ p.defines.visibleSeparators.length 0
    (readsThrough_picks hf hp hlist hopened)
  exact ((extends_run_of_list hf hp hnode).trans (extends_gather hpicks) s s trivial rfl
    hends).1.symm

theorem outcome_run_of_items (hitems : ∀ n ∈ ns, b.forest.isList n = .ok false)
    (hid : b.forest.HoldsList prod ns id) (s : Session) :
    (b.reading.run id).outcome s = (b.gather (everyAfter p.defines.visibleSeparators.length 0
      (b.forest.showing ns))).outcome s := by
  have haligned := (Grouping.aligned_ungrouped b.forest p.defines.visibleSeparators.length 0
    ns).picks_eq (Nat.zero_le _)
  rw [Grouping.leaves_ungrouped] at haligned
  rw [outcome_run_of_groups hf hp hlist (Forest.groups_ungrouped hitems) hid,
    Grouping.opened_ungrouped, haligned]

/-- What a list is read as whose items were grouped, beside the list of the same items as they are.
Nothing comes twice or in another order, and nothing is lost if there are no separators or if the
groups inside of groups are aligned with the elements. Groups without groups inside always are. -/
theorem outcome_run_grouped {grouped bare : NodeId} (hg : b.forest.Groups prod g ids)
    (hgrouped : b.forest.HoldsList prod ids grouped)
    (hbare : b.forest.HoldsList prod g.leaves bare) (s : Session) :
    let gap := p.defines.visibleSeparators.length
    let shown := b.forest.showing g.leaves
    let found := (everyAfter gap 0 (g.opened.picks b.forest gap)).flatten
    (b.reading.run bare).outcome s = (b.gather (everyAfter gap 0 shown)).outcome s ∧
    (b.reading.run grouped).outcome s = (b.gather found).outcome s ∧
    found.Sublist shown ∧
    (gap = 0 ∨ g.opened.Aligned b.forest gap 0 →
      (b.reading.run grouped).outcome s = (b.reading.run bare).outcome s) := by
  intro gap shown found
  have hfound : (b.reading.run grouped).outcome s = (b.gather found).outcome s :=
    outcome_run_of_groups hf hp hlist hg hgrouped s
  have hread : (b.reading.run bare).outcome s = (b.gather (everyAfter gap 0 shown)).outcome s :=
    outcome_run_of_items hf hp hlist hg.single hbare s
  have hsub : found.Sublist shown := by
    have h := g.opened.picks_sublist b.forest gap
    rw [Grouping.leaves_opened] at h
    exact flatten_everyAfter_sublist.trans h
  refine ⟨hread, hfound, hsub, fun h => ?_⟩
  have haligned : g.opened.Aligned b.forest gap 0 := by
    rcases h with h | h
    · rw [h]
      exact Grouping.aligned_of_no_separators b.forest g.opened
    · exact h
  have hequal : found = everyAfter gap 0 shown := by
    have h := haligned.picks_eq (Nat.zero_le gap)
    rw [Grouping.leaves_opened] at h
    exact h
  rw [hfound, hread, hequal]

end Groups

def rowGrammar : Grammar where
  name := "Rows"
  productions :=
    let token : Production := ⟨.named .lexical "Id", none, [], true⟩
    let list : Production :=
      ⟨.separated .star (.named .lexical "Id") [.literal ","], none, [], false⟩
    let row : Production := ⟨.named .sort "Exp", some "row", [list.defines], false⟩
    let comma : Production := ⟨.literal ",", none, [], false⟩
    [token, list, row, comma]
  nodup := by decide

def rows (calls : List Construction) : Builder where
  forest := ((Site.new rowGrammar).after calls).forest
  registry := (Registry.empty.define ⟨"Id", true, []⟩).define ⟨"Exp", false, [("Row", [.list])]⟩
  conventions := .standard

def rowItems : List Construction :=
  [.char 97, .derivation [0] 0, .char 98, .derivation [2] 0, .literal "," 3]

theorem wellBuilt_rows {calls : List Construction} (h : (Site.new rowGrammar).PermitsAll calls) :
    (rows calls).forest.WellBuilt :=
  Site.wellBuilt_after h

theorem holdsList_rows (calls : List Construction) {all more : List Construction}
    {children : List NodeId} {prod : ProdId} {id : NodeId}
    (h : (Site.new rowGrammar).PermitsAll all) (hall : all = calls ++ .list children prod :: more)
    (hid : (rows calls).forest.size = id) :
    (rows all).forest.HoldsList prod children id := by
  subst hall hid
  exact (Site.sound_new rowGrammar).holdsList h

def wholeGroup : Builder := rows (rowItems ++
  [.partialList [1, 4, 3] 1, .partialList [5, 4, 3] 1, .list [6] 1, .list [1, 4, 3, 4, 3] 1])

theorem outcome_run_grouped_whole :
    let a : Tree := ⟨"Id", "Lexical", none, .zero, .lexical "a"⟩
    let b : Tree := ⟨"Id", "Lexical", none, .zero, .lexical "b"⟩
    (wholeGroup.reading.run 8).outcome .initial = .ok (some [a, b, b]) ∧
      (wholeGroup.reading.run 7).outcome .initial = .ok (some [a, b, b]) := by
  intro a b
  have hcalls : (Site.new rowGrammar).PermitsAll (rowItems ++ [.partialList [1, 4, 3] 1,
      .partialList [5, 4, 3] 1, .list [6] 1, .list [1, 4, 3, 4, 3] 1]) := by
    decide +kernel
  have hgrouped : wholeGroup.forest.HoldsList 1 [6] 7 :=
    holdsList_rows (rowItems ++ [.partialList [1, 4, 3] 1, .partialList [5, 4, 3] 1])
      hcalls rfl (by decide +kernel)
  have hbare : wholeGroup.forest.HoldsList 1 [1, 4, 3, 4, 3] 8 :=
    holdsList_rows (rowItems ++ [.partialList [1, 4, 3] 1, .partialList [5, 4, 3] 1,
      .list [6] 1]) hcalls rfl (by decide +kernel)
  have hinner : wholeGroup.forest.node 5 = .ok (.list 1 [1, 4, 3] true) := by decide +kernel
  have houter : wholeGroup.forest.node 6 = .ok (.list 1 [5, 4, 3] true) := by decide +kernel
  have hg : wholeGroup.forest.Groups 1
      (.group (.group (.ungrouped [1, 4, 3]) (.ungrouped [4, 3])) .nil) [6] := by
    refine .group houter (.group hinner ?_ ?_) .nil
    · exact Forest.groups_ungrouped (by decide +kernel)
    · exact Forest.groups_ungrouped (by decide +kernel)
  have haligned : Grouping.Aligned wholeGroup.forest 1 0
      (.group (.ungrouped [1, 4, 3]) (.ungrouped [4, 3])) :=
    .elements (by decide +kernel) (Grouping.aligned_ungrouped _ _ _ _)
      (Grouping.aligned_ungrouped _ _ _ _)
  have hbareRun : (wholeGroup.reading.run 8).outcome .initial = .ok (some [a, b, b]) := by
    decide +kernel
  obtain ⟨-, -, -, hequal⟩ := outcome_run_grouped (wellBuilt_rows hcalls) rfl rfl hg hgrouped
    hbare .initial
  exact ⟨hbareRun, (hequal (.inr haligned)).trans hbareRun⟩

def cutGroup : Builder := rows (rowItems ++
  [.partialList [1, 4] 1, .partialList [5, 3] 1, .list [6] 1, .list [1, 4, 3] 1,
    .derivation [7] 2, .derivation [8] 2])

/-- A group that ends with a separator is taken for an element, and what follows it for the
separator. -/
theorem nested_group_loses_element :
    let a : Tree := ⟨"Id", "Lexical", none, .zero, .lexical "a"⟩
    let b : Tree := ⟨"Id", "Lexical", none, .zero, .lexical "b"⟩
    cutGroup.forest.Groups 1 (.group (.group (.ungrouped [1, 4]) (.ungrouped [3])) .nil) [6] ∧
      cutGroup.forest.HoldsList 1 [6] 7 ∧ cutGroup.forest.HoldsList 1 [1, 4, 3] 8 ∧
      (cutGroup.reading.run 8).outcome .initial = .ok (some [a, b]) ∧
      (cutGroup.reading.run 7).outcome .initial = .ok (some [a]) ∧
      (cutGroup.value 10).outcome .initial =
        .ok (some ⟨"Exp", "Row", none, .zero, .application [.list [a, b]]⟩) ∧
      (cutGroup.value 9).outcome .initial =
        .ok (some ⟨"Exp", "Row", none, .zero, .application [.list [a]]⟩) := by
  intro a b
  have hcalls : (Site.new rowGrammar).PermitsAll (rowItems ++ [.partialList [1, 4] 1,
      .partialList [5, 3] 1, .list [6] 1, .list [1, 4, 3] 1, .derivation [7] 2,
      .derivation [8] 2]) := by
    decide +kernel
  have hgrouped : cutGroup.forest.HoldsList 1 [6] 7 :=
    holdsList_rows (rowItems ++ [.partialList [1, 4] 1, .partialList [5, 3] 1]) hcalls rfl
      (by decide +kernel)
  have hbare : cutGroup.forest.HoldsList 1 [1, 4, 3] 8 :=
    holdsList_rows (rowItems ++ [.partialList [1, 4] 1, .partialList [5, 3] 1,
      .list [6] 1]) hcalls rfl (by decide +kernel)
  have hinner : cutGroup.forest.node 5 = .ok (.list 1 [1, 4] true) := by decide +kernel
  have houter : cutGroup.forest.node 6 = .ok (.list 1 [5, 3] true) := by decide +kernel
  refine ⟨.group houter (.group hinner ?_ ?_) .nil, hgrouped, hbare, by decide +kernel⟩
  · exact Forest.groups_ungrouped (by decide +kernel)
  · exact Forest.groups_ungrouped (by decide +kernel)

end Builder

end ParseForest
