import ParseForest.Proofs.Reading.Clusters
import ParseForest.Proofs.Reading.Termination

/-!
Clusters of lists in which derivations were cut off. Without such alternatives the cheapest list is
taken. With them, everything depends on the alternative that comes first: if it is a list, whatever
was cut off counts as an empty list that costs nothing, and if it was cut off itself, the lists are
read as if they were values. Main statement: `list_cluster_outcome`.
-/

namespace ParseForest

open Build Success Checked

section Cheapest

variable {α : Type} {cost : α → Cost} {as : List α}

theorem Cost.zero_key_le (c : Cost) : zero.key ≤ c.key := by
  have hle : (zero.rank c).isLE = true := by
    simp only [rank, zero, Ordering.isLE_then_iff_or, Nat.compare_eq_lt, Nat.compare_eq_eq,
      Nat.isLE_compare]
    omega
  exact isLE_rank_iff.1 hle

instance (c : Cost) : Decidable c.IsFree := by
  unfold Cost.IsFree
  infer_instance

theorem Cost.key_eq_zero_iff {c : Cost} : c.key = zero.key ↔ c.IsFree := by
  rw [← rank_eq_eq_iff]
  constructor
  · intro h
    simp only [rank, zero, Ordering.then_eq_eq, Nat.compare_eq_eq] at h
    obtain ⟨hinjections, hsize, hfragments, hholes⟩ := h
    simp [IsFree, withAmbiguous, zero, hinjections, hsize, hfragments, hholes]
  · exact fun h => h.rank_eq isFree_zero

theorem cheapestBy_of_zero {a : α} (ha : a ∈ as) (hcost : cost a = .zero) :
    cheapestBy cost as = as.filter fun a => (cost a).IsFree := by
  refine List.filter_congr fun c _ => ?_
  rw [Bool.eq_iff_iff, decide_eq_true_iff, decide_eq_true_iff, ← Cost.key_eq_zero_iff]
  constructor
  · intro hle
    exact le_antisymm (hcost ▸ hle a ha) (cost c).zero_key_le
  · intro hzero d _
    exact hzero.trans_le (cost d).zero_key_le

end Cheapest

def Node.isCut (n : Node) : Bool := n matches .cycle .. | .recovery _

def Forest.holds (f : Forest) (property : Node → Bool) (id : NodeId) : Bool :=
  match f.node id with
  | .ok n => property n
  | .error _ => false

theorem Forest.holds_iff {f : Forest} {property : Node → Bool} {id : NodeId} :
    f.holds property id = true ↔ ∃ n, f.node id = .ok n ∧ property n = true := by
  unfold Forest.holds
  cases f.node id <;> simp

/-- What the items of a list cost together; the sum has to stay in the number range. -/
def itemsCost (ts : List Tree) : Cost :=
  match Cost.sum (ts.map Tree.cost) with
  | .ok cost => cost
  | .error _ => .zero

namespace Builder

variable {b : Builder} {n : NodeId} {alts : List NodeId} {s s' : Session}

section Kinds

variable (hf : b.forest.WellBuilt)
include hf

theorem run_of_cut (hc : b.forest.holds Node.isCut n = true) (below : Descent) (s : Session) :
    b.run below n s = .ok (some []) s := by
  obtain ⟨m, hm, hcut⟩ := Forest.holds_iff.1 hc
  obtain ⟨p, hp⟩ := hf.production? (Forest.node_eq_ok.1 hm).choose
  have hchildren : b.forest.children n = .ok [] := by
    refine Forest.children_eq_ok.2 ⟨m, hm, ?_⟩
    cases m with
    | cycle | recovery => rfl
    | _ => cases hcut
  have helements : b.elements n = .ok [] := by
    rw [elements, bind_of_ok hp, visibleChildren, bind_of_ok hchildren]
    rfl
  rw [run, checked_bind_of_ok helements]
  rfl

theorem reading_run_of_cut (hc : b.forest.holds Node.isCut n = true) (s : Session) :
    b.reading.run n s = .ok (some []) s := by
  rw [reading_eq]
  exact run_of_cut hf hc _ s

theorem value_of_cut (hc : b.forest.holds Node.isCut n = true) (s : Session) :
    (b.value n).outcome s = .ok none := by
  obtain ⟨m, hm, hcut⟩ := Forest.holds_iff.1 hc
  obtain ⟨sort, hs⟩ := hf.sortName (Forest.node_eq_ok.1 hm).choose
  obtain ⟨below, hread⟩ := b.value_eq_read n s
  rw [outcome, hread, read, checked_bind_of_ok hs, checked_bind_of_ok hm]
  cases m with
  | cycle | recovery => rfl
  | _ => cases hcut

theorem value_of_list (hl : b.forest.holds Node.isList n = true) (s : Session) :
    (b.value n).outcome s = .error (.defect (.listAsValue n)) := by
  obtain ⟨m, hm, hlist⟩ := Forest.holds_iff.1 hl
  obtain ⟨sort, hs⟩ := hf.sortName (Forest.node_eq_ok.1 hm).choose
  obtain ⟨below, hread⟩ := b.value_eq_read n s
  rw [outcome, hread, read, checked_bind_of_ok hs, checked_bind_of_ok hm]
  cases m with
  | list => rfl
  | _ => cases hlist

end Kinds

theorem not_cut_of_list (h : b.forest.holds Node.isList n = true) :
    b.forest.holds Node.isCut n = false := by
  obtain ⟨m, hm, hlist⟩ := Forest.holds_iff.1 h
  unfold Forest.holds
  rw [hm]
  cases m with
  | list => rfl
  | _ => cases hlist

/-- Every node of the list is a list or was cut off. -/
def ListsOrCut (b : Builder) (alts : List NodeId) : Prop :=
  ∀ a ∈ alts, b.forest.holds Node.isList a = true ∨ b.forest.holds Node.isCut a = true

instance (b : Builder) (alts : List NodeId) : Decidable (b.ListsOrCut alts) := by
  unfold ListsOrCut
  infer_instance

def listsOf (b : Builder) (alts : List NodeId) : List NodeId :=
  alts.filter (b.forest.holds Node.isList)

def cutsOf (b : Builder) (alts : List NodeId) : List NodeId :=
  alts.filter (b.forest.holds Node.isCut)

theorem hardError_of_lists (hf : b.forest.WellBuilt) (hkinds : b.ListsOrCut alts) {l : NodeId}
    (hl : (b.listsOf alts).head? = some l) (s : Session) :
    hardError? (outcomesOf b.value alts s) = some (.defect (.listAsValue l)) := by
  induction alts generalizing s with
  | nil => cases hl
  | cons a alts ih =>
    have hrest : b.ListsOrCut alts := fun a' ha' => hkinds a' (List.mem_cons_of_mem _ ha')
    rw [outcomesOf, hardError?_cons]
    by_cases hlist : b.forest.holds Node.isList a = true
    · rw [listsOf, List.filter_cons_of_pos hlist] at hl
      cases hl
      rw [value_of_list hf hlist]
      rfl
    · have hcut := (hkinds a List.mem_cons_self).resolve_left hlist
      rw [listsOf, List.filter_cons_of_neg hlist] at hl
      rw [value_of_cut hf hcut]
      exact ih hrest hl _

theorem exists_readings (hf : b.forest.WellBuilt) (hkinds : b.ListsOrCut alts)
    {readings : List (Option (List Tree))}
    (hr : outcomesOf b.reading.run (b.listsOf alts) s = readings.map .ok) :
    ∃ all : List (Option (List Tree)), outcomesOf b.reading.run alts s = all.map .ok ∧
      all.Perm (readings ++ List.replicate (b.cutsOf alts).length (some [])) := by
  induction alts generalizing s readings with
  | nil =>
    rw [List.map_eq_nil_iff.1 hr.symm]
    exact ⟨[], rfl, .nil⟩
  | cons a alts ih =>
    have hrest : b.ListsOrCut alts := fun a' ha' => hkinds a' (List.mem_cons_of_mem _ ha')
    by_cases hlist : b.forest.holds Node.isList a = true
    · have hcut : ¬ b.forest.holds Node.isCut a = true := by simp [not_cut_of_list hlist]
      rw [listsOf, List.filter_cons_of_pos hlist, outcomesOf] at hr
      obtain ⟨r, rs, rfl, ho, hrs⟩ := List.map_eq_cons_iff.1 hr.symm
      obtain ⟨all, hall, hperm⟩ := ih hrest hrs.symm
      refine ⟨r :: all, ?_, ?_⟩
      · rw [outcomesOf, ← ho, hall]
        rfl
      · rw [cutsOf, List.filter_cons_of_neg hcut]
        exact hperm.cons r
    · have hcut := (hkinds a List.mem_cons_self).resolve_left hlist
      have hrun := reading_run_of_cut hf hcut s
      rw [listsOf, List.filter_cons_of_neg hlist] at hr
      obtain ⟨all, hall, hperm⟩ := ih hrest hr
      refine ⟨some [] :: all, ?_, ?_⟩
      · rw [outcomesOf, outcome, after, hrun, hall]
        rfl
      · rw [cutsOf, List.filter_cons_of_pos hcut, List.length_cons, List.replicate_succ]
        exact (hperm.cons _).trans List.perm_middle.symm

/-- The sums of the costs of what is built stay in the number range. -/
def SumsFit (readings : List (Option (List Tree))) : Prop :=
  ∀ ts, some ts ∈ readings → Succeeds (Cost.sum (ts.map Tree.cost))

theorem outcome_offerRuns {all : List (Option (List Tree))} (heq : s'.results = s.results)
    (hall : outcomesOf b.reading.run alts s = all.map .ok) (hsums : SumsFit all)
    (survivors : Survivors (List Tree)) :
    (offerRuns b.reading alts survivors).outcome s' =
      .ok (survivors.offerBy itemsCost (all.filterMap id)) := by
  induction alts generalizing s s' all survivors with
  | nil =>
    rw [List.map_eq_nil_iff.1 hall.symm]
    rfl
  | cons a alts ih =>
    obtain ⟨r, rs, rfl, ho, hrs⟩ := List.map_eq_cons_iff.1 hall.symm
    have hsums' : SumsFit rs := fun ts hts => hsums ts (List.mem_cons_of_mem _ hts)
    obtain ⟨ho', hr', -⟩ := extends_reading_self.run a s s' trivial heq (ends_of_ok ho.symm)
    rw [offerRuns, outcome_bind, ho', ← ho]
    cases r with
    | none => exact ih hr' hrs.symm hsums' survivors
    | some ts =>
      obtain ⟨cost, hcost⟩ := hsums ts List.mem_cons_self
      have hitems : itemsCost ts = cost := by rw [itemsCost, hcost]
      dsimp only
      rw [checked_bind_of_ok hcost, ih hr' hrs.symm hsums', ← hitems]
      rfl

/-- A single list is taken, and several cannot be held. -/
def chosen (b : Builder) (n : NodeId) : List (List Tree) → Except Error (Option (List Tree))
  | [] => .ok none
  | [ts] => .ok (some ts)
  | _ => .error (.ambiguous n (b.forest.spanOf n))

theorem outcome_choice {all : List (Option (List Tree))}
    (hn : b.forest.node n = .ok (.ambiguity alts))
    (hall : outcomesOf b.reading.run alts s = all.map .ok) (hsums : SumsFit all) :
    (b.choice b.reading n).outcome s = b.chosen n (cheapestBy itemsCost (all.filterMap id)) := by
  have halts : b.forest.alternatives n = .ok alts := map_eq_ok.2 ⟨_, hn, rfl⟩
  have hspan : b.forest.span n = .ok (b.forest.spanOf n) :=
    Forest.span_of_lt (Forest.node_eq_ok.1 hn).choose
  rw [choice, checked_bind_of_ok halts, outcome_bind, outcome_offerRuns rfl hall hsums]
  simp only [outcome_bind, Survivors.items_offerBy]
  match cheapestBy itemsCost (all.filterMap id) with
  | [] => rfl
  | [_] => rfl
  | _ :: _ :: _ =>
    simp only [hspan]
    rfl

/-- As an element of a list and as an argument of a constructor, the node gives these items. -/
structure ReadsAs (b : Builder) (n : NodeId) (s : Session)
    (r : Except Error (Option (List Tree))) : Prop where
  part : (b.part b.reading n).outcome s = r
  argument : (b.argument b.reading n).outcome s = (·.map Arg.list) <$> r

theorem readsAs_of_choice {r : Except Error (Option (List Tree))}
    (hslot : b.forest.slot n = .ok .choice) (h : (b.reading.choice n).outcome s = r) :
    b.ReadsAs n s r := by
  constructor
  · rw [part, checked_bind_of_ok hslot]
    exact h
  · rw [argument, checked_bind_of_ok hslot]
    dsimp only
    rw [outcome_bind, h]
    cases r <;> rfl

theorem readsAs_of_error {e : Error} (hslot : b.forest.slot n = .ok .single)
    (h : (b.value n).outcome s = .error e) : b.ReadsAs n s (.error e) := by
  rw [value_eq_reading] at h
  constructor
  · rw [part, checked_bind_of_ok hslot]
    dsimp only
    rw [outcome_bind, h]
  · rw [argument, checked_bind_of_ok hslot]
    dsimp only
    rw [outcome_bind, h]
    rfl

section Slots

variable {first : NodeId} {rest : List NodeId}
  (hn : b.forest.node n = .ok (.ambiguity (first :: rest)))
include hn

theorem slot_of_list (h : b.forest.holds Node.isList first = true) :
    b.forest.slot n = .ok .choice := by
  obtain ⟨m, hm, hlist⟩ := Forest.holds_iff.1 h
  have : b.forest.isList first = .ok true := map_eq_ok.2 ⟨m, hm, hlist⟩
  rw [Forest.slot, bind_of_ok hn]
  dsimp only
  rw [bind_of_ok this]
  rfl

theorem slot_of_cut (h : b.forest.holds Node.isCut first = true) :
    b.forest.slot n = .ok .single := by
  obtain ⟨m, hm, hcut⟩ := Forest.holds_iff.1 h
  have : b.forest.isList first = .ok false := by
    refine map_eq_ok.2 ⟨m, hm, ?_⟩
    cases m with
    | cycle | recovery => rfl
    | _ => cases hcut
  rw [Forest.slot, bind_of_ok hn]
  dsimp only
  rw [bind_of_ok this]
  rfl

end Slots

theorem ends_of_unbroken {α : Type} {x : Build α} (h : Unbroken x) (s : Session) : x.Ends s :=
  fun he => nomatch (h s trivial).1 _ he

theorem outcome_reading_choice (hf : b.forest.WellBuilt) (hn : n < b.forest.size) (s : Session) :
    (b.reading.choice n).outcome s = (b.choice b.reading n).outcome s := by
  have hends := ends_of_unbroken ((unbrokenBelow_size hf).choice n hn) s
  exact (reading_unfolds.choice n s s trivial rfl hends).1.symm

theorem chosen_of_empty {built all : List (List Tree)} {k : Nat} (hk : k ≠ 0)
    (hall : all.Perm (built ++ List.replicate k [])) :
    b.chosen n (cheapestBy itemsCost all) =
      if k = 1 ∧ ∀ ts ∈ built, ¬ (itemsCost ts).IsFree then .ok (some [])
      else .error (.ambiguous n (b.forest.spanOf n)) := by
  have hfree : (itemsCost []).IsFree := rfl
  have hmem : [] ∈ all := hall.mem_iff.2 <| List.mem_append_right _ <|
    List.mem_replicate.2 ⟨hk, rfl⟩
  rw [cheapestBy_of_zero hmem rfl]
  have hperm := hall.filter fun ts => (itemsCost ts).IsFree
  have hempty : (List.replicate k []).filter (fun ts => (itemsCost ts).IsFree) =
      List.replicate k [] := by
    refine List.filter_eq_self.2 fun ts hts => ?_
    rw [List.eq_of_mem_replicate hts]
    exact decide_eq_true hfree
  rw [List.filter_append, hempty] at hperm
  generalize all.filter (fun ts => (itemsCost ts).IsFree) = kept at hperm
  split
  next h =>
    obtain ⟨rfl, hnone⟩ := h
    have hbuilt : built.filter (fun ts => (itemsCost ts).IsFree) = [] :=
      List.filter_eq_nil_iff.2 fun ts hts => by simpa using hnone ts hts
    rw [hbuilt] at hperm
    rw [List.perm_singleton.1 hperm]
    rfl
  next h =>
    have hlength : 2 ≤ kept.length := by
      rw [hperm.length_eq, List.length_append, List.length_replicate]
      by_cases h1 : k = 1
      · obtain ⟨ts, hts, hcost⟩ : ∃ ts ∈ built, (itemsCost ts).IsFree := by
          by_contra hnone
          exact h ⟨h1, fun ts hts hcost => hnone ⟨ts, hts, hcost⟩⟩
        have hmem : ts ∈ built.filter fun ts => (itemsCost ts).IsFree :=
          List.mem_filter.2 ⟨hts, decide_eq_true hcost⟩
        have := List.length_pos_of_mem hmem
        omega
      · omega
    match kept, hlength with
    | _ :: _ :: _, _ => rfl

/-- What a cluster of lists, some of which were cut off, is read as. Only if nothing was cut off is
it the single cheapest of the lists that are built. -/
theorem list_cluster_outcome (hf : b.forest.WellBuilt)
    (hn : b.forest.node n = .ok (.ambiguity alts)) (hkinds : b.ListsOrCut alts) {l : NodeId}
    (hl : (b.listsOf alts).head? = some l) (hnew : s.kept? .clusters n = none)
    {readings : List (Option (List Tree))}
    (hr : outcomesOf b.reading.run (b.listsOf alts) s = readings.map .ok)
    (hsums : SumsFit readings) :
    let built := readings.filterMap id
    (b.cutsOf alts = [] → b.ReadsAs n s (b.chosen n (cheapestBy itemsCost built))) ∧
    (b.cutsOf alts ≠ [] → alts.head? = some l →
      b.ReadsAs n s (if (b.cutsOf alts).length = 1 ∧ ∀ ts ∈ built, ¬ (itemsCost ts).IsFree then
        .ok (some []) else .error (.ambiguous n (b.forest.spanOf n)))) ∧
    (alts.head? ≠ some l → b.ReadsAs n s (.error (.defect (.listAsValue l)))) := by
  intro built
  have hsize : n < b.forest.size := (Forest.node_eq_ok.1 hn).choose
  have hmem : l ∈ b.listsOf alts := List.mem_of_mem_head? hl
  have hlist : b.forest.holds Node.isList l = true := (List.mem_filter.1 hmem).2
  obtain ⟨first, rest, rfl⟩ := List.exists_cons_of_ne_nil
    (List.ne_nil_of_mem (List.mem_filter.1 hmem).1)
  have choice {all : List (Option (List Tree))} (hfirst : b.forest.holds Node.isList first = true)
      (hall : outcomesOf b.reading.run (first :: rest) s = all.map .ok) (hsums : SumsFit all) :
      b.ReadsAs n s (b.chosen n (cheapestBy itemsCost (all.filterMap id))) :=
    readsAs_of_choice (slot_of_list hn hfirst)
      ((outcome_reading_choice hf hsize s).trans (outcome_choice hn hall hsums))
  refine ⟨fun hcuts => ?_, fun hcuts hfirst => ?_, fun hfirst => ?_⟩
  · have hall : b.listsOf (first :: rest) = first :: rest := by
      refine List.filter_eq_self.2 fun a ha => (hkinds a ha).resolve_right fun hcut => ?_
      exact List.ne_nil_of_mem (List.mem_filter.2 ⟨ha, hcut⟩) hcuts
    have hmem : first ∈ b.listsOf (first :: rest) := by
      rw [hall]
      exact List.mem_cons_self
    exact choice (List.mem_filter.1 hmem).2 (hall ▸ hr) hsums
  · cases hfirst
    obtain ⟨all, hall, hperm⟩ := exists_readings hf hkinds hr
    have hsums : SumsFit all := by
      intro ts hts
      rcases List.mem_append.1 (hperm.mem_iff.1 hts) with hts | hts
      · exact hsums ts hts
      · cases List.eq_of_mem_replicate hts
        exact succeeds_pure _
    have hbuilt := hperm.filterMap id
    rw [List.filterMap_append, List.filterMap_replicate_of_some (f := id) rfl] at hbuilt
    rw [← chosen_of_empty (fun h => hcuts (List.length_eq_zero_iff.1 h)) hbuilt]
    exact choice hlist hall hsums
  · have hcut : b.forest.holds Node.isCut first = true := by
      refine (hkinds first List.mem_cons_self).resolve_left fun h => hfirst ?_
      rw [← hl, listsOf, List.filter_cons_of_pos h]
      rfl
    refine readsAs_of_error (slot_of_cut hn hcut) ?_
    have hends := ends_of_unbroken (unbroken_value hf hsize) s
    rw [outcome_value_cluster hn hnew hends, clusterOutcome, hardError_of_lists hf hkinds hl]

def blocks (calls : List Construction) : Builder where
  forest :=
    let token : Production := ⟨.named .lexical "Id", none, [], true⟩
    let list : Production := ⟨.repeated .star (.named .lexical "Id"), none, [], false⟩
    let block : Production := ⟨.named .sort "Exp", some "block", [list.defines], false⟩
    ((Site.new ⟨"Blocks", [token, list, block], by decide⟩).after calls).forest
  registry := (Registry.empty.define ⟨"Id", true, []⟩).define ⟨"Exp", false, [("Block", [.list])]⟩
  conventions := .standard

def cutSecond : Builder := blocks
  [.char 120, .derivation [0] 0, .list [1] 1, .cycle 1 1, .ambiguity [2, 3], .derivation [4] 2]

def cutFirst : Builder := blocks
  [.char 120, .derivation [0] 0, .cycle 1 1, .list [1] 1, .ambiguity [2, 3], .derivation [4] 2]

def cutTwice : Builder := blocks
  [.cycle 1 0, .list [0] 1, .cycle 1 1, .ambiguity [1, 2], .derivation [3] 2]

theorem wellBuilt_blocks {calls : List Construction}
    (h : (Site.new (blocks []).forest.grammar).PermitsAll calls) :
    (blocks calls).forest.WellBuilt :=
  Site.wellBuilt_after h

theorem list_cluster_outcome_cut :
    let x : Tree := ⟨"Id", "Lexical", none, .zero, .lexical "x"⟩
    outcomesOf cutSecond.reading.run [2] .initial = [.ok (some [x])] ∧
      cutSecond.ReadsAs 4 .initial (.error (.ambiguous 4 none)) ∧
      outcomesOf cutFirst.reading.run [3] .initial = [.ok (some [x])] ∧
      cutFirst.ReadsAs 4 .initial (.error (.defect (.listAsValue 3))) := by
  intro x
  have hsecond : cutSecond.forest.WellBuilt := wellBuilt_blocks (by decide +kernel)
  have hfirst : cutFirst.forest.WellBuilt := wellBuilt_blocks (by decide +kernel)
  have hsums : SumsFit [some [x]] := by
    intro ts hts
    cases List.mem_singleton.1 hts
    exact ⟨.zero, by decide +kernel⟩
  have hlists : cutSecond.listsOf [2, 3] = [2] := by decide +kernel
  have hlists' : cutFirst.listsOf [2, 3] = [3] := by decide +kernel
  have hr : outcomesOf cutSecond.reading.run [2] .initial = [.ok (some [x])] := by decide +kernel
  have hr' : outcomesOf cutFirst.reading.run [3] .initial = [.ok (some [x])] := by decide +kernel
  have hn : cutSecond.forest.node 4 = .ok (.ambiguity [2, 3]) := by decide +kernel
  have hn' : cutFirst.forest.node 4 = .ok (.ambiguity [2, 3]) := by decide +kernel
  obtain ⟨-, tied, -⟩ := list_cluster_outcome hsecond hn (by decide +kernel)
    (by rw [hlists]; rfl) rfl (by rw [hlists]; exact hr) hsums
  obtain ⟨-, -, misread⟩ := list_cluster_outcome hfirst hn' (by decide +kernel)
    (by rw [hlists']; rfl) rfl (by rw [hlists']; exact hr') hsums
  exact ⟨hr, tied (by decide +kernel) rfl, hr', misread (by decide +kernel)⟩

/-- Where the only list that is built should be taken, or nothing at all if none is. -/
theorem cut_off_list_counts :
    let x : Tree := ⟨"Id", "Lexical", none, .zero, .lexical "x"⟩
    cutSecond.chosen 4 (cheapestBy itemsCost [[x]]) = .ok (some [x]) ∧
      outcomesOf cutSecond.reading.run [2] .initial = [.ok (some [x])] ∧
      (cutSecond.part cutSecond.reading 4).outcome .initial = .error (.ambiguous 4 none) ∧
      (cutSecond.value 5).outcome .initial = .error (.ambiguous 4 none) ∧
      outcomesOf cutFirst.reading.run [3] .initial = [.ok (some [x])] ∧
      (cutFirst.value 5).outcome .initial = .error (.defect (.listAsValue 3)) ∧
      outcomesOf cutTwice.reading.run [1] .initial = [.ok none] ∧
      (cutTwice.value 4).outcome .initial =
        .ok (some ⟨"Exp", "Block", none, .zero, .application [.list []]⟩) := by
  decide +kernel

end Builder

end ParseForest
