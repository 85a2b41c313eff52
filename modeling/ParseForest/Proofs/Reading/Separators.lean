import ParseForest.Proofs.Reading.Grouping

/-!
Lists whose elements have separators between them. Whatever the separators are and wherever layout
lies, the items are the values of the elements, and no separator is ever read. Main statement:
`outcome_run_of_spaced`.
-/

namespace ParseForest

open Build Success

/-- Elements with separators between them. -/
structure Spaced where
  first : NodeId
  rest : List (List NodeId × NodeId)

namespace Spaced

def nodes (l : Spaced) : List NodeId := l.first :: l.rest.flatMap fun r => r.1 ++ [r.2]

def elements (l : Spaced) : List NodeId := l.first :: l.rest.map (·.2)

/-- The same number of separators stands between any two elements. -/
def Regular (l : Spaced) (gap : Nat) : Prop := ∀ r ∈ l.rest, r.1.length = gap

instance (l : Spaced) (gap : Nat) : Decidable (l.Regular gap) := by
  unfold Regular
  infer_instance

theorem everyAfter_length_append {α : Type} (gap : Nat) (as bs : List α) :
    everyAfter gap as.length (as ++ bs) = everyAfter gap 0 bs := by
  induction as with
  | nil => rfl
  | cons a as ih => exact ih

theorem everyAfter_flatMap {gap : Nat} {rest : List (List NodeId × NodeId)}
    (h : ∀ r ∈ rest, r.1.length = gap) :
    everyAfter gap gap (rest.flatMap fun r => r.1 ++ [r.2]) = rest.map (·.2) := by
  induction rest with
  | nil => cases gap <;> rfl
  | cons r rest ih =>
    obtain ⟨hr, hrest⟩ := List.forall_mem_cons.1 h
    let tail := rest.flatMap fun r => r.1 ++ [r.2]
    calc everyAfter gap gap ((r :: rest).flatMap fun r => r.1 ++ [r.2])
        = everyAfter gap gap (r.1 ++ r.2 :: tail) := by
          rw [List.flatMap_cons, List.append_assoc, List.singleton_append]
      _ = everyAfter gap 0 (r.2 :: tail) := by
          rw [← everyAfter_length_append gap r.1, hr]
      _ = r.2 :: rest.map (·.2) := congrArg (r.2 :: ·) (ih hrest)

theorem Regular.everyAfter_nodes {l : Spaced} {gap : Nat} (h : l.Regular gap) :
    everyAfter gap 0 l.nodes = l.elements :=
  congrArg (l.first :: ·) (everyAfter_flatMap h)

end Spaced

namespace Build

variable {β : Type}

def collected : List (Except Error (Option β)) → Except Error (Option (List β))
  | [] => .ok (some [])
  | .ok (some b) :: rs => (·.map (b :: ·)) <$> collected rs
  | .ok none :: _ => .ok none
  | .error e :: _ => .error e

theorem outcome_collect (f : NodeId → Build (Option β)) (ns : List NodeId) (s : Session) :
    (collect f ns).outcome s = collected (outcomesOf f ns s) := by
  induction ns generalizing s with
  | nil => rfl
  | cons n ns ih =>
    rw [collect, outcome_bind, outcomesOf]
    cases (f n).outcome s with
    | error e => rfl
    | ok b? =>
      cases b? with
      | none => rfl
      | some b =>
        dsimp only
        rw [collected, ← ih, outcome_bind]
        cases (collect f ns).outcome ((f n).after s) <;> rfl

def built (bs : List β) : List (Except Error (Option β)) := bs.map fun b => .ok (some b)

variable {rs : List (Except Error (Option β))} {bs : List β} {e : Error}

theorem collected_append (bs : List β) (rs : List (Except Error (Option β))) :
    collected (built bs ++ rs) = (·.map (bs ++ ·)) <$> collected rs := by
  induction bs with
  | nil =>
    match collected rs with
    | .ok none | .ok (some _) | .error _ => rfl
  | cons b bs ih =>
    have hcons : collected (built (b :: bs) ++ rs) =
        (·.map (b :: ·)) <$> collected (built bs ++ rs) := rfl
    rw [hcons, ih]
    match collected rs with
    | .ok none | .ok (some _) | .error _ => rfl

theorem collected_built (bs : List β) : collected (built bs) = .ok (some bs) := by
  have h := collected_append bs []
  rw [List.append_nil] at h
  rw [h]
  exact congrArg (fun cs => Except.ok (some cs)) (List.append_nil bs)

theorem outcomes_cases (rs : List (Except Error (Option β))) :
    (∃ bs, rs = built bs) ∨ (∃ bs rest, rs = built bs ++ .ok none :: rest) ∨
      ∃ bs e rest, rs = built bs ++ .error e :: rest := by
  induction rs with
  | nil => exact .inl ⟨[], rfl⟩
  | cons r rs ih =>
    match r with
    | .ok none => exact .inr (.inl ⟨[], rs, rfl⟩)
    | .error e => exact .inr (.inr ⟨[], e, rs, rfl⟩)
    | .ok (some b) =>
      obtain ⟨bs, rfl⟩ | ⟨bs, rest, rfl⟩ | ⟨bs, e, rest, rfl⟩ := ih
      · exact .inl ⟨b :: bs, rfl⟩
      · exact .inr (.inl ⟨b :: bs, rest, rfl⟩)
      · exact .inr (.inr ⟨b :: bs, e, rest, rfl⟩)

theorem collected_eq_some_iff : collected rs = .ok (some bs) ↔ rs = built bs := by
  constructor
  · intro h
    rcases outcomes_cases rs with ⟨cs, rfl⟩ | ⟨cs, rest, rfl⟩ | ⟨cs, e, rest, rfl⟩
    · rw [collected_built] at h
      cases h
      rfl
    · rw [collected_append] at h
      cases h
    · rw [collected_append] at h
      cases h
  · rintro rfl
    exact collected_built bs

theorem collected_eq_none_iff :
    collected rs = .ok none ↔ ∃ bs rest, rs = built bs ++ .ok none :: rest := by
  constructor
  · intro h
    rcases outcomes_cases rs with ⟨cs, rfl⟩ | hnone | ⟨cs, e, rest, rfl⟩
    · rw [collected_built] at h
      cases h
    · exact hnone
    · rw [collected_append] at h
      cases h
  · rintro ⟨bs, rest, rfl⟩
    exact collected_append bs _

theorem collected_eq_error_iff :
    collected rs = .error e ↔ ∃ bs rest, rs = built bs ++ .error e :: rest := by
  constructor
  · intro h
    rcases outcomes_cases rs with ⟨cs, rfl⟩ | ⟨cs, rest, rfl⟩ | ⟨cs, e, rest, rfl⟩
    · rw [collected_built] at h
      cases h
    · rw [collected_append] at h
      cases h
    · rw [collected_append] at h
      cases h
      exact ⟨cs, rest, rfl⟩
  · rintro ⟨bs, rest, rfl⟩
    exact collected_append bs _

end Build

namespace Builder

variable {b : Builder} {id e : NodeId} {es : List NodeId}

/-- The node is no list and no cluster of lists. -/
def Alone (b : Builder) (e : NodeId) : Prop :=
  b.forest.isList e = .ok false ∧ b.forest.isAmbiguousList e = .ok false

instance (b : Builder) (e : NodeId) : Decidable (b.Alone e) := by
  unfold Alone
  infer_instance

theorem part_of_alone (he : b.Alone e) (below : Descent) :
    b.part below e = do return (← below.value e).map ([·]) := by
  obtain ⟨hlist, hcluster⟩ := he
  obtain ⟨n, hn, hlist⟩ := map_eq_ok.1 hlist
  rw [Forest.isAmbiguousList, bind_of_ok hn] at hcluster
  rw [part, Forest.slot, bind_of_ok hn]
  cases n with
  | list => cases hlist
  | ambiguity alts =>
    cases alts with
    | nil => rfl
    | cons first rest =>
      have hfirst : b.forest.isList first = .ok false := hcluster
      dsimp only
      rw [hfirst]
      rfl
  | optional | char | literal | derivation | cycle | recovery => rfl

theorem collect_part (below : Descent) (h : ∀ e ∈ es, b.Alone e) :
    (do return (← collect (b.part below) es).map List.flatten) = collect below.value es := by
  induction es with
  | nil => rfl
  | cons e es ih =>
    obtain ⟨he, hes⟩ := List.forall_mem_cons.1 h
    rw [collect, collect, ← ih hes, part_of_alone he]
    simp only [bind_assoc, pure_bind]
    refine bind_congr fun t? => ?_
    cases t? with
    | none => rfl
    | some t => simp [Function.comp_def]

theorem run_of_alone (hes : b.elements id = .ok es) (h : ∀ e ∈ es, b.Alone e) (below : Descent) :
    b.run below id = collect below.value es := by
  rw [run, checked_bind_of_ok hes]
  exact collect_part below h

theorem gather_of_alone (h : ∀ e ∈ es, b.Alone e) : b.gather es = collect b.value es :=
  collect_part b.reading h

/-- A list that shows elements with its separators between them is read by collecting the values of
the elements, and the separators are not read in any way. So it has exactly those items if all
elements are built; otherwise the first element that is not decides. -/
theorem outcome_run_of_spaced (hf : b.forest.WellBuilt) {prod : ProdId} {p : Production}
    {cs : List NodeId} {isPartial : Bool} {l : Spaced}
    (hid : b.forest.node id = .ok (.list prod cs isPartial))
    (hp : b.forest.grammar.production prod = .ok p) (hcs : b.forest.showing cs = l.nodes)
    (hl : l.Regular p.defines.visibleSeparators.length) (h : ∀ e ∈ l.elements, b.Alone e) :
    (∀ below, b.run below id = collect below.value l.elements) ∧
    ∀ s, let outcomes := outcomesOf b.value l.elements s
      (∀ ts, (b.reading.run id).outcome s = .ok (some ts) ↔ outcomes = built ts) ∧
      ((b.reading.run id).outcome s = .ok none ↔
        ∃ ts rest, outcomes = built ts ++ .ok none :: rest) ∧
      ∀ e, (b.reading.run id).outcome s = .error e ↔
        ∃ ts rest, outcomes = built ts ++ .error e :: rest := by
  have hes : b.elements id = .ok l.elements := by
    rw [elements_of_list hf hp hid, hcs, hl.everyAfter_nodes]
  refine ⟨run_of_alone hes h, fun s => ?_⟩
  rw [outcome_run_of_list hf hp hid, hcs, hl.everyAfter_nodes, gather_of_alone h, outcome_collect]
  exact ⟨fun ts => collected_eq_some_iff, collected_eq_none_iff, fun e => collected_eq_error_iff⟩

def punctuated : Builder where
  forest :=
    let token : Production := ⟨.named .lexical "Id", none, [], true⟩
    let layout : Production := ⟨.named .layout "LAYOUT", none, [], false⟩
    let comma : Production := ⟨.literal ",", none, [], false⟩
    let plain : Production := ⟨.named .sort "Sep", some "plain", [comma.defines], false⟩
    let marked : Production := ⟨.named .sort "Sep", some "marked", [comma.defines], false⟩
    let list : Production := ⟨.separated .plus token.defines
      [layout.defines, comma.defines, layout.defines, plain.defines], none, [], false⟩
    ((Site.new ⟨"Punctuated", [token, layout, comma, plain, marked, list], by decide⟩).after
      [.char 97, .derivation [0] 0, .char 98, .derivation [2] 0, .char 32, .derivation [4] 1,
        .literal "," 2, .derivation [6] 3, .derivation [6] 4, .ambiguity [7, 8],
        .list [5, 1, 5, 6, 9, 5, 3, 3, 5, 7, 5, 1] 5]).forest
  registry := Registry.empty.define ⟨"Id", true, []⟩
  conventions := .standard

theorem outcome_run_of_spaced_punctuated :
    let a : Tree := ⟨"Id", "Lexical", none, .zero, .lexical "a"⟩
    let b : Tree := ⟨"Id", "Lexical", none, .zero, .lexical "b"⟩
    let l : Spaced := ⟨1, [([6, 9], 3), ([3, 7], 1)]⟩
    punctuated.forest.node 10 = .ok (.list 5 [5, 1, 5, 6, 9, 5, 3, 3, 5, 7, 5, 1] false) ∧
      (∀ below, punctuated.run below 10 = collect below.value l.elements) ∧
      (punctuated.reading.run 10).outcome .initial = .ok (some [a, b, a]) := by
  intro a b l
  have hf : punctuated.forest.WellBuilt := Site.wellBuilt_after (by decide +kernel)
  have hid : punctuated.forest.node 10 =
      .ok (.list 5 [5, 1, 5, 6, 9, 5, 3, 3, 5, 7, 5, 1] false) := by
    decide +kernel
  have halone : ∀ e ∈ l.elements, punctuated.Alone e := by decide +kernel
  have hl : l.Regular 2 := by decide +kernel
  obtain ⟨hseparators, hitems⟩ :=
    outcome_run_of_spaced hf hid rfl (by decide +kernel) hl halone
  exact ⟨hid, hseparators, ((hitems .initial).1 [a, b, a]).2 (by decide +kernel)⟩

end Builder

end ParseForest
