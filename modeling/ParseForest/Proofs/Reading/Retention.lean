import ParseForest.Proofs.Fragment.Nesting
import ParseForest.Proofs.Reading.Coverage

/-!
Derivations and clusters are built at most once. What the value of one was, it stays for the rest of
the session, and asking for it again neither builds anything nor changes a result. Main statement:
`value_again`.
-/

namespace ParseForest

open Build Success

namespace Build

variable {α β : Type} {s : Session}

theorem outcome_bind_eq_ok {x : Build α} {f : α → Build β} {v : β} :
    (x >>= f).outcome s = .ok v ↔
      ∃ a, x.outcome s = .ok a ∧ (f a).outcome (x.after s) = .ok v := by
  rw [outcome_bind]
  cases x.outcome s <;> simp

theorem outcome_checked_bind_eq_ok {c : Checked α} {f : α → Build β} {v : β} :
    ((liftM c : Build α) >>= f).outcome s = .ok v ↔ ∃ a, c = .ok a ∧ (f a).outcome s = .ok v := by
  simp only [outcome_bind_eq_ok, outcome_liftChecked, after_liftChecked, mapError_eq_ok]

theorem kept_after_once {memory : Memory} {node : NodeId} {build : Build (Option Tree)}
    {v : Option Tree} (h : (once memory node build).outcome s = .ok v) :
    ((once memory node build).after s).kept? memory node = some v := by
  unfold outcome at h
  unfold after
  cases hk : s.kept? memory node with
  | some u =>
    rw [once_of_kept hk] at h ⊢
    cases h
    exact hk
  | none =>
    rw [once_of_new hk] at h ⊢
    cases hb : build s with
    | ok u s' =>
      rw [hb] at h
      cases h
      exact (Table.get?_insert ..).trans (if_pos rfl)
    | error e s' =>
      rw [hb] at h
      cases h

end Build

namespace Builder

variable {b : Builder} {node : NodeId} {memory : Memory} {sort : String} {v : Option Tree}
  {s : Session}

/-- Where the value of a node is kept; derivations and clusters have such a place. -/
def memoryOf? (b : Builder) (node : NodeId) : Checked (Option Memory) := do
  match ← b.forest.node node with
  | .ambiguity _ => return some .clusters
  | .derivation .. =>
    if ← b.forest.isLexical node then return some .tokens
    else if ← b.isEmbedding node then return some .fragments
    else return some .derivations
  | _ => return none

theorem read_eq_once (hs : b.forest.sortName node = .ok sort)
    (hm : b.memoryOf? node = .ok (some memory)) (registry : Registry) (below : Descent) :
    ∃ build, Builder.read { b with registry } below node =
      (record (.enter node sort) >>= fun _ => once memory node build) := by
  obtain ⟨n, hn, hm⟩ := bind_eq_ok.1 hm
  rw [read, checked_bind_of_ok hs, checked_bind_of_ok hn]
  cases n with
  | ambiguity alts =>
    cases pure_eq_ok.1 hm
    exact ⟨_, rfl⟩
  | derivation prod cs =>
    obtain ⟨isLexical, hl, hm⟩ := bind_eq_ok.1 hm
    rw [checked_bind_of_ok hl]
    cases isLexical with
    | true =>
      cases pure_eq_ok.1 hm
      exact ⟨_, rfl⟩
    | false =>
      obtain ⟨isEmbedding, he, hm⟩ := bind_eq_ok.1 hm
      have he : Builder.isEmbedding { b with registry } node = .ok isEmbedding := he
      simp only [Bool.false_eq_true, if_false, checked_bind_of_ok he]
      cases isEmbedding with
      | true =>
        cases pure_eq_ok.1 hm
        exact ⟨_, rfl⟩
      | false =>
        cases pure_eq_ok.1 hm
        exact ⟨_, rfl⟩
  | _ => cases pure_eq_ok.1 hm

theorem exists_memoryOf {below : Descent} (h : (b.read below node).outcome s = .ok v)
    (hn : (∃ prod cs, b.forest.node node = .ok (.derivation prod cs)) ∨
      ∃ alts, b.forest.node node = .ok (.ambiguity alts)) :
    ∃ sort memory, b.forest.sortName node = .ok sort ∧
      b.memoryOf? node = .ok (some memory) := by
  obtain ⟨sort, hs, h⟩ := outcome_checked_bind_eq_ok.1 h
  refine ⟨sort, ?_⟩
  obtain ⟨-, -, h⟩ := outcome_bind_eq_ok.1 h
  obtain ⟨n, hnode, h⟩ := outcome_checked_bind_eq_ok.1 h
  rcases hn with ⟨prod, cs, hn⟩ | ⟨alts, hn⟩
  · cases hn.symm.trans hnode
    obtain ⟨isLexical, hl, h⟩ := outcome_checked_bind_eq_ok.1 h
    cases isLexical with
    | true => exact ⟨.tokens, hs, by rw [memoryOf?, bind_of_ok hn, bind_of_ok hl]; rfl⟩
    | false =>
      obtain ⟨isEmbedding, he, -⟩ := outcome_checked_bind_eq_ok.1 h
      refine ⟨if isEmbedding then .fragments else .derivations, hs, ?_⟩
      rw [memoryOf?, bind_of_ok hn, bind_of_ok hl, if_neg Bool.false_ne_true, bind_of_ok he]
      cases isEmbedding <;> rfl
  · exact ⟨.clusters, hs, by rw [memoryOf?, bind_of_ok hn]; rfl⟩

theorem value_eq_read (b : Builder) (node : NodeId) (s : Session) :
    ∃ below, b.value node s = b.read below node s := by
  have hfresh : 0 < b.levelLimit := Nat.succ_pos _
  obtain ⟨depth, hd⟩ := Nat.exists_eq_add_of_le' (Nat.mul_pos hfresh hfresh)
  obtain ⟨fresh, hr⟩ := Nat.exists_eq_add_of_le' hfresh
  rw [value, hd, hr]
  by_cases hkept : s.results.size = 0
  · refine ⟨b.descent depth fresh 0, ?_⟩
    simp only [descent, Descent.inSession, bind, EStateM.bind, run_get, if_pos hkept]
    rfl
  · refine ⟨b.descent depth b.levelLimit s.results.size, ?_⟩
    simp only [descent, Descent.inSession, bind, EStateM.bind, run_get, if_neg hkept]
    rfl

theorem read_of_kept (hs : b.forest.sortName node = .ok sort)
    (hm : b.memoryOf? node = .ok (some memory)) (hk : s.kept? memory node = some v)
    (registry : Registry) (below : Descent) :
    Builder.read { b with registry } below node s =
      .ok v { s with events := (s.events.push (.enter node sort)).push (.hit node memory) } := by
  obtain ⟨build, hread⟩ := read_eq_once hs hm registry below
  rw [hread]
  exact once_of_kept (s := { s with events := s.events.push (.enter node sort) }) hk

theorem kept_after_read {below : Descent} (hs : b.forest.sortName node = .ok sort)
    (hm : b.memoryOf? node = .ok (some memory)) (h : (b.read below node).outcome s = .ok v) :
    ((b.read below node).after s).kept? memory node = some v := by
  obtain ⟨build, hread⟩ := read_eq_once hs hm b.registry below
  have hread : b.read below node = _ := hread
  rw [hread] at h ⊢
  exact kept_after_once (s := { s with events := s.events.push (.enter node sort) }) h

/-- After a value was given, and whatever was called since, the same value is given again and leaves
everything as it is, but for two events. Trees could be made with any registry, so nothing is
made. -/
theorem value_again {calls : List Call}
    (hn : (∃ prod cs, b.forest.node node = .ok (.derivation prod cs)) ∨
      ∃ alts, b.forest.node node = .ok (.ambiguity alts))
    (h : (b.value node).outcome (b.sessionAfter calls) = .ok v) (more : List Call)
    (registry : Registry) :
    let s := b.sessionAfter (calls ++ .value node :: more)
    ∃ sort memory, b.forest.sortName node = .ok sort ∧ b.memoryOf? node = .ok (some memory) ∧
      Builder.value { b with registry } node s =
        .ok v { s with events := (s.events.push (.enter node sort)).push (.hit node memory) } := by
  intro s
  obtain ⟨below, hread⟩ := b.value_eq_read node (b.sessionAfter calls)
  simp only [outcome, hread] at h
  obtain ⟨sort, memory, hs, hm⟩ := exists_memoryOf h hn
  refine ⟨sort, memory, hs, hm, ?_⟩
  have hkept : (b.sessionAfter (calls ++ [.value node])).kept? memory node = some v := by
    rw [sessionAfter, List.foldl_append]
    have hafter := kept_after_read hs hm h
    simp only [after, ← hread] at hafter
    exact hafter
  have hkept : s.kept? memory node = some v := by
    have := holds_sessionAfter_append
      (fun n => (sustains_any.value (stores_kept memory node v) n).keeps) hkept more
    rwa [List.append_assoc] at this
  obtain ⟨below', hread'⟩ := Builder.value_eq_read { b with registry } node s
  rw [hread']
  exact read_of_kept hs hm hkept registry below'

theorem value_again_sharedPair :
    let x : Tree := ⟨"Id", "Lexical", none, .zero, .lexical "x"⟩
    let var : Tree := ⟨"Exp", "Var", none, .zero, .application [.node x]⟩
    let ref : Tree := ⟨"Exp", "Ref", none, .zero, .application [.node x]⟩
    let either : Tree :=
      ⟨"Exp", "Ambiguity", none, Cost.zero.withAmbiguous true, .ambiguity [var, ref]⟩
    let s := sharedPair.sessionAfter [.value 4, .value 7, .convertModule 7]
    ((sharedPair.value 4).outcome .initial = .ok (some either)) ∧
      Builder.value { sharedPair with registry := .empty } 4 s = .ok (some either)
        { s with events := (s.events.push (.enter 4 "Exp")).push (.hit 4 .clusters) } := by
  intro x var ref either s
  have h : (sharedPair.value 4).outcome (sharedPair.sessionAfter []) = .ok (some either) := by
    decide +kernel
  obtain ⟨sort, memory, hs, hm, hagain⟩ := value_again
    (.inr ⟨[2, 3], by decide +kernel⟩) h [.value 7, .convertModule 7] .empty
  cases hs.symm.trans (show sharedPair.forest.sortName 4 = .ok "Exp" by decide +kernel)
  cases hm.symm.trans (show sharedPair.memoryOf? 4 = .ok (some .clusters) by decide +kernel)
  exact ⟨h, hagain⟩

end Builder

end ParseForest
