import ParseForest.Proofs.Session.Outcome
import ParseForest.Proofs.Success

/-!
Readings by what they give. From sessions that are as they should be a reading may fail, but what it
gives has a property; this goes through with every step of a reading, and kept results are no
exception if they have the property as well. Main statements: `gives_bind`, `gives_once`.
-/

namespace ParseForest

open Success

namespace Build

variable {α β : Type} {J : Results → Prop} {x : Build α} {P : α → Prop} {Q : β → Prop}

/-- From sessions whose results have `J`, what the reading gives has `P`, if it gives anything. -/
abbrev Gives (J : Results → Prop) (x : Build α) (P : α → Prop) : Prop :=
  Yields J x fun r => ∀ a, r = .ok a → P a

theorem gives_of_computes {r : Except Error α} (hx : Computes J x r) (h : ∀ a, r = .ok a → P a) :
    Gives J x P :=
  Yields.mono hx fun _ hr a ha => h a (hr.symm.trans ha)

theorem gives_pure {a : α} (h : P a) : Gives J (pure a) P :=
  gives_of_computes (computes_pure a) fun _ ha => Except.ok.inj ha ▸ h

theorem gives_throw (e : Error) : Gives J (throw e) P :=
  gives_of_computes (computes_throw e) nofun

theorem gives_lift (r : Except Error α) : Gives J (liftM r) fun a => r = .ok a :=
  gives_of_computes (computes_lift r) fun _ ha => ha

theorem gives_checked (c : Checked α) : Gives J (liftM c) fun a => c = .ok a :=
  gives_of_computes (computes_liftChecked c) fun _ ha => mapError_eq_ok.1 ha

theorem gives_bind {f : α → Build β} (hx : Gives J x P) (hf : ∀ a, P a → Gives J (f a) Q) :
    Gives J (x >>= f) Q :=
  yields_bind hx (fun a ha => hf a (ha a rfl)) fun _ _ => nofun

theorem gives_after {f : α → Build β} (hx : Keeps J x) (hf : ∀ a, Gives J (f a) Q) :
    Gives J (x >>= f) Q :=
  yields_bind hx (fun a _ => hf a) fun _ _ => nofun

theorem gives_map {f : α → β} (hx : Gives J x P) (hf : ∀ a, P a → Q (f a)) :
    Gives J (f <$> x) Q := by
  rw [map_eq_pure_bind]
  exact gives_bind hx fun a ha => gives_pure (hf a ha)

theorem gives_attempt (hx : Gives J x P) : Gives J (attempt x) fun r => ∀ a, r = .ok a → P a := by
  intro s hs
  obtain ⟨hr, hj⟩ := hx s hs
  simp only [outcome, after] at hr hj
  simp only [outcome, after, attempt]
  cases h : x s with
  | ok a s' =>
    rw [h] at hr hj
    refine ⟨?_, hj⟩
    rintro _ hok a' rfl
    cases hok
    exact hr a rfl
  | error e s' =>
    rw [h] at hj
    by_cases he : e.isAmbiguity = true
    · refine ⟨?_, by simpa [he] using hj⟩
      rintro _ hok a rfl
      simp [he] at hok
    · exact ⟨by simp [he], by simpa [he] using hj⟩

theorem gives_collect {f : α → Build (Option β)} {as : List α}
    (h : ∀ a, Gives J (f a) fun v => ∀ c ∈ v, Q c) :
    Gives J (collect f as) fun v => ∀ cs ∈ v, ∀ c ∈ cs, Q c := by
  induction as with
  | nil => exact gives_pure (by simp)
  | cons a as ih =>
    refine gives_bind (h a) fun c? hc => ?_
    cases c? with
    | none => exact gives_pure nofun
    | some c =>
      refine gives_bind ih fun cs? hcs => gives_pure fun all hall => ?_
      obtain ⟨cs, hmem, rfl⟩ := Option.map_eq_some_iff.1 hall
      exact List.forall_mem_cons.2 ⟨hc c rfl, hcs cs hmem⟩

structure StoresAt (J : Results → Prop) (P : Tree → Prop) (memory : Memory) (node : NodeId) :
    Prop where
  known : ∀ t v, J t → t.get? (memory, node) = some v → ∀ u ∈ v, P u
  insert : ∀ t t' v, J t → t.get? (memory, node) = none → J t' → (∀ u ∈ v, P u) →
    J (t'.insert (memory, node) v)

abbrev Stores (J : Results → Prop) (P : Tree → Prop) : Prop :=
  ∀ memory node, StoresAt J P memory node

theorem stores_allKept (P : Tree → Prop) : Stores (AllKept fun _ _ v => ∀ t ∈ v, P t) P :=
  fun _ _ => ⟨fun _ _ ht hv => ht _ _ _ hv, fun _ _ _ _ _ ht' hv => ht'.insert hv⟩

theorem stores_kept (memory : Memory) (node : NodeId) (v : Option Tree) :
    Stores (fun t => t.get? (memory, node) = some v) fun _ => True := by
  intro memory' node'
  refine ⟨fun _ _ _ _ _ _ => trivial, fun t t' v' ht hnew ht' _ => ?_⟩
  -- What was missing when its reading began is kept for another node or in another memory.
  rw [Table.get?_insert, if_neg, ht']
  intro he
  cases he
  cases ht.symm.trans hnew

theorem gives_once_of {Q : Option Tree → Prop} {memory : Memory} {node : NodeId}
    {build : Build (Option Tree)} (hit : ∀ t v, J t → t.get? (memory, node) = some v → Q v)
    (keep : ∀ t t' v, J t → t.get? (memory, node) = none → J t' → Q v →
      J (t'.insert (memory, node) v))
    (hb : Gives J build Q) : Gives J (once memory node build) Q := by
  intro s hs
  cases hk : s.kept? memory node with
  | some v =>
    simp only [outcome, after, once_of_kept hk]
    refine ⟨?_, hs⟩
    rintro _ ⟨⟩
    exact hit _ _ hs hk
  | none =>
    obtain ⟨hr, hj⟩ := hb s hs
    simp only [outcome, after] at hr hj
    simp only [outcome, after, once_of_new hk]
    cases h : build s with
    | ok v s' =>
      rw [h] at hr hj
      exact ⟨hr, keep _ _ _ hs hk hj (hr v rfl)⟩
    | error e s' =>
      rw [h] at hj
      refine ⟨?_, hj⟩
      rintro _ ⟨⟩

theorem gives_once {P : Tree → Prop} {memory : Memory} {node : NodeId}
    {build : Build (Option Tree)} (hJ : StoresAt J P memory node)
    (hb : Gives J build fun v => ∀ t ∈ v, P t) :
    Gives J (once memory node build) fun v => ∀ t ∈ v, P t :=
  gives_once_of hJ.known hJ.insert hb

theorem gives_once_kept {Q : Memory → NodeId → Option Tree → Prop} {memory : Memory}
    {node : NodeId} {build : Build (Option Tree)}
    (hb : Gives (AllKept Q) build (Q memory node)) :
    Gives (AllKept Q) (once memory node build) (Q memory node) :=
  gives_once_of (fun _ _ ht hv => ht _ _ _ hv) (fun _ _ _ _ _ ht' hv => ht'.insert hv) hb

end Build

end ParseForest
