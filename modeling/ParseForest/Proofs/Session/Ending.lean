import ParseForest.Proofs.Session.Outcome

/-!
Readings that end, and readings that have more levels at their disposal. What such a reading gives
depends on the kept results alone, as long as the first one ends; this goes through with every step.
Main statements: `extends_bind`, `extends_once`.
-/

namespace ParseForest.Build

variable {α β : Type}

/-- The outcomes of readings that are made one after the other, each with what the ones before it
kept. -/
def outcomesOf (read : NodeId → Build α) : List NodeId → Session → List (Except Error α)
  | [], _ => []
  | n :: ns, s => (read n).outcome s :: outcomesOf read ns ((read n).after s)

/-- The reading does not run out of levels. -/
def Ends (x : Build α) (s : Session) : Prop := x.outcome s ≠ .error (.breach .endlessDerivation)

theorem ends_of_ok {x : Build α} {s : Session} {a : α} (h : x.outcome s = .ok a) : x.Ends s := by
  rw [Ends, h]
  exact nofun

/-- Where `x` ends, from results that have `J`, `y` has the same outcome and keeps the same results,
and they have `J` again. Nothing else in a session makes a difference. -/
def Extends (J : Results → Prop) (x y : Build α) : Prop :=
  ∀ s s', J s.results → s'.results = s.results → x.Ends s →
    y.outcome s' = x.outcome s ∧ (y.after s').results = (x.after s).results ∧
      J (x.after s).results

variable {J : Results → Prop} {x y : Build α}

theorem extends_of_same {r : Except Error α} (ho : ∀ s, x.outcome s = r)
    (hs : ∀ s, (x.after s).results = s.results) : Extends J x x := by
  intro s s' hj heq _
  refine ⟨(ho s').trans (ho s).symm, ?_, ?_⟩
  · rw [hs, hs, heq]
  · rw [hs]
    exact hj

theorem extends_pure (a : α) : Extends J (pure a) (pure a) :=
  extends_of_same (fun _ => rfl) fun _ => rfl

theorem extends_throw (e : Error) : Extends J (throw e : Build α) (throw e) :=
  extends_of_same (fun _ => rfl) fun _ => rfl

theorem extends_lift (r : Except Error α) : Extends J (liftM r : Build α) (liftM r) :=
  extends_of_same (outcome_lift r) fun s => by rw [after_lift]

theorem extends_checked (c : Checked α) : Extends J (liftM c : Build α) (liftM c) :=
  extends_of_same (outcome_liftChecked c) fun s => by rw [after_liftChecked]

theorem extends_record (e : Event) : Extends J (record e) (record e) :=
  extends_of_same (fun _ => rfl) fun _ => rfl

theorem extends_modify {f : Session → Session} (hf : ∀ s, (f s).results = s.results) :
    Extends J (modify f : Build Unit) (modify f) :=
  extends_of_same (fun _ => rfl) hf

theorem extends_ended (y : Build α) : Extends J (throw (.breach .endlessDerivation)) y :=
  fun _ _ _ _ he => absurd rfl he

theorem Extends.trans {z : Build α} (hxy : Extends J x y) (hyz : Extends J y z) :
    Extends J x z := by
  intro s s' hj heq hx
  obtain ⟨ho, hr, -⟩ := hxy s s hj rfl hx
  have hy : y.Ends s := by
    rw [Ends, ho]
    exact hx
  obtain ⟨ho', hr', hj'⟩ := hyz s s' hj heq hy
  exact ⟨ho'.trans ho, hr'.trans hr, hr ▸ hj'⟩

theorem extends_bind {f g : α → Build β} (hx : Extends J x y) (hf : ∀ a, Extends J (f a) (g a)) :
    Extends J (x >>= f) (y >>= g) := by
  intro s s' hj heq he
  have hends : x.Ends s := by
    intro h
    refine he ?_
    rw [outcome_bind, h]
  obtain ⟨ho, hr, hj'⟩ := hx s s' hj heq hends
  simp only [Ends, outcome_bind] at he
  rw [outcome_bind, outcome_bind, after_bind, after_bind, ho]
  cases h : x.outcome s with
  | ok a =>
    rw [h] at he
    exact hf a _ _ hj' hr he
  | error e => exact ⟨rfl, hr, hj'⟩

theorem extends_map (f : α → β) (hx : Extends J x y) : Extends J (f <$> x) (f <$> y) := by
  rw [map_eq_pure_bind, map_eq_pure_bind]
  exact extends_bind hx fun _ => extends_pure _

theorem outcome_attempt (x : Build α) (s : Session) :
    (attempt x).outcome s = match x.outcome s with
      | .ok a => .ok (.ok a)
      | .error e => if e.isAmbiguity then .ok (.error e) else .error e := by
  simp only [outcome, attempt]
  cases x s with
  | ok a s' => rfl
  | error e s' => by_cases he : e.isAmbiguity = true <;> simp [he]

theorem after_attempt (x : Build α) (s : Session) : (attempt x).after s = x.after s := by
  simp only [after, attempt]
  cases x s with
  | ok a s' => rfl
  | error e s' => by_cases he : e.isAmbiguity = true <;> simp [he]

theorem outcome_attempt_bind (x : Build α) (f : Except Error α → Build β) (s : Session) :
    (attempt x >>= f).outcome s = match x.outcome s with
      | .ok a => (f (.ok a)).outcome (x.after s)
      | .error e => if e.isAmbiguity then (f (.error e)).outcome (x.after s) else .error e := by
  rw [outcome_bind, outcome_attempt, after_attempt]
  cases x.outcome s with
  | ok a => rfl
  | error e => by_cases he : e.isAmbiguity = true <;> simp [he]

theorem extends_attempt (hx : Extends J x y) : Extends J (attempt x) (attempt y) := by
  intro s s' hj heq he
  have hends : x.Ends s := by
    intro h
    refine he ?_
    rw [outcome_attempt, h]
    rfl
  obtain ⟨ho, hr, hj'⟩ := hx s s' hj heq hends
  rw [outcome_attempt, outcome_attempt, after_attempt, after_attempt, ho]
  exact ⟨rfl, hr, hj'⟩

theorem outcome_once (memory : Memory) (node : NodeId) (x : Build (Option Tree)) (s : Session) :
    (once memory node x).outcome s = match s.kept? memory node with
      | some v => .ok v
      | none => x.outcome s := by
  cases hk : s.kept? memory node with
  | some v => simp only [outcome, once_of_kept hk]
  | none =>
    simp only [outcome, once_of_new hk]
    cases x s <;> rfl

theorem results_after_once (memory : Memory) (node : NodeId) (x : Build (Option Tree))
    (s : Session) :
    ((once memory node x).after s).results = match s.kept? memory node, x.outcome s with
      | some _, _ => s.results
      | none, .ok v => (x.after s).results.insert (memory, node) v
      | none, .error _ => (x.after s).results := by
  cases hk : s.kept? memory node with
  | some v => simp only [after, once_of_kept hk]
  | none =>
    simp only [after, outcome, once_of_new hk]
    cases x s <;> rfl

def Stable (J : Results → Prop) : Prop := ∀ t key v, J t → J (t.insert key v)

theorem extends_once {memory : Memory} {node : NodeId} {x y : Build (Option Tree)}
    (hJ : Stable J) (hx : Extends J x y) :
    Extends J (once memory node x) (once memory node y) := by
  intro s s' hj heq he
  have hkept : s'.kept? memory node = s.kept? memory node := by
    rw [Session.kept?, Session.kept?, heq]
  simp only [Ends, outcome_once] at he
  rw [outcome_once, outcome_once, results_after_once, results_after_once, hkept]
  cases hk : s.kept? memory node with
  | some v => exact ⟨rfl, heq, hj⟩
  | none =>
    rw [hk] at he
    obtain ⟨ho, hr, hj'⟩ := hx s s' hj heq he
    rw [ho]
    cases h : x.outcome s with
    | ok v => exact ⟨rfl, by rw [hr], hJ _ _ _ hj'⟩
    | error e => exact ⟨rfl, hr, hj'⟩

theorem extends_collect {f g : α → Build (Option β)} (h : ∀ a, Extends J (f a) (g a))
    (as : List α) : Extends J (collect f as) (collect g as) := by
  induction as with
  | nil => exact extends_pure _
  | cons a as ih =>
    refine extends_bind (h a) fun c? => ?_
    cases c? with
    | none => exact extends_pure _
    | some c => exact extends_bind ih fun _ => extends_pure _

end ParseForest.Build
