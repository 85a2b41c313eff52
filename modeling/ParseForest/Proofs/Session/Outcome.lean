import ParseForest.Build.Session

/-!
Readings by their outcome. What a reading does next depends on the kept results alone, so what a
session has to satisfy is a property of those. `Yields` says what may come out of a reading that
keeps such a property, and `Computes` that exactly one outcome may. Main statements:
`computes_bind`, `computes_once`.
-/

namespace ParseForest.Build

abbrev Results := Table (Memory × NodeId) (Option Tree)

variable {α β : Type}

def outcome (x : Build α) (s : Session) : Except Error α :=
  match x s with
  | .ok a _ => .ok a
  | .error e _ => .error e

def after (x : Build α) (s : Session) : Session :=
  match x s with
  | .ok _ s' | .error _ s' => s'

theorem outcome_bind (x : Build α) (f : α → Build β) (s : Session) :
    outcome (x >>= f) s = match x.outcome s with
      | .ok a => (f a).outcome (x.after s)
      | .error e => .error e := by
  simp only [outcome, after, bind, EStateM.bind]
  cases x s <;> rfl

theorem after_bind (x : Build α) (f : α → Build β) (s : Session) :
    after (x >>= f) s = match x.outcome s with
      | .ok a => (f a).after (x.after s)
      | .error _ => x.after s := by
  simp only [outcome, after, bind, EStateM.bind]
  cases x s <;> rfl

theorem outcome_lift (r : Except Error α) (s : Session) :
    outcome (liftM r : Build α) s = r := by
  cases r <;> rfl

theorem after_lift (r : Except Error α) (s : Session) : after (liftM r : Build α) s = s := by
  cases r <;> rfl

theorem outcome_liftChecked (r : Checked α) (s : Session) :
    outcome (liftM r : Build α) s = r.mapError .breach := by
  cases r <;> rfl

theorem after_liftChecked (r : Checked α) (s : Session) : after (liftM r : Build α) s = s := by
  cases r <;> rfl

theorem checked_bind_of_ok {c : Checked α} {a : α} (h : c = .ok a) (f : α → Build β) :
    ((liftM c : Build α) >>= f) = f a := by
  subst h
  rfl

/-- From every session whose results have `J`, the outcome of `x` has `Q`, and the results that are
left have `J` again. -/
def Yields (J : Results → Prop) (x : Build α) (Q : Except Error α → Prop) : Prop :=
  ∀ s, J s.results → Q (x.outcome s) ∧ J (x.after s).results

/-- From every session whose results have `J`, the outcome of `x` is `r`. -/
def Computes (J : Results → Prop) (x : Build α) (r : Except Error α) : Prop :=
  Yields J x (· = r)

def Keeps (J : Results → Prop) (x : Build α) : Prop := Yields J x fun _ => True

variable {J : Results → Prop} {x : Build α} {Q R : Except Error α → Prop}

theorem Yields.mono (hx : Yields J x Q) (h : ∀ r, Q r → R r) : Yields J x R := by
  intro s hs
  exact ⟨h _ (hx s hs).1, (hx s hs).2⟩

theorem Yields.keeps (hx : Yields J x Q) : Keeps J x := hx.mono fun _ _ => trivial

theorem Computes.keeps {r : Except Error α} (hx : Computes J x r) : Keeps J x := Yields.keeps hx

theorem yields_of_same (hx : ∀ s, Q (x.outcome s)) (hs : ∀ s, (x.after s).results = s.results) :
    Yields J x Q := by
  intro s h
  refine ⟨hx s, ?_⟩
  rw [hs s]
  exact h

theorem yields_bind {f : α → Build β} {R : Except Error β → Prop} (hx : Yields J x Q)
    (hf : ∀ a, Q (.ok a) → Yields J (f a) R) (he : ∀ e, Q (.error e) → R (.error e)) :
    Yields J (x >>= f) R := by
  intro s hs
  obtain ⟨hq, hj⟩ := hx s hs
  rw [outcome_bind, after_bind]
  cases h : x.outcome s with
  | ok a =>
    rw [h] at hq
    exact hf a hq _ hj
  | error e =>
    rw [h] at hq
    exact ⟨he e hq, hj⟩

theorem computes_pure (a : α) : Computes J (pure a) (.ok a) :=
  yields_of_same (fun _ => rfl) fun _ => rfl

theorem computes_throw (e : Error) : Computes J (throw e : Build α) (.error e) :=
  yields_of_same (fun _ => rfl) fun _ => rfl

theorem computes_lift (r : Except Error α) : Computes J (liftM r : Build α) r :=
  yields_of_same (outcome_lift r) fun s => by rw [after_lift]

theorem computes_liftChecked (r : Checked α) :
    Computes J (liftM r : Build α) (r.mapError .breach) :=
  yields_of_same (outcome_liftChecked r) fun s => by rw [after_liftChecked]

theorem computes_record (e : Event) : Computes J (record e) (.ok ()) :=
  yields_of_same (fun _ => rfl) fun _ => rfl

theorem computes_record_bind (e : Event) {r : Except Error α} (hx : Computes J x r) :
    Computes J (record e >>= fun _ => x) r :=
  yields_bind (computes_record e) (fun _ _ => hx) fun _ h => nomatch h

theorem computes_bind {f : α → Build β} {r : Except Error α} {g : α → Except Error β}
    (hx : Computes J x r) (hf : ∀ a, r = .ok a → Computes J (f a) (g a)) :
    Computes J (x >>= f) (r >>= g) := by
  refine yields_bind hx (fun a ha => ?_) (fun e he => ?_)
  · subst ha
    exact hf a rfl
  · subst he
    rfl

theorem computes_checked_bind {c : Checked α} {a : α} (hc : c = .ok a) {f : α → Build β}
    {r : Except Error β} (hf : Computes J (f a) r) :
    Computes J ((liftM c : Build α) >>= f) r := by
  subst hc
  exact yields_bind (computes_liftChecked _) (fun _ he => Except.ok.inj he ▸ hf)
    fun _ h => nomatch h

theorem computes_modify {f : Session → Session} (hf : ∀ s, (f s).results = s.results) :
    Computes J (modify f : Build Unit) (.ok ()) :=
  yields_of_same (fun _ => rfl) hf

theorem keeps_bind {f : α → Build β} (hx : Keeps J x) (hf : ∀ a, Keeps J (f a)) :
    Keeps J (x >>= f) :=
  yields_bind hx (fun a _ => hf a) fun _ _ => trivial

theorem keeps_get : Keeps J (get : Build Session) :=
  yields_of_same (fun _ => trivial) fun _ => rfl

theorem computes_map (f : α → β) {r : Except Error α} (hx : Computes J x r) :
    Computes J (f <$> x) (f <$> r) := by
  intro s hs
  obtain ⟨ho, hj⟩ := hx s hs
  subst ho
  simp only [after] at hj
  simp only [outcome, after, Functor.map, EStateM.map]
  cases h : x s with
  | ok a s' =>
    rw [h] at hj
    exact ⟨rfl, hj⟩
  | error e s' =>
    rw [h] at hj
    exact ⟨rfl, hj⟩

theorem run_get (s : Session) : (get : Build Session) s = .ok s s := rfl

theorem once_of_kept {memory : Memory} {node : NodeId} {build : Build (Option Tree)} {s : Session}
    {v : Option Tree} (h : s.kept? memory node = some v) :
    once memory node build s = .ok v { s with events := s.events.push (.hit node memory) } := by
  simp only [once, bind, EStateM.bind, run_get, h]
  rfl

theorem once_of_new {memory : Memory} {node : NodeId} {build : Build (Option Tree)} {s : Session}
    (h : s.kept? memory node = none) :
    once memory node build s = match build s with
      | .ok v s' => .ok v (s'.keep memory node v)
      | .error e s' => .error e s' := by
  simp only [once, bind, EStateM.bind, run_get, h]
  cases build s <;> rfl

theorem computes_once {memory : Memory} {node : NodeId} {build : Build (Option Tree)}
    {r : Except Error (Option Tree)}
    (hit : ∀ t v, J t → t.get? (memory, node) = some v → r = .ok v)
    (keep : ∀ t v, J t → r = .ok v → J (t.insert (memory, node) v))
    (hb : Computes J build r) : Computes J (once memory node build) r := by
  intro s hs
  cases hk : s.kept? memory node with
  | some v =>
    simp only [outcome, after, once_of_kept hk]
    exact ⟨(hit _ v hs hk).symm, hs⟩
  | none =>
    obtain ⟨hr, hj⟩ := hb s hs
    simp only [outcome, after] at hr hj
    simp only [outcome, after, once_of_new hk]
    cases h : build s with
    | ok v s' =>
      rw [h] at hr hj
      exact ⟨hr, keep _ v hj hr.symm⟩
    | error e s' =>
      rw [h] at hr hj
      exact ⟨hr, hj⟩

def AllKept (P : Memory → NodeId → Option Tree → Prop) (t : Results) : Prop :=
  ∀ memory node v, t.get? (memory, node) = some v → P memory node v

variable {P : Memory → NodeId → Option Tree → Prop}

theorem allKept_empty : AllKept P Session.initial.results := by
  intro memory node v h
  cases h

theorem AllKept.insert {t : Results} (ht : AllKept P t) {memory : Memory} {node : NodeId}
    {v : Option Tree} (hv : P memory node v) : AllKept P (t.insert (memory, node) v) := by
  intro memory' node' v' h
  rw [Table.get?_insert] at h
  split at h
  next he =>
    cases he
    cases h
    exact hv
  next => exact ht _ _ _ h

theorem computes_once_of_iff {memory : Memory} {node : NodeId} {build : Build (Option Tree)}
    {r : Except Error (Option Tree)} (h : ∀ v, P memory node v ↔ r = .ok v)
    (hb : Computes (AllKept P) build r) : Computes (AllKept P) (once memory node build) r := by
  refine computes_once (fun t v ht hv => ?_) (fun t v ht hv => ?_) hb
  · exact (h v).1 (ht _ _ _ hv)
  · exact ht.insert ((h v).2 hv)

end ParseForest.Build
