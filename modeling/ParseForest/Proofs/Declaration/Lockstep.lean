import Mathlib.Data.List.Forall2
import ParseForest.Proofs.Declaration.Filling

/-!
Two runs in step. They start from one environment and make the same definitions, so that the one
succeeds where the other does and both leave the same behind; where they fail they may disagree on
the name of a type that is not declared, and on nothing else. Main statements: `Lockstep.bind`,
`lockstep_read`, `lockstep_settle`.
-/

namespace ParseForest

open Success

def Error.Akin (e e' : Error) : Prop :=
  e = e' ∨ ∃ name name', e = .undeclaredType name ∧ e' = .undeclaredType name'

theorem Error.Akin.isUndeclaredType {e e' : Error} (h : e.Akin e') :
    e.isUndeclaredType = e'.isUndeclaredType := by
  rcases h with rfl | ⟨name, name', rfl, rfl⟩ <;> rfl

section Outcomes

variable {α β γ δ : Type}

inductive SameOutcome (R : α → β → Prop) : Except Error α → Except Error β → Prop
  | ok {a : α} {b : β} (h : R a b) : SameOutcome R (.ok a) (.ok b)
  | error {e e' : Error} (h : e.Akin e') : SameOutcome R (.error e) (.error e')

theorem SameOutcome.refl (x : Except Error α) : SameOutcome Eq x x := by
  cases x with
  | ok a => exact .ok rfl
  | error e => exact .error (.inl rfl)

theorem SameOutcome.bind {R : α → β → Prop} {S : γ → δ → Prop} {x : Except Error α}
    {y : Except Error β} {f : α → Except Error γ} {g : β → Except Error δ}
    (h : SameOutcome R x y) (hf : ∀ a b, R a b → SameOutcome S (f a) (g b)) :
    SameOutcome S (x >>= f) (y >>= g) := by
  cases h with
  | ok h => exact hf _ _ h
  | error h => exact .error h

theorem SameOutcome.bind_eq {S : γ → δ → Prop} {x y : Except Error α} {f : α → Except Error γ}
    {g : α → Except Error δ} (h : SameOutcome Eq x y) (hf : ∀ a, SameOutcome S (f a) (g a)) :
    SameOutcome S (x >>= f) (y >>= g) := by
  refine h.bind ?_
  rintro a _ rfl
  exact hf a

theorem SameOutcome.mapM {f : α → Except Error γ} {g : β → Except Error γ} {as : List α}
    {bs : List β} (h : List.Forall₂ (fun a b => SameOutcome Eq (f a) (g b)) as bs) :
    SameOutcome Eq (as.mapM f) (bs.mapM g) := by
  induction h with
  | nil => exact .refl _
  | cons h _ ih =>
    rw [List.mapM_cons, List.mapM_cons]
    exact h.bind_eq fun c => ih.bind_eq fun cs => .refl _

end Outcomes

namespace Declare

variable {α β γ δ : Type} {m : Option String}

/-- Both end in one state of the module, and in the same way. -/
inductive EndsAlike (m : Option String) (R : α → β → Prop) :
    EStateM.Result Error Journal α → EStateM.Result Error Journal β → Prop
  | ok {a : α} {b : β} {j : Journal} (h : R a b) (hj : j.env.moduleName = m) :
    EndsAlike m R (.ok a j) (.ok b j)
  | error {e e' : Error} {j : Journal} (h : e.Akin e') (hj : j.env.moduleName = m) :
    EndsAlike m R (.error e j) (.error e' j)

def Lockstep (m : Option String) (R : α → β → Prop) (x : Declare α) (y : Declare β) : Prop :=
  ∀ j, j.env.moduleName = m → EndsAlike m R (x j) (y j)

variable {R : α → β → Prop} {S : γ → δ → Prop}

theorem lockstep_pure {a : α} {b : β} (h : R a b) : Lockstep m R (pure a) (pure b) :=
  fun _ hj => .ok h hj

theorem lockstep_throw {e e' : Error} (h : e.Akin e') :
    Lockstep m R (throw e : Declare α) (throw e' : Declare β) :=
  fun _ hj => .error h hj

theorem Lockstep.bind {x : Declare α} {y : Declare β} {f : α → Declare γ} {g : β → Declare δ}
    (h : Lockstep m R x y) (hf : ∀ a b, R a b → Lockstep m S (f a) (g b)) :
    Lockstep m S (x >>= f) (y >>= g) := by
  intro j hj
  have hxy := h j hj
  rw [run_bind, run_bind]
  revert hxy
  generalize x j = r
  generalize y j = s
  rintro (⟨h, hk⟩ | ⟨h, hk⟩)
  · exact hf _ _ h _ hk
  · exact .error h hk

theorem Lockstep.bind_eq {x y : Declare α} {f : α → Declare γ} {g : α → Declare δ}
    (h : Lockstep m Eq x y) (hf : ∀ a, Lockstep m S (f a) (g a)) :
    Lockstep m S (x >>= f) (y >>= g) := by
  refine h.bind ?_
  rintro a _ rfl
  exact hf a

theorem lockstep_lift {x : Except Error α} {y : Except Error β} (h : SameOutcome R x y) :
    Lockstep m R (liftM x : Declare α) (liftM y : Declare β) := by
  intro j hj
  rw [run_lift, run_lift]
  cases h with
  | ok h => exact .ok h hj
  | error h => exact .error h hj

theorem lockstep_read {g g' : TypeEnv → Except Error α} {f : α → Declare γ} {f' : α → Declare δ}
    (hg : ∀ env : TypeEnv, env.moduleName = m → SameOutcome Eq (g env) (g' env))
    (hf : ∀ a, Lockstep m S (f a) (f' a)) :
    Lockstep m S (env >>= fun env => liftM (g env) >>= f)
      (env >>= fun env => liftM (g' env) >>= f') := by
  intro j hj
  exact (lockstep_lift (hg j.env hj)).bind_eq hf j hj

theorem lockstep_forM {f : α → Declare PUnit} {g : β → Declare PUnit} {as : List α} {bs : List β}
    (h : List.Forall₂ (fun a b => Lockstep m Eq (f a) (g b)) as bs) :
    Lockstep m Eq (as.forM f) (bs.forM g) := by
  induction h with
  | nil => exact lockstep_pure rfl
  | cons h _ ih => exact h.bind_eq fun _ => ih

theorem moduleName_of_make {d : Definition} {j j' : Journal} (h : j.make d = .ok j')
    (hj : j.env.moduleName = m) : j'.env.moduleName = m :=
  (Definition.make_moduleName (Journal.make_eq_ok.1 h).1).trans hj

theorem lockstep_data (name : String) (ps : List Ty) :
    Lockstep m Eq (data name ps) (data name ps) := by
  intro j hj
  rw [run_data]
  cases hdeclared : j.env.declareData name ps with
  | ok r =>
    have hmade : j.make (.data name ps) = .ok { j.note (.data name ps) with env := r.1 } :=
      Journal.make_eq_ok.2 ⟨map_eq_ok.2 ⟨r, hdeclared, rfl⟩, rfl⟩
    exact .ok rfl (moduleName_of_make hmade hj)
  | error e => exact .error (.inl rfl) hj

theorem lockstep_constructor (owner : Ty) (name : String) (fields : List Field) :
    Lockstep m Eq (constructor owner name fields) (constructor owner name fields) := by
  intro j hj
  rw [run_constructor]
  cases hmade : j.make (.constructor owner name fields) with
  | ok j' => exact .ok rfl (moduleName_of_make hmade hj)
  | error e => exact .error (.inl rfl) hj

theorem lockstep_keywords (owner : KeywordOwner) (ks : List (String × Keyword)) :
    Lockstep m Eq (keywords owner ks) (keywords owner ks) :=
  fun _ hj => .ok rfl hj

theorem lockstep_declare {p p' : Pending}
    (h : ∀ env : TypeEnv, env.moduleName = m → SameOutcome Eq (p.resolve env) (p'.resolve env)) :
    Lockstep m Eq p.declare p'.declare := by
  intro j hj
  rw [Pending.run_declare, Pending.run_declare]
  have hsame := h j.env hj
  revert hsame
  generalize p.resolve j.env = r
  generalize p'.resolve j.env = s
  rintro (rfl | h)
  · rename_i d
    cases hmade : j.make d with
    | ok j' => simpa only [hmade] using EndsAlike.ok rfl (moduleName_of_make hmade hj)
    | error e =>
      have hnoted : (j.note d).env.moduleName = m := hj
      simpa only [hmade] using EndsAlike.error (.inl rfl) hnoted
  · exact .error h hj

theorem lockstep_attempt {x y : Declare Unit} (h : Lockstep m Eq x y) :
    Lockstep m (SameOutcome Eq) (attempt x) (attempt y) := by
  intro j hj
  have hxy := h j hj
  unfold attempt
  revert hxy
  generalize x j = r
  generalize y j = s
  rintro (⟨h, hk⟩ | ⟨h, hk⟩)
  · exact .ok (.ok h) hk
  · simp only [h.isUndeclaredType]
    split
    · exact .ok (.error h) hk
    · exact .error h hk

section Settle

variable {Q : Pending → Pending → Prop}
  (hQ : ∀ p p', Q p p' → Lockstep m Eq p.declare p'.declare)
include hQ

theorem lockstep_advance {count count' : Nat} {failed failed' rest rest' : List Pending}
    {first first' : Pending} (hfailed : List.Forall₂ Q failed failed') (hfirst : Q first first')
    (hrest : List.Forall₂ Q rest rest') (total : failed.length + rest.length = count)
    (total' : failed'.length + rest'.length = count') :
    Lockstep m (fun left left' => List.Forall₂ Q left.1 left'.1)
      (advance count failed first rest total) (advance count' failed' first' rest' total') := by
  induction hrest generalizing failed failed' first first' with
  | nil =>
    unfold advance
    refine (lockstep_attempt (hQ _ _ hfirst)).bind fun a b hab => ?_
    cases hab with
    | ok => exact lockstep_pure hfailed
    | error h => exact lockstep_throw h
  | cons hnext hrest ih =>
    unfold advance
    refine (lockstep_attempt (hQ _ _ hfirst)).bind fun a b hab => ?_
    cases hab with
    | ok => exact lockstep_pure (List.rel_append (.cons hnext hrest) hfailed)
    -- Both wait, for types that may differ in name only, and stand last from now on.
    | error => exact ih (List.rel_append hfailed (.cons hfirst .nil)) hnext _ _

theorem lockstep_settle {ws ws' : List Pending} (h : List.Forall₂ Q ws ws') :
    Lockstep m Eq (settle ws) (settle ws') := by
  induction hn : ws.length generalizing ws ws' with
  | zero =>
    cases h with
    | nil =>
      unfold settle
      exact lockstep_pure rfl
    | cons => cases hn
  | succ n ih =>
    cases h with
    | nil => cases hn
    | cons hfirst hrest =>
      unfold settle
      refine (lockstep_advance hQ .nil hfirst hrest _ _).bind fun left left' hleft => ?_
      exact ih hleft (left.2.trans (Nat.succ.inj hn))

end Settle

end Declare

end ParseForest
