import Mathlib.Data.List.Perm.Basic
import ParseForest.Proofs.Declaration.Trial

/-!
The order in which waiting type names come to be declared. A pass declares the first that can be
declared, where all before it wait for a type; it fails only where one is refused or all wait. What
is declared in the end is all that waited, in some order. Main statements: `advance_cases`,
`settle_cases`.
-/

namespace ParseForest.Declare

open Success Pending

def Advances (j : Journal) (failed ws : List Pending) (left : List Pending) (j' : Journal) : Prop :=
  ∃ before p after, ws = before ++ p :: after ∧ (∀ q ∈ before, Waits (q.trial j)) ∧
    p.trial j = .ok j' ∧ left = after ++ (failed ++ before)

def Sticks (j : Journal) (ws : List Pending) (e : Error) : Prop :=
  ∃ before p after, ws = before ++ p :: after ∧ (∀ q ∈ before, Waits (q.trial j)) ∧
    p.trial j = .error e ∧ (e.isUndeclaredType = true → after = [])

variable {j j' : Journal} {first q : Pending} {failed ws left : List Pending} {e : Error}

theorem Advances.cons (h : Advances j (failed ++ [q]) ws left j') (hq : Waits (q.trial j)) :
    Advances j failed (q :: ws) left j' := by
  obtain ⟨before, p, after, rfl, hbefore, hp, rfl⟩ := h
  refine ⟨q :: before, p, after, rfl, ?_, hp, by simp⟩
  exact List.forall_mem_cons.2 ⟨hq, hbefore⟩

theorem Sticks.cons (h : Sticks j ws e) (hq : Waits (q.trial j)) : Sticks j (q :: ws) e := by
  obtain ⟨before, p, after, rfl, hbefore, hp, hlast⟩ := h
  exact ⟨q :: before, p, after, rfl, List.forall_mem_cons.2 ⟨hq, hbefore⟩, hp, hlast⟩

theorem advance_of_ok {count : Nat} {rest : List Pending}
    (total : failed.length + rest.length = count) (h : first.trial j = .ok j') :
    ∃ left, advance count failed first rest total j = .ok left j' ∧
      Advances j failed (first :: rest) left j' := by
  unfold advance
  rw [run_bind, attempt_of_ok h]
  exact ⟨_, rfl, [], first, rest, rfl, by simp, h, by simp⟩

theorem advance_of_refused {count : Nat} {rest : List Pending}
    (total : failed.length + rest.length = count) (h : first.trial j = .error e)
    (he : e.isUndeclaredType = false) :
    ∃ j', advance count failed first rest total j = .error e j' ∧ j'.env = j.env ∧
      Sticks j (first :: rest) e := by
  obtain ⟨j', hrun, henv⟩ := attempt_of_refused h he
  unfold advance
  rw [run_bind, hrun]
  exact ⟨j', rfl, henv, [], first, rest, rfl, by simp, h, by simp [he]⟩

theorem advance_cases (count : Nat) (failed : List Pending) (first : Pending)
    (rest : List Pending) (total : failed.length + rest.length = count) (j : Journal) :
    (∃ left j', advance count failed first rest total j = .ok left j' ∧
      Advances j failed (first :: rest) left j') ∨
    ∃ e j', advance count failed first rest total j = .error e j' ∧ j'.env = j.env ∧
      Sticks j (first :: rest) e := by
  induction rest generalizing failed first with
  | nil =>
    cases h : first.trial j with
    | ok j' =>
      obtain ⟨left, hrun, hleft⟩ := advance_of_ok total h
      exact .inl ⟨left, j', hrun, hleft⟩
    | error e =>
      cases he : e.isUndeclaredType with
      | true =>
        unfold advance
        rw [run_bind, attempt_of_waits h he]
        exact .inr ⟨e, j, rfl, rfl, [], first, [], rfl, by simp, h, fun _ => rfl⟩
      | false => exact .inr ⟨e, advance_of_refused total h he⟩
  | cons next rest ih =>
    cases h : first.trial j with
    | ok j' =>
      obtain ⟨left, hrun, hleft⟩ := advance_of_ok total h
      exact .inl ⟨left, j', hrun, hleft⟩
    | error e =>
      cases he : e.isUndeclaredType with
      | true =>
        have hfirst : Waits (first.trial j) := ⟨e, h, he⟩
        unfold advance
        rw [run_bind, attempt_of_waits h he]
        rcases ih (failed ++ [first]) next (by simp at total ⊢; omega) with
          ⟨left, j', hrun, hleft⟩ | ⟨e, j', hrun, henv, hstuck⟩
        · exact .inl ⟨left, j', hrun, hleft.cons hfirst⟩
        · exact .inr ⟨e, j', hrun, henv, hstuck.cons hfirst⟩
      | false => exact .inr ⟨e, advance_of_refused total h he⟩

def declareAll (j : Journal) (ps : List Pending) : Except Error Journal :=
  ps.foldlM Pending.trial j

theorem declareAll_cons {p : Pending} {ps : List Pending} :
    declareAll j (p :: ps) = .ok j' ↔ ∃ next, p.trial j = .ok next ∧ declareAll next ps = .ok j' :=
  bind_eq_ok

theorem declareAll_append {ps qs : List Pending} :
    declareAll j (ps ++ qs) = .ok j' ↔
      ∃ next, declareAll j ps = .ok next ∧ declareAll next qs = .ok j' := by
  unfold declareAll
  rw [List.foldlM_append]
  exact bind_eq_ok

theorem Advances.perm (h : Advances j [] ws left j') :
    ∃ p, p.trial j = .ok j' ∧ (p :: left).Perm ws := by
  obtain ⟨before, p, after, rfl, _, hp, rfl⟩ := h
  refine ⟨p, hp, ?_⟩
  show ((p :: after) ++ before).Perm (before ++ p :: after)
  exact List.perm_append_comm

theorem settle_cases (ws : List Pending) (j : Journal) :
    (∃ j', settle ws j = .ok () j' ∧ ∃ ps, ps.Perm ws ∧ declareAll j ps = .ok j') ∨
    ∃ e j', settle ws j = .error e j' ∧ ∃ ps stuck middle, (ps ++ stuck).Perm ws ∧
      declareAll j ps = .ok middle ∧ Sticks middle stuck e ∧ j'.env = middle.env := by
  induction hn : ws.length generalizing ws j with
  | zero =>
    cases List.length_eq_zero_iff.1 hn
    unfold settle
    exact .inl ⟨j, rfl, [], .refl _, rfl⟩
  | succ n ih =>
    cases ws with
    | nil => cases hn
    | cons first rest =>
      unfold settle
      rw [run_bind]
      rcases advance_cases rest.length [] first rest (by simp) j with
        ⟨⟨left, hlength⟩, next, hrun, hleft⟩ | ⟨e, j', hrun, henv, hstuck⟩
      · rw [hrun]
        obtain ⟨p, hp, hperm⟩ := hleft.perm
        have hleftLength : left.length = n := hlength.trans (Nat.succ.inj hn)
        rcases ih left next hleftLength with ⟨j', hsettled, ps, hps, hall⟩ |
          ⟨e, j', hfailed, ps, stuck, middle, hps, hall, hstuck, henv⟩
        · refine .inl ⟨j', hsettled, p :: ps, (hps.cons p).trans hperm, ?_⟩
          exact declareAll_cons.2 ⟨next, hp, hall⟩
        · refine .inr ⟨e, j', hfailed, p :: ps, stuck, middle, (hps.cons p).trans hperm, ?_,
            hstuck, henv⟩
          exact declareAll_cons.2 ⟨next, hp, hall⟩
      · rw [hrun]
        exact .inr ⟨e, j', rfl, [], first :: rest, j, .refl _, rfl, hstuck, henv⟩

theorem exists_of_settle (h : settle ws j = .ok () j') :
    ∃ ps, ps.Perm ws ∧ declareAll j ps = .ok j' := by
  rcases settle_cases ws j with ⟨_, hrun, hps⟩ | ⟨_, _, hrun, _⟩
  · cases h.symm.trans hrun
    exact hps
  · cases h.symm.trans hrun

end ParseForest.Declare
