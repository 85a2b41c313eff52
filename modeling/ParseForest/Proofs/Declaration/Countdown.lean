import Mathlib.Data.Nat.Choose.Basic
import ParseForest.Proofs.Declaration.Settling

/-!
Declaring all that wait, as a loop over a queue with a countdown. One that fails for want of a type
goes to the back, and every failure takes one off the countdown, which starts anew with what is left
in the queue whenever something is declared. At zero all that wait have been tried in vain against
the same types, so the loop neither gives up early nor goes on in vain. Main statements:
`Queue.move_turn`, `Queue.Sound.ended_run`, `Queue.outcome_run`, `settle_counts_down`.
-/

namespace ParseForest.Declare

open Success Pending

/-- How far the declaration of all that wait has come. -/
structure Queue where
  waiting : List Pending
  /-- How many trials are left until the next success. -/
  countdown : Nat
  journal : Journal
  /-- The trials in order, each with its error if it failed. -/
  trials : List (Pending × Option Error)

inductive Ending where
  | settled
  | failed (e : Error)
  | exhausted

inductive Turn where
  | next (q : Queue)
  | stop (ending : Ending) (q : Queue)

def Ending.outcome? (j : Journal) : Ending → Option (EStateM.Result Error Journal Unit)
  | settled => some (.ok () j)
  | failed e => some (.error e j)
  | exhausted => none

namespace Queue

def start (ws : List Pending) (j : Journal) : Queue := ⟨ws, ws.length, j, []⟩

def successes (trials : List (Pending × Option Error)) : List Pending :=
  trials.filterMap fun
    | (p, none) => some p
    | (_, some _) => none

@[simp] theorem successes_append (log log' : List (Pending × Option Error)) :
    successes (log ++ log') = successes log ++ successes log' := List.filterMap_append

@[simp] theorem successes_none (p : Pending) : successes [(p, none)] = [p] := rfl

@[simp] theorem successes_some (p : Pending) (e : Error) : successes [(p, some e)] = [] := rfl

def turn (q : Queue) : Turn :=
  match q.waiting, q.countdown with
  | [], _ => .stop .settled q
  | _ :: _, 0 => .stop .exhausted q
  | p :: rest, countdown + 1 =>
    match p.declare q.journal with
    | .ok _ j => .next ⟨rest, rest.length, j, q.trials ++ [(p, none)]⟩
    | .error e j =>
      if e.isUndeclaredType ∧ 0 < countdown then
        .next ⟨rest ++ [p], countdown, j, q.trials ++ [(p, some e)]⟩
      else
        .stop (.failed e) ⟨p :: rest, countdown, j, q.trials ++ [(p, some e)]⟩

inductive Move : Queue → Turn → Prop
  | settled {c j log} : Move ⟨[], c, j, log⟩ (.stop .settled ⟨[], c, j, log⟩)
  | exhausted {p rest j log} :
    Move ⟨p :: rest, 0, j, log⟩ (.stop .exhausted ⟨p :: rest, 0, j, log⟩)
  | declared {p rest c j j' log} (made : p.trial j = .ok j') :
    Move ⟨p :: rest, c + 1, j, log⟩ (.next ⟨rest, rest.length, j', log ++ [(p, none)]⟩)
  | requeued {p rest c j e log} (failed : p.trial j = .error e)
    (undeclared : e.isUndeclaredType = true) (left : 0 < c) :
    Move ⟨p :: rest, c + 1, j, log⟩ (.next ⟨rest ++ [p], c, j, log ++ [(p, some e)]⟩)
  | failed {p rest c j j' e log} (failed : p.trial j = .error e) (kept : j'.env = j.env)
    (last : e.isUndeclaredType = true → c = 0 ∧ j' = j) :
    Move ⟨p :: rest, c + 1, j, log⟩
      (.stop (.failed e) ⟨p :: rest, c, j', log ++ [(p, some e)]⟩)

theorem move_turn (q : Queue) : q.Move q.turn := by
  obtain ⟨waiting, countdown, j, log⟩ := q
  match waiting, countdown with
  | [], _ => exact .settled
  | _ :: _, 0 => exact .exhausted
  | p :: rest, c + 1 =>
    unfold turn
    cases h : p.trial j with
    | ok j' =>
      simp only [declare_of_ok h]
      exact .declared h
    | error e =>
      cases he : e.isUndeclaredType with
      | true =>
        simp only [declare_of_waits h he, he, true_and]
        split
        next hc => exact .requeued h he hc
        next hc => exact .failed h rfl fun _ => ⟨Nat.eq_zero_of_not_pos hc, rfl⟩
      | false =>
        obtain ⟨j', hj', henv⟩ := declare_of_error h
        simp only [hj', he, Bool.false_eq_true, false_and, if_false]
        exact .failed h henv fun hwaits => nomatch he.symm.trans hwaits

theorem turn_decreases {q q' : Queue} (h : q.turn = .next q') :
    Prod.Lex (· < ·) (· < ·) (q'.waiting.length, q'.countdown) (q.waiting.length, q.countdown) := by
  cases h ▸ q.move_turn with
  | declared => exact .left _ _ (Nat.lt_succ_self _)
  | requeued =>
    rw [List.length_append]
    exact .right _ (Nat.lt_succ_self _)

def run (q : Queue) : Ending × Queue :=
  match _ : q.turn with
  | .next q' => q'.run
  | .stop ending q' => (ending, q')
termination_by (q.waiting.length, q.countdown)
decreasing_by exact turn_decreases ‹_›

theorem run_of_next {q q' : Queue} (h : q.turn = .next q') : q.run = q'.run := by
  rw [run]
  split
  next h' =>
    cases h.symm.trans h'
    rfl
  next h' => cases h.symm.trans h'

theorem run_of_stop {q q' : Queue} {ending : Ending} (h : q.turn = .stop ending q') :
    q.run = (ending, q') := by
  rw [run]
  split
  next h' => cases h.symm.trans h'
  next h' =>
    cases h.symm.trans h'
    rfl

structure Sound (ws : List Pending) (j : Journal) (q : Queue) : Prop where
  perm : (successes q.trials ++ q.waiting).Perm ws
  made : declareAll j (successes q.trials) = .ok q.journal
  armed : q.waiting ≠ [] → 0 < q.countdown
  /-- Those behind the countdown have been tried since the last success. -/
  tried : ∀ p ∈ q.waiting.drop q.countdown, Waits (p.trial q.journal)
  undeclared : ∀ p e, (p, some e) ∈ q.trials → e.isUndeclaredType = true
  budget : q.trials.length + q.countdown + q.waiting.length.choose 2 ≤ (ws.length + 1).choose 2

/-- What the loop has done to the `ws` that waited at first when it stops. -/
structure Ended (ws : List Pending) (j : Journal) (ending : Ending) (q : Queue) : Prop where
  armed : ending ≠ .exhausted
  budget : q.trials.length ≤ ws.length * (ws.length + 1) / 2
  perm : (successes q.trials ++ q.waiting).Perm ws
  made : ∃ m, declareAll j (successes q.trials) = .ok m ∧ q.journal.env = m.env
  settled : ending = .settled → (successes q.trials).Perm ws
  refused : ∀ before p e after, q.trials = before ++ (p, some e) :: after →
    e.isUndeclaredType = false → after = [] ∧ ending = .failed e
  failed : ∀ e, ending = .failed e →
    ∃ p rest, q.waiting = p :: rest ∧ q.trials.getLast? = some (p, some e)
  stuck : ∀ e, ending = .failed e → e.isUndeclaredType = true →
    ∀ p ∈ q.waiting, ∃ e', p.declare q.journal = .error e' q.journal ∧ e'.isUndeclaredType = true

variable {q q' : Queue} {ws : List Pending} {j : Journal} {ending : Ending}

theorem sound_start (ws : List Pending) (j : Journal) : (start ws j).Sound ws j where
  perm := .refl ws
  made := rfl
  armed := List.length_pos_iff.2
  tried p hp := by simp [start] at hp
  undeclared := nofun
  budget := by simp [start, Nat.choose_succ_succ]

theorem Sound.next (hs : q.Sound ws j) (h : q.Move (.next q')) : q'.Sound ws j := by
  cases h with
  | @declared p rest c _ j' log made =>
    have hbudget := hs.budget
    refine ⟨by simpa using hs.perm, ?_, List.length_pos_iff.2, by simp, ?_, ?_⟩
    · rw [successes_append, declareAll_append]
      exact ⟨_, hs.made, declareAll_cons.2 ⟨j', made, rfl⟩⟩
    · intro p e hm
      exact hs.undeclared p e (by simpa using hm)
    · -- The countdown starts anew with as much as the shorter queue gives back.
      have htriangle : (rest.length + 1).choose 2 = rest.length + rest.length.choose 2 := by
        rw [Nat.choose_succ_succ, Nat.choose_one_right]
      simp only [List.length_append, List.length_cons, List.length_nil, Nat.zero_add] at hbudget ⊢
      omega
  | @requeued p rest c _ e log failed undeclared left =>
    have hbudget := hs.budget
    refine ⟨?_, by simpa using hs.made, fun _ => left, ?_, ?_, ?_⟩
    · have hback : (rest ++ [p]).Perm (p :: rest) := List.perm_append_singleton p rest
      simpa using (hback.append_left (successes log)).trans hs.perm
    · -- Nothing has been declared since, so those that failed before would still fail.
      intro p' hp'
      rw [List.drop_append] at hp'
      rcases List.mem_append.1 hp' with hp' | hp'
      · exact hs.tried p' hp'
      · cases List.mem_singleton.1 (List.mem_of_mem_drop hp')
        exact ⟨e, failed, undeclared⟩
    · intro p' e' hm
      rcases List.mem_append.1 hm with hm | hm
      · exact hs.undeclared p' e' hm
      · cases List.mem_singleton.1 hm
        exact undeclared
    · simp only [List.length_append, List.length_cons, List.length_nil, Nat.zero_add] at hbudget ⊢
      omega

theorem refused_last {log before after : List (Pending × Option Error)} {p p' : Pending}
    {e e' : Error} (hlog : ∀ p e, (p, some e) ∈ log → e.isUndeclaredType = true)
    (h : log ++ [(p, some e)] = before ++ (p', some e') :: after)
    (he : e'.isUndeclaredType = false) : after = [] ∧ e = e' := by
  rcases List.eq_nil_or_concat' after with rfl | ⟨init, t, rfl⟩
  · obtain ⟨-, hlast⟩ := List.append_inj' h rfl
    cases hlast
    exact ⟨rfl, rfl⟩
  · rw [← List.cons_append, ← List.append_assoc] at h
    obtain ⟨rfl, -⟩ := List.append_inj' h rfl
    have hwaits := hlog p' e' (by simp)
    cases he.symm.trans hwaits

theorem Sound.ended (hs : q.Sound ws j) (h : q.Move (.stop ending q')) :
    Ended ws j ending q' := by
  have htriangle : (ws.length + 1).choose 2 = ws.length * (ws.length + 1) / 2 := by
    rw [Nat.choose_two_right, Nat.add_sub_cancel, Nat.mul_comm]
  have hbudget := hs.budget
  rw [htriangle] at hbudget
  cases h with
  | settled =>
    refine ⟨nofun, by omega, hs.perm, ⟨_, hs.made, rfl⟩, fun _ => ?_, ?_, nofun, nofun⟩
    · simpa using hs.perm
    · rintro before p e after rfl he
      have hwaits := hs.undeclared p e (by simp)
      cases he.symm.trans hwaits
  | exhausted => exact absurd (hs.armed nofun) (Nat.lt_irrefl 0)
  | @failed p rest c _ j' e log failed kept last =>
    refine ⟨nofun, ?_, by simpa using hs.perm, ⟨_, by simpa using hs.made, kept⟩, nofun, ?_, ?_, ?_⟩
    · simp only [List.length_append, List.length_singleton] at hbudget ⊢
      omega
    · intro before p' e' after h he
      obtain ⟨hafter, rfl⟩ := refused_last hs.undeclared h he
      exact ⟨hafter, rfl⟩
    · rintro e ⟨⟩
      exact ⟨p, rest, rfl, by simp⟩
    · -- At zero the whole queue is behind the countdown.
      rintro e ⟨⟩ he
      obtain ⟨rfl, rfl⟩ := last he
      have hall : ∀ q ∈ p :: rest, Waits (q.trial j') :=
        List.forall_mem_cons.2 ⟨⟨e, failed, he⟩, hs.tried⟩
      intro q hq
      obtain ⟨e', he', hwaits⟩ := hall q hq
      exact ⟨e', declare_of_waits he' hwaits, hwaits⟩

theorem Sound.ended_run (hs : q.Sound ws j) : Ended ws j q.run.1 q.run.2 := by
  induction q using run.induct with
  | case1 q q' h ih =>
    rw [run_of_next h]
    exact ih (hs.next (h ▸ q.move_turn))
  | case2 q ending q' h =>
    rw [run_of_stop h]
    exact hs.ended (h ▸ q.move_turn)

def outcome? (q : Queue) : Option (EStateM.Result Error Journal Unit) :=
  q.run.1.outcome? q.run.2.journal

theorem outcome_of_next (h : q.turn = .next q') : q.outcome? = q'.outcome? := by
  rw [outcome?, run_of_next h, outcome?]

theorem outcome_of_stop (h : q.turn = .stop ending q') :
    q.outcome? = ending.outcome? q'.journal := by
  rw [outcome?, run_of_stop h]

/-- A pass tries those that were not tried since the last success, and so does the loop until the
next one. What is left of the pass are those not tried yet, `first` and `rest`. -/
theorem outcome_advance {count : Nat}
    (hsettle : ∀ left j log, left.length = count →
      outcome? ⟨left, left.length, j, log⟩ = some (settle left j))
    (failed : List Pending) (first : Pending) (rest : List Pending)
    (total : failed.length + rest.length = count) (j : Journal)
    (log : List (Pending × Option Error)) :
    outcome? ⟨first :: (rest ++ failed), rest.length + 1, j, log⟩ =
      some ((advance count failed first rest total >>= fun left => settle left.1) j) := by
  unfold advance
  rw [run_bind, run_bind]
  cases h : first.declare j with
  | ok _ j' =>
    have hturn : turn ⟨first :: (rest ++ failed), rest.length + 1, j, log⟩ =
        .next ⟨rest ++ failed, (rest ++ failed).length, j', log ++ [(first, none)]⟩ := by
      simp only [turn, h]
    rw [outcome_of_next hturn, hsettle _ _ _ (by rw [List.length_append]; omega)]
    simp only [attempt, h]
    rfl
  | error e j' =>
    cases he : e.isUndeclaredType with
    | false =>
      have hturn : turn ⟨first :: (rest ++ failed), rest.length + 1, j, log⟩ = .stop (.failed e)
          ⟨first :: (rest ++ failed), rest.length, j', log ++ [(first, some e)]⟩ := by
        simp [turn, h, he]
      rw [outcome_of_stop hturn]
      simp [attempt, h, he, Ending.outcome?]
    | true =>
      cases rest with
      | nil =>
        have hturn : turn ⟨first :: failed, 1, j, log⟩ =
            .stop (.failed e) ⟨first :: failed, 0, j', log ++ [(first, some e)]⟩ := by
          simp [turn, h]
        refine (outcome_of_stop hturn).trans ?_
        simp only [attempt, h, he, if_true]
        rfl
      | cons next rest =>
        have hturn : turn ⟨first :: (next :: rest ++ failed), rest.length + 1 + 1, j, log⟩ =
            .next ⟨next :: (rest ++ (failed ++ [first])), rest.length + 1, j',
              log ++ [(first, some e)]⟩ := by
          simp [turn, h, he]
        have hpass := outcome_advance hsettle (failed ++ [first]) next rest
          (by simp at total ⊢; omega) j' (log ++ [(first, some e)])
        rw [List.length_cons, outcome_of_next hturn, hpass, run_bind]
        simp only [attempt, h, he, if_true]
termination_by rest.length

theorem outcome_run (ws : List Pending) (j : Journal) (log : List (Pending × Option Error)) :
    outcome? ⟨ws, ws.length, j, log⟩ = some (settle ws j) := by
  induction hn : ws.length generalizing ws j log with
  | zero =>
    obtain rfl := List.length_eq_zero_iff.1 hn
    have hturn : turn ⟨[], 0, j, log⟩ = .stop .settled ⟨[], 0, j, log⟩ := rfl
    unfold settle
    exact outcome_of_stop hturn
  | succ n ih =>
    cases ws with
    | nil => cases hn
    | cons first rest =>
      obtain rfl : rest.length = n := Nat.succ.inj hn
      have hsettle (left : List Pending) (j : Journal) (log : List (Pending × Option Error))
          (hleft : left.length = rest.length) :
          outcome? ⟨left, left.length, j, log⟩ = some (settle left j) := by
        rw [hleft]
        exact ih left j log hleft
      have hpass := outcome_advance hsettle [] first rest (by simp) j log
      rw [List.append_nil] at hpass
      unfold settle
      exact hpass

end Queue

/-- The loop over the queue comes to what declaring all that wait comes to. Its countdown is never
at zero when something is to be tried, and it makes at most `n * (n + 1) / 2` trials for `n` that
wait at first. It succeeds when each has been declared exactly once, returns the first error that is
not about an undeclared type, and returns one about an undeclared type only where all that still
wait would fail with such an error. -/
theorem settle_counts_down (ws : List Pending) (j : Journal) :
    let (ending, q) := (Queue.start ws j).run
    ending.outcome? q.journal = some (settle ws j) ∧ Queue.Ended ws j ending q :=
  ⟨Queue.outcome_run ws j [], (Queue.sound_start ws j).ended_run⟩

def mutualSynonyms : List Pending :=
  let reference (name : String) : TypeReference TypeExpr := ⟨⟨[], name⟩, [], none⟩
  [.synonym (reference "A") (.user (reference "B")), .data (reference "D"),
    .synonym (reference "B") (.user (reference "A"))]

theorem settle_counts_down_mutualSynonyms :
    ∃ q, (Queue.start mutualSynonyms (.ofEnv (.empty none))).run =
        (.failed (.undeclaredType "B"), q) ∧
      q.trials.length = 4 ∧ q.waiting.length = 2 ∧
      settle mutualSynonyms (.ofEnv (.empty none)) =
        .error (.undeclaredType "B") q.journal ∧
      ∀ p ∈ q.waiting, ∃ e, p.declare q.journal = .error e q.journal ∧
        e.isUndeclaredType = true := by
  have hrun := (Queue.run_of_next (q := .start mutualSynonyms (.ofEnv (.empty none))) rfl).trans <|
    (Queue.run_of_next rfl).trans <| (Queue.run_of_next rfl).trans <| Queue.run_of_stop rfl
  have hsettles := settle_counts_down mutualSynonyms (.ofEnv (.empty none))
  rw [hrun] at hsettles
  obtain ⟨houtcome, hended⟩ := hsettles
  exact ⟨_, hrun, rfl, rfl, (Option.some.inj houtcome).symm, hended.stuck _ rfl rfl⟩

end ParseForest.Declare
