import ParseForest.Proofs.Forest.Queries
import ParseForest.Proofs.Session.Outcome

/-!
Readings that break no contract but that of the number range, where costs are added: what they ask
of the forest has an answer. This goes through with every step of a reading. Main statements:
`unbroken_bind`, `unbroken_checked_bind`, `unbroken_once`.
-/

namespace ParseForest

open Build Success Checked

namespace Checked

variable {α β : Type}

def Counts (x : Checked α) : Prop := ∀ e, x = .error e → e = .overflow

theorem counts_pure (a : α) : Counts (pure a : Checked α) := nofun

theorem Counts.bind {x : Checked α} {f : α → Checked β} (hx : Counts x)
    (hf : ∀ a, Counts (f a)) : Counts (x >>= f) := by
  cases x with
  | ok a => exact hf a
  | error e =>
    rintro _ ⟨⟩
    exact hx e rfl

end Checked

theorem counts_addWord (a b : Nat) : Counts (addWord a b) := by
  unfold addWord
  split
  · exact counts_pure _
  · rintro e ⟨⟩
    rfl

namespace Cost

theorem counts_add (a b : Cost) : Counts (a.add b) :=
  (counts_addWord _ _).bind fun _ => (counts_addWord _ _).bind fun _ =>
    (counts_addWord _ _).bind fun _ => (counts_addWord _ _).bind fun _ => counts_pure _

theorem counts_sum (costs : List Cost) : Counts (sum costs) := by
  suffices h : ∀ total, Counts (costs.foldlM add total) from h zero
  induction costs with
  | nil => exact counts_pure
  | cons cost costs ih =>
    intro total
    rw [List.foldlM_cons]
    exact (counts_add total cost).bind ih

end Cost

theorem Arg.counts_cost (a : Arg Tree) : Counts a.cost := by
  cases a with
  | list ts => exact Cost.counts_sum _
  | node t => exact counts_pure _
  | text s => exact counts_pure _

namespace Build

variable {α β : Type}

/-- Of the contracts only that of the number range is broken. -/
def OnlyOverflows (r : Except Error α) : Prop := ∀ e, r = .error (.breach e) → e = .overflow

theorem OnlyOverflows.error {e : Error} (h : OnlyOverflows (.error e : Except Error α)) :
    OnlyOverflows (.error e : Except Error β) :=
  fun b hb => h b (congrArg _ (Except.error.inj hb))

/-- The reading breaks no contract but that of the number range, whatever was kept before. -/
abbrev Unbroken (x : Build α) : Prop := Yields (fun _ => True) x OnlyOverflows

variable {x : Build α}

theorem unbroken_of_computes {r : Except Error α} (hx : Computes (fun _ => True) x r)
    (h : OnlyOverflows r) : Unbroken x :=
  hx.mono fun _ hr => hr ▸ h

theorem unbroken_pure (a : α) : Unbroken (pure a) := unbroken_of_computes (computes_pure a) nofun

theorem unbroken_throw {e : Error} (he : ∀ b, e ≠ .breach b) : Unbroken (throw e : Build α) :=
  unbroken_of_computes (computes_throw e) fun b h => absurd (Except.error.inj h) (he b)

theorem unbroken_lift {r : Except Error α} (h : OnlyOverflows r) : Unbroken (liftM r) :=
  unbroken_of_computes (computes_lift r) h

theorem unbroken_counts {c : Checked α} (h : Counts c) : Unbroken (liftM c) := by
  refine unbroken_of_computes (computes_liftChecked c) fun b hb => ?_
  cases c with
  | ok a => cases hb
  | error e =>
    cases hb
    exact h _ rfl

theorem unbroken_bind {f : α → Build β} (hx : Unbroken x) (hf : ∀ a, Unbroken (f a)) :
    Unbroken (x >>= f) :=
  yields_bind hx (fun a _ => hf a) fun _ he => he.error

theorem unbroken_checked_bind {c : Checked α} {f : α → Build β} (hc : Succeeds c)
    (hf : ∀ a, c = .ok a → Unbroken (f a)) : Unbroken ((liftM c : Build α) >>= f) := by
  obtain ⟨a, rfl⟩ := hc
  exact hf a rfl

theorem unbroken_map (f : α → β) (hx : Unbroken x) : Unbroken (f <$> x) := by
  rw [map_eq_pure_bind]
  exact unbroken_bind hx fun _ => unbroken_pure _

theorem unbroken_record (e : Event) : Unbroken (record e) :=
  unbroken_of_computes (computes_record e) nofun

theorem unbroken_modify {f : Session → Session} (hf : ∀ s, (f s).results = s.results) :
    Unbroken (modify f) :=
  unbroken_of_computes (computes_modify hf) nofun

theorem yields_attempt (hx : Unbroken x) : Yields (fun _ => True) (attempt x) fun r =>
    OnlyOverflows r ∧ ∀ e, r = .ok (.error e) → e.isAmbiguity = true := by
  intro s hs
  have ho := (hx s hs).1
  simp only [outcome] at ho
  simp only [outcome, attempt]
  cases h : x s with
  | ok a s' => exact ⟨⟨nofun, nofun⟩, trivial⟩
  | error e s' =>
    rw [h] at ho
    by_cases he : e.isAmbiguity = true
    · refine ⟨⟨by simp [OnlyOverflows, he], ?_⟩, trivial⟩
      simp only [he, if_true]
      rintro _ ⟨⟩
      exact he
    · exact ⟨⟨by simpa [he] using ho.error, by simp [he]⟩, trivial⟩

theorem unbroken_once {memory : Memory} {node : NodeId} {build : Build (Option Tree)}
    (hb : Unbroken build) : Unbroken (once memory node build) := by
  intro s hs
  refine ⟨?_, trivial⟩
  cases hk : s.kept? memory node with
  | some v =>
    simp only [outcome, once_of_kept hk]
    rintro _ ⟨⟩
  | none =>
    have ho := (hb s hs).1
    simp only [outcome] at ho
    simp only [outcome, once_of_new hk]
    cases h : build s with
    | ok v s' => rintro _ ⟨⟩
    | error e s' =>
      rw [h] at ho
      exact ho

theorem unbroken_collect {f : α → Build (Option β)} {as : List α}
    (h : ∀ a ∈ as, Unbroken (f a)) : Unbroken (collect f as) := by
  induction as with
  | nil => exact unbroken_pure _
  | cons a as ih =>
    have hs := ih fun a' ha' => h a' (List.mem_cons_of_mem _ ha')
    refine unbroken_bind (h a List.mem_cons_self) fun c? => ?_
    cases c? with
    | none => exact unbroken_pure _
    | some c => exact unbroken_bind hs fun _ => unbroken_pure _

end Build

end ParseForest
