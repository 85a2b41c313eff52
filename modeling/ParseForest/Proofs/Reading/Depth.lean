import ParseForest.Proofs.Forest.Acyclic
import ParseForest.Proofs.Reading.Plain

/-!
Reading without a session does not depend on the number of levels: what is read of a node depends
only on what is read of the nodes below it, and in a forest without cycles there are at most as many
levels as nodes. Main statements: `descent_agree`,
`Builder.plain_eq`.
-/

namespace ParseForest

open Success

namespace Plain

structure Agree (n : Nat) (x y : Descent) : Prop where
  value : ∀ c < n, x.value c = y.value c
  run : ∀ c < n, x.run c = y.run c
  choice : ∀ c < n, x.choice c = y.choice c
  image : ∀ c < n, x.image c = y.image c

theorem collect_congr {α β : Type} {f g : α → Except Error (Option β)} {as : List α}
    (h : ∀ a ∈ as, f a = g a) : collect f as = collect g as := by
  induction as with
  | nil => rfl
  | cons a as ih =>
    have ha := h a List.mem_cons_self
    have hs := ih fun a' ha' => h a' (List.mem_cons_of_mem _ ha')
    simp only [collect, ha, hs]

namespace Agree

variable {b : Builder} {x y : Descent} {n : Nat} (h : Agree n x y)
include h

theorem part {c : NodeId} (hc : c < n) : part b x c = part b y c := by
  simp only [Plain.part, h.value c hc, h.run c hc, h.choice c hc]

theorem offerRuns {alts : List NodeId} (ha : ∀ a ∈ alts, a < n) (s : Survivors (List Tree)) :
    offerRuns x alts s = offerRuns y alts s := by
  induction alts generalizing s with
  | nil => rfl
  | cons a alts ih =>
    have hs := ih fun a' ha' => ha a' (List.mem_cons_of_mem _ ha')
    simp only [Plain.offerRuns, h.run a (ha a List.mem_cons_self), hs]

theorem offerValues {alts : List NodeId} (ha : ∀ a ∈ alts, a < n) (s : Survivors Tree)
    (e : Option Error) : offerValues x alts s e = offerValues y alts s e := by
  induction alts generalizing s e with
  | nil => rfl
  | cons a alts ih =>
    have hs := ih fun a' ha' => ha a' (List.mem_cons_of_mem _ ha')
    simp only [Plain.offerValues, h.value a (ha a List.mem_cons_self), hs]

theorem offerImages {alts : List NodeId} (ha : ∀ a ∈ alts, a < n) (s : Survivors Tree) :
    offerImages x alts s = offerImages y alts s := by
  induction alts generalizing s with
  | nil => rfl
  | cons a alts ih =>
    have hs := ih fun a' ha' => ha a' (List.mem_cons_of_mem _ ha')
    simp only [Plain.offerImages, h.image a (ha a List.mem_cons_self), hs]

theorem imagesOf {cs : List NodeId} (hc : ∀ c ∈ cs, c < n) (trees : List Tree) (total : Cost) :
    imagesOf x trees total cs = imagesOf y trees total cs := by
  induction cs generalizing trees total with
  | nil => rfl
  | cons c cs ih =>
    have hs := ih fun c' hc' => hc c' (List.mem_cons_of_mem _ hc')
    simp only [Plain.imagesOf, h.image c (hc c List.mem_cons_self), hs]

theorem imageOver {cs : List NodeId} (hc : ∀ c ∈ cs, c < n) (node : NodeId) (shape : Shape)
    (injections : Nat) :
    imageOver b x node shape cs injections = imageOver b y node shape cs injections := by
  simp only [Plain.imageOver, h.imagesOf hc]

theorem fittingValues {alts : List NodeId} (ha : ∀ a ∈ alts, a < n) (expected : Symbol) :
    fittingValues b x expected alts = fittingValues b y expected alts := by
  induction alts with
  | nil => rfl
  | cons a alts ih =>
    have hs := ih fun a' ha' => ha a' (List.mem_cons_of_mem _ ha')
    simp only [Plain.fittingValues, h.value a (ha a List.mem_cons_self), hs]

variable (hf : b.forest.Acyclic)
include hf

theorem argument {c : NodeId} (hc : c < n) : argument b x c = argument b y c := by
  simp only [Plain.argument, h.value c hc, h.run c hc, h.choice c hc]
  refine bind_congr_ok fun slot hslot => ?_
  cases slot with
  | optional held =>
    cases held with
    | none => rfl
    | some held =>
      have hlt := hf.lt_of_slot (mapError_eq_ok.1 hslot)
      simp only [h.value held (Nat.lt_trans hlt hc)]
  | _ => rfl

theorem applyTo {cs : List NodeId} (hc : ∀ c ∈ cs, c < n) (args : List (Arg Tree)) (total : Cost) :
    applyTo b x args total cs = applyTo b y args total cs := by
  induction cs generalizing args total with
  | nil => rfl
  | cons c cs ih =>
    have hs := ih fun c' hc' => hc c' (List.mem_cons_of_mem _ hc')
    simp only [Plain.applyTo, h.argument hf (hc c List.mem_cons_self), hs]

theorem run_eq : Plain.run b x n = Plain.run b y n := by
  unfold Plain.run
  refine bind_congr_ok fun es hes => ?_
  have he : ∀ e ∈ es, e < n := fun e he => hf.lt_of_elements (mapError_eq_ok.1 hes) he
  rw [collect_congr fun e hm => h.part (he e hm)]

theorem choice_eq : Plain.choice b x n = Plain.choice b y n := by
  unfold Plain.choice
  refine bind_congr_ok fun alts halts => ?_
  have ha : ∀ a ∈ alts, a < n := fun a ha => hf.lt_of_alternatives (mapError_eq_ok.1 halts) ha
  rw [h.offerRuns ha]

theorem cluster_eq : cluster b x n = cluster b y n := by
  unfold cluster
  refine bind_congr_ok fun alts halts => ?_
  have ha : ∀ a ∈ alts, a < n := fun a ha => hf.lt_of_alternatives (mapError_eq_ok.1 halts) ha
  rw [h.offerValues ha]

theorem derivation_eq : derivation b x n = derivation b y n := by
  unfold derivation
  refine bind_congr_ok fun name _ => bind_congr_ok fun sort _ => bind_congr_ok fun cs hcs => ?_
  have hc : ∀ c ∈ cs, c < n := fun c hc => hf.lt_of_arguments (mapError_eq_ok.1 hcs) hc
  rw [h.applyTo hf hc]

theorem fragment_eq : fragment b x n = fragment b y n := by
  unfold fragment
  refine bind_congr_ok fun pattern? hp => ?_
  cases pattern? with
  | none => rfl
  | some p => simp only [h.image p (hf.lt_of_pattern (mapError_eq_ok.1 hp))]

theorem hole_eq (expected : Symbol) : hole b x n expected = hole b y n expected := by
  unfold hole holeValue
  refine congrArg (· >>= _) (bind_congr_ok fun cs hcs => ?_)
  cases hl : cs.getLast? with
  | none => rfl
  | some held =>
    have hlt := hf.lt_of_arguments (mapError_eq_ok.1 hcs) (List.mem_of_getLast? hl)
    refine bind_congr_ok fun node hnode => ?_
    cases node with
    | ambiguity alts =>
      have ha : ∀ a ∈ alts, a < n := fun a ha =>
        Nat.lt_trans (hf.lt_of_alternative (mapError_eq_ok.1 hnode) ha) hlt
      simp only [h.fittingValues ha]
    | _ => simp only [h.value held hlt]

theorem image_eq : Plain.image b x n = Plain.image b y n := by
  unfold Plain.image
  refine bind_congr_ok fun node hnode => ?_
  cases node with
  | derivation prod cs =>
    have hc : ∀ c ∈ cs, c < n := fun c hc => hf.lt_of_child (mapError_eq_ok.1 hnode) hc
    simp only [h.hole_eq hf, h.imageOver hc]
  | list prod cs isPartial =>
    have hc : ∀ c ∈ cs, c < n := fun c hc => hf.lt_of_child (mapError_eq_ok.1 hnode) hc
    simp only [h.imageOver hc]
  | optional prod child =>
    have hc : ∀ c ∈ child.toList, c < n := fun c hc => hf.lt_of_child (mapError_eq_ok.1 hnode) hc
    exact h.imageOver hc _ _ _
  | ambiguity alts =>
    have ha : ∀ a ∈ alts, a < n := fun a ha => hf.lt_of_alternative (mapError_eq_ok.1 hnode) ha
    simp only [Plain.imageCluster, h.offerImages ha]
  | _ => rfl

theorem read_eq : read b x n = read b y n := by
  unfold read
  simp only [h.cluster_eq hf, h.fragment_eq hf, h.derivation_eq hf]

end Agree

variable {b : Builder}

theorem descent_agree (hf : b.forest.Acyclic) (n : Nat) {d d' : Nat} (hd : n ≤ d) (hd' : n ≤ d') :
    Agree n (descent b d) (descent b d') := by
  induction n generalizing d d' with
  | zero => constructor <;> (intro c hc; omega)
  | succ n ih =>
    obtain ⟨d, rfl⟩ := Nat.exists_eq_add_of_le' (Nat.lt_of_lt_of_le n.succ_pos hd)
    obtain ⟨d', rfl⟩ := Nat.exists_eq_add_of_le' (Nat.lt_of_lt_of_le n.succ_pos hd')
    have at_le : ∀ c ≤ n, Agree c (descent b d) (descent b d') := fun c hc =>
      have h : Agree n (descent b d) (descent b d') := ih (by omega) (by omega)
      ⟨fun m hm => h.value m (by omega), fun m hm => h.run m (by omega),
        fun m hm => h.choice m (by omega), fun m hm => h.image m (by omega)⟩
    constructor
    · intro c hc
      exact (at_le c (by omega)).read_eq hf
    · intro c hc
      exact (at_le c (by omega)).run_eq hf
    · intro c hc
      exact (at_le c (by omega)).choice_eq hf
    · intro c hc
      exact (at_le c (by omega)).image_eq hf

end Plain

theorem Builder.plain_eq {b : Builder} {n : Nat} (hf : b.forest.Acyclic) (hn : n < b.forest.size) :
    b.plain.value n = Plain.read b b.plain n ∧ b.plain.run n = Plain.run b b.plain n ∧
      b.plain.choice n = Plain.choice b b.plain n ∧ b.plain.image n = Plain.image b b.plain n := by
  have h : Plain.Agree n (Plain.descent b b.forest.size) b.plain :=
    Plain.descent_agree hf n (Nat.le_of_lt hn) (Nat.le_succ_of_le (Nat.le_of_lt hn))
  exact ⟨h.read_eq hf, h.run_eq hf, h.choice_eq hf, h.image_eq hf⟩

end ParseForest
