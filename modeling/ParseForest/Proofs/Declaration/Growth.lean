import ParseForest.Declaration.Resolution
import ParseForest.Proofs.Declaration.Making

/-!
Types resolved against an environment that grows. What a type name stands for never changes once it
stands for something, so a type expression whose names are all declared keeps its type, and one that
is refused for any other reason stays refused. Main statements: `Definition.make_within`,
`TypeEnv.Within.typeOf`.
-/

namespace ParseForest

open Success

section Waiting

variable {α β : Type}

def Waits (x : Except Error α) : Prop := ∃ e, x = .error e ∧ e.isUndeclaredType = true

def Foretells (x y : Except Error α) : Prop := Waits x ∨ x = y

theorem Foretells.refl (x : Except Error α) : Foretells x x := .inr rfl

theorem Foretells.ok {x y : Except Error α} {a : α} (h : Foretells x y) (hx : x = .ok a) :
    y = .ok a := by
  rcases h with ⟨e, he, _⟩ | rfl
  · cases hx.symm.trans he
  · exact hx

theorem Waits.bind {x : Except Error α} (h : Waits x) (f : α → Except Error β) :
    Waits (x >>= f) := by
  obtain ⟨e, rfl, he⟩ := h
  exact ⟨e, rfl, he⟩

theorem Foretells.bind {x y : Except Error α} {f g : α → Except Error β} (h : Foretells x y)
    (hf : ∀ a, x = .ok a → Foretells (f a) (g a)) : Foretells (x >>= f) (y >>= g) := by
  rcases h with hx | rfl
  · exact .inl (hx.bind f)
  · cases x with
    | error e => exact .refl _
    | ok a => exact hf a rfl

theorem Foretells.mapM {γ : Type} {f g : γ → Except Error α} {l : List γ}
    (h : ∀ c ∈ l, Foretells (f c) (g c)) : Foretells (l.mapM f) (l.mapM g) := by
  induction l with
  | nil => exact .refl _
  | cons c l ih =>
    rw [List.mapM_cons, List.mapM_cons]
    refine (h c List.mem_cons_self).bind fun a _ => ?_
    refine Foretells.bind (ih fun c' hc' => h c' (List.mem_cons_of_mem c hc')) fun as _ => ?_
    exact .refl _

end Waiting

namespace TypeEnv

/-- Every type name that stands for something in the first stands for the same in the second. -/
structure Within (env env' : TypeEnv) : Prop where
  moduleName : env.moduleName = env'.moduleName
  entry : ∀ name, env.entry name = (none, none) ∨ env.entry name = env'.entry name

namespace Within

variable {env env' env'' : TypeEnv}

theorem refl (env : TypeEnv) : Within env env := ⟨rfl, fun _ => .inr rfl⟩

theorem trans (h : Within env env') (h' : Within env' env'') : Within env env'' := by
  refine ⟨h.moduleName.trans h'.moduleName, fun name => ?_⟩
  rcases h.entry name with hnone | heq
  · exact .inl hnone
  · rw [heq]
    exact h'.entry name

theorem localName? (h : Within env env') (name : QualifiedName) :
    env.localName? name = env'.localName? name := by
  unfold TypeEnv.localName?
  rw [h.moduleName]

theorem lookup? (h : Within env env') (name : QualifiedName) :
    env.lookup? name = none ∨ env.lookup? name = env'.lookup? name := by
  unfold TypeEnv.lookup?
  rw [h.localName? name]
  cases env'.localName? name with
  | none => exact .inl rfl
  | some n =>
    rcases h.entry n with hnone | heq
    · obtain ⟨hd, hs⟩ := Prod.mk.inj hnone
      exact .inl (by simp [dataType?, synonym?, hd, hs])
    · obtain ⟨hd, hs⟩ := Prod.mk.inj heq
      exact .inr (by simp [dataType?, synonym?, hd, hs])

mutual
theorem typeOf (h : Within env env') :
    ∀ e : TypeExpr, Foretells (env.typeOf e) (env'.typeOf e)
  | .builtin b => .refl _
  | .structured kind args => (h.argumentTypes args).bind fun _ _ => .refl _
  | .user ⟨name, parameters, _⟩ => by
    unfold TypeEnv.typeOf
    rcases h.lookup? name with hnone | heq
    · rw [hnone]
      exact .inl ⟨_, rfl, rfl⟩
    · rw [heq]
      cases env'.lookup? name with
      | none => exact .refl _
      | some declared =>
        cases parameters with
        | nil => exact .refl _
        | cons e es => exact (h.typesOf (e :: es)).bind fun _ _ => .refl _
  | .typeVar name none => .refl _
  | .typeVar name (some bound) => (h.typeOf bound).bind fun _ _ => .refl _
  | .symbol s => .refl _
termination_by structural e => e

theorem typesOf (h : Within env env') :
    ∀ es : List TypeExpr, Foretells (env.typesOf es) (env'.typesOf es)
  | [] => .refl _
  | e :: es => (h.typeOf e).bind fun _ _ => (h.typesOf es).bind fun _ _ => .refl _
termination_by structural es => es

theorem argumentTypes (h : Within env env') :
    ∀ es : List (TypeArgument TypeExpr), Foretells (env.argumentTypes es) (env'.argumentTypes es)
  | [] => .refl _
  | ⟨e, _⟩ :: es => (h.typeOf e).bind fun _ _ => (h.argumentTypes es).bind fun _ _ => .refl _
termination_by structural es => es
end

theorem formalsOf (h : Within env env') (type : TypeReference TypeExpr) :
    Foretells (env.formalsOf type) (env'.formalsOf type) := by
  refine Foretells.mapM fun e _ => ?_
  cases e with
  | typeVar name bound => exact h.typeOf (.typeVar name bound)
  | _ => exact .refl _

theorem fieldsOf (h : Within env env') (index : Nat) (args : List (TypeArgument TypeExpr)) :
    Foretells (env.fieldsOf index args) (env'.fieldsOf index args) := by
  induction args generalizing index with
  | nil => exact .refl _
  | cons arg args ih =>
    exact (h.typeOf arg.type).bind fun _ _ => (ih (index + 1)).bind fun _ _ => .refl _

theorem keywordsFor (h : Within env env') (formals : List KeywordFormal) :
    Foretells (env.keywordsFor formals) (env'.keywordsFor formals) :=
  Foretells.mapM fun k _ => (h.typeOf k.type).bind fun _ _ => .refl _

end Within

end TypeEnv

theorem Definition.make_within {env env' : TypeEnv} {d : Definition} (h : d.make env = .ok env') :
    env.Within env' := by
  refine ⟨(make_moduleName h).symm, fun name => ?_⟩
  by_cases hn : d.subject = name
  · subst hn
    obtain rfl | ⟨n, ps, rfl, hnone, _⟩ | ⟨n, ps, t, rfl, hnone, _⟩ | ⟨_, _, _, _, rfl⟩ |
      ⟨_, _, _, rfl⟩ := make_cases h
    · exact .inr rfl
    · exact .inl hnone
    · exact .inl hnone
    · exact .inr rfl
    · exact .inr rfl
  · exact .inr (make_frame h hn).entry

end ParseForest
