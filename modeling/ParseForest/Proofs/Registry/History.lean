import Mathlib.Data.List.Induction
import ParseForest.Proofs.Registry.Standard
import ParseForest.Proofs.Table

/-!
What a registry owes to the calls that made it. Of the definitions of a constructor the latest
counts; a sort that is defined brings the reserved constructors with it, unless they are there, and
a factory stays where it was registered until its constructor is defined again. Main statements:
`Registry.shape?_perform`, `Registry.shape?_after`, `Registry.factory?_after`,
`Registry.registrations_kept`.
-/

namespace ParseForest

/-- A call that changes a registry. -/
inductive Registration where
  | sort (sort : String) (lexical : Bool)
  | constructor (sort name : String) (shape : List ArgKind)
  | definition (d : SortDefinition)
  | factory (sort name : String) (factory : Factory)

namespace Registration

def sort? : Registration → Option String
  | sort s _ | constructor s _ _ => some s
  | definition d => some d.name
  | factory .. => none

def makesLexical (s : String) : Registration → Bool
  | sort s' lexical => s' == s && lexical
  | definition d => d.name == s && d.lexical
  | _ => false

def shapes : Registration → List ((String × String) × List ArgKind)
  | constructor s name shape => [((s, name), shape)]
  | definition d => d.constructors.map fun c => ((d.name, c.1), c.2)
  | _ => []

theorem shapes_definition (d : SortDefinition) :
    (definition d).shapes = d.constructors.map fun c => ((d.name, c.1), c.2) := rfl

def Defines (c : Registration) (s name : String) : Prop := (s, name) ∈ c.shapes.map (·.1)

def factory? (s name : String) : Registration → Option Factory
  | factory s' name' f => if (s', name') = (s, name) then some f else none
  | _ => none

def equip (s name : String) (c : Registration) (e : ConstructorEntry) : ConstructorEntry :=
  { e with factory := (c.factory? s name).or e.factory }

theorem equip_of_none {s name : String} {c : Registration} (h : c.factory? s name = none)
    (e : Option ConstructorEntry) : e.map (c.equip s name) = e := by
  have hid : c.equip s name = id := by
    funext e
    simp [equip, h]
  rw [hid, Option.map_id_fun, id]

/-- No reserved constructor is defined. -/
def Proper (c : Registration) : Prop :=
  ∀ e ∈ c.shapes, e.1.2 ≠ Registry.ambiguityName ∧ e.1.2 ≠ Registry.lexicalName

instance (c : Registration) : Decidable c.Proper :=
  inferInstanceAs (Decidable (∀ e ∈ c.shapes, _ ∧ _))

instance (c : Registration) (s name : String) : Decidable (c.Defines s name) :=
  inferInstanceAs (Decidable (_ ∈ _))

end Registration

namespace SortEntry

variable {e : SortEntry}

def reservedShape? (lexical : Bool) (name : String) : Option (List ArgKind) :=
  if name = Registry.ambiguityName then some [.list]
  else if name = Registry.lexicalName ∧ lexical = true then some [.text]
  else none

def bare (shape : List ArgKind) : ConstructorEntry := ⟨shape, none⟩

theorem reservedShape?_lexicalName (lexical : Bool) :
    reservedShape? lexical Registry.lexicalName = if lexical then some [.text] else none := by
  cases lexical <;> rfl

theorem reservedShape?_of_ne {lexical : Bool} {name : String}
    (ha : name ≠ Registry.ambiguityName) (hl : name ≠ Registry.lexicalName) :
    reservedShape? lexical name = none := by
  rw [reservedShape?, if_neg ha, if_neg fun h => hl h.1]

/-- A reserved constructor that is there stays, and lexical sorts come by the other one. -/
theorem reservedShape?_or (lexical lexical' : Bool) (name : String) :
    (reservedShape? lexical name).or (reservedShape? (lexical || lexical') name) =
      reservedShape? (lexical || lexical') name := by
  unfold reservedShape?
  split
  · rfl
  · cases lexical with
    | true => exact Option.or_self
    | false => simp

theorem lexical_defineNew (name : String) (shape : List ArgKind) :
    (e.defineNew name shape).lexical = e.lexical := by
  unfold defineNew
  split
  · rfl
  · rfl

theorem get?_defineNew (name name' : String) (shape : List ArgKind) :
    (e.defineNew name shape).constructors.get? name' =
      (e.constructors.get? name').or (if name = name' then some (bare shape) else none) := by
  unfold defineNew
  split
  next h =>
    split
    next hn =>
      obtain ⟨c, hc⟩ := Option.isSome_iff_exists.1 h
      rw [← hn, hc, Option.some_or]
    next => rw [Option.or_none]
  next h =>
    rw [define, Table.get?_insert]
    split
    next hn =>
      have hnone : e.constructors.get? name = none := Option.not_isSome_iff_eq_none.1 h
      rw [← hn, hnone, Option.none_or]
      rfl
    next => rw [Option.or_none]

theorem lexical_withReserved : e.withReserved.lexical = e.lexical := by
  unfold withReserved
  dsimp only
  split
  · rw [lexical_defineNew, lexical_defineNew]
  · rw [lexical_defineNew]

theorem get?_withReserved (name : String) :
    e.withReserved.constructors.get? name =
      (e.constructors.get? name).or ((reservedShape? e.lexical name).map bare) := by
  have hambiguity : Registry.ambiguityName ≠ Registry.lexicalName := by decide
  unfold withReserved reservedShape?
  dsimp only
  rw [lexical_defineNew]
  cases e.lexical with
  | true =>
    rw [if_pos rfl, get?_defineNew, get?_defineNew, Option.or_assoc]
    by_cases ha : Registry.ambiguityName = name
    · simp [← ha]
    · by_cases hl : Registry.lexicalName = name
      · simp [← hl, hambiguity, hambiguity.symm]
      · simp [ha, hl, Ne.symm ha, Ne.symm hl]
  | false =>
    rw [if_neg Bool.false_ne_true, get?_defineNew]
    by_cases ha : Registry.ambiguityName = name
    · simp [← ha]
    · simp [ha, Ne.symm ha]

end SortEntry

namespace Registry

open SortEntry

def perform (r : Registry) : Registration → Registry
  | .sort s lexical => r.defineSort s lexical
  | .constructor s name shape => r.defineConstructor s name shape
  | .definition d => r.define d
  | .factory s name f => match r.register s name f with
    | .ok r' => r'
    | .error _ => r

def after (r : Registry) (cs : List Registration) : Registry := cs.foldl perform r

def factory? (r : Registry) (s name : String) : Option Factory :=
  (r.constructor? s name).bind (·.factory)

variable {r r' : Registry} {s s' name name' : String} {shape : List ArgKind} {lexical : Bool}

section Steps

theorem sort?_updateSort (update : SortEntry → SortEntry) :
    (r.updateSort s update).sort? s' = if s = s' then (r.sort? s).map update else r.sort? s' := by
  unfold updateSort
  split
  next e he =>
    rw [sort?, Table.get?_insert, he]
    rfl
  next he =>
    rw [he, Option.map_none]
    split
    next h => rw [← h, he]
    next => rfl

theorem keys_updateSort (update : SortEntry → SortEntry) :
    (r.updateSort s update).sorts.keys = r.sorts.keys := by
  unfold updateSort
  split
  next e he => exact Table.keys_insert_of_mem (Table.mem_keys_iff.2 ⟨e, he⟩) _
  next => rfl

theorem sort?_defineSort : (r.defineSort s lexical).sort? s' =
    if s = s' then
      some { (r.sort? s).getD ⟨lexical, .empty⟩ with
        lexical := r.isLexical s || lexical }.withReserved
    else r.sort? s' := by
  rw [sort?, defineSort, Table.get?_insert]
  unfold isLexical
  cases r.sort? s with
  | none => simp [sort?]
  | some e => simp [sort?]

theorem constructor?_defineSort : (r.defineSort s lexical).constructor? s' name =
    (r.constructor? s' name).or (if s = s' then
      (reservedShape? (r.isLexical s || lexical) name).map bare else none) := by
  unfold constructor?
  rw [sort?_defineSort]
  split
  next h =>
    subst h
    rw [Option.bind_some, get?_withReserved]
    cases r.sort? s with
    | none => rfl
    | some e => rfl
  next => rw [Option.or_none]

theorem isLexical_defineSort :
    (r.defineSort s lexical).isLexical s' = (r.isLexical s' || (s == s' && lexical)) := by
  unfold isLexical
  rw [sort?_defineSort]
  by_cases h : s = s'
  · subst h
    simp [lexical_withReserved, isLexical]
  · simp [h]

theorem constructor?_defineConstructor : (r.defineConstructor s name shape).constructor? s' name' =
    if (s, name) = (s', name') then some (bare shape)
    else (r.defineSort s false).constructor? s' name' := by
  unfold defineConstructor constructor?
  rw [sort?_updateSort]
  by_cases h : s = s'
  · subst h
    rw [if_pos rfl, sort?_defineSort, if_pos rfl]
    simp [SortEntry.define, Table.get?_insert, bare]
  · simp [h]

theorem isLexical_updateSort {update : SortEntry → SortEntry}
    (hu : ∀ e, (update e).lexical = e.lexical) :
    (r.updateSort s update).isLexical s' = r.isLexical s' := by
  unfold isLexical
  rw [sort?_updateSort]
  split
  next h =>
    subst h
    cases r.sort? s with
    | none => rfl
    | some e => exact hu e
  next => rfl

theorem isLexical_defineConstructor :
    (r.defineConstructor s name shape).isLexical s' = r.isLexical s' := by
  have hupdate : (r.defineConstructor s name shape).isLexical s' =
      (r.defineSort s false).isLexical s' := isLexical_updateSort fun _ => rfl
  rw [hupdate, isLexical_defineSort, Bool.and_false, Bool.or_false]

theorem keys_defineConstructor : (r.defineConstructor s name shape).sorts.keys =
    if s ∈ r.sorts.keys then r.sorts.keys else r.sorts.keys ++ [s] := by
  rw [defineConstructor, keys_updateSort]
  exact Table.keys_insert ..

theorem isLexical_defineConstructors (cs : List (String × List ArgKind)) :
    (cs.foldl (fun r c => r.defineConstructor s c.1 c.2) r).isLexical s' = r.isLexical s' := by
  induction cs generalizing r with
  | nil => rfl
  | cons c cs ih => exact ih.trans isLexical_defineConstructor

theorem keys_define (d : SortDefinition) : (r.define d).sorts.keys =
    if d.name ∈ r.sorts.keys then r.sorts.keys else r.sorts.keys ++ [d.name] := by
  unfold define
  induction d.constructors using List.reverseRecOn with
  | nil => exact Table.keys_insert ..
  | append_singleton cs c ih =>
    rw [List.foldl_append, List.foldl_cons, List.foldl_nil, keys_defineConstructor, ih]
    by_cases h : d.name ∈ r.sorts.keys
    · simp [h]
    · simp [h]

theorem constructor?_define (d : SortDefinition) (s name : String) :
    (r.define d).constructor? s name =
      ((Entries.find? (s, name) (Registration.definition d).shapes.reverse).map bare).or
        ((r.defineSort d.name d.lexical).constructor? s name) := by
  rw [Registration.shapes_definition, define]
  induction d.constructors using List.reverseRecOn with
  | nil => rfl
  | append_singleton cs c ih =>
    rw [List.foldl_append, List.foldl_cons, List.foldl_nil, constructor?_defineConstructor,
      constructor?_defineSort, Bool.or_false, isLexical_defineConstructors, ih,
      isLexical_defineSort, constructor?_defineSort, List.map_append, List.reverse_append]
    by_cases hs : d.name = s
    · by_cases hn : c.1 = name
      · simp [hs, hn, Entries.find?]
      · simp [hs, hn, Entries.find?, Option.or_assoc]
    · simp [hs, Entries.find?]

theorem register_eq_ok {f : Factory} : r.register s name f = .ok r' ↔
    ∃ c, r.constructor? s name = some c ∧ r' = r.updateSort s fun e =>
      { e with constructors := e.constructors.insert name { c with factory := some f } } := by
  unfold register
  cases r.constructor? s name with
  | none => simp
  | some c => simp [eq_comm]

theorem register_eq_error {f : Factory} {e : Error} (h : r.register s name f = .error e) :
    r.constructor? s name = none := by
  unfold register at h
  split at h
  next => cases h
  next hnone => exact hnone

theorem constructor?_register {f : Factory} (h : r.register s name f = .ok r') :
    r'.constructor? s' name' = if (s, name) = (s', name') then
      (r.constructor? s name).map fun c => { c with factory := some f }
    else r.constructor? s' name' := by
  obtain ⟨c, hc, rfl⟩ := register_eq_ok.1 h
  obtain ⟨e, he, hget⟩ := Option.bind_eq_some_iff.1 hc
  unfold constructor?
  rw [sort?_updateSort]
  by_cases hs : s = s'
  · subst hs
    simp [he, hget, Table.get?_insert]
  · simp [hs]

theorem constructor?_perform_factory (f : Factory) :
    (r.perform (.factory s' name' f)).constructor? s name =
      (r.constructor? s name).map ((Registration.factory s' name' f).equip s name) := by
  have hother (h : ¬ (s', name') = (s, name)) :
      (Registration.factory s' name' f).factory? s name = none := if_neg h
  simp only [perform]
  cases hr : r.register s' name' f with
  | ok r' =>
    dsimp only
    rw [constructor?_register hr]
    by_cases h : (s', name') = (s, name)
    · cases h
      rw [if_pos rfl]
      refine congrArg (Option.map · _) (funext fun e => ?_)
      simp [Registration.equip, Registration.factory?]
    · rw [if_neg h, Registration.equip_of_none (hother h)]
  | error e =>
    dsimp only
    by_cases h : (s', name') = (s, name)
    · cases h
      rw [register_eq_error hr, Option.map_none]
    · rw [Registration.equip_of_none (hother h)]

theorem constructor?_perform (c : Registration) : (r.perform c).constructor? s name =
    ((Entries.find? (s, name) c.shapes.reverse).map bare).or
      (((r.constructor? s name).map (c.equip s name)).or (if c.sort? = some s then
        (reservedShape? (r.isLexical s || c.makesLexical s) name).map bare else none)) := by
  cases c with
  | sort s' lexical =>
    rw [perform, constructor?_defineSort, Registration.equip_of_none rfl]
    by_cases h : s' = s
    · simp [h, Registration.shapes, Registration.sort?, Registration.makesLexical, Entries.find?]
    · simp [h, Registration.shapes, Registration.sort?, Entries.find?]
  | constructor s' name' shape =>
    rw [perform, constructor?_defineConstructor, constructor?_defineSort,
      Registration.equip_of_none rfl]
    by_cases hs : s' = s
    · by_cases hn : name' = name
      · simp [hs, hn, Registration.shapes, Entries.find?]
      · simp [hs, hn, Registration.shapes, Registration.sort?, Registration.makesLexical,
          Entries.find?]
    · simp [hs, Registration.shapes, Registration.sort?, Entries.find?]
  | definition d =>
    rw [perform, constructor?_define, constructor?_defineSort, Registration.equip_of_none rfl]
    by_cases h : d.name = s
    · simp [h, Registration.sort?, Registration.makesLexical]
    · simp [h, Registration.sort?]
  | factory s' name' f =>
    rw [constructor?_perform_factory]
    simp [Registration.shapes, Registration.sort?, Entries.find?]

theorem shape?_perform (c : Registration) : (r.perform c).shape? s name =
    (Entries.find? (s, name) c.shapes.reverse).or ((r.shape? s name).or (if c.sort? = some s then
      reservedShape? (r.isLexical s || c.makesLexical s) name else none)) := by
  have hbare : (fun e : ConstructorEntry => e.shape) ∘ bare = id := rfl
  have hequip : (fun e : ConstructorEntry => e.shape) ∘ c.equip s name = (·.shape) := rfl
  rw [shape?, shape?, constructor?_perform]
  simp only [Option.map_eq_map, Option.map_or, Option.map_map, hbare, hequip, Option.map_id, id]
  split
  · rw [Option.map_map, hbare, Option.map_id, id]
  · rw [Option.map_none]

theorem isLexical_perform (c : Registration) :
    (r.perform c).isLexical s = (r.isLexical s || c.makesLexical s) := by
  cases c with
  | sort s' lexical => exact isLexical_defineSort
  | constructor s' name shape => exact isLexical_defineConstructor.trans (Bool.or_false _).symm
  | definition d => exact (isLexical_defineConstructors _).trans isLexical_defineSort
  | factory s' name f =>
    simp only [perform]
    cases hr : r.register s' name f with
    | error e => exact (Bool.or_false _).symm
    | ok r' =>
      obtain ⟨c, -, rfl⟩ := register_eq_ok.1 hr
      refine (isLexical_updateSort ?_).trans (Bool.or_false _).symm
      exact fun _ => rfl

theorem keys_perform (c : Registration) : (r.perform c).sorts.keys =
    c.sort?.elim r.sorts.keys fun s =>
      if s ∈ r.sorts.keys then r.sorts.keys else r.sorts.keys ++ [s] := by
  cases c with
  | sort s lexical => exact Table.keys_insert ..
  | constructor s name shape => exact keys_defineConstructor
  | definition d => exact keys_define d
  | factory s name f =>
    simp only [perform]
    cases hr : r.register s name f with
    | error e => rfl
    | ok r' =>
      obtain ⟨c, -, rfl⟩ := register_eq_ok.1 hr
      exact keys_updateSort _

theorem mem_keys_perform (c : Registration) :
    s ∈ (r.perform c).sorts.keys ↔ s ∈ r.sorts.keys ∨ c.sort? = some s := by
  rw [keys_perform]
  cases c.sort? with
  | none => simp
  | some s' =>
    rw [Option.elim_some]
    split
    next h =>
      constructor
      · exact .inl
      · rintro (hs | hs)
        · exact hs
        · exact Option.some.inj hs ▸ h
    next => simp [eq_comm]

end Steps

section Runs

variable {cs : List Registration}

theorem after_concat (c : Registration) : r.after (cs ++ [c]) = (r.after cs).perform c :=
  List.foldl_append

theorem after_append (later : List Registration) :
    r.after (cs ++ later) = (r.after cs).after later :=
  List.foldl_append

theorem keys_after (cs : List Registration) :
    (empty.after cs).sorts.keys = (cs.filterMap (·.sort?)).eraseDups := by
  induction cs using List.reverseRecOn with
  | nil => rfl
  | append_singleton cs c ih =>
    rw [after_concat, keys_perform, ih, List.filterMap_append]
    cases hc : c.sort? with
    | none => simp [hc]
    | some s =>
      have hlast : [c].filterMap (·.sort?) = [s] := by simp [hc]
      rw [hlast, eraseDups_concat]
      simp only [Option.elim_some, List.mem_eraseDups]

theorem isLexical_after (cs : List Registration) (s : String) :
    (r.after cs).isLexical s = (r.isLexical s || cs.any (·.makesLexical s)) := by
  induction cs generalizing r with
  | nil => exact (Bool.or_false _).symm
  | cons c cs ih =>
    have hstep : r.after (c :: cs) = (r.perform c).after cs := rfl
    rw [hstep, ih, isLexical_perform, List.any_cons, Bool.or_assoc]

theorem sort?_of_makesLexical {c : Registration} (h : c.makesLexical s = true) :
    c.sort? = some s := by
  cases c with
  | sort s' lexical =>
    simp only [Registration.makesLexical, Bool.and_eq_true, beq_iff_eq] at h
    exact congrArg some h.1
  | definition d =>
    simp only [Registration.makesLexical, Bool.and_eq_true, beq_iff_eq] at h
    exact congrArg some h.1
  | _ => cases h

theorem mem_keys_of_isLexical (h : r.isLexical s = true) : s ∈ r.sorts.keys := by
  obtain ⟨e, he, -⟩ := (Option.any_eq_true _ _).1 h
  exact Table.mem_keys_iff.2 ⟨e, he⟩

theorem shape?_after (cs : List Registration) (s name : String) :
    (empty.after cs).shape? s name =
      (Entries.find? (s, name) (cs.flatMap (·.shapes)).reverse).or
        (if s ∈ (empty.after cs).sorts.keys then
          reservedShape? ((empty.after cs).isLexical s) name else none) := by
  induction cs using List.reverseRecOn with
  | nil => rfl
  | append_singleton cs c ih =>
    rw [after_concat, shape?_perform, ih, isLexical_perform, List.flatMap_append,
      List.reverse_append, Entries.find?_append, List.flatMap_singleton, Option.or_assoc,
      Option.or_assoc]
    refine congrArg _ (congrArg _ ?_)
    simp only [mem_keys_perform]
    by_cases hk : s ∈ (empty.after cs).sorts.keys
    · by_cases hc : c.sort? = some s
      · simp [hk, hc, reservedShape?_or]
      · have hl : c.makesLexical s = false :=
          Bool.eq_false_iff.2 fun h => hc (sort?_of_makesLexical h)
        simp [hk, hc, hl]
    · simp [hk]

theorem contains_iff : r.contains s name = true ↔ ∃ e, r.constructor? s name = some e := by
  rw [contains, shape?, Option.map_eq_map, Option.isSome_map, Option.isSome_iff_exists]

theorem factory?_perform {c : Registration} (hr : r.contains s name = true)
    (hc : ¬ c.Defines s name) : (r.perform c).contains s name = true ∧
      (r.perform c).factory? s name = (c.factory? s name).or (r.factory? s name) := by
  obtain ⟨e, he⟩ := contains_iff.1 hr
  have hnone : Entries.find? (s, name) c.shapes.reverse = none :=
    Entries.find?_eq_none (by rwa [List.map_reverse, List.mem_reverse])
  have hperform : (r.perform c).constructor? s name = some (c.equip s name e) := by
    rw [constructor?_perform, hnone, he]
    rfl
  refine ⟨contains_iff.2 ⟨_, hperform⟩, ?_⟩
  rw [factory?, factory?, hperform, he]
  rfl

theorem factory?_perform_of_defines {c : Registration} (hc : c.Defines s name) :
    (r.perform c).factory? s name = none := by
  have hmem : (s, name) ∈ c.shapes.reverse.map (·.1) := by
    rwa [List.map_reverse, List.mem_reverse]
  obtain ⟨shape, hshape⟩ := Option.isSome_iff_exists.1 (Entries.isSome_find?_iff.2 hmem)
  rw [factory?, constructor?_perform, hshape]
  rfl

theorem factory?_after (hr : r.contains s name = true) (hcs : ∀ c ∈ cs, ¬ c.Defines s name) :
    (r.after cs).factory? s name =
      ((cs.filterMap (·.factory? s name)).getLast?).or (r.factory? s name) := by
  induction cs generalizing r with
  | nil => rfl
  | cons c cs ih =>
    obtain ⟨hc, hcs⟩ := List.forall_mem_cons.1 hcs
    obtain ⟨hthere, hfactory⟩ := factory?_perform hr hc
    have hstep : r.after (c :: cs) = (r.perform c).after cs := rfl
    rw [hstep, ih hthere hcs, hfactory, ← Option.or_assoc, List.filterMap_cons]
    cases c.factory? s name with
    | none => rw [Option.or_none]
    | some f => rw [List.getLast?_cons, Option.or_some]

theorem factory?_of_register {f : Factory} (h : r.register s name f = .ok r') :
    r'.contains s name = true ∧ r'.factory? s name = some f := by
  obtain ⟨e, he, -⟩ := register_eq_ok.1 h
  have hafter : r'.constructor? s name = some { e with factory := some f } := by
    rw [constructor?_register h, if_pos rfl, he]
    rfl
  refine ⟨contains_iff.2 ⟨_, hafter⟩, ?_⟩
  rw [factory?, hafter]
  rfl

theorem make_of_factory? {f : Factory} {span : Option Span} {args : List (Arg Tree)} {cost : Cost}
    (hf : r.factory? s name = some f) (hargs : r.shape? s name = some (args.map Arg.kind)) :
    r.make s name span args cost = .ok ((f span args).withCost cost) := by
  obtain ⟨e, he, hfactory⟩ := Option.bind_eq_some_iff.1 hf
  have hshape : e.shape = args.map Arg.kind := by
    rw [shape?, he] at hargs
    exact Option.some.inj hargs
  simp only [make, he, hshape, if_true, build, hfactory]

end Runs

/-- What a registry begins as. -/
inductive Base where
  | empty
  | standard

namespace Base

def registry : Base → Registry
  | empty => Registry.empty
  | standard => Registry.standard

/-- The calls that made it. -/
def history : Base → List Registration
  | empty => []
  | standard => standardSorts.map .definition

theorem registry_eq (base : Base) : base.registry = Registry.empty.after base.history := by
  cases base with
  | empty => rfl
  | standard => exact List.foldl_map.symm

theorem proper_history (base : Base) : ∀ c ∈ base.history, c.Proper := by
  cases base with
  | empty => exact nofun
  | standard =>
    refine List.forall_mem_map.2 fun d hd => ?_
    exact List.forall_mem_map.2 fun c hc => unreserved_standardSorts d hd c hc

end Base

theorem find?_reserved {cs : List Registration} (hcs : ∀ c ∈ cs, c.Proper) {s name : String}
    (hname : name = ambiguityName ∨ name = lexicalName) :
    Entries.find? (s, name) (cs.flatMap (·.shapes)).reverse = none := by
  refine Entries.find?_eq_none fun hmem => ?_
  obtain ⟨e, he, hkey⟩ := List.mem_map.1 hmem
  obtain ⟨c, hc, he⟩ := List.mem_flatMap.1 (List.mem_reverse.1 he)
  have hproper := hcs c hc e he
  rw [hkey] at hproper
  rcases hname with h | h
  · exact hproper.1 h
  · exact hproper.2 h

/-- What the registry knows is what the calls have told it. -/
structure Reflects (r : Registry) (history : List Registration) : Prop where
  sorts : r.sorts.keys = (history.filterMap (·.sort?)).eraseDups
  ambiguity : ∀ s ∈ r.sorts.keys, r.shape? s ambiguityName = some [.list]
  lexical : ∀ s, r.isLexical s = history.any (·.makesLexical s)
  tokens : ∀ s, r.shape? s lexicalName = if r.isLexical s then some [.text] else none
  shapes : ∀ s name, name ≠ ambiguityName → name ≠ lexicalName →
    r.shape? s name = Entries.find? (s, name) (history.flatMap (·.shapes)).reverse

theorem reflects_after {history : List Registration} (h : ∀ c ∈ history, c.Proper) :
    (empty.after history).Reflects history where
  sorts := keys_after history
  ambiguity s hs := by
    rw [shape?_after, find?_reserved h (.inl rfl), if_pos hs]
    rfl
  lexical s := by
    rw [isLexical_after]
    exact Bool.false_or _
  tokens s := by
    rw [shape?_after, find?_reserved h (.inr rfl), Option.none_or, reservedShape?_lexicalName]
    cases hs : (empty.after history).isLexical s with
    | true => rw [if_pos (mem_keys_of_isLexical hs)]
    | false => rw [if_neg Bool.false_ne_true, ite_self]
  shapes s name ha hl := by
    rw [shape?_after, reservedShape?_of_ne ha hl, ite_self, Option.or_none]

/-- Sorts stand in the order of their first definition and all have the reserved constructors that
are due to them; every other constructor has the shape of its latest definition. A lexical sort
stays lexical. A factory makes the trees of its constructor until this is defined again or gets
another factory. -/
theorem registrations_kept (base : Base) (calls : List Registration)
    (hcalls : ∀ c ∈ calls, c.Proper) :
    let r := base.registry.after calls
    r.Reflects (base.history ++ calls) ∧
    (∀ later s, r.isLexical s = true → (r.after later).isLexical s = true) ∧
    (∀ s name f r', r.register s name f = .ok r' →
      ∀ later, (∀ c ∈ later, ¬ c.Defines s name) → (r'.after later).factory? s name =
        some ((later.filterMap (·.factory? s name)).getLast?.getD f)) ∧
    (∀ c s name, c.Defines s name → (r.perform c).factory? s name = none) ∧
    ∀ s name f span args cost, r.factory? s name = some f →
      r.shape? s name = some (args.map Arg.kind) →
      r.make s name span args cost = .ok ((f span args).withCost cost) := by
  intro r
  have hr : r = empty.after (base.history ++ calls) := by
    rw [after_append, ← base.registry_eq]
  refine ⟨?_, fun later s hs => ?_, fun s name f r' hregister later hlater => ?_,
    fun c s name => factory?_perform_of_defines, fun s name f span args cost => make_of_factory?⟩
  · rw [hr]
    exact reflects_after (List.forall_mem_append.2 ⟨base.proper_history, hcalls⟩)
  · rw [isLexical_after, hs, Bool.true_or]
  · obtain ⟨hthere, hfactory⟩ := factory?_of_register hregister
    rw [factory?_after hthere hlater, hfactory, Option.or_some]

def marker : Factory := fun span _ => ⟨"Foo", "Marker", span, .zero, .application []⟩

def extension : List Registration :=
  [.definition ⟨"Foo", true, [("Bar", []), ("Bar", [.node])]⟩,
    .constructor "Expression" "Call" [.list]]

theorem registrations_kept_extension :
    let r := Base.standard.registry.after (.sort "Foo" false :: extension)
    r.sorts.keys = standardSorts.map (·.name) ++ ["Foo"] ∧
    r.shape? "Foo" lexicalName = some [.text] ∧ r.shape? "Foo" "Bar" = some [.node] ∧
    r.shape? "Expression" "Call" = some [.list] ∧ r.shape? "Expression" lexicalName = none ∧
    ∃ r₁ r₂, Base.standard.registry.after [.sort "Foo" false] = r₁ ∧
      r₁.register "Foo" ambiguityName marker = .ok r₂ ∧
      (r₂.after extension).factory? "Foo" ambiguityName = some marker := by
  have hproper : ∀ c ∈ Registration.sort "Foo" false :: extension, c.Proper := by decide
  obtain ⟨h, -⟩ := registrations_kept .standard _ hproper
  obtain ⟨h₁, -, hfactory, -⟩ := registrations_kept .standard [.sort "Foo" false] (by decide)
  refine ⟨h.sorts.trans (by decide +kernel), ?_, ?_, ?_, ?_, ?_⟩
  · rw [h.tokens, h.lexical, if_pos (by decide +kernel)]
  · exact (h.shapes "Foo" "Bar" (by decide) (by decide)).trans (by decide +kernel)
  · exact (h.shapes "Expression" "Call" (by decide) (by decide)).trans (by decide +kernel)
  · rw [h.tokens, h.lexical, if_neg (by decide +kernel)]
  · have hthere := h₁.ambiguity "Foo" (by rw [h₁.sorts]; decide +kernel)
    generalize Base.standard.registry.after [.sort "Foo" false] = r₁ at hthere hfactory
    cases hr : r₁.register "Foo" ambiguityName marker with
    | ok r₂ => exact ⟨r₁, r₂, rfl, hr, hfactory _ _ _ _ hr extension (by decide)⟩
    | error e =>
      rw [shape?, register_eq_error hr] at hthere
      cases hthere

end Registry

end ParseForest
