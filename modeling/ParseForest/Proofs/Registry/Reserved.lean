import ParseForest.Proofs.Registry.Factories

/-!
The reserved constructors of a registry. As long as nobody defines one of their names anew, tied
readings are one list, tokens are one text, and only lexical sorts have tokens. Main statement:
`Untouched.reserves`.
-/

namespace ParseForest

namespace SortEntry

structure Reserves (e : SortEntry) : Prop where
  ambiguity : ∀ c, e.constructors.get? Registry.ambiguityName = some c → c.shape = [.list]
  lexical : ∀ c, e.constructors.get? Registry.lexicalName = some c →
    c.shape = [.text] ∧ e.lexical = true

theorem reserves_fresh (lexical : Bool) : Reserves ⟨lexical, .empty⟩ := ⟨nofun, nofun⟩

namespace Reserves

variable {e : SortEntry} (h : e.Reserves)
include h

theorem insert {name : String} {c : ConstructorEntry}
    (hambiguity : name = Registry.ambiguityName → c.shape = [.list])
    (hlexical : name = Registry.lexicalName → c.shape = [.text] ∧ e.lexical = true) :
    Reserves { e with constructors := e.constructors.insert name c } where
  ambiguity c' hc := by
    rw [Table.get?_insert] at hc
    split at hc
    next he =>
      cases hc
      exact hambiguity he
    next => exact h.ambiguity c' hc
  lexical c' hc := by
    rw [Table.get?_insert] at hc
    split at hc
    next he =>
      cases hc
      exact hlexical he
    next => exact h.lexical c' hc

theorem defineNew {name : String} {shape : List ArgKind}
    (hambiguity : name = Registry.ambiguityName → shape = [.list])
    (hlexical : name = Registry.lexicalName → shape = [.text] ∧ e.lexical = true) :
    (e.defineNew name shape).Reserves := by
  unfold SortEntry.defineNew
  split
  · exact h
  · exact h.insert hambiguity hlexical

theorem withReserved : e.withReserved.Reserves := by
  have hambiguity : (e.defineNew Registry.ambiguityName [.list]).Reserves :=
    h.defineNew (fun _ => rfl) fun he => absurd he (by decide)
  unfold SortEntry.withReserved
  dsimp only
  split
  next hl => exact hambiguity.defineNew (fun he => absurd he (by decide)) fun _ => ⟨rfl, hl⟩
  next => exact hambiguity

theorem madeLexical (lexical : Bool) : Reserves { e with lexical := e.lexical || lexical } where
  ambiguity := h.ambiguity
  lexical c hc := by
    obtain ⟨hshape, hl⟩ := h.lexical c hc
    exact ⟨hshape, by simp [hl]⟩

end Reserves

end SortEntry

namespace Registry

/-- What defining sorts and constructors and registering factories can lead to, if no definition is
of a reserved name. -/
inductive Untouched : Registry → Prop
  | empty : Untouched .empty
  | sort {r : Registry} (h : Untouched r) (sort : String) (lexical : Bool) :
    Untouched (r.defineSort sort lexical)
  | constructor {r : Registry} (h : Untouched r) (sort : String) {name : String}
    (shape : List ArgKind) (hambiguity : name ≠ ambiguityName) (hlexical : name ≠ lexicalName) :
    Untouched (r.defineConstructor sort name shape)
  | factory {r r' : Registry} (h : Untouched r) {sort name : String} {factory : Factory}
    (hr : r.register sort name factory = .ok r') : Untouched r'

def Reserves (r : Registry) : Prop := ∀ sort e, r.sort? sort = some e → e.Reserves

namespace Reserves

variable {r : Registry} (h : r.Reserves)
include h

theorem insert {sort : String} {e : SortEntry} (he : e.Reserves) :
    Reserves ⟨r.sorts.insert sort e⟩ := by
  intro sort' e' he'
  rw [sort?, Table.get?_insert] at he'
  split at he'
  · cases he'
    exact he
  · exact h sort' e' he'

theorem updateSort (sort : String) {update : SortEntry → SortEntry}
    (hu : ∀ e, r.sort? sort = some e → (update e).Reserves) :
    (r.updateSort sort update).Reserves := by
  unfold Registry.updateSort
  split
  next e he => exact h.insert (hu e he)
  next => exact h

theorem defineSort (sort : String) (lexical : Bool) : (r.defineSort sort lexical).Reserves := by
  refine h.insert (SortEntry.Reserves.withReserved (.madeLexical ?_ lexical))
  cases he : r.sort? sort with
  | none => exact SortEntry.reserves_fresh lexical
  | some e => exact h sort e he

end Reserves

theorem Untouched.reserves {r : Registry} (h : r.Untouched) : r.Reserves := by
  induction h with
  | empty => exact nofun
  | sort _ sort lexical ih => exact ih.defineSort sort lexical
  | constructor _ sort shape hambiguity hlexical ih =>
    have hs := ih.defineSort sort false
    exact hs.updateSort sort fun e he =>
      (hs sort e he).insert (fun h => absurd h hambiguity) fun h => absurd h hlexical
  | @factory r _ _ sort name _ hr ih =>
    unfold register at hr
    split at hr
    next c hc =>
      cases hr
      refine ih.updateSort sort fun e he => ?_
      have hc : e.constructors.get? name = some c := by
        simpa [constructor?, he] using hc
      refine (ih sort e he).insert ?_ ?_
      · rintro rfl
        exact (ih sort e he).ambiguity c hc
      · rintro rfl
        exact (ih sort e he).lexical c hc
    next => cases hr

theorem Untouched.define {r : Registry} (h : r.Untouched) {d : SortDefinition}
    (hd : ∀ c ∈ d.constructors, c.1 ≠ ambiguityName ∧ c.1 ≠ lexicalName) :
    (r.define d).Untouched :=
  List.foldlRecOn d.constructors _ (h.sort d.name d.lexical) fun _ hr c hc =>
    hr.constructor d.name c.2 (hd c hc).1 (hd c hc).2

theorem Untouched.isLexical {r : Registry} (hu : r.Untouched) {sort : String}
    {shape : List ArgKind} (h : r.shape? sort lexicalName = some shape) :
    r.isLexical sort = true := by
  obtain ⟨c, hc, -⟩ := Option.map_eq_some_iff.1 h
  obtain ⟨e, he, hc⟩ := Option.bind_eq_some_iff.1 hc
  simp [Registry.isLexical, he, ((hu.reserves sort e he).lexical c hc).2]

end Registry

end ParseForest
