import ParseForest.Proofs.Registry.Reserved
import ParseForest.Registry.Standard

/-!
The standard registry has the sorts and constructors as they are written down, and the reserved
constructors beside them. Main statements: `shape?_standard`, `lexical_standard`.
-/

namespace ParseForest.Registry

theorem unreserved_standardSorts : ∀ d ∈ standardSorts, ∀ c ∈ d.constructors,
    c.1 ≠ ambiguityName ∧ c.1 ≠ lexicalName := by
  decide +kernel

theorem holds_standard : ∀ d ∈ standardSorts,
    (∀ c ∈ d.constructors, standard.shape? d.name c.1 = some c.2) ∧
      (d.lexical = true → standard.shape? d.name lexicalName = some [.text] ∧
        standard.isLexical d.name = true) := by
  decide +kernel

theorem mem_of_standardSort? {sort : String} {d : SortDefinition}
    (h : standardSort? sort = some d) : d ∈ standardSorts ∧ d.name = sort :=
  ⟨List.mem_of_find?_eq_some h, by simpa using List.find?_some h⟩

theorem shape?_standard {sort name : String} {d : SortDefinition} {shape : List ArgKind}
    (hd : standardSort? sort = some d) (hc : (name, shape) ∈ d.constructors) :
    standard.shape? sort name = some shape := by
  obtain ⟨hmem, rfl⟩ := mem_of_standardSort? hd
  exact (holds_standard d hmem).1 (name, shape) hc

theorem lexical_standard {sort : String} {d : SortDefinition} (hd : standardSort? sort = some d)
    (hl : d.lexical = true) :
    standard.shape? sort lexicalName = some [.text] ∧ standard.isLexical sort = true := by
  obtain ⟨hmem, rfl⟩ := mem_of_standardSort? hd
  exact (holds_standard d hmem).2 hl

end ParseForest.Registry
