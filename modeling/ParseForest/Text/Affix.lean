/-! Leading and surrounding parts of texts, and equality that ignores case. -/

namespace ParseForest.Text

def withoutLeading (lead s : String) : String :=
  match lead.toList.isPrefixOf? s.toList with
  | some rest => String.ofList rest
  | none => s

def between? (mark : Char) (s : String) : Option String :=
  match s.toList with
  | [] => none
  | c :: cs =>
    if c = mark ∧ cs.getLast? = some mark then some (String.ofList cs.dropLast) else none

/-- Equal up to the case of ASCII letters. -/
def sameLetters (s t : String) : Bool :=
  s.toList.map Char.toLower == t.toList.map Char.toLower

end ParseForest.Text
