import ParseForest.Span

/-!
Lines and columns of byte offsets. Lines count from one and columns, in bytes, from zero; only the
line feed ends a line. An offset past the end of the text stands for its end.
-/

namespace ParseForest

structure Position where
  line : Nat
  column : Nat
  deriving DecidableEq

def Position.render (p : Position) : String := s!"{p.line}:{p.column}"

structure LineTable where
  starts : List Nat
  size : Nat

namespace LineTable

def startsAfter (offset : Nat) : List Char → List Nat
  | [] => []
  | c :: cs =>
    let next := offset + c.utf8Size
    if c = '\n' then next :: startsAfter next cs else startsAfter next cs

def ofText (text : String) : LineTable := ⟨0 :: startsAfter 0 text.toList, text.utf8ByteSize⟩

def position (t : LineTable) (offset : Nat) : Position :=
  let offset := min offset t.size
  let reached := t.starts.takeWhile (· ≤ offset)
  ⟨reached.length, offset - reached.getLastD 0⟩

end LineTable

structure Location where
  source : String
  span : Span
  start : Position
  stop : Position

def Location.render (l : Location) : String := s!"{l.source}:{l.start.render}"

end ParseForest
