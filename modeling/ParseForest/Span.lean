import ParseForest.Breach

/-!
Spans of the input, in bytes. The end of a span is computed where it is needed, so a span whose end
lies past the number range can be carried but not shown.
-/

namespace ParseForest

structure Span where
  offset : Nat
  length : Nat
  deriving DecidableEq

namespace Span

def stop (s : Span) : Checked Nat := addWord s.offset s.length

def ofRange (start stop : Nat) : Checked Span :=
  if start ≤ stop then .ok ⟨start, stop - start⟩ else .error (.reversedSpan start stop)

def isEmpty (s : Span) : Bool := s.length == 0

def cover (s t : Span) : Checked Span := do
  ofRange (min s.offset t.offset) (max (← s.stop) (← t.stop))

def render (s : Span) : Checked String := do
  return s!"{s.offset}..{← s.stop}"

end Span

end ParseForest
