import Mathlib.Data.List.Induction
import Mathlib.Data.Prod.Lex
import Mathlib.Order.Interval.Set.Defs
import Mathlib.Order.Monotone.Defs
import ParseForest.Forest.Query
import ParseForest.Proofs.Success

/-!
Positions by counting bytes. The line of an offset is told by the line feeds in front of it and its
column by the bytes since the last of them; a byte of a longer character is never a line feed, so it
is enough to look at whole characters for the beginnings of lines. Positions grow with every byte.
Main statements: `position_ofText`, `key_after_lt_append`, `position_counts_bytes`.
-/

namespace ParseForest

def Text.bytes (text : String) : List UInt8 := text.toByteArray.data.toList

/-- The bytes in front of an offset; all of them if it lies past the end. -/
def Text.bytesBefore (text : String) (offset : Nat) : List UInt8 := (bytes text).take offset

def Text.lineFeed : UInt8 := 10

namespace Text

theorem bytes_eq (text : String) : bytes text = text.toList.flatMap String.utf8EncodeChar := by
  rw [bytes, ← String.utf8Encode_toList, List.utf8Encode, List.toList_data_toByteArray]

theorem length_bytes (text : String) : (bytes text).length = text.utf8ByteSize := rfl

theorem lineFeed_notMem_utf8EncodeChar {c : Char} (h : c ≠ '\n') :
    lineFeed ∉ String.utf8EncodeChar c := by
  have hcode : c.val.toNat ≠ 10 := fun h' => h (Char.ext (UInt32.toNat_inj.1 h'))
  unfold String.utf8EncodeChar lineFeed
  generalize c.val.toNat = code at hcode ⊢
  dsimp only
  split_ifs
  all_goals
    simp [← UInt8.toNat_inj]
    omega

end Text

open Text (bytes bytesBefore lineFeed length_bytes)

namespace Position

/-- Lines before columns. -/
def key (p : Position) : ℕ ×ₗ ℕ := toLex (p.line, p.column)

/-- The position behind some bytes at the beginning of a text. -/
def after (bs : List UInt8) : Position where
  line := bs.count lineFeed + 1
  column := (bs.reverse.takeWhile (· ≠ lineFeed)).length

theorem column_after_concat (bs : List UInt8) (b : UInt8) : (after (bs ++ [b])).column =
    if b = lineFeed then 0 else (after bs).column + 1 := by
  by_cases h : b = lineFeed
  · simp [after, h]
  · simp [after, h]

theorem key_after_lt_append {bs cs : List UInt8} (h : cs ≠ []) :
    (after bs).key < (after (bs ++ cs)).key := by
  rw [key, key, Prod.Lex.toLex_lt_toLex]
  by_cases hfeed : lineFeed ∈ cs
  · refine .inl ?_
    have hcount : 0 < cs.count lineFeed := List.count_pos_iff.2 hfeed
    simp only [after, List.count_append]
    omega
  · refine .inr ⟨?_, ?_⟩
    · simp only [after, List.count_append, List.count_eq_zero.2 hfeed, Nat.add_zero]
    · have hbytes : ∀ b ∈ cs.reverse, decide (b ≠ lineFeed) = true := by
        intro b hb
        exact decide_eq_true fun heq => hfeed (heq ▸ List.mem_reverse.1 hb)
      have hlength : 0 < cs.length := List.length_pos_iff.2 h
      simp only [after, List.reverse_append, List.takeWhile_append_of_pos hbytes,
        List.length_append, List.length_reverse]
      omega

end Position

namespace LineTable

def startsIn (offset : Nat) : List UInt8 → List Nat
  | [] => []
  | b :: bs => if b = lineFeed then (offset + 1) :: startsIn (offset + 1) bs
    else startsIn (offset + 1) bs

section Starts

variable {offset : Nat} {bs cs : List UInt8}

theorem startsIn_append :
    startsIn offset (bs ++ cs) = startsIn offset bs ++ startsIn (offset + bs.length) cs := by
  induction bs generalizing offset with
  | nil => rfl
  | cons b bs ih =>
    have hrest : offset + (b :: bs).length = offset + 1 + bs.length := by
      rw [List.length_cons]
      omega
    rw [hrest, List.cons_append, startsIn, startsIn, ih]
    split <;> rfl

theorem startsIn_eq_nil (h : lineFeed ∉ bs) : startsIn offset bs = [] := by
  induction bs generalizing offset with
  | nil => rfl
  | cons b bs ih =>
    obtain ⟨hb, hbs⟩ := not_or.1 (mt List.mem_cons.2 h)
    rw [startsIn, if_neg (Ne.symm hb), ih hbs]

theorem length_startsIn : (startsIn offset bs).length = bs.count lineFeed := by
  induction bs generalizing offset with
  | nil => rfl
  | cons b bs ih =>
    rw [startsIn, List.count_cons]
    by_cases h : b = lineFeed
    · simp [h, ih]
    · simp [h, ih]

theorem mem_startsIn {s : Nat} (h : s ∈ startsIn offset bs) :
    offset < s ∧ s ≤ offset + bs.length := by
  induction bs generalizing offset with
  | nil => cases h
  | cons b bs ih =>
    rw [List.length_cons]
    rw [startsIn] at h
    split at h
    · rcases List.mem_cons.1 h with rfl | h
      · omega
      · have := ih h
        omega
    · have := ih h
      omega

theorem getLastD_startsIn (bs : List UInt8) :
    (startsIn 0 bs).getLastD 0 + (Position.after bs).column = bs.length := by
  induction bs using List.reverseRecOn with
  | nil => rfl
  | append_singleton bs b ih =>
    rw [startsIn_append, Position.column_after_concat, Nat.zero_add, List.length_append]
    by_cases h : b = lineFeed
    · simp [startsIn, h]
    · simp only [startsIn, if_neg h, List.append_nil, List.length_singleton]
      omega

theorem startsAfter_eq (cs : List Char) :
    startsAfter offset cs = startsIn offset (cs.flatMap String.utf8EncodeChar) := by
  induction cs generalizing offset with
  | nil => rfl
  | cons c cs ih =>
    rw [List.flatMap_cons, startsIn_append, String.length_utf8EncodeChar, startsAfter, ih]
    by_cases h : c = '\n'
    · subst h
      rfl
    · rw [if_neg h, startsIn_eq_nil (Text.lineFeed_notMem_utf8EncodeChar h), List.nil_append]

end Starts

theorem starts_ofText (text : String) : (ofText text).starts = 0 :: startsIn 0 (bytes text) := by
  rw [Text.bytes_eq, ← startsAfter_eq]
  rfl

def Parts (t : LineTable) (offset count : Nat) : Prop :=
  count ≤ t.starts.length ∧ ∀ i start, t.starts[i]? = some start → (start ≤ offset ↔ i < count)

/-- A search of the table for the offset ends, whichever way it goes, at the line of the position,
the column is counted from the beginning of that line, and every number stays in range. -/
structure Finds (t : LineTable) (offset : Nat) (p : Position) : Prop where
  parts : ∀ count, t.Parts (min offset t.size) count ↔ count = p.line
  start : ∃ start, t.starts[p.line - 1]? = some start ∧ start + p.column = min offset t.size
  line_pos : 0 < p.line
  line_lt : p.line < wordLimit
  column_lt : p.column < wordLimit

section Search

variable {t : LineTable} {offset : Nat} {reached beyond : List Nat}

theorem takeWhile_of_split (ht : t.starts = reached ++ beyond) (hr : ∀ s ∈ reached, s ≤ offset)
    (hb : ∀ s ∈ beyond, offset < s) : t.starts.takeWhile (· ≤ offset) = reached := by
  have hnone : beyond.takeWhile (· ≤ offset) = [] := by
    cases beyond with
    | nil => rfl
    | cons s beyond =>
      have hs : ¬ s ≤ offset := Nat.not_le.2 (hb s List.mem_cons_self)
      simp [hs]
  rw [ht, List.takeWhile_append_of_pos (by simpa using hr), hnone, List.append_nil]

theorem parts_iff (ht : t.starts = reached ++ beyond) (hr : ∀ s ∈ reached, s ≤ offset)
    (hb : ∀ s ∈ beyond, offset < s) {count : Nat} :
    t.Parts offset count ↔ count = reached.length := by
  have hget : ∀ i start, t.starts[i]? = some start → (start ≤ offset ↔ i < reached.length) := by
    intro i start hi
    rw [ht, List.getElem?_append] at hi
    split at hi
    next hlt => exact iff_of_true (hr start (List.mem_of_getElem? hi)) hlt
    next hge =>
      exact iff_of_false (Nat.not_le.2 (hb start (List.mem_of_getElem? hi))) hge
  have hlength : t.starts.length = reached.length + beyond.length := by
    rw [ht, List.length_append]
  constructor
  · rintro ⟨hle, hcount⟩
    -- Were the two counts different, the line at the smaller one would be on both sides.
    by_contra hne
    have hlt : min count reached.length < t.starts.length := by omega
    have hi := List.getElem?_eq_getElem hlt
    have := (hcount _ _ hi).symm.trans (hget _ _ hi)
    omega
  · rintro rfl
    exact ⟨by omega, hget⟩

end Search

section OfText

variable (text : String) (offset : Nat)

theorem length_bytesBefore : (bytesBefore text offset).length = min offset (ofText text).size :=
  List.length_take

theorem starts_split : (ofText text).starts =
    (0 :: startsIn 0 (bytesBefore text offset)) ++
      startsIn (bytesBefore text offset).length ((bytes text).drop offset) := by
  rw [starts_ofText, List.cons_append, ← Nat.zero_add (bytesBefore text offset).length,
    ← startsIn_append, bytesBefore, List.take_append_drop]

theorem reached_le : ∀ s ∈ 0 :: startsIn 0 (bytesBefore text offset),
    s ≤ min offset (ofText text).size := by
  refine List.forall_mem_cons.2 ⟨Nat.zero_le _, fun s hs => ?_⟩
  have := (mem_startsIn hs).2
  rwa [Nat.zero_add, length_bytesBefore] at this

theorem lt_beyond : ∀ s ∈ startsIn (bytesBefore text offset).length ((bytes text).drop offset),
    min offset (ofText text).size < s :=
  fun _ hs => length_bytesBefore text offset ▸ (mem_startsIn hs).1

theorem position_ofText : (ofText text).position offset = .after (bytesBefore text offset) := by
  have hreached := takeWhile_of_split (starts_split text offset) (reached_le text offset)
    (lt_beyond text offset)
  have hcolumn : min offset (ofText text).size -
      (startsIn 0 (bytesBefore text offset)).getLastD 0 =
        (Position.after (bytesBefore text offset)).column := by
    rw [← length_bytesBefore, ← getLastD_startsIn, Nat.add_sub_cancel_left]
  unfold position
  simp only [hreached, List.length_cons, length_startsIn, List.getLastD_cons, hcolumn]
  rfl

theorem finds_position (htext : text.utf8ByteSize + 1 < wordLimit) :
    (ofText text).Finds offset ((ofText text).position offset) := by
  have hlast := getLastD_startsIn (bytesBefore text offset)
  have hlength := length_bytesBefore text offset
  have hsize : (ofText text).size = text.utf8ByteSize := rfl
  have hline : (Position.after (bytesBefore text offset)).line =
      (0 :: startsIn 0 (bytesBefore text offset)).length := by
    rw [List.length_cons, length_startsIn]
    rfl
  rw [position_ofText]
  refine ⟨fun count => ?_, ?_, Nat.succ_pos _, ?_, by omega⟩
  · rw [hline]
    exact parts_iff (starts_split text offset) (reached_le text offset) (lt_beyond text offset)
  · refine ⟨(startsIn 0 (bytesBefore text offset)).getLastD 0, ?_, by omega⟩
    rw [hline, starts_split text offset, List.getElem?_append_left (by simp),
      ← List.getLast?_eq_getElem?, List.getLastD_eq_getLast?, List.getLast?_cons]
  · have hcount : (bytesBefore text offset).count lineFeed ≤ (bytesBefore text offset).length :=
      List.count_le_length
    simp only [Position.after]
    omega

theorem start_lt {start : Nat} (htext : text.utf8ByteSize + 1 < wordLimit)
    (h : start ∈ (ofText text).starts) : start < wordLimit := by
  rw [starts_ofText] at h
  rcases List.mem_cons.1 h with rfl | h
  · omega
  · have := (mem_startsIn h).2
    rw [length_bytes] at this
    omega

theorem position_of_size_le {offset : Nat} (h : text.utf8ByteSize ≤ offset) :
    (ofText text).position offset = (ofText text).position text.utf8ByteSize := by
  have hall : ∀ {n}, text.utf8ByteSize ≤ n → bytesBefore text n = bytes text :=
    fun hn => List.take_of_length_le (length_bytes text ▸ hn)
  rw [position_ofText, position_ofText, hall h, hall (Nat.le_refl _)]

theorem bytesBefore_append {a b : Nat} (h : a ≤ b) :
    bytesBefore text a ++ (bytesBefore text b).drop a = bytesBefore text b := by
  have hfront : (bytesBefore text b).take a = bytesBefore text a := by
    rw [bytesBefore, List.take_take, Nat.min_eq_left h, bytesBefore]
  rw [← hfront, List.take_append_drop]

theorem strictMonoOn_position :
    StrictMonoOn (fun offset => ((ofText text).position offset).key)
      (Set.Iic text.utf8ByteSize) := by
  intro a _ b hb hab
  have hlength : (bytesBefore text b).length = b :=
    (length_bytesBefore text b).trans (Nat.min_eq_left hb)
  have hrest : (bytesBefore text b).drop a ≠ [] := by
    rw [Ne, List.drop_eq_nil_iff, hlength]
    exact Nat.not_le.2 hab
  simp only [position_ofText]
  rw [← bytesBefore_append text (Nat.le_of_lt hab)]
  exact Position.key_after_lt_append hrest

theorem monotone_position : Monotone fun offset => ((ofText text).position offset).key := by
  intro a b hab
  simp only [position_ofText]
  rw [← bytesBefore_append text hab]
  by_cases hrest : (bytesBefore text b).drop a = []
  · rw [hrest, List.append_nil]
  · exact le_of_lt (Position.key_after_lt_append hrest)

end OfText

end LineTable

theorem Forest.location_of_lines {f : Forest} {id : NodeId} {span : Span} {lines : LineTable}
    (hlines : f.lines = some lines) (hspan : f.span id = .ok (some span))
    (hstop : span.offset + span.length < wordLimit) :
    f.location id = .ok (some ⟨f.source, span, lines.position span.offset,
      lines.position (span.offset + span.length)⟩) := by
  have hstop : span.stop = .ok (span.offset + span.length) := addWord_eq_ok_iff.2 ⟨hstop, rfl⟩
  unfold location
  rw [hspan, hlines]
  show (span.stop >>= fun stop => _) = _
  rw [hstop]
  rfl

namespace LineTable

/-- The position of an offset is that behind the bytes in front of it. Whatever search finds it
needs nothing out of range, positions grow with the offset up to the size of the text and stay as
they are from there on, and what a node covers never ends before it starts. -/
theorem position_counts_bytes (text : String) (htext : text.utf8ByteSize + 1 < wordLimit) :
    (∀ offset, (ofText text).position offset = .after (bytesBefore text offset)) ∧
    (∀ start ∈ (ofText text).starts, start < wordLimit) ∧
    (∀ offset, (ofText text).Finds offset ((ofText text).position offset)) ∧
    StrictMonoOn (fun offset => ((ofText text).position offset).key) (Set.Iic text.utf8ByteSize) ∧
    (∀ offset, text.utf8ByteSize ≤ offset →
      (ofText text).position offset = (ofText text).position text.utf8ByteSize) ∧
    ∀ (f : Forest) (id : NodeId) (span : Span), f.lines = some (ofText text) →
      f.span id = .ok (some span) → span.offset + span.length < wordLimit →
      ∃ start stop, f.location id = .ok (some ⟨f.source, span, start, stop⟩) ∧
        start.key ≤ stop.key := by
  refine ⟨position_ofText text, fun _ => start_lt text htext,
    fun offset => finds_position text offset htext, strictMonoOn_position text,
    fun _ => position_of_size_le text, fun f id span hlines hspan hstop => ?_⟩
  exact ⟨_, _, f.location_of_lines hlines hspan hstop,
    monotone_position text (Nat.le_add_right ..)⟩

def accented : Forest :=
  { Forest.empty (.empty "Words") with entries := #[⟨.recovery "é\nx", some ⟨0, 4⟩⟩] }.withInput
    "words" "é\nx"

theorem position_accented :
    "é\nx".utf8ByteSize + 1 < wordLimit ∧
    (ofText "é\nx").position 1 = ⟨1, 1⟩ ∧ (ofText "é\nx").position 3 = ⟨2, 0⟩ ∧
    (ofText "é\nx").position 9 = (ofText "é\nx").position 4 ∧
    ((ofText "é\nx").position 2).key < ((ofText "é\nx").position 3).key ∧
    ∃ start stop, accented.location 0 = .ok (some ⟨"words", ⟨0, 4⟩, start, stop⟩) ∧
      start.key ≤ stop.key := by
  have htext : "é\nx".utf8ByteSize + 1 < wordLimit := by decide
  obtain ⟨hposition, -, -, hmono, hconst, hlocation⟩ := position_counts_bytes "é\nx" htext
  refine ⟨htext, (hposition 1).trans (by decide), (hposition 3).trans (by decide),
    hconst 9 (by decide), hmono (Set.mem_Iic.2 (by decide)) (Set.mem_Iic.2 (by decide))
      (by decide), ?_⟩
  exact hlocation accented 0 ⟨0, 4⟩ rfl rfl (by decide)

end LineTable

end ParseForest
