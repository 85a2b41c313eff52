import Mathlib.Data.List.Basic
import Mathlib.Data.Option.Basic
import ParseForest.Json.Parser
import ParseForest.Json.Printer

/-!
Printed strings as the parser reads them: every character comes back from its escape. Main
statement: `scalar_string`.
-/

namespace ParseForest.Json

theorem hexValue?_hexDigit : ∀ n < 16, hexValue? (hexDigit n) = some n := by decide

theorem escapeChar_cases (c : Char) :
    (∃ e, e ≠ 'u' ∧ unescape? e = some c ∧ escapeChar c = ['\\', e]) ∨
    (c.toNat < 32 ∧
      escapeChar c = ['\\', 'u', '0', '0', hexDigit (c.toNat / 16), hexDigit (c.toNat % 16)]) ∨
    (32 ≤ c.toNat ∧ c ≠ '"' ∧ c ≠ '\\' ∧ escapeChar c = [c]) := by
  by_cases hquote : c = '"'
  · exact .inl ⟨'"', by simp [hquote, unescape?, escapeChar]⟩
  by_cases hback : c = '\\'
  · exact .inl ⟨'\\', by simp [hback, unescape?, escapeChar]⟩
  by_cases hline : c = '\n'
  · exact .inl ⟨'n', by simp [hline, unescape?, escapeChar]⟩
  by_cases hreturn : c = '\r'
  · exact .inl ⟨'r', by simp [hreturn, unescape?, escapeChar]⟩
  by_cases htab : c = '\t'
  · exact .inl ⟨'t', by simp [htab, unescape?, escapeChar]⟩
  have heq : escapeChar c = if c.toNat = 8 then ['\\', 'b'] else if c.toNat = 12 then ['\\', 'f']
      else if c.toNat < 32 then
        ['\\', 'u', '0', '0', hexDigit (c.toNat / 16), hexDigit (c.toNat % 16)]
      else [c] := by
    simp [escapeChar, hquote, hback, hline, hreturn, htab]
  rw [heq]
  split
  next h =>
    have hc : Char.ofNat 8 = c := h ▸ Char.ofNat_toNat c
    exact .inl ⟨'b', by decide, by rw [unescape?, hc], rfl⟩
  split
  next h =>
    have hc : Char.ofNat 12 = c := h ▸ Char.ofNat_toNat c
    exact .inl ⟨'f', by decide, by rw [unescape?, hc], rfl⟩
  split
  next h => exact .inr (.inl ⟨h, rfl⟩)
  next h => exact .inr (.inr ⟨by omega, hquote, hback, rfl⟩)

theorem stringUnits_escapeChar (c : Char) (r : List Char) :
    stringUnits (escapeChar c ++ r) = (stringUnits r).map fun p => (c.toNat :: p.1, p.2) := by
  rcases escapeChar_cases c with ⟨e, he, hc, h⟩ | ⟨hlt, h⟩ | ⟨hle, hquote, hback, h⟩
  · rw [h, List.cons_append, List.cons_append, List.nil_append, stringUnits]
    · cases stringUnits r <;> simp [hc]
    · simp [he]
  · have hzero : hexValue? '0' = some 0 := rfl
    have hhigh := hexValue?_hexDigit (c.toNat / 16) (by omega)
    have hlow := hexValue?_hexDigit (c.toNat % 16) (by omega)
    have hunit : c.toNat / 16 * 16 + c.toNat % 16 = c.toNat := by omega
    rw [h]
    cases hr : stringUnits r <;> simp [stringUnits, hzero, hhigh, hlow, hunit, hr]
  · rw [h, List.cons_append, List.nil_append, stringUnits]
    · cases stringUnits r <;> simp [hle, hback]
    all_goals simp [hquote, hback]

theorem stringUnits_escaped (cs r : List Char) :
    stringUnits (cs.flatMap escapeChar ++ '"' :: r) = some (cs.map Char.toNat, r) := by
  induction cs with
  | nil => simp [stringUnits]
  | cons c cs ih => simp [stringUnits_escapeChar, ih]

theorem not_surrogate (c : Char) : isLeading c.toNat = false ∧ isTrailing c.toNat = false := by
  have : c.toNat < 0xD800 ∨ 0xDFFF < c.toNat ∧ c.toNat < 0x110000 := c.valid
  simp only [isLeading, isTrailing, Bool.and_eq_false_iff, decide_eq_false_iff_not]
  omega

theorem decodeUnits?_toNat (cs : List Char) : decodeUnits? (cs.map Char.toNat) = some cs := by
  induction cs with
  | nil => simp [decodeUnits?]
  | cons c cs ih =>
    obtain ⟨hl, ht⟩ := not_surrogate c
    cases cs with
    | nil => simp [decodeUnits?, hl, ht, Char.ofNat_toNat]
    | cons d cs =>
      simp only [List.map_cons] at ih ⊢
      simp [decodeUnits?, hl, ht, Char.ofNat_toNat, ih]

theorem stringText_escaped (s : String) (r : List Char) :
    stringText (s.toList.flatMap escapeChar ++ '"' :: r) = some (some s, r) := by
  simp [stringText, stringUnits_escaped, decodeUnits?_toNat]

theorem scalar_string (s : String) (rest : List Char) :
    scalar (renderString s ++ rest) = some (.string (some s), rest) := by
  simp [renderString, scalar, stringText_escaped]

end ParseForest.Json
