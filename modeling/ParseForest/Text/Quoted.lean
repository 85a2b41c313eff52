import ParseForest.Text.Unprintable
import ParseForest.Text.Combining

/-!
Quoted strings and characters as they appear in symbols, dumps and messages. A quoted text stands
on one line and shows every character that could not be seen.
-/

namespace ParseForest.Text

def hexDigits (n : Nat) : String := String.ofList (Nat.toDigits 16 n)

def escaped (quote : Char) (c : Char) : String :=
  if c = quote ∨ c = '\\' then String.ofList ['\\', c]
  else if c = '\n' then "\\n"
  else if c = '\t' then "\\t"
  else if c = '\r' then "\\r"
  else if c = '\x00' then "\\0"
  else if isUnprintable c || isCombining c then "\\u\x7b" ++ hexDigits c.toNat ++ "\x7d"
  else c.toString

def quotedWith (quote : Char) (cs : List Char) : String :=
  quote.toString ++ String.join (cs.map (escaped quote)) ++ quote.toString

def quoted (s : String) : String := quotedWith '"' s.toList

def quotedChar (c : Char) : String := quotedWith '\'' [c]

def charOfCode (code : Nat) : Char :=
  if code.isValidChar then Char.ofNat code else '\uFFFD'

example : quoted "a\"b\n" = "\"a\\\"b\\n\"" := by decide +kernel
example : quotedChar '\'' = "'\\''" := by decide +kernel

end ParseForest.Text
