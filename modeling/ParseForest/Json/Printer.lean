import ParseForest.Json.Basic

/-!
Printing of JSON over several lines, two spaces for each level. Empty arrays and objects stay on one
line. In strings only quotes, backslashes and control characters are escaped.
-/

namespace ParseForest.Json

def hexDigit (n : Nat) : Char := Nat.digitChar n

def escapeChar (c : Char) : List Char :=
  if c = '"' then ['\\', '"']
  else if c = '\\' then ['\\', '\\']
  else if c = '\n' then ['\\', 'n']
  else if c = '\r' then ['\\', 'r']
  else if c = '\t' then ['\\', 't']
  else if c.toNat = 8 then ['\\', 'b']
  else if c.toNat = 12 then ['\\', 'f']
  else if c.toNat < 32 then ['\\', 'u', '0', '0', hexDigit (c.toNat / 16), hexDigit (c.toNat % 16)]
  else [c]

def renderString (s : String) : List Char := '"' :: (s.toList.flatMap escapeChar ++ ['"'])

def renderText (s : Option String) : List Char := renderString (s.getD "")

def lineBreak (level : Nat) : List Char := '\n' :: List.replicate (2 * level) ' '

mutual
def render (level : Nat) : Json → List Char
  | .null => ['n', 'u', 'l', 'l']
  | .bool true => ['t', 'r', 'u', 'e']
  | .bool false => ['f', 'a', 'l', 's', 'e']
  | .number lexeme => lexeme.toList
  | .string s => renderText s
  | .array [] => ['[', ']']
  | .array (v :: vs) =>
    '[' :: (lineBreak (level + 1) ++ render (level + 1) v ++ renderItems (level + 1) vs
      ++ lineBreak level ++ [']'])
  | .object [] => ['{', '}']
  | .object ((k, v) :: fs) =>
    '{' :: (lineBreak (level + 1) ++ renderText k ++ ':' :: ' ' :: render (level + 1) v
      ++ renderFields (level + 1) fs ++ lineBreak level ++ ['}'])

def renderItems (level : Nat) : List Json → List Char
  | [] => []
  | v :: vs => ',' :: (lineBreak level ++ render level v ++ renderItems level vs)

def renderFields (level : Nat) : List (Option String × Json) → List Char
  | [] => []
  | (k, v) :: fs =>
    ',' :: (lineBreak level ++ renderText k ++ ':' :: ' ' :: render level v
      ++ renderFields level fs)
end

end ParseForest.Json
