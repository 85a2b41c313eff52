import ParseForest.Json.Basic

/-!
Reading of JSON texts: one value with blanks around it and nothing else. A string with an unpaired
surrogate escape is read, but has no text.
-/

namespace ParseForest.Json

def isBlank (c : Char) : Bool := c = ' ' || c = '\t' || c = '\n' || c = '\r'

def skipBlanks (cs : List Char) : List Char := cs.dropWhile isBlank

def hexValue? (c : Char) : Option Nat :=
  if c.isDigit then some (c.toNat - '0'.toNat)
  else if 'a' ≤ c ∧ c ≤ 'f' then some (c.toNat - 'a'.toNat + 10)
  else if 'A' ≤ c ∧ c ≤ 'F' then some (c.toNat - 'A'.toNat + 10)
  else none

def unescape? : Char → Option Char
  | '"' => some '"'
  | '\\' => some '\\'
  | '/' => some '/'
  | 'b' => some (Char.ofNat 8)
  | 'f' => some (Char.ofNat 12)
  | 'n' => some '\n'
  | 'r' => some '\r'
  | 't' => some '\t'
  | _ => none

/-- Code units of a string up to its closing quote, and the text after it. A unit is a code point,
or half a surrogate pair that an escape spelled. -/
def stringUnits : List Char → Option (List Nat × List Char)
  | [] => none
  | '"' :: r => some ([], r)
  | '\\' :: 'u' :: a :: b :: c :: d :: r => do
    let unit := (((← hexValue? a) * 16 + (← hexValue? b)) * 16 + (← hexValue? c)) * 16
      + (← hexValue? d)
    let (units, rest) ← stringUnits r
    return (unit :: units, rest)
  | '\\' :: e :: r => do
    let c ← unescape? e
    let (units, rest) ← stringUnits r
    return (c.toNat :: units, rest)
  | c :: r => do
    guard (32 ≤ c.toNat ∧ c ≠ '\\')
    let (units, rest) ← stringUnits r
    return (c.toNat :: units, rest)

def isLeading (n : Nat) : Bool := 0xD800 ≤ n && n ≤ 0xDBFF
def isTrailing (n : Nat) : Bool := 0xDC00 ≤ n && n ≤ 0xDFFF

def decodeUnits? : List Nat → Option (List Char)
  | [] => some []
  | [n] => if isLeading n || isTrailing n then none else some [Char.ofNat n]
  | n :: m :: r =>
    if isLeading n && isTrailing m then
      (decodeUnits? r).map (Char.ofNat (0x10000 + (n - 0xD800) * 0x400 + (m - 0xDC00)) :: ·)
    else if isLeading n || isTrailing n then none
    else (decodeUnits? (m :: r)).map (Char.ofNat n :: ·)

def stringText (cs : List Char) : Option (Option String × List Char) := do
  let (units, rest) ← stringUnits cs
  return ((decodeUnits? units).map String.ofList, rest)

def isNumberChar (c : Char) : Bool :=
  c.isDigit || c = '-' || c = '+' || c = '.' || c = 'e' || c = 'E'

def isDigits (cs : List Char) : Bool := !cs.isEmpty && cs.all Char.isDigit

def isExponent : List Char → Bool
  | [] => true
  | e :: r => (e = 'e' || e = 'E') && match r with
    | '+' :: ds | '-' :: ds => isDigits ds
    | ds => isDigits ds

def isFraction : List Char → Bool
  | '.' :: r => isDigits (r.takeWhile Char.isDigit) && isExponent (r.dropWhile Char.isDigit)
  | r => isExponent r

def isUnsigned : List Char → Bool
  | '0' :: r => isFraction r
  | c :: r => c.isDigit && isFraction (r.dropWhile Char.isDigit)
  | [] => false

def isNumber : List Char → Bool
  | '-' :: r => isUnsigned r
  | r => isUnsigned r

def scalar (cs : List Char) : Option (Json × List Char) :=
  match cs with
  | 'n' :: 'u' :: 'l' :: 'l' :: r => some (.null, r)
  | 't' :: 'r' :: 'u' :: 'e' :: r => some (.bool true, r)
  | 'f' :: 'a' :: 'l' :: 's' :: 'e' :: r => some (.bool false, r)
  | '"' :: r => do
    let (text, rest) ← stringText r
    return (.string text, rest)
  | _ =>
    let lexeme := cs.takeWhile isNumberChar
    if isNumber lexeme then some (.number (String.ofList lexeme), cs.dropWhile isNumberChar)
    else none

def key (cs : List Char) : Option (Option String × List Char) :=
  match skipBlanks cs with
  | '"' :: r => do
    let (text, rest) ← stringText r
    match skipBlanks rest with
    | ':' :: rest => return (text, rest)
    | _ => none
  | _ => none

mutual
/-- The value at the head of a text and what follows it. Each call takes one unit of `fuel`; two
for every character are enough. -/
def value (fuel : Nat) (cs : List Char) : Option (Json × List Char) :=
  match fuel, skipBlanks cs with
  | 0, _ => none
  | fuel + 1, '[' :: r => match skipBlanks r with
    | ']' :: r => some (.array [], r)
    | _ => do
      let (vs, rest) ← items fuel r
      return (.array vs, rest)
  | fuel + 1, '{' :: r => match skipBlanks r with
    | '}' :: r => some (.object [], r)
    | _ => do
      let (fs, rest) ← fields fuel r
      return (.object fs, rest)
  | _ + 1, cs => scalar cs

def items (fuel : Nat) (cs : List Char) : Option (List Json × List Char) :=
  match fuel with
  | 0 => none
  | fuel + 1 => do
    let (v, rest) ← value fuel cs
    match skipBlanks rest with
    | ',' :: rest =>
      let (vs, rest) ← items fuel rest
      return (v :: vs, rest)
    | ']' :: rest => return ([v], rest)
    | _ => none

def fields (fuel : Nat) (cs : List Char) : Option (List (Option String × Json) × List Char) :=
  match fuel with
  | 0 => none
  | fuel + 1 => do
    let (k, rest) ← key cs
    let (v, rest) ← value fuel rest
    match skipBlanks rest with
    | ',' :: rest =>
      let (fs, rest) ← fields fuel rest
      return ((k, v) :: fs, rest)
    | '}' :: rest => return ([(k, v)], rest)
    | _ => none
end

def parse (cs : List Char) : Option Json := do
  let (v, rest) ← value (2 * cs.length + 2) cs
  guard (skipBlanks rest).isEmpty
  return v

end ParseForest.Json
