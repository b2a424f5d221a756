import Sinkhole.Number.Binary64

namespace Sinkhole

/-- The number `digits * 10 ^ exponent`, negated if `negative`. It is `plain` if it was written with
neither a point nor an exponent. -/
structure JsonNumber where
  negative : Bool
  digits : Nat
  exponent : Int
  plain : Bool
  deriving DecidableEq, Repr

inductive Json where
  | null
  | bool (value : Bool)
  | number (value : JsonNumber)
  | string (value : Option String)
  | array (items : List Json)
  | object (fields : List (Option String × Json))

namespace JsonNumber

def natural? (n : JsonNumber) : Option Nat :=
  if n.plain && !n.negative then some n.digits else none

def integer? (n : JsonNumber) : Option Int :=
  if n.plain then some (if n.negative then -n.digits else n.digits) else none

def toFloat (n : JsonNumber) : Float :=
  Binary64.ofDecimal n.negative n.digits n.exponent

end JsonNumber

end Sinkhole

namespace Sinkhole.Json

def isBlank (c : Char) : Bool :=
  c == ' ' || c == '\n' || c == '\t' || c == '\r'

def skipBlanks (cs : List Char) : List Char :=
  cs.dropWhile isBlank

def digitsValue (cs : List Char) : Nat :=
  cs.foldl (fun n c => 10 * n + (c.toNat - '0'.toNat)) 0

def digits (cs : List Char) : List Char × List Char :=
  (cs.takeWhile Char.isDigit, cs.dropWhile Char.isDigit)

/-- A whole part is a zero alone or starts with another digit. -/
def whole? : List Char → Option (List Char × List Char)
  | '0' :: rest => some (['0'], rest)
  | cs => match digits cs with
    | ([], _) => none
    | found => some found

def fraction? : List Char → Option (List Char × List Char)
  | '.' :: rest => match digits rest with
    | ([], _) => none
    | found => some found
  | cs => some ([], cs)

def exponentDigits? (negative : Bool) (cs : List Char) : Option (Option Int × List Char) :=
  match digits cs with
  | ([], _) => none
  | (ds, rest) =>
    let n : Int := digitsValue ds
    some (some (if negative then -n else n), rest)

def exponent? : List Char → Option (Option Int × List Char)
  | c :: rest =>
    if c == 'e' || c == 'E' then
      match rest with
      | '-' :: rest => exponentDigits? true rest
      | '+' :: rest => exponentDigits? false rest
      | _ => exponentDigits? false rest
    else some (none, c :: rest)
  | [] => some (none, [])

def number? (cs : List Char) : Option (JsonNumber × List Char) := do
  let (negative, cs) := match cs with
    | '-' :: rest => (true, rest)
    | _ => (false, cs)
  let (whole, cs) ← whole? cs
  let (fraction, rest) ← fraction? cs
  let (exponent, rest) ← exponent? rest
  return ({ negative
            digits := digitsValue (whole ++ fraction)
            exponent := exponent.getD 0 - fraction.length
            plain := fraction.isEmpty && exponent.isNone }, rest)

def hexValue? (c : Char) : Option Nat :=
  if c.isDigit then some (c.toNat - '0'.toNat)
  else if 'a' ≤ c ∧ c ≤ 'f' then some (c.toNat - 'a'.toNat + 10)
  else if 'A' ≤ c ∧ c ≤ 'F' then some (c.toNat - 'A'.toNat + 10)
  else none

def unit? (a b c d : Char) : Option Nat := do
  return ((← hexValue? a) * 16 + (← hexValue? b)) * 256 + ((← hexValue? c) * 16 + (← hexValue? d))

/-- The character that a one-letter escape stands for. -/
def escape? : Char → Option Char
  | '"' => some '"'
  | '\\' => some '\\'
  | '/' => some '/'
  | 'b' => some '\x08'
  | 'f' => some '\x0c'
  | 'n' => some '\n'
  | 'r' => some '\r'
  | 't' => some '\t'
  | _ => none

/-- The code points of a string up to its closing quote, in which an escaped surrogate stands for
itself. `seen` holds those before, the last one first. -/
def codes? (seen : List Nat) : List Char → Option (List Nat × List Char)
  | [] => none
  | '"' :: rest => some (seen.reverse, rest)
  | '\\' :: 'u' :: a :: b :: c :: d :: rest =>
    match unit? a b c d with
    | some u => codes? (u :: seen) rest
    | none => none
  | '\\' :: e :: rest =>
    match escape? e with
    | some c => codes? (c.toNat :: seen) rest
    | none => none
  | c :: rest => if c.toNat < 0x20 ∨ c = '\\' then none else codes? (c.toNat :: seen) rest

def isLead (u : Nat) : Bool := 0xD800 ≤ u && u < 0xDC00

def isTrail (u : Nat) : Bool := 0xDC00 ≤ u && u < 0xE000

/-- The text of the code points, where a leading and a trailing surrogate make one character; there
is none if a surrogate stands alone. `seen` holds the characters before, the last one first. -/
def pairSurrogates? (seen : List Char) : List Nat → Option (List Char)
  | [] => some seen.reverse
  | [u] => if isLead u || isTrail u then none else some (Char.ofNat u :: seen).reverse
  | u :: v :: rest =>
    if isLead u && isTrail v then
      pairSurrogates? (Char.ofNat (0x10000 + (u - 0xD800) * 0x400 + (v - 0xDC00)) :: seen) rest
    else if isLead u || isTrail u then none
    else pairSurrogates? (Char.ofNat u :: seen) (v :: rest)

def string? (cs : List Char) : Option (Option String × List Char) := do
  let (codes, rest) ← codes? [] cs
  return ((pairSurrogates? [] codes).map String.ofList, rest)

mutual

/-- A value at the head of the input, blanks before it skipped. Each call spends one unit of `fuel`,
and there are fewer calls than characters. -/
def value? : Nat → List Char → Option (Json × List Char)
  | 0, _ => none
  | fuel + 1, cs =>
    match skipBlanks cs with
    | 'n' :: 'u' :: 'l' :: 'l' :: rest => some (.null, rest)
    | 't' :: 'r' :: 'u' :: 'e' :: rest => some (.bool true, rest)
    | 'f' :: 'a' :: 'l' :: 's' :: 'e' :: rest => some (.bool false, rest)
    | '"' :: rest => (string? rest).map fun (s, rest) => (.string s, rest)
    | '[' :: rest =>
      match skipBlanks rest with
      | ']' :: rest => some (.array [], rest)
      | rest => (items? fuel [] rest).map fun (items, rest) => (.array items, rest)
    | '{' :: rest =>
      match skipBlanks rest with
      | '}' :: rest => some (.object [], rest)
      | rest => (members? fuel [] rest).map fun (fields, rest) => (.object fields, rest)
    | rest => (number? rest).map fun (n, rest) => (.number n, rest)

def items? : Nat → List Json → List Char → Option (List Json × List Char)
  | 0, _, _ => none
  | fuel + 1, seen, cs =>
    match value? fuel cs with
    | none => none
    | some (v, rest) =>
      match skipBlanks rest with
      | ',' :: rest => items? fuel (v :: seen) rest
      | ']' :: rest => some ((v :: seen).reverse, rest)
      | _ => none

def members? : Nat → List (Option String × Json) → List Char →
    Option (List (Option String × Json) × List Char)
  | 0, _, _ => none
  | fuel + 1, seen, cs =>
    match skipBlanks cs with
    | '"' :: rest =>
      match string? rest with
      | none => none
      | some (key, rest) =>
        match skipBlanks rest with
        | ':' :: rest =>
          match value? fuel rest with
          | none => none
          | some (v, rest) =>
            match skipBlanks rest with
            | ',' :: rest => members? fuel ((key, v) :: seen) rest
            | '}' :: rest => some (((key, v) :: seen).reverse, rest)
            | _ => none
        | _ => none
    | _ => none

end

/-- Reads a text that holds one value and nothing else but blanks. -/
def parse? (text : String) : Option Json :=
  let cs := text.toList
  match value? (cs.length + 1) cs with
  | some (v, rest) => if (skipBlanks rest).isEmpty then some v else none
  | none => none

end Sinkhole.Json
